import GammaFit.Optimize.Levenberg.Factor

/-! # The damped step

Given `J P = Q R`, a scaling `D` and a radius `Δ`, the damped step `x` solves
`min ‖J x + f‖² + λ ‖D x‖²`. The damping `λ` is zero when the Gauss–Newton step already lies
within `‖D x‖ ≤ 1.1 Δ`; otherwise it is found by safeguarded Newton iteration on
`φ(λ) = ‖D x(λ)‖ - Δ` until `|φ| ≤ Δ / 10`, at most ten times.

Each damped system is solved by rotating the rows of `√λ D` (permuted) into `R` with Givens
rotations, which leaves a triangular `S` with `Sᵀ S = Rᵀ R + λ Pᵀ D² P`.
-/

namespace GammaFit.Optimize

/-- The triangular system after the damping rows are rotated in. -/
structure DampedSolve where
  /-- The step, in the original column order. -/
  step : Array Float
  /-- The diagonal of `S`. -/
  sdiag : Array Float
  /-- `R` with the strict lower part of `S` written below its diagonal. -/
  r : Array (Array Float)

/-- Set entry `i` of column `j`. -/
@[inline] def setCell (a : Array (Array Float)) (j i : Nat) (v : Float) : Array (Array Float) :=
  a.modify j (·.set! i v)

/-- Entry `i` of column `j`. -/
@[inline] def getCell (a : Array (Array Float)) (j i : Nat) : Float := cell (a.getD j #[]) i

/-- Solve `R z = Qᵀ f` together with `D z = 0` in the least-squares sense, for the upper
triangle of `r` (columns of `R P`'s factor), the permutation `perm`, the diagonal `d` and
`qtb = Qᵀ f`. Rows of `D` are eliminated one at a time; a zero of `S`'s diagonal makes the
solution drop the components from there on. -/
def solveDamped (n : Nat) (r0 : Array (Array Float)) (perm : Array Nat) (d qtb : Array Float) :
    DampedSolve := Id.run do
  let mut r := r0
  let mut x := Array.replicate n 0.0
  let mut wa := Array.replicate n 0.0
  let mut sdiag := Array.replicate n 0.0
  for j in [0:n] do
    for i in [j:n] do
      r := setCell r j i (getCell r i j)
    x := x.set! j (getCell r j j)
    wa := wa.set! j (cell qtb j)
  for j in [0:n] do
    let l := perm.getD j 0
    if cell d l != 0.0 then
      for k in [j:n] do
        sdiag := sdiag.set! k 0.0
      sdiag := sdiag.set! j (cell d l)
      let mut qtbpj := 0.0
      for k in [j:n] do
        if cell sdiag k != 0.0 then
          let rkk := getCell r k k
          let sk := cell sdiag k
          let (cos, sin) :=
            if rkk.abs ≥ sk.abs then
              let tan := sk / rkk
              let c := 0.5 / Float.sqrt (0.25 * (tan * tan) + 0.25)
              (c, c * tan)
            else
              let cotan := rkk / sk
              let s := 0.5 / Float.sqrt (0.25 * (cotan * cotan) + 0.25)
              (s * cotan, s)
          r := setCell r k k (cos * rkk + sin * sk)
          let temp := cos * cell wa k + sin * qtbpj
          qtbpj := -sin * cell wa k + cos * qtbpj
          wa := wa.set! k temp
          for i in [k + 1:n] do
            let rik := getCell r k i
            let t := cos * rik + sin * cell sdiag i
            sdiag := sdiag.set! i (-sin * rik + cos * cell sdiag i)
            r := setCell r k i t
    sdiag := sdiag.set! j (getCell r j j)
    r := setCell r j j (cell x j)
  let mut nsing := n
  for j in [0:n] do
    if cell sdiag j == 0.0 && nsing == n then nsing := j
    if nsing < n then wa := wa.set! j 0.0
  for k in [0:nsing] do
    let j := nsing - k - 1
    let mut s := 0.0
    for i in [j + 1:nsing] do
      s := getCell r j i * cell wa i + s
    wa := wa.set! j ((cell wa j - s) / cell sdiag j)
  for j in [0:n] do
    x := x.set! (perm.getD j 0) (cell wa j)
  return { step := x, sdiag, r }

/-- The damping and the step it gives. -/
structure Damped where
  /-- The damping `λ`, zero for the Gauss–Newton step. -/
  par : Float
  /-- The step solving the damped problem (the negative of the update). -/
  step : Array Float
  /-- The factor as left by the last damped solve. -/
  r : Array (Array Float)

/-- The damping for the radius `delta`, starting from the previous damping `par0`: zero when
the (possibly rank-deficient) Gauss–Newton step is short enough, else the result of at most
ten safeguarded Newton steps on `φ`, kept inside the bracket `[parl, paru]`. -/
def damping (n : Nat) (r0 : Array (Array Float)) (perm : Array Nat) (d qtb : Array Float)
    (delta par0 : Float) : Damped := Id.run do
  let mut r := r0
  let mut nsing := n
  let mut wa1 := Array.replicate n 0.0
  for j in [0:n] do
    wa1 := wa1.set! j (cell qtb j)
    if getCell r j j == 0.0 && nsing == n then nsing := j
    if nsing < n then wa1 := wa1.set! j 0.0
  for k in [0:nsing] do
    let j := nsing - k - 1
    wa1 := wa1.set! j (cell wa1 j / getCell r j j)
    let temp := cell wa1 j
    for i in [0:j] do
      wa1 := wa1.set! i (-getCell r j i * temp + cell wa1 i)
  let mut x := Array.replicate n 0.0
  for j in [0:n] do
    x := x.set! (perm.getD j 0) (cell wa1 j)
  let mut wa2 := (Array.range n).map fun j => cell d j * cell x j
  let mut dxnorm := stableNorm wa2
  let mut fp := dxnorm - delta
  if fp ≤ 0.1 * delta then
    return { par := 0.0, step := x, r }
  let mut parl := 0.0
  if nsing ≥ n then
    for j in [0:n] do
      let l := perm.getD j 0
      wa1 := wa1.set! j (cell d l * (cell wa2 l / dxnorm))
    for j in [0:n] do
      let mut s := 0.0
      for i in [0:j] do
        s := getCell r j i * cell wa1 i + s
      wa1 := wa1.set! j ((cell wa1 j - s) / getCell r j j)
    let temp := stableNorm wa1
    parl := ((fp / delta) / temp) / temp
  for j in [0:n] do
    let mut s := 0.0
    for i in [0:j + 1] do
      s := getCell r j i * cell qtb i + s
    wa1 := wa1.set! j (s / cell d (perm.getD j 0))
  let gnorm := stableNorm wa1
  let mut paru := gnorm / delta
  if paru == 0.0 then paru := smallestNormal / keepMin delta 0.1
  let mut par := keepMax par0 parl
  par := keepMin par paru
  if par == 0.0 then par := gnorm / dxnorm
  for it in [1:11] do
    if par == 0.0 then par := keepMax smallestNormal (0.001 * paru)
    let sq := Float.sqrt par
    let dd := (Array.range n).map fun j => sq * cell d j
    let sol := solveDamped n r perm dd qtb
    r := sol.r
    x := sol.step
    wa2 := (Array.range n).map fun j => cell d j * cell x j
    dxnorm := stableNorm wa2
    let fpOld := fp
    fp := dxnorm - delta
    if fp.abs ≤ 0.1 * delta || (parl == 0.0 && fp ≤ fpOld && fpOld < 0.0) || it == 10 then
      return { par, step := x, r }
    for j in [0:n] do
      let l := perm.getD j 0
      wa1 := wa1.set! j (cell d l * (cell wa2 l / dxnorm))
    for j in [0:n] do
      wa1 := wa1.set! j (cell wa1 j / cell sol.sdiag j)
      let temp := cell wa1 j
      for i in [j + 1:n] do
        wa1 := wa1.set! i (-getCell r j i * temp + cell wa1 i)
    let temp := stableNorm wa1
    let parc := ((fp / delta) / temp) / temp
    if fp > 0.0 then parl := keepMax parl par
    if fp < 0.0 then paru := keepMin paru par
    par := keepMax parl (par + parc)
  return { par, step := x, r }

end GammaFit.Optimize
