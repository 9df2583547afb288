import GammaFit.Linear.Bidiagonal

/-! # Minimum-norm least squares by the singular value decomposition

`solveLeastSquares A B rcond` returns the `X` that minimizes `‖A X - B‖` column by column and,
among the minimizers, has the least norm, treating singular values at most `rcond · σ_max` as
zero. The matrix is reduced in three steps:

1. a tall matrix (`m ≥ 1.6 n`) is first factored `A = Q R` and a wide one (`n ≥ 1.6 m`)
   `A = L Q`, so that the next step works on a square triangle;
2. the (square or remaining) matrix is reduced to bidiagonal form `Qᵀ A P = B`;
3. `B`'s singular value decomposition is found by the implicit QR iteration, carrying the
   right-hand sides along, and each component is divided by its singular value.

Matrices whose largest entry is below `2^-1022 / 2^-52` or above its reciprocal are scaled
into range first and back after; right-hand sides likewise.

The bidiagonal solve treats all sizes by the direct iteration; problems with more than 25
unknowns are solved the same way rather than by splitting.
-/

namespace GammaFit.Linear

/-- The factors that multiply a value by `cto / cfrom` without overflow or underflow on the
way: while the quotient is out of range, a factor of `2^-1022` (or `2^1022`) is split off. A
quotient of exactly one needs no factor. -/
def scaleSteps (cfrom cto : Float) : List Float :=
  go 64 cfrom cto
where
  /-- The steps from the current pair, at most `fuel` of them. -/
  go : Nat → Float → Float → List Float
  | 0, _, _ => []
  | fuel + 1, cf, ct =>
    let small := safeMin
    let big := 1.0 / safeMin
    let cf1 := cf * small
    if cf1 == cf then [ct / cf]
    else
      let ct1 := ct / big
      if ct1 == ct then [ct]
      else if cf1.abs > ct.abs && ct != 0.0 then small :: go fuel cf1 ct
      else if ct1.abs > cf.abs then big :: go fuel cf ct1
      else
        let mul := ct / cf
        if mul == 1.0 then [] else [mul]

/-- Each value multiplied by `cto / cfrom` in the steps of `scaleSteps`. -/
def rescale (cfrom cto : Float) (xs : Array Float) : Array Float :=
  (scaleSteps cfrom cto).foldl (fun acc mul => acc.map (· * mul)) xs

/-- Every entry of `A` multiplied by `cto / cfrom` in the steps of `scaleSteps`. -/
def Mat.rescale (cfrom cto : Float) (A : Mat) : Mat :=
  { A with data := GammaFit.Linear.rescale cfrom cto A.data }

/-- Row `i` of the first `n` columns multiplied by `cto / cfrom` in the steps of
`scaleSteps`. -/
def Mat.rescaleRow (cfrom cto : Float) (A : Mat) (i n : Nat) : Mat :=
  A.setAcross i 0 (GammaFit.Linear.rescale cfrom cto (A.segmentAcross i 0 n))

/-- The largest absolute entry, found as the library scans: the first NaN met is kept. -/
def maxAbsScan (xs : List Float) : Float :=
  xs.foldl (fun acc v => let a := v.abs; if acc < a || a.isNaN then a else acc) 0.0

/-- `Aᵀ B` for `A` of `k` rows, each entry one fused running sum over `k`. -/
def Mat.transposeTimes (A B : Mat) : Mat := Id.run do
  let mut C := Mat.zeros A.cols B.cols
  for j in [0:B.cols] do
    for i in [0:A.cols] do
      let mut acc := 0.0
      for l in [0:A.rows] do
        acc := GammaFit.Numeric.fma (A.get l i) (B.get l j) acc
      C := C.set i j (GammaFit.Numeric.fma 1.0 acc 0.0)
  return C

/-- Insertion sort into decreasing order. -/
def sortDown (xs : Array Float) : Array Float :=
  xs.foldl (fun acc v =>
    let k := (acc.toList.takeWhile (fun w => w ≥ v)).length
    (acc.extract 0 k).push v ++ acc.extract k acc.size) #[]

/-- The solution of a bidiagonal least-squares problem. -/
structure BidiagonalSolution where
  /-- The singular values, decreasing. -/
  singular : Array Float
  /-- The minimum-norm solution, one column per right-hand side. -/
  solution : Mat
  /-- The number of singular values above the cut-off. -/
  rank : Nat

/-- The minimum-norm solution of `B x = b` for the bidiagonal `B` with diagonal `d` and
off-diagonal `e` (below the diagonal when `lower`), for the right-hand sides in the columns
of `b`. A lower bidiagonal matrix is first turned upper by rotations from the left, applied to
`b` too. Values are scaled by the largest entry before the iteration and back after. -/
def solveBidiagonal (lower : Bool) (d e : Array Float) (b : Mat) (rcond : Float) :
    Option BidiagonalSolution := Id.run do
  let n := d.size
  let nrhs := b.cols
  let rcnd := if rcond ≤ 0.0 || rcond ≥ 1.0 then unitRoundoff else rcond
  if n = 0 then return some ⟨d, b, 0⟩
  if n = 1 then
    if entry d 0 == 0.0 then return some ⟨d, b.setAcross 0 0 (Array.replicate nrhs 0.0), 0⟩
    return some ⟨#[(entry d 0).abs], b.rescaleRow (entry d 0) 1.0 0 nrhs, 1⟩
  let mut d := d
  let mut e := e
  let mut b := b
  if lower then
    let mut turns : Array (Float × Float) := #[]
    for i in [0:n - 1] do
      let (cs, sn, r) := givens (entry d i) (entry e i)
      d := d.set! i r
      e := e.set! i (sn * entry d (i + 1))
      d := d.set! (i + 1) (cs * entry d (i + 1))
      turns := turns.push (cs, sn)
    for j in [0:nrhs] do
      for i in [0:n - 1] do
        let (cs, sn) := turns.getD i (1.0, 0.0)
        let (x, y) := rotatePair cs sn (b.get i j) (b.get (i + 1) j)
        b := (b.set i j x).set (i + 1) j y
  let orgnrm := maxAbsScan ((entry d (n - 1)) :: (List.range (n - 1)).flatMap fun i => [entry d i, entry e i])
  if orgnrm == 0.0 then return some ⟨d, Mat.zeros n nrhs, 0⟩
  d := rescale orgnrm 1.0 (d.extract 0 n)
  e := rescale orgnrm 1.0 (e.extract 0 (n - 1))
  match bidiagonalSVD d e ⟨Mat.identity n, Mat.zeros 0 n, b⟩ with
  | none => return none
  | some (d', x) =>
    let (d', x) := sortIncreasing d' x
    let top := d'.foldl (fun acc v => if v.abs > acc then v.abs else acc) (entry d' 0).abs
    let tol := rcnd * top
    let mut c := x.c
    let mut rank := 0
    for i in [0:n] do
      if entry d' i ≤ tol then
        c := c.setAcross i 0 (Array.replicate nrhs 0.0)
      else
        c := c.rescaleRow (entry d' i) 1.0 i nrhs
        rank := rank + 1
    let sol := x.vt.transposeTimes c
    let sv := sortDown (rescale 1.0 orgnrm d')
    return some ⟨sv, sol.rescale orgnrm 1.0, rank⟩

/-- The minimum-norm least-squares solution with the singular values of `A` and its
numerical rank. -/
structure LeastSquares where
  /-- The solution, `A.cols` rows and one column per right-hand side. -/
  solution : Mat
  /-- The singular values of `A`, decreasing. -/
  singular : Array Float
  /-- The number of singular values above `rcond · σ_max`. -/
  rank : Nat
  deriving Inhabited

/-- `B` (`A.rows` rows, one column per right-hand side) replaced in its first rows by `X`. -/
def Mat.setTop (B X : Mat) : Mat := B.setBlock 0 0 X

/-- The minimum-norm least-squares solution of `A X ≈ B`, described in the module header;
`none` when the singular value iteration does not converge. -/
def solveLeastSquares (A B : Mat) (rcond : Float) : Option LeastSquares := Id.run do
  let m := A.rows
  let n := A.cols
  let nrhs := B.cols
  let minmn := min m n
  let mnthr := (Float.ofNat minmn * 1.6).floor.toUInt64.toNat
  if m = 0 || n = 0 then return some ⟨Mat.zeros n nrhs, #[], 0⟩
  let rows := max m n
  let mut b := (Mat.zeros rows nrhs).setBlock 0 0 (B.block 0 0 m nrhs)
  let mut a := A
  let anrm := maxAbsScan a.data.toList
  let smlnum := safeMin / precision
  let bignum := 1.0 / smlnum
  let mut iascl := 0
  if anrm > 0.0 && anrm < smlnum then
    a := a.rescale anrm smlnum
    iascl := 1
  else if anrm > bignum then
    a := a.rescale anrm bignum
    iascl := 2
  else if anrm == 0.0 then
    return some ⟨Mat.zeros n nrhs, Array.replicate minmn 0.0, 0⟩
  let bnrm := maxAbsScan (b.block 0 0 m nrhs).data.toList
  let mut ibscl := 0
  if bnrm > 0.0 && bnrm < smlnum then
    b := b.rescale bnrm smlnum
    ibscl := 1
  else if bnrm > bignum then
    b := b.rescale bnrm bignum
    ibscl := 2
  let mut s : Array Float := #[]
  let mut rank := 0
  if m ≥ n then
    let mut mm := m
    if m ≥ mnthr then
      let qr := a.factorQR
      b := b.applyColumnReflectors qr.mat 0 0 qr.taus .left true 0 0 m nrhs n
      a := qr.mat
      for j in [0:n] do
        for i in [j + 1:n] do
          a := a.set i j 0.0
      mm := n
    let bd := (a.block 0 0 mm n).bidiagonalize
    b := b.applyBidiagQ bd .left true mm nrhs n
    match solveBidiagonal false bd.diag bd.offDiag (b.block 0 0 n nrhs) rcond with
    | none => return none
    | some r =>
      s := r.singular
      rank := r.rank
      b := b.setTop r.solution
    b := b.applyBidiagP bd .left false n nrhs n
  else if n ≥ mnthr then
    let lq := a.factorLQ
    let mut l := Mat.zeros m m
    for j in [0:m] do
      for i in [j:m] do
        l := l.set i j (lq.mat.get i j)
    let bd := l.bidiagonalize
    b := b.applyBidiagQ bd .left true m nrhs m
    match solveBidiagonal false bd.diag bd.offDiag (b.block 0 0 m nrhs) rcond with
    | none => return none
    | some r =>
      s := r.singular
      rank := r.rank
      b := b.setTop r.solution
    b := b.applyBidiagP bd .left false m nrhs m
    for j in [0:nrhs] do
      for i in [m:n] do
        b := b.set i j 0.0
    b := b.applyRowReflectors lq.mat 0 0 lq.taus .left true 0 0 n nrhs m
  else
    let bd := a.bidiagonalize
    b := b.applyBidiagQ bd .left true m nrhs n
    match solveBidiagonal true bd.diag bd.offDiag (b.block 0 0 m nrhs) rcond with
    | none => return none
    | some r =>
      s := r.singular
      rank := r.rank
      b := b.setTop r.solution
    b := b.applyBidiagP bd .left false n nrhs m
  let mut x := b.block 0 0 n nrhs
  if iascl = 1 then
    x := x.rescale anrm smlnum
    s := rescale smlnum anrm s
  else if iascl = 2 then
    x := x.rescale anrm bignum
    s := rescale bignum anrm s
  if ibscl = 1 then x := x.rescale smlnum bnrm
  else if ibscl = 2 then x := x.rescale bignum bnrm
  return some ⟨x, s, rank⟩

end GammaFit.Linear
