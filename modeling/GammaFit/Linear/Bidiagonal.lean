import GammaFit.Linear.Rotation

/-! # Singular values of an upper bidiagonal matrix

The implicit QR iteration with shifts for an upper bidiagonal `B` (diagonal `d`, superdiagonal
`e`), to high relative accuracy. Each pass

1. splits off the bottom of the unreduced block once an off-diagonal entry falls below the
   absolute threshold (`≈ tol · σ_min / √n`), and settles a trailing 2 × 2 block directly;
2. chases the bulge top-down or bottom-up, whichever end of the block is larger, after testing
   the relative convergence criteria for that direction;
3. uses the zero shift when the shift would not be accurate (`n · tol · σ_min/σ_max` tiny)
   and otherwise the smaller singular value of the trailing (or leading) 2 × 2 block.

The right rotations turn the rows of `vt`, the left ones the columns of `u` and the rows of
`c`. At the end the singular values are made non-negative (negating rows of `vt`) and sorted
into decreasing order, each exchange applied to the carried matrices too.

The iteration stops with a failure after `6 n²` inner steps; the pass count is bounded
separately by fuel, which no convergent run comes near.
-/

namespace GammaFit.Linear

/-- The matrices the iteration carries along: `vt` (`n` rows, turned by the right rotations),
`u` (`n` columns) and `c` (`n` rows), both turned by the left rotations. -/
structure Carried where
  /-- The rows of the right singular vectors. -/
  vt : Mat
  /-- The columns of the left singular vectors. -/
  u : Mat
  /-- A matrix multiplied by the transposed left rotations. -/
  c : Mat
  deriving Inhabited

namespace Carried

/-- The right rotations of one sweep applied to the rows of `vt`. -/
def turnRight (x : Carried) (w : Sweep) (cs ss : Array Float) (i₀ len : Nat) : Carried :=
  { x with vt := x.vt.rotateRows w cs ss i₀ len x.vt.cols }

/-- The left rotations of one sweep applied to the columns of `u` and the rows of `c`. -/
def turnLeft (x : Carried) (w : Sweep) (cs ss : Array Float) (i₀ len : Nat) : Carried :=
  { x with u := x.u.rotateColumns w cs ss i₀ len x.u.rows,
           c := x.c.rotateRows w cs ss i₀ len x.c.cols }

/-- Singular vectors `i` and `i'` exchanged. -/
def swap (x : Carried) (i i' : Nat) : Carried :=
  { vt := x.vt.swapRows i i' x.vt.cols, u := x.u.swapColumns i i' x.u.rows,
    c := x.c.swapRows i i' x.c.cols }

end Carried

/-- The state of the iteration between passes. Positions are counted from one: the unreduced
block ends at row `m`. -/
structure Chase where
  /-- The diagonal. -/
  d : Array Float
  /-- The superdiagonal. -/
  e : Array Float
  /-- The carried matrices. -/
  carried : Carried
  /-- The last row of the block still being reduced. -/
  m : Nat
  /-- The direction of the last chase: 1 top-down, 2 bottom-up. -/
  idir : Nat
  /-- The first row of the block of the last chase (`-1` before the first). -/
  oldll : Int
  /-- The last row of the block of the last chase (`-1` before the first). -/
  oldm : Int
  /-- Inner steps taken since the count last passed `n`. -/
  iter : Int
  /-- How many times the step count has passed `n`. -/
  rounds : Nat

/-- The constants of one run: the size, the relative tolerance and the absolute threshold. -/
structure ChaseBounds where
  /-- The size of the matrix. -/
  n : Nat
  /-- The relative tolerance. -/
  tol : Float
  /-- The absolute threshold below which an off-diagonal entry is dropped. -/
  thresh : Float

/-- The result of one pass. -/
inductive ChaseStep where
  | finished (s : Chase)
  | failed
  | next (s : Chase)

/-- Entry `i` (counted from one). -/
@[inline] def at1 (xs : Array Float) (i : Nat) : Float := entry xs (i - 1)

/-- The array with entry `i` (counted from one) replaced. -/
@[inline] def set1 (xs : Array Float) (i : Nat) (v : Float) : Array Float := xs.set! (i - 1) v

/-- One pass of the iteration, described in the module header. -/
def Chase.pass (b : ChaseBounds) (s : Chase) : ChaseStep := Id.run do
  let n := b.n
  let tol := b.tol
  let thresh := b.thresh
  let eps := unitRoundoff
  if s.m ≤ 1 then return .finished s
  let mut s := s
  if s.iter ≥ n then
    s := { s with iter := s.iter - n, rounds := s.rounds + 1 }
    if s.rounds ≥ 6 * n then return .failed
  let m := s.m
  let mut d := s.d
  let mut e := s.e
  let mut x := s.carried
  -- find the top of the unreduced block ending at m
  let mut smax := (at1 d m).abs
  let mut split : Option Nat := none
  for lll in [1:m] do
    if split.isNone then
      let l := m - lll
      let abss := (at1 d l).abs
      let abse := (at1 e l).abs
      if abse ≤ thresh then split := some l
      else smax := max smax (max abss abse)
  let mut ll := 1
  match split with
  | some l =>
    e := set1 e l 0.0
    if l = m - 1 then return .next { s with e := e, m := m - 1 }
    ll := l + 1
  | none => pure ()
  -- a 2 × 2 block is settled directly
  if ll = m - 1 then
    let r := triangularSVD (at1 d (m - 1)) (at1 e (m - 1)) (at1 d m)
    d := set1 (set1 d (m - 1) r.smax) m r.smin
    e := set1 e (m - 1) 0.0
    x := { vt := x.vt.turnRows (m - 2) (m - 1) x.vt.cols r.csr r.snr,
           u := x.u.turnColumns (m - 2) (m - 1) x.u.rows r.csl r.snl,
           c := x.c.turnRows (m - 2) (m - 1) x.c.cols r.csl r.snl }
    return .next { s with d := d, e := e, carried := x, m := m - 2 }
  -- choose the direction for a new block
  let mut idir := s.idir
  if (ll : Int) > s.oldm || (m : Int) < s.oldll then
    idir := if (at1 d ll).abs ≥ (at1 d m).abs then 1 else 2
  -- convergence tests
  let mut smin := 0.0
  if idir = 1 then
    if (at1 e (m - 1)).abs ≤ tol.abs * (at1 d m).abs then
      return .next { s with e := set1 e (m - 1) 0.0, idir := idir }
    let mut mu := (at1 d ll).abs
    smin := mu
    for lll in [ll:m] do
      if (at1 e lll).abs ≤ tol * mu then
        return .next { s with e := set1 e lll 0.0, idir := idir }
      mu := (at1 d (lll + 1)).abs * (mu / (mu + (at1 e lll).abs))
      smin := min smin mu
  else
    if (at1 e ll).abs ≤ tol.abs * (at1 d ll).abs then
      return .next { s with e := set1 e ll 0.0, idir := idir }
    let mut mu := (at1 d m).abs
    smin := mu
    for k in [0:m - ll] do
      let lll := m - 1 - k
      if (at1 e lll).abs ≤ tol * mu then
        return .next { s with e := set1 e lll 0.0, idir := idir }
      mu := (at1 d lll).abs * (mu / (mu + (at1 e lll).abs))
      smin := min smin mu
  -- the shift
  let mut shift := 0.0
  if Float.ofNat n * tol * (smin / smax) > max eps (0.01 * tol) then
    let (sll, sh) :=
      if idir = 1 then ((at1 d ll).abs, (triangularSingular (at1 d (m - 1)) (at1 e (m - 1)) (at1 d m)).1)
      else ((at1 d m).abs, (triangularSingular (at1 d ll) (at1 e ll) (at1 d (ll + 1))).1)
    shift := sh
    if sll > 0.0 then
      if (shift / sll) * (shift / sll) < eps then shift := 0.0
  let iter := s.iter + (m : Int) - (ll : Int)
  let len := m - ll + 1
  let mut cs1 : Array Float := Array.replicate (m - ll) 0.0
  let mut sn1 : Array Float := Array.replicate (m - ll) 0.0
  let mut cs2 : Array Float := Array.replicate (m - ll) 0.0
  let mut sn2 : Array Float := Array.replicate (m - ll) 0.0
  if shift == 0.0 then
    if idir = 1 then
      let mut cs := 1.0
      let mut oldcs := 1.0
      let mut oldsn := 0.0
      for i in [ll:m] do
        let (c1, sn, r) := givens (at1 d i * cs) (at1 e i)
        cs := c1
        if i > ll then e := set1 e (i - 1) (oldsn * r)
        let (c2, s2, r2) := givens (oldcs * r) (at1 d (i + 1) * sn)
        oldcs := c2
        oldsn := s2
        d := set1 d i r2
        cs1 := cs1.set! (i - ll) cs
        sn1 := sn1.set! (i - ll) sn
        cs2 := cs2.set! (i - ll) oldcs
        sn2 := sn2.set! (i - ll) oldsn
      let h := at1 d m * cs
      d := set1 d m (h * oldcs)
      e := set1 e (m - 1) (h * oldsn)
      x := (x.turnRight .forward cs1 sn1 (ll - 1) len).turnLeft .forward cs2 sn2 (ll - 1) len
      if (at1 e (m - 1)).abs ≤ thresh then e := set1 e (m - 1) 0.0
    else
      let mut cs := 1.0
      let mut oldcs := 1.0
      let mut oldsn := 0.0
      for k in [0:m - ll] do
        let i := m - k
        let (c1, sn, r) := givens (at1 d i * cs) (at1 e (i - 1))
        cs := c1
        if i < m then e := set1 e i (oldsn * r)
        let (c2, s2, r2) := givens (oldcs * r) (at1 d (i - 1) * sn)
        oldcs := c2
        oldsn := s2
        d := set1 d i r2
        cs1 := cs1.set! (i - ll - 1) cs
        sn1 := sn1.set! (i - ll - 1) (-sn)
        cs2 := cs2.set! (i - ll - 1) oldcs
        sn2 := sn2.set! (i - ll - 1) (-oldsn)
      let h := at1 d ll * cs
      d := set1 d ll (h * oldcs)
      e := set1 e ll (h * oldsn)
      x := (x.turnRight .backward cs2 sn2 (ll - 1) len).turnLeft .backward cs1 sn1 (ll - 1) len
      if (at1 e ll).abs ≤ thresh then e := set1 e ll 0.0
  else
    if idir = 1 then
      let mut f := ((at1 d ll).abs - shift) * (withSign 1.0 (at1 d ll) + shift / at1 d ll)
      let mut g := at1 e ll
      for i in [ll:m] do
        let (cosr, sinr, r) := givens f g
        if i > ll then e := set1 e (i - 1) r
        f := cosr * at1 d i + sinr * at1 e i
        e := set1 e i (cosr * at1 e i - sinr * at1 d i)
        g := sinr * at1 d (i + 1)
        d := set1 d (i + 1) (cosr * at1 d (i + 1))
        let (cosl, sinl, r') := givens f g
        d := set1 d i r'
        f := cosl * at1 e i + sinl * at1 d (i + 1)
        d := set1 d (i + 1) (cosl * at1 d (i + 1) - sinl * at1 e i)
        if i < m - 1 then
          g := sinl * at1 e (i + 1)
          e := set1 e (i + 1) (cosl * at1 e (i + 1))
        cs1 := cs1.set! (i - ll) cosr
        sn1 := sn1.set! (i - ll) sinr
        cs2 := cs2.set! (i - ll) cosl
        sn2 := sn2.set! (i - ll) sinl
      e := set1 e (m - 1) f
      x := (x.turnRight .forward cs1 sn1 (ll - 1) len).turnLeft .forward cs2 sn2 (ll - 1) len
      if (at1 e (m - 1)).abs ≤ thresh then e := set1 e (m - 1) 0.0
    else
      let mut f := ((at1 d m).abs - shift) * (withSign 1.0 (at1 d m) + shift / at1 d m)
      let mut g := at1 e (m - 1)
      for k in [0:m - ll] do
        let i := m - k
        let (cosr, sinr, r) := givens f g
        if i < m then e := set1 e i r
        f := cosr * at1 d i + sinr * at1 e (i - 1)
        e := set1 e (i - 1) (cosr * at1 e (i - 1) - sinr * at1 d i)
        g := sinr * at1 d (i - 1)
        d := set1 d (i - 1) (cosr * at1 d (i - 1))
        let (cosl, sinl, r') := givens f g
        d := set1 d i r'
        f := cosl * at1 e (i - 1) + sinl * at1 d (i - 1)
        d := set1 d (i - 1) (cosl * at1 d (i - 1) - sinl * at1 e (i - 1))
        if i > ll + 1 then
          g := sinl * at1 e (i - 2)
          e := set1 e (i - 2) (cosl * at1 e (i - 2))
        cs1 := cs1.set! (i - ll - 1) cosr
        sn1 := sn1.set! (i - ll - 1) (-sinr)
        cs2 := cs2.set! (i - ll - 1) cosl
        sn2 := sn2.set! (i - ll - 1) (-sinl)
      e := set1 e ll f
      if (at1 e ll).abs ≤ thresh then e := set1 e ll 0.0
      x := (x.turnRight .backward cs2 sn2 (ll - 1) len).turnLeft .backward cs1 sn1 (ll - 1) len
  let oldll : Int := ll
  let oldm : Int := m
  return .next { s with d, e, carried := x, idir, oldll, oldm, iter }

/-- Passes until the matrix is diagonal, at most `fuel` of them; `none` when the iteration
fails or the fuel runs out. -/
def Chase.run (b : ChaseBounds) : Nat → Chase → Option Chase
  | 0, _ => none
  | fuel + 1, s =>
    match s.pass b with
    | .finished s => some s
    | .failed => none
    | .next s => Chase.run b fuel s

/-- The singular values made non-negative (negating the matching rows of `vt`) and sorted into
decreasing order by selection from the end, each exchange applied to the carried matrices. -/
def sortDecreasing (d : Array Float) (x : Carried) : Array Float × Carried := Id.run do
  let n := d.size
  let mut d := d
  let mut x := x
  for i in [0:n] do
    if entry d i < 0.0 then
      d := d.set! i (-(entry d i))
      x := { x with vt := Id.run do
        let mut vt := x.vt
        for j in [0:vt.cols] do
          vt := vt.set i j (-1.0 * vt.get i j)
        return vt }
  for k in [1:n] do
    let last := n - k
    let mut isub := 0
    let mut smin := entry d 0
    for j in [1:last + 1] do
      if entry d j ≤ smin then
        isub := j
        smin := entry d j
    if isub != last then
      d := (d.set! isub (entry d last)).set! last smin
      x := x.swap isub last
  return (d, x)

/-- The singular values of the upper bidiagonal matrix with diagonal `d` and superdiagonal `e`,
in decreasing order, with the carried matrices turned alike; `none` when the iteration does not
converge. -/
def bidiagonalSVD (d e : Array Float) (x : Carried) : Option (Array Float × Carried) :=
  let n := d.size
  if n = 0 then some (d, x) else
  if n = 1 then some (sortDecreasing d x) else
  let eps := unitRoundoff
  let tol := max 10.0 (min 100.0 (Float.pow eps (-0.125))) * eps
  let sminoa := Id.run do
    let mut sminoa := (entry d 0).abs
    if sminoa != 0.0 then
      let mut mu := sminoa
      let mut going := true
      for i in [1:n] do
        if going then
          mu := (entry d i).abs * (mu / (mu + (entry e (i - 1)).abs))
          sminoa := min sminoa mu
          if sminoa == 0.0 then going := false
    return sminoa / Float.sqrt (Float.ofNat n)
  let thresh := max (tol * sminoa) (6.0 * (Float.ofNat n * (Float.ofNat n * safeMin)))
  let start : Chase := ⟨d, e, x, n, 0, -1, -1, -1, 0⟩
  match Chase.run ⟨n, tol, thresh⟩ (16 * n * n + 16 * n + 64) start with
  | none => none
  | some s => some (sortDecreasing s.d s.carried)

/-- The singular values re-sorted into increasing order by selection from the front, each
exchange applied to the carried matrices, as the small-problem driver leaves them. -/
def sortIncreasing (d : Array Float) (x : Carried) : Array Float × Carried := Id.run do
  let n := d.size
  let mut d := d
  let mut x := x
  for i in [0:n] do
    let mut isub := i
    let mut smin := entry d i
    for j in [i + 1:n] do
      if entry d j < smin then
        isub := j
        smin := entry d j
    if isub != i then
      d := (d.set! isub (entry d i)).set! i smin
      x := x.swap isub i
  return (d, x)

end GammaFit.Linear
