import GammaFit.Linear.Bidiagonal
import GammaFit.Linear.LeastSquares

/-! # The thin singular value decomposition

`A.thinSVD` factors an `m × n` matrix with `m ≥ n` as `A = U Σ Vᵀ`, with `U` of `n` orthonormal
columns, the singular values `Σ` decreasing and `V` orthogonal. A matrix with many more rows
than columns (`m ≥ ⌊11 n / 6⌋`) is first factored `A = Q R`; then `R` (or `A` itself) is reduced
to upper bidiagonal form, the bidiagonal matrix is diagonalized by the implicit QR iteration
starting from identity vectors, and the reflectors of both reductions are applied back. With a
preliminary QR, the left vectors are `Q` times those of `R`, each entry one fused running sum.

A matrix whose largest entry is tiny or huge is scaled into range first and its singular values
scaled back. The factorization fails (`none`) on a NaN entry or when the iteration does not
converge.
-/

namespace GammaFit.Linear

open GammaFit.Numeric (fma)

/-- A thin singular value decomposition `A = U diag(s) Vᵀ`. -/
structure ThinSVD where
  /-- The left singular vectors, `m × n`. -/
  u : Mat
  /-- The singular values, decreasing. -/
  s : Array Float
  /-- The right singular vectors as rows, `n × n`. -/
  vt : Mat
  deriving Inhabited

/-- The first `n` columns of `Q = H₀ H₁ ⋯ H_{k-1}` for the reflectors stored below the diagonal
of `A`, formed in place from the last reflector back to the first. Scaling a column by `-τ`
writes zeros outright when `τ` is zero. -/
def Mat.formQ (A : Mat) (taus : Array Float) (n : Nat) : Mat := Id.run do
  let m := A.rows
  let k := taus.size
  let mut A := A
  for j in [k:n] do
    for l in [0:m] do
      A := A.set l j 0.0
    A := A.set j j 1.0
  for step in [0:k] do
    let i := k - 1 - step
    let tau := entry taus i
    if i + 1 < n then
      A := A.reflectLeft (A.storedDown i i (m - i)) tau i (i + 1) (n - i - 1)
    if i + 1 < m then
      for l in [i + 1:m] do
        A := A.set l i (if tau == 0.0 then 0.0 else -tau * A.get l i)
    A := A.set i i (1.0 - tau)
    for l in [0:i] do
      A := A.set l i 0.0
  return A

/-- The product `A B`, each entry one fused running sum over the inner index in order. -/
def Mat.times (A B : Mat) : Mat := Id.run do
  let mut C := Mat.zeros A.rows B.cols
  for j in [0:B.cols] do
    for i in [0:A.rows] do
      let mut acc := 0.0
      for l in [0:A.cols] do
        acc := fma (A.get i l) (B.get l j) acc
      C := C.set i j acc
  return C

/-- The singular values sorted into decreasing order by selection from the front, each
exchange applied to the carried vectors; ties keep their places. -/
def sortLargestFirst (d : Array Float) (x : Carried) : Array Float × Carried := Id.run do
  let n := d.size
  let mut d := d
  let mut x := x
  for i in [0:n - 1] do
    let mut kk := i
    let mut p := entry d i
    for j in [i + 1:n] do
      if entry d j > p then
        kk := j
        p := entry d j
    if kk != i then
      d := (d.set! kk (entry d i)).set! i p
      x := x.swap i kk
  return (d, x)

/-- The singular values and vectors of an `n × n` upper bidiagonal matrix: the QR iteration
from identity vectors, its values re-sorted increasing and then decreasing. A single value is
made non-negative with its sign moved into the left vector. -/
def bidiagonalVectors (d e : Array Float) : Option (Array Float × Mat × Mat) :=
  let n := d.size
  if n = 1 then
    let d0 := entry d 0
    let sgn := if d0 < 0.0 || (d0 == 0.0 && (1.0 / d0) < 0.0) then -1.0 else 1.0
    some (#[d0.abs], ⟨1, 1, #[sgn]⟩, ⟨1, 1, #[1.0]⟩)
  else
    let start : Carried := ⟨Mat.identity n, Mat.identity n, Mat.zeros 0 0⟩
    match bidiagonalSVD d e start with
    | none => none
    | some (s, x) =>
      let (s, x) := sortIncreasing s x
      let (s, x) := sortLargestFirst s x
      some (s, x.u, x.vt)

/-- The thin singular value decomposition of a matrix with at least as many rows as columns. -/
def Mat.thinSVD (A : Mat) : Option ThinSVD := Id.run do
  let m := A.rows
  let n := A.cols
  if n = 0 then return some ⟨Mat.zeros m 0, #[], Mat.zeros 0 0⟩
  let mnthr := (Float.ofNat n * 11.0 / 6.0).floor.toUInt64.toNat
  let anrm := maxAbsScan A.data.toList
  if anrm.isNaN then return none
  let smlnum := Float.sqrt safeMin / precision
  let bignum := 1.0 / smlnum
  let mut a := A
  let mut scaled := 0
  if anrm > 0.0 && anrm < smlnum then
    a := a.rescale anrm smlnum
    scaled := 1
  else if anrm > bignum then
    a := a.rescale anrm bignum
    scaled := 2
  let mut result : ThinSVD := default
  if m ≥ mnthr then
    let qr := a.factorQR
    let mut r := Mat.zeros n n
    for j in [0:n] do
      for i in [0:j + 1] do
        r := r.set i j (qr.mat.get i j)
    let q := qr.mat.formQ qr.taus n
    let bd := r.bidiagonalize
    match bidiagonalVectors bd.diag bd.offDiag with
    | none => return none
    | some (s, u, vt) =>
      let u := u.applyBidiagQ bd .left false n n n
      let vt := vt.applyBidiagP bd .right true n n n
      result := ⟨(q.block 0 0 m n).times u, s, vt⟩
  else
    let bd := a.bidiagonalize
    match bidiagonalVectors bd.diag bd.offDiag with
    | none => return none
    | some (s, u, vt) =>
      let u := (Mat.zeros m n).setBlock 0 0 u
      let u := u.applyBidiagQ bd .left false m n n
      let vt := vt.applyBidiagP bd .right true n n n
      result := ⟨u, s, vt⟩
  if scaled = 1 then
    result := { result with s := Linear.rescale smlnum anrm result.s }
  else if scaled = 2 then
    result := { result with s := Linear.rescale bignum anrm result.s }
  return some result

end GammaFit.Linear
