import GammaFit.Linear.Matrix
import GammaFit.Numeric.Extended

/-! # Householder reflectors

A reflector `H = I - τ v vᵀ` with `v₀ = 1` maps a vector `(α, x)` to `(β, 0)`. The
factorizations below (QR, LQ and the reduction to bidiagonal form) store each `v` in the part of
the matrix the reflector has zeroed, with the unit first entry left implicit, and return the
`τ`s beside it.

Applying a reflector first drops the trailing zeros of `v` and the trailing columns (or rows)
of the block that are zero over `v`'s rows, then forms `w = Cᵀ v` (or `C v`) with the
matrix–vector kernels and updates `C ← C - τ v wᵀ` as one fused step per entry, `-τ wⱼ` being
rounded first. Trimming changes which kernel blocks the sums fall in, so it is part of the
result, not only of the cost.

All arithmetic outside the kernels is plain rounded arithmetic, one operation at a time.
-/

namespace GammaFit.Linear

open GammaFit.Numeric (fma euclidNorm)

/-- The unit roundoff `2^-53`. -/
def unitRoundoff : Float := 1.1102230246251565e-16

/-- The spacing of doubles at one, `2^-52`. -/
def precision : Float := 2.220446049250313e-16

/-- The smallest positive normal double `2^-1022`, whose reciprocal does not overflow. -/
def safeMin : Float := 2.2250738585072014e-308

/-- The magnitude of `a` with the sign bit of `b`. -/
def withSign (a b : Float) : Float :=
  if b.toBits >>> 63 == 0 then a.abs else -a.abs

/-- `√(x² + y²)` without needless overflow: the larger magnitude times `√(1 + (small/large)²)`;
a NaN argument is returned as it is. -/
def hypot (x y : Float) : Float :=
  if y.isNaN then y else if x.isNaN then x else
  let xa := x.abs
  let ya := y.abs
  let w := max xa ya
  let z := min xa ya
  if z == 0.0 || w > 1.7976931348623157e308 then w else w * Float.sqrt (1.0 + (z / w) * (z / w))

/-- Every entry of `xs` multiplied by `c`; a zero factor clears the vector. -/
def scaleVec (c : Float) (xs : Array Float) : Array Float :=
  if c == 0.0 then xs.map fun _ => 0.0 else xs.map (c * ·)

/-- The reflector that maps `(α, x)` to `(β, 0)`: its new leading entry `β`, its `τ`, and the
tail of its vector `v = (1, tail)`. No reflection is needed (`τ = 0`) when `x` is zero. Tiny
values are scaled up by `1/(2^-1022 / 2^-53)` (at most 20 times) before `β` is formed and `β`
is scaled back after. -/
structure Reflection where
  /-- The leading entry of the reflected vector. -/
  beta : Float
  /-- The factor `τ` of `H = I - τ v vᵀ`. -/
  tau : Float
  /-- The entries of `v` after its unit first entry. -/
  tail : Array Float
  deriving Inhabited

/-- The reflector for `(alpha, x)`, described at `Reflection`. -/
def reflection (alpha : Float) (x : Array Float) : Reflection := Id.run do
  if x.size = 0 then return ⟨alpha, 0.0, x⟩
  let xnorm := euclidNorm x
  if xnorm == 0.0 then return ⟨alpha, 0.0, x⟩
  let mut alpha := alpha
  let mut x := x
  let mut beta := -withSign (hypot alpha xnorm) alpha
  let small := safeMin / unitRoundoff
  let mut knt := 0
  if beta.abs < small then
    let grow := 1.0 / small
    let mut going := true
    for _ in [0:20] do
      if going then
        knt := knt + 1
        x := scaleVec grow x
        beta := beta * grow
        alpha := alpha * grow
        going := beta.abs < small
    beta := -withSign (hypot alpha (euclidNorm x)) alpha
  let tau := (beta - alpha) / beta
  x := scaleVec (1.0 / (alpha - beta)) x
  for _ in [0:knt] do
    beta := beta * small
  return ⟨beta, tau, x⟩

/-- The length of `v` without its trailing zeros. -/
def trimmedLength (v : Array Float) : Nat :=
  (List.range v.size).foldl (fun acc k => if entry v k != 0.0 then k + 1 else acc) 0

/-- The number of leading columns of the `m × n` block at `(i₀, j₀)` that hold a nonzero
entry (a NaN counts as nonzero); the last column is tested at its first and last rows first. -/
def Mat.usedColumns (C : Mat) (i₀ j₀ m n : Nat) : Nat :=
  if n = 0 then 0
  else if C.get i₀ (j₀ + n - 1) != 0.0 || C.get (i₀ + m - 1) (j₀ + n - 1) != 0.0 then n
  else
    (List.range n).foldl (fun acc j =>
      if (List.range m).any (fun i => C.get (i₀ + i) (j₀ + j) != 0.0) then j + 1 else acc) 0

/-- The number of leading rows of the `m × n` block at `(i₀, j₀)` that hold a nonzero entry
(a NaN counts as nonzero); the last row is tested at its first and last columns first. -/
def Mat.usedRows (C : Mat) (i₀ j₀ m n : Nat) : Nat :=
  if m = 0 then 0
  else if C.get (i₀ + m - 1) j₀ != 0.0 || C.get (i₀ + m - 1) (j₀ + n - 1) != 0.0 then m
  else
    (List.range m).foldl (fun acc i =>
      if (List.range n).any (fun j => C.get (i₀ + i) (j₀ + j) != 0.0) then i + 1 else acc) 0

/-- `H C` for the block of `C` whose corner is `(i₀, j₀)`, with `v.size` rows and `n` columns,
where `H = I - τ v vᵀ`. -/
def Mat.reflectLeft (C : Mat) (v : Array Float) (tau : Float) (i₀ j₀ n : Nat) : Mat := Id.run do
  if tau == 0.0 then return C
  let lastv := trimmedLength v
  if lastv = 0 then return C
  let lastc := C.usedColumns i₀ j₀ lastv n
  if lastc = 0 then return C
  let vs := v.extract 0 lastv
  let w := transposedProduct (C.blockColumns i₀ j₀ lastv lastc) vs 1.0 (Array.replicate lastc 0.0)
  let mut C := C
  for j in [0:lastc] do
    let y := -tau * entry w j
    for i in [0:lastv] do
      C := C.set (i₀ + i) (j₀ + j) (fma y (entry vs i) (C.get (i₀ + i) (j₀ + j)))
  return C

/-- `C H` for the block of `C` whose corner is `(i₀, j₀)`, with `m` rows and `v.size` columns,
where `H = I - τ v vᵀ`. -/
def Mat.reflectRight (C : Mat) (v : Array Float) (tau : Float) (i₀ j₀ m : Nat) : Mat := Id.run do
  if tau == 0.0 then return C
  let lastv := trimmedLength v
  if lastv = 0 then return C
  let lastc := C.usedRows i₀ j₀ m lastv
  if lastc = 0 then return C
  let vs := v.extract 0 lastv
  let w := columnCombination (C.blockColumns i₀ j₀ lastc lastv) vs 1.0 lastc
    (Array.replicate lastc 0.0)
  let mut C := C
  for j in [0:lastv] do
    let y := -tau * entry vs j
    for i in [0:lastc] do
      C := C.set (i₀ + i) (j₀ + j) (fma y (entry w i) (C.get (i₀ + i) (j₀ + j)))
  return C

/-- The vector of a reflector stored down column `j` from row `i`, `len` entries long, with its
implicit unit first entry. -/
def Mat.storedDown (A : Mat) (i j len : Nat) : Array Float :=
  #[1.0] ++ A.segmentDown (i + 1) j (len - 1)

/-- The vector of a reflector stored along row `i` from column `j`, `len` entries long, with its
implicit unit first entry. -/
def Mat.storedAcross (A : Mat) (i j len : Nat) : Array Float :=
  #[1.0] ++ A.segmentAcross i (j + 1) (len - 1)

/-- A matrix reduced in place with the `τ`s of its reflectors. -/
structure Reduced where
  /-- The reduced matrix with the reflector vectors stored in its zeroed part. -/
  mat : Mat
  /-- The factors `τ` of the reflectors, in order. -/
  taus : Array Float
  deriving Inhabited

/-- The QR factorization by reflectors from the left: `R` in the upper triangle, reflector `i`
stored down column `i` below the diagonal. -/
def Mat.factorQR (A : Mat) : Reduced := Id.run do
  let m := A.rows
  let n := A.cols
  let mut A := A
  let mut taus : Array Float := #[]
  for i in [0:min m n] do
    let r := reflection (A.get i i) (A.segmentDown (i + 1) i (m - i - 1))
    A := (A.set i i r.beta).setDown (i + 1) i r.tail
    taus := taus.push r.tau
    if i + 1 < n then
      A := A.reflectLeft (A.storedDown i i (m - i)) r.tau i (i + 1) (n - i - 1)
  return ⟨A, taus⟩

/-- The LQ factorization by reflectors from the right: `L` in the lower triangle, reflector `i`
stored along row `i` right of the diagonal. -/
def Mat.factorLQ (A : Mat) : Reduced := Id.run do
  let m := A.rows
  let n := A.cols
  let mut A := A
  let mut taus : Array Float := #[]
  for i in [0:min m n] do
    let r := reflection (A.get i i) (A.segmentAcross i (i + 1) (n - i - 1))
    A := (A.set i i r.beta).setAcross i (i + 1) r.tail
    taus := taus.push r.tau
    if i + 1 < m then
      A := A.reflectRight (A.storedAcross i i (n - i)) r.tau (i + 1) i (m - i - 1)
  return ⟨A, taus⟩

/-- A matrix reduced to bidiagonal form `Qᵀ A P = B`: the diagonal `d`, the off-diagonal `e`
(above the diagonal when `rows ≥ cols`, below it otherwise), and the reflectors of `Q` and `P`
stored in the rest of the matrix. -/
structure Bidiagonalized where
  /-- The matrix holding the reflector vectors. -/
  mat : Mat
  /-- The diagonal of `B`. -/
  diag : Array Float
  /-- The off-diagonal of `B`. -/
  offDiag : Array Float
  /-- The factors of the reflectors of `Q`. -/
  tauQ : Array Float
  /-- The factors of the reflectors of `P`. -/
  tauP : Array Float
  deriving Inhabited

/-- The reduction to bidiagonal form by alternating reflectors from the left (zeroing a column
below the diagonal) and from the right (zeroing a row right of the superdiagonal); a matrix
with fewer rows than columns starts from the right and ends lower bidiagonal. -/
def Mat.bidiagonalize (A : Mat) : Bidiagonalized := Id.run do
  let m := A.rows
  let n := A.cols
  let mut A := A
  let mut d : Array Float := #[]
  let mut e : Array Float := #[]
  let mut tq : Array Float := #[]
  let mut tp : Array Float := #[]
  if m ≥ n then
    for i in [0:n] do
      let r := reflection (A.get i i) (A.segmentDown (i + 1) i (m - i - 1))
      A := (A.set i i r.beta).setDown (i + 1) i r.tail
      d := d.push r.beta
      tq := tq.push r.tau
      if i + 1 < n then
        A := A.reflectLeft (A.storedDown i i (m - i)) r.tau i (i + 1) (n - i - 1)
        let s := reflection (A.get i (i + 1)) (A.segmentAcross i (i + 2) (n - i - 2))
        A := (A.set i (i + 1) s.beta).setAcross i (i + 2) s.tail
        e := e.push s.beta
        tp := tp.push s.tau
        A := A.reflectRight (A.storedAcross i (i + 1) (n - i - 1)) s.tau (i + 1) (i + 1) (m - i - 1)
      else
        tp := tp.push 0.0
  else
    for i in [0:m] do
      let r := reflection (A.get i i) (A.segmentAcross i (i + 1) (n - i - 1))
      A := (A.set i i r.beta).setAcross i (i + 1) r.tail
      d := d.push r.beta
      tp := tp.push r.tau
      if i + 1 < m then
        A := A.reflectRight (A.storedAcross i i (n - i)) r.tau (i + 1) i (m - i - 1)
        let s := reflection (A.get (i + 1) i) (A.segmentDown (i + 2) i (m - i - 2))
        A := (A.set (i + 1) i s.beta).setDown (i + 2) i s.tail
        e := e.push s.beta
        tq := tq.push s.tau
        A := A.reflectLeft (A.storedDown (i + 1) i (m - i - 1)) s.tau (i + 1) (i + 1) (n - i - 1)
      else
        tq := tq.push 0.0
  return ⟨A, d, e, tq, tp⟩

/-- Which side a product of reflectors multiplies a matrix from. -/
inductive Side where
  | left
  | right
  deriving DecidableEq, Inhabited

/-- Where the vectors of a product of reflectors are stored: reflector `i` starts at entry
`(row + i, col + i)` of `mat` and runs down its column (`down = true`) or along its row. -/
structure Stored where
  /-- The matrix holding the vectors. -/
  mat : Mat
  /-- The row of the first reflector's start. -/
  row : Nat
  /-- The column of the first reflector's start. -/
  col : Nat
  /-- Whether the vectors run down columns. -/
  down : Bool
  /-- The factors `τ`. -/
  taus : Array Float

/-- The `m × n` block of `C` at `(i₀, j₀)` multiplied by the first `k` stored reflectors from
`side`, reflector `i` acting on the rows (or columns) from the `i`-th on, the reflectors taken
in increasing order when `ascending` holds and in decreasing order otherwise. -/
def Mat.applyStored (C : Mat) (s : Stored) (side : Side) (ascending : Bool)
    (i₀ j₀ m n k : Nat) : Mat := Id.run do
  let order := if ascending then List.range k else (List.range k).reverse
  let mut C := C
  for i in order do
    let tau := entry s.taus i
    match side with
    | .left =>
      let len := m - i
      let v := if s.down then s.mat.storedDown (s.row + i) (s.col + i) len
        else s.mat.storedAcross (s.row + i) (s.col + i) len
      C := C.reflectLeft v tau (i₀ + i) j₀ n
    | .right =>
      let len := n - i
      let v := if s.down then s.mat.storedDown (s.row + i) (s.col + i) len
        else s.mat.storedAcross (s.row + i) (s.col + i) len
      C := C.reflectRight v tau i₀ (j₀ + i) m
  return C

/-- The `m × n` block of `C` at `(i₀, j₀)` multiplied from `side` by `Q` (or `Qᵀ` when
`transposed`), where `Q = H₀ H₁ ⋯` is the product of the first `k` reflectors stored down
columns. -/
def Mat.applyColumnReflectors (C : Mat) (A : Mat) (r c : Nat) (taus : Array Float)
    (side : Side) (transposed : Bool) (i₀ j₀ m n k : Nat) : Mat :=
  let ascending := (side = .left && transposed) || (side = .right && !transposed)
  C.applyStored ⟨A, r, c, true, taus⟩ side ascending i₀ j₀ m n k

/-- The `m × n` block of `C` at `(i₀, j₀)` multiplied from `side` by `Q` (or `Qᵀ` when
`transposed`), where `Q = ⋯ H₁ H₀` is the product of the first `k` reflectors stored along
rows. -/
def Mat.applyRowReflectors (C : Mat) (A : Mat) (r c : Nat) (taus : Array Float)
    (side : Side) (transposed : Bool) (i₀ j₀ m n k : Nat) : Mat :=
  let ascending := (side = .left && !transposed) || (side = .right && transposed)
  C.applyStored ⟨A, r, c, false, taus⟩ side ascending i₀ j₀ m n k

/-- `C` (`m × n`) multiplied from `side` by the `Q` of a bidiagonal reduction with `k` columns
(or `Qᵀ` when `transposed`). When `Q` has fewer rows than `k`, its reflectors start one row
below the diagonal and act on all but the first row (or column) of `C`. -/
def Mat.applyBidiagQ (C : Mat) (B : Bidiagonalized) (side : Side) (transposed : Bool)
    (m n k : Nat) : Mat :=
  let nq := if side = .left then m else n
  if nq ≥ k then C.applyColumnReflectors B.mat 0 0 B.tauQ side transposed 0 0 m n k
  else if nq > 1 then
    match side with
    | .left => C.applyColumnReflectors B.mat 1 0 B.tauQ side transposed 1 0 (m - 1) n (nq - 1)
    | .right => C.applyColumnReflectors B.mat 1 0 B.tauQ side transposed 0 1 m (n - 1) (nq - 1)
  else C

/-- `C` (`m × n`) multiplied from `side` by the `P` of a bidiagonal reduction with `k` rows
(or `Pᵀ` when `transposed`). When `P` has no more rows than `k`, its reflectors start one column
right of the diagonal and act on all but the first row (or column) of `C`. -/
def Mat.applyBidiagP (C : Mat) (B : Bidiagonalized) (side : Side) (transposed : Bool)
    (m n k : Nat) : Mat :=
  let nq := if side = .left then m else n
  if nq > k then C.applyRowReflectors B.mat 0 0 B.tauP side (!transposed) 0 0 m n k
  else if nq > 1 then
    match side with
    | .left => C.applyRowReflectors B.mat 0 1 B.tauP side (!transposed) 1 0 (m - 1) n (nq - 1)
    | .right => C.applyRowReflectors B.mat 0 1 B.tauP side (!transposed) 0 1 m (n - 1) (nq - 1)
  else C

end GammaFit.Linear
