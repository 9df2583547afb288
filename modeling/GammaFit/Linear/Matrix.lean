import GammaFit.Linear.Kernels

/-! # Dense matrices stored by columns

A matrix is its size and its entries in one array, column after column: entry `(i, j)` sits
at `i + j · rows`. Rows and columns are counted from zero. Reads outside the matrix give zero
and writes outside it are ignored, so every operation is total.

The factorizations of the least-squares solver work on blocks of a matrix: a run of entries
down a column (`segmentDown`) or along a row (`segmentAcross`), and the block of the rows and
columns from a corner on.
-/

namespace GammaFit.Linear

/-- A dense matrix, its entries column after column. -/
structure Mat where
  /-- The number of rows. -/
  rows : Nat
  /-- The number of columns. -/
  cols : Nat
  /-- The entries, `(i, j)` at `i + j · rows`. -/
  data : Array Float
  deriving Inhabited

namespace Mat

/-- The `m × n` matrix of zeros. -/
def zeros (m n : Nat) : Mat := ⟨m, n, Array.replicate (m * n) 0.0⟩

/-- The `n × n` identity. -/
def identity (n : Nat) : Mat :=
  ⟨n, n, Array.ofFn (n := n * n) fun k => if k.val % n = k.val / n then 1.0 else 0.0⟩

/-- The matrix with the given columns, each cut or padded with zeros to `m` rows. -/
def ofColumns (m : Nat) (cs : Array (Array Float)) : Mat :=
  ⟨m, cs.size, Array.ofFn (n := m * cs.size) fun k => entry (cs.getD (k.val / m) #[]) (k.val % m)⟩

/-- The matrix with the given rows, each cut or padded with zeros to `n` columns. -/
def ofRows (n : Nat) (rs : Array (Array Float)) : Mat :=
  let m := rs.size
  ⟨m, n, Array.ofFn (n := m * n) fun k => entry (rs.getD (k.val % m) #[]) (k.val / m)⟩

/-- Entry `(i, j)`, zero outside the matrix. -/
@[inline] def get (A : Mat) (i j : Nat) : Float :=
  if i < A.rows then A.data.getD (i + j * A.rows) 0.0 else 0.0

/-- The matrix with entry `(i, j)` replaced; unchanged outside it. -/
@[inline] def set (A : Mat) (i j : Nat) (v : Float) : Mat :=
  if i < A.rows then { A with data := A.data.set! (i + j * A.rows) v } else A

/-- Column `j` as an array of `rows` entries. -/
def column (A : Mat) (j : Nat) : Array Float :=
  Array.ofFn (n := A.rows) fun i => A.get i.val j

/-- The `len` entries down column `j` from row `i`. -/
def segmentDown (A : Mat) (i j len : Nat) : Array Float :=
  Array.ofFn (n := len) fun k => A.get (i + k.val) j

/-- The `len` entries along row `i` from column `j`. -/
def segmentAcross (A : Mat) (i j len : Nat) : Array Float :=
  Array.ofFn (n := len) fun k => A.get i (j + k.val)

/-- Column `j` with the entries from row `i` on replaced by `xs`. -/
def setDown (A : Mat) (i j : Nat) (xs : Array Float) : Mat := Id.run do
  let mut A := A
  for k in [0:xs.size] do
    A := A.set (i + k) j (entry xs k)
  return A

/-- Row `i` with the entries from column `j` on replaced by `xs`. -/
def setAcross (A : Mat) (i j : Nat) (xs : Array Float) : Mat := Id.run do
  let mut A := A
  for k in [0:xs.size] do
    A := A.set i (j + k) (entry xs k)
  return A

/-- The columns `j₀, …, j₀ + n - 1`, each cut to the `m` rows from `i₀`. -/
def blockColumns (A : Mat) (i₀ j₀ m n : Nat) : Array (Array Float) :=
  Array.ofFn (n := n) fun j => A.segmentDown i₀ (j₀ + j.val) m

/-- The `m × n` block whose corner is `(i₀, j₀)`. -/
def block (A : Mat) (i₀ j₀ m n : Nat) : Mat :=
  ofColumns m (A.blockColumns i₀ j₀ m n)

/-- `A` with the block whose corner is `(i₀, j₀)` replaced by `B`. -/
def setBlock (A : Mat) (i₀ j₀ : Nat) (B : Mat) : Mat := Id.run do
  let mut A := A
  for j in [0:B.cols] do
    A := A.setDown i₀ (j₀ + j) (B.column j)
  return A

/-- Rows `i` and `i'` exchanged in the columns `0, …, n - 1`. -/
def swapRows (A : Mat) (i i' n : Nat) : Mat := Id.run do
  let mut A := A
  for j in [0:n] do
    let a := A.get i j
    A := (A.set i j (A.get i' j)).set i' j a
  return A

/-- Columns `j` and `j'` exchanged in the rows `0, …, m - 1`. -/
def swapColumns (A : Mat) (j j' m : Nat) : Mat := Id.run do
  let mut A := A
  for i in [0:m] do
    let a := A.get i j
    A := (A.set i j (A.get i j')).set i j' a
  return A

/-- The transpose. -/
def transpose (A : Mat) : Mat :=
  ⟨A.cols, A.rows, Array.ofFn (n := A.cols * A.rows) fun k =>
    A.get (k.val / A.cols) (k.val % A.cols)⟩

/-- Every entry multiplied by `c`. -/
def scale (c : Float) (A : Mat) : Mat := { A with data := A.data.map (c * ·) }

/-- The largest absolute value of an entry; a NaN entry is kept once met. -/
def maxAbs (A : Mat) : Float :=
  A.data.foldl (fun acc v => let a := v.abs; if acc < a || a != a then a else acc) 0.0

@[simp] theorem zeros_rows (m n : Nat) : (zeros m n).rows = m := rfl
@[simp] theorem zeros_cols (m n : Nat) : (zeros m n).cols = n := rfl
@[simp] theorem identity_rows (n : Nat) : (identity n).rows = n := rfl
@[simp] theorem set_rows (A : Mat) (i j : Nat) (v : Float) : (A.set i j v).rows = A.rows := by
  unfold set; split <;> rfl
@[simp] theorem set_cols (A : Mat) (i j : Nat) (v : Float) : (A.set i j v).cols = A.cols := by
  unfold set; split <;> rfl

end Mat

end GammaFit.Linear
