import GammaFit.Numeric.Binary

/-! # Extended precision and the Euclidean norm

The Euclidean norm of a vector is accumulated in the 64-bit-significand extended format of the
x87 unit: each square and each partial sum is rounded to 64 significant bits, the square root is
taken in that format and only the result is rounded to a double. Eight consecutive squares go to
four accumulators in turn (element `8k + j` to accumulator `j mod 4`), the remaining squares to
the first one, and the accumulators are joined as `((c + a) + b) + d`.

An extended value is `(-1)^neg · mant · 2^exp` with `mant < 2^64`; zero has `mant = 0`.
-/

namespace GammaFit.Numeric

/-- An exact value with a significand of at most 64 bits. -/
structure Extended where
  /-- Whether the value is negative. -/
  neg : Bool
  /-- The significand, below `2^64`. -/
  mant : Nat
  /-- The power of two it is scaled by. -/
  exp : Int
  deriving Inhabited

namespace Extended

/-- Zero. -/
def zero : Extended := ⟨false, 0, 0⟩

/-- The signed integer `s · 2^e` rounded to 64 significant bits, a tie going to even. -/
def ofScaled (s : Int) (e : Int) : Extended :=
  let m := s.natAbs
  let len := bitLength m
  if len ≤ 64 then ⟨s < 0, m, e⟩ else
  let shift := len - 64
  let q := m / Nat.pow 2 shift
  let rem := m % Nat.pow 2 shift
  let half := Nat.pow 2 (shift - 1)
  let q := if rem > half ∨ (rem = half ∧ q % 2 = 1) then q + 1 else q
  if q = Nat.pow 2 64 then ⟨s < 0, Nat.pow 2 63, e + shift + 1⟩ else ⟨s < 0, q, e + shift⟩

/-- The exact value as a signed significand. -/
def signed (x : Extended) : Int := if x.neg then -(x.mant : Int) else x.mant

/-- The square of a finite double, rounded to 64 bits. -/
def square (x : Float) : Extended :=
  match Decimal.kind x with
  | .finite v => ofScaled (v.signed * v.signed) (2 * v.exp)
  | _ => zero

/-- The sum of two extended values, rounded to 64 bits. -/
def add (x y : Extended) : Extended :=
  if x.mant = 0 then y else if y.mant = 0 then x else
  let e := min x.exp y.exp
  ofScaled (x.signed * (Nat.pow 2 (x.exp - e).toNat : Nat) + y.signed * (Nat.pow 2 (y.exp - e).toNat : Nat)) e

/-- The integer square root, found bit by bit from the top: the largest `r` with `r² ≤ n`. -/
def isqrt (n : Nat) : Nat := Id.run do
  let top := (bitLength n + 1) / 2
  let mut r := 0
  for k in [0:top] do
    let bit := Nat.pow 2 (top - 1 - k)
    if (r + bit) * (r + bit) ≤ n then r := r + bit
  return r

/-- The square root of a non-negative value, rounded once to 64 bits. No exact tie can occur,
since a 65-bit odd square would need a 130-bit square. -/
def sqrt (x : Extended) : Extended :=
  if x.mant = 0 then zero else
  let (m, e) := if x.exp % 2 = 0 then (x.mant, x.exp) else (2 * x.mant, x.exp - 1)
  let k := (132 - bitLength m) / 2
  let n := m * Nat.pow 2 (2 * k)
  let s := isqrt n
  let exact := s * s = n
  let len := bitLength s
  let shift := len - 64
  let q := s / Nat.pow 2 shift
  let rem := s % Nat.pow 2 shift
  let half := Nat.pow 2 (shift - 1)
  let up := rem > half ∨ (rem = half ∧ (!exact ∨ q % 2 = 1))
  let q := if up then q + 1 else q
  let base : Int := e / 2 - k
  if q = Nat.pow 2 64 then ⟨false, Nat.pow 2 63, base + shift + 1⟩ else ⟨false, q, base + shift⟩

/-- The double nearest to an extended value. -/
def toFloat (x : Extended) : Float := roundScaled x.neg x.mant false x.exp

end Extended

/-- The Euclidean norm of `xs`, accumulated in extended precision as described above. -/
def euclidNorm (xs : Array Float) : Float := Id.run do
  let n := xs.size
  let mut acc : Array Extended := #[Extended.zero, Extended.zero, Extended.zero, Extended.zero]
  let blocks := n / 8
  for k in [0:blocks * 8] do
    let j := k % 4
    acc := acc.set! j (Extended.add (acc.getD j Extended.zero) (Extended.square (xs.getD k 0.0)))
  for k in [blocks * 8:n] do
    acc := acc.set! 0 (Extended.add (acc.getD 0 Extended.zero) (Extended.square (xs.getD k 0.0)))
  let a := acc.getD 0 Extended.zero
  let b := acc.getD 1 Extended.zero
  let c := acc.getD 2 Extended.zero
  let d := acc.getD 3 Extended.zero
  let total := Extended.add (Extended.add (Extended.add c a) b) d
  return (Extended.sqrt total).toFloat

end GammaFit.Numeric
