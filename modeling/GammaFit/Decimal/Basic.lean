/-! # Doubles as exact binary fractions

A finite double is `(-1)^neg · mant · 2^exp` with natural `mant`. Every decision about decimal
text (shortest digits, fixed places, significant digits) is taken on this exact value in `Nat`
arithmetic, so no step of it is itself rounded.
-/

namespace GammaFit.Decimal

/-- The exact value `(-1)^neg · mant · 2^exp` of a finite double. -/
structure Binary where
  neg : Bool
  mant : Nat
  exp : Int
deriving DecidableEq

/-- What a double is: not a number, an infinity with its sign, or a finite value. -/
inductive Kind where
  | nan
  | inf (neg : Bool)
  | finite (v : Binary)

/-- Decode the IEEE 754 binary64 fields of `x`: sign bit, 11 exponent bits, 52 fraction bits.
A zero exponent field is a subnormal (or zero) with exponent `-1074`; otherwise the hidden bit
is set and the exponent is the field less `1075`. -/
def kind (x : Float) : Kind :=
  let b := x.toBits.toNat
  let neg := b / Nat.pow 2 63 = 1
  let field : Nat := (b / Nat.pow 2 52) % 2048
  let frac : Nat := b % Nat.pow 2 52
  if field = 2047 then
    if frac = 0 then .inf neg else .nan
  else if field = 0 then .finite ⟨neg, frac, -1074⟩
  else .finite ⟨neg, frac + Nat.pow 2 52, (field : Int) - 1075⟩

/-- Number of decimal digits of `n`, with `0` having none. -/
def digitCount (n : Nat) : Nat :=
  if h : n = 0 then 0 else digitCount (n / 10) + 1
termination_by n
decreasing_by omega

@[simp] theorem digitCount_zero : digitCount 0 = 0 := by
  simp [digitCount]

/-- `b ^ e` for an integer exponent, split as the pair (numerator, denominator). -/
def powPair (b : Nat) (e : Int) : Nat × Nat :=
  if 0 ≤ e then (Nat.pow b e.toNat, 1) else (1, Nat.pow b (-e).toNat)

/-- The exact value `|v|` as a fraction `num / den`. -/
def Binary.fraction (v : Binary) : Nat × Nat :=
  let (n, d) := powPair 2 v.exp
  (v.mant * n, d)

/-- The largest `k` with `10^k ≤ num / den`, for positive `num` and `den`.
The digit counts give `k` up to one: the quotient lies strictly between
`10^(a-b-1)` and `10^(a-b+1)` for `a`, `b` the digit counts. -/
def floorLog10 (num den : Nat) : Int :=
  let d : Int := (digitCount num : Int) - digitCount den
  let (p, q) := powPair 10 d
  if den * p ≤ num * q then d else d - 1

/-- The decimal exponent `k` with `10^k ≤ |v| < 10^(k+1)`, for nonzero `v`. -/
def Binary.log10 (v : Binary) : Int :=
  let (n, d) := v.fraction
  floorLog10 n d

/-- `a · 10^g ≤ b · 2^e`, decided exactly. -/
def leScaled (a : Nat) (g : Int) (b : Nat) (e : Int) : Bool :=
  let (g1, g2) := powPair 10 g
  let (e1, e2) := powPair 2 e
  a * g1 * e2 ≤ b * e1 * g2

/-- `a · 10^g < b · 2^e`, decided exactly. -/
def ltScaled (a : Nat) (g : Int) (b : Nat) (e : Int) : Bool :=
  let (g1, g2) := powPair 10 g
  let (e1, e2) := powPair 2 e
  a * g1 * e2 < b * e1 * g2

/-- Round the nonnegative fraction `num / den` to the nearest natural, a tie going to the even one. -/
def roundHalfEven (num den : Nat) : Nat :=
  let q := num / den
  let r := num % den
  if 2 * r < den then q
  else if 2 * r > den then q + 1
  else if q % 2 = 0 then q else q + 1

end GammaFit.Decimal
