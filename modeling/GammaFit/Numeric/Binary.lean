import GammaFit.Decimal.Basic

/-! # Rounding exact values to doubles

The double nearest to an exact rational `num / den · 2^e`, a tie going to the even significand,
with gradual underflow below `2^-1022` and infinity beyond the largest double. On this one
rounding rest the fused multiply-add and the reading of decimal text.
-/

namespace GammaFit.Numeric

/-- Bit length of a natural: the least `L` with `n < 2^L`. -/
def bitLength (n : Nat) : Nat := if n = 0 then 0 else Nat.log2 n + 1

/-- The double with sign `neg`, biased exponent `field` and fraction `frac`. -/
def assemble (neg : Bool) (field frac : Nat) : Float :=
  Float.ofBits ((if neg then Nat.pow 2 63 else 0) + field * Nat.pow 2 52 + frac).toUInt64

/-- The double nearest to `(-1)^neg · (q + r) · 2^e`, where the fraction `0 ≤ r < 1` is known
only by `sticky`, whether it is nonzero. Callers give `q` at least two bits beyond the final
precision whenever `sticky` holds, so that a nonzero `r` never decides a tie. -/
def roundScaled (neg : Bool) (q : Nat) (sticky : Bool) (e : Int) : Float :=
  if q = 0 then (if neg then -0.0 else 0.0) else
  let lead : Int := e + bitLength q - 1
  let quantum : Int := max (lead - 52) (-1074)
  let shift := quantum - e
  let m :=
    if shift ≤ 0 then q * Nat.pow 2 (-shift).toNat else
    let s := shift.toNat
    let base := q / Nat.pow 2 s
    let rem := q % Nat.pow 2 s
    let half := Nat.pow 2 (s - 1)
    if rem > half ∨ (rem = half ∧ (sticky ∨ base % 2 = 1)) then base + 1 else base
  let (m, quantum) := if m = Nat.pow 2 53 then (Nat.pow 2 52, quantum + 1) else (m, quantum)
  if m = 0 then (if neg then -0.0 else 0.0)
  else if m < Nat.pow 2 52 then assemble neg 0 m
  else
    let field := quantum + 52 + 1023
    if field ≥ 2047 then (if neg then -1.0 / 0.0 else 1.0 / 0.0)
    else assemble neg field.toNat (m - Nat.pow 2 52)

/-- The double nearest to `(-1)^neg · num / den · 2^e` for `den > 0`. -/
def nearestRatio (neg : Bool) (num den : Nat) (e : Int) : Float :=
  if num = 0 then (if neg then -0.0 else 0.0) else
  -- scale so that the quotient has at least 56 bits
  let k : Int := 56 + (bitLength den : Int) - bitLength num
  let k := max k 0
  let q := num * Nat.pow 2 k.toNat / den
  let sticky := num * Nat.pow 2 k.toNat % den ≠ 0
  roundScaled neg q sticky (e - k)

end GammaFit.Numeric

namespace GammaFit.Decimal

/-- The double nearest to the exact value `v`. -/
def Binary.toFloat (v : Binary) : Float := Numeric.nearestRatio v.neg v.mant 1 v.exp

/-- The exact value as a signed integer significand. -/
def Binary.signed (v : Binary) : Int := if v.neg then -(v.mant : Int) else v.mant

end GammaFit.Decimal
