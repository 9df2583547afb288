import GammaFit.Numeric.Binary

/-! # Fused multiply-add

`fma a b c` is `a · b + c` rounded once. Several numerical kernels that this library
reproduces accumulate with it, so it is computed here from the exact binary values of its
operands.
-/

namespace GammaFit.Numeric

/-- `a · b + c` rounded once to the nearest double, from the exact binary values of the
operands. Values that are not finite follow the unfused formula, which agrees with the fused
one on them; an exact zero sum is `+0` unless both the product and `c` are negative zeros. -/
def fmaExact (a b c : Float) : Float :=
  match Decimal.kind a, Decimal.kind b, Decimal.kind c with
  | .finite va, .finite vb, .finite vc =>
    let pm := va.signed * vb.signed
    let pe := va.exp + vb.exp
    let e0 := min pe vc.exp
    let s := pm * (Nat.pow 2 (pe - e0).toNat : Nat) + vc.signed * (Nat.pow 2 (vc.exp - e0).toNat : Nat)
    if s = 0 then
      if (va.neg != vb.neg) && vc.neg then -0.0 else 0.0
    else roundScaled (s < 0) s.natAbs false e0
  | _, _, _ => a * b + c

/-- `a + b` as its rounded value and the rounding error, which is a double whenever the sum
does not overflow. -/
@[inline]
def twoSum (a b : Float) : Float × Float :=
  let s := a + b
  let bb := s - a
  (s, (a - (s - bb)) + (b - bb))

/-- `2^27 + 1`, the multiplier that splits a double into halves. -/
def splitFactor : Float := 134217729.0

/-- Zero, named so that inlined code reads it instead of building it. -/
def zeroDouble : Float := 0.0

/-- A double split into a high part of 26 significant bits and the rest, whose sum it is. -/
@[inline]
def splitHalves (a : Float) : Float × Float :=
  let c := splitFactor * a
  let hi := c - (c - a)
  (hi, a - hi)

/-- `a · b` as its rounded value and the rounding error, exact while neither the split nor
the error leaves the normal range. -/
@[inline]
def twoProduct (a b : Float) : Float × Float :=
  let p := a * b
  let (ah, al) := splitHalves a
  let (bh, bl) := splitHalves b
  (p, ((ah * bh - p) + ah * bl + al * bh) + al * bl)

/-- `a + b` rounded to odd: the sum when it is a double, else whichever of the two doubles
around it has an odd significand. -/
@[inline]
def addOdd (a b : Float) : Float :=
  let (s, e) := twoSum a b
  if e == zeroDouble || s.toBits % 2 == 1 then s
  else Float.ofBits (if (e > zeroDouble) == (s > zeroDouble) then s.toBits + 1 else s.toBits - 1)

/-- The biased exponent field of a double. -/
@[inline]
def exponentField (a : Float) : UInt64 := (a.toBits >>> 52) &&& 2047

/-- Whether a nonzero factor is within `2^±480`, where the split of the product is exact. -/
@[inline]
def moderate (a : Float) : Bool :=
  let e := exponentField a
  543 ≤ e && e ≤ 1503

/-- `a · b + c` rounded once to the nearest double. With nonzero moderate factors and a
moderate addend the exact product is `uh + ul`, the exact sum `th + tl + ul`; rounding the low
part to odd and then the whole to nearest gives the correctly rounded result, because the odd
rounding keeps the information a tie needs. A zero factor makes the unfused formula exact, and so does a zero addend to a product that
cannot underflow;
every other case is computed from the exact binary values. -/
def fma (a b c : Float) : Float :=
  if a == 0.0 || b == 0.0 then a * b + c
  else if moderate a && moderate b && exponentField c ≤ 2023 then
    if c == 0.0 then a * b else
    let (uh, ul) := twoProduct a b
    let (th, tl) := twoSum c uh
    th + addOdd tl ul
  else fmaExact a b c

end GammaFit.Numeric
