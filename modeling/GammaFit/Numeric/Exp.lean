import GammaFit.Numeric.Fma

/-! # The table-driven exponential

`exp x` for samples cuts `x · log₂ e` down to sixteenths: with `n = ⌊16 · x · log₂ e⌋`,
`x = (n / 16) · ln 2 + r` and `0 ≤ r < ln 2 / 16` (up to the rounding of `log₂ e`), so that
`exp x = 2^⌊n/16⌋ · 2^(j/16) · exp r` for `j = n mod 16`. Each `2^(j/16)` is kept as its nearest
double `T` and the relative remainder `t`, so that `2^(j/16) = T · (1 + t)`, and `exp r` is
`1 + r · p(r)` with `p` of degree five, evaluated in pairs of fused multiply-adds. The value
`T + T · (t + r · p(r))` is rounded once and scaled by the power of two.

The coefficients of `p` are those of the best uniform approximation of `exp` by a polynomial of
degree six on `[0, ln 2 / 16]`, whose constant term is then taken as exactly `1`. Its error
alternates between `+E` and `-E` at eight points, starting with `+E` at `0`; dropping the excess
of the constant term moves the whole error curve down by `E`, so that before the last rounding
the formula lies between the true value and about `2 E ≈ 1.4 · 10^-17` (relative) below it. The
result is therefore within about `0.56` units in the last place, the excess always downward.
Beyond the range of doubles it is `0` or infinity.
-/

namespace GammaFit.Numeric

/-- `2^(j/16)` rounded to the nearest double, `j = 0 … 15`, as bit patterns. -/
def expTableHigh : Array UInt64 := #[
  0x3FF0000000000000, 0x3FF0B5586CF9890F, 0x3FF172B83C7D517B, 0x3FF2387A6E756238,
  0x3FF306FE0A31B715, 0x3FF3DEA64C123422, 0x3FF4BFDAD5362A27, 0x3FF5AB07DD485429,
  0x3FF6A09E667F3BCD, 0x3FF7A11473EB0187, 0x3FF8ACE5422AA0DB, 0x3FF9C49182A3F090,
  0x3FFAE89F995AD3AD, 0x3FFC199BDD85529C, 0x3FFD5818DCFBA487, 0x3FFEA4AFA2A490DA]

/-- The relative remainders `(2^(j/16) - T) / T` rounded, for `T` the entry of
`expTableHigh`. -/
def expTableLow : Array UInt64 := #[
  0x0000000000000000, 0x3C979AA65D837B6D, 0xBC801B15EAA59348, 0x3C968EFDE3A8A894,
  0x3C834D754DB0ABB6, 0x3C859F48A72A4C6D, 0x3C7690CEBB7AAFB0, 0x3C9063E1E21C5409,
  0xBC93B3EFBF5E2228, 0xBC7B32DCB94DA51D, 0x3C8DB72FC1F0EAB4, 0x3C71AFFC2B91CE27,
  0x3C8C1A7792CB3387, 0x3C736EAE30AF0CB3, 0x3C74A385A63D07A7, 0xBC8FF7128FD391F0]

/-- `log₂ e` rounded to the nearest double. -/
def log2E : Float := Float.ofBits 0x3FF71547652B82FE
/-- `ln 2` rounded to the nearest double. -/
def ln2High : Float := Float.ofBits 0x3FE62E42FEFA39EF
/-- `ln 2` less `ln2High`, rounded. -/
def ln2Low : Float := Float.ofBits 0x3C7ABC9E3B39803F
/-- Coefficients of `p(r) = p₀ + p₁ r + … + p₅ r⁵`, the terms of degree one to six of the best
uniform approximation of `exp` on `[0, ln 2 / 16]`. -/
def expCoeffs : Array Float := #[Float.ofBits 0x3FEFFFFFFFFFFF70, Float.ofBits 0x3FE000000000D008,
  Float.ofBits 0x3FC5555553939733, Float.ofBits 0x3FA55557242D683A,
  Float.ofBits 0x3F81101CBBC29F3A, Float.ofBits 0x3F57411836873F35]
/-- `2^-100`: below it the reduction needs no more than the sign of the argument. -/
def tinyArgument : Float := Float.ofBits 0x39B0000000000000
/-- Above this the exponential overflows. -/
def expOverflow : Float := Float.ofBits 0x40862E42FEFA39EF
/-- Below this the exponential underflows to zero. -/
def expUnderflow : Float := Float.ofBits 0xC0874910D52D3053

/-- `⌊16 · x · log₂ e⌋` as a double, for `x` within the range of the exponential. The product
`x · log₂ e` is `p + err` exactly (`twoProduct`), and `16 p` is exact. When `16 p` is not a whole
number, the whole numbers around it are at least a unit of `16 p` away, while `16 err` is at most
half a unit, so the floor is that of `16 p`; when it is whole, the sign of `err` decides. Below
`2^-100` the scaled product lies strictly between `-1` and `1`, so its sign alone decides. -/
def sixteenths (x : Float) : Float :=
  if x.abs < tinyArgument then (if x < 0.0 then -1.0 else 0.0)
  else
    let (p, err) := twoProduct x log2E
    let q := 16.0 * p
    let f := q.floor
    if q == f && err < 0.0 then f - 1.0 else f

/-- A whole double of magnitude below `2^63` as an integer. -/
def wholeOf (m : Float) : Int :=
  if m < 0.0 then -((-m).toUInt64.toNat : Int) else (m.toUInt64.toNat : Int)

/-- The table-driven exponential of one sample. The sixteenths `n / 16` are exact in a double,
so the first step of the reduction, `x - (n/16) · ln2High`, loses nothing beyond its one
rounding; the second removes the rest of `ln 2`. -/
def expSample (x : Float) : Float :=
  if x.isNaN then x
  else if x > expOverflow then 1.0 / 0.0
  else if x < expUnderflow then 0.0
  else
    let n := sixteenths x
    let m := (n / 16.0).floor
    let j := (n - 16.0 * m).toUInt64.toNat
    let z := n / 16.0
    let r := fma (-z) ln2Low (fma (-z) ln2High x)
    let c (i : Nat) := expCoeffs.getD i 0.0
    let r2 := r * r
    let p := fma (fma (fma r (c 5) (c 4)) r2 (fma r (c 3) (c 2))) r2 (fma r (c 1) (c 0))
    let high := Float.ofBits (expTableHigh.getD j 0)
    let low := Float.ofBits (expTableLow.getD j 0)
    Float.scaleB (fma high (fma r p low) high) (wholeOf m)

end GammaFit.Numeric
