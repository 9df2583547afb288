import GammaFit.Decimal.Shortest

/-! # Correct rounding of a double to a decimal grid

Both fixed places and significant digits round the exact binary value to the nearest point of
a decimal grid, a tie going to the even point. The value read back from such a decimal is the
nearest double to it, so `roundTo` is a correctly rounded decimal rounding.
-/

namespace GammaFit.Decimal

/-- `|v| · 10^p` rounded to the nearest natural, a tie to the even one. -/
def Binary.scaledRound (v : Binary) (p : Int) : Nat :=
  let (num, den) := v.fraction
  let (a, b) := powPair 10 p
  roundHalfEven (num * a) (den * b)

/-- `|v|` rounded to `p ≥ 1` significant digits: `digits` has exactly `p` digits
(or is zero when `v` is). -/
def Binary.significant (v : Binary) (p : Nat) : Digits :=
  if v.mant = 0 then ⟨0, 0⟩ else
  let k := v.log10
  let c := v.scaledRound ((p : Int) - 1 - k)
  if c = Nat.pow 10 p then ⟨Nat.pow 10 (p - 1), k + 2 - p⟩ else ⟨c, k + 1 - p⟩

/-- The double nearest to the decimal `(-1)^neg · c · 10^e`. -/
def toFloat (neg : Bool) (c : Nat) (e : Int) : Float :=
  let x := if 0 ≤ e then Float.ofScientific c false e.toNat else Float.ofScientific c true (-e).toNat
  if neg then -x else x

/-- The double nearest to `x` rounded to `n` decimal places (`n` may be negative), a tie on the
exact value going to the even neighbour. Values that are not finite, zeros, and places beyond
the reach of a double come back unchanged; places far to the left of the point give a zero. -/
def roundTo (x : Float) (n : Int) : Float :=
  match kind x with
  | .nan | .inf _ => x
  | .finite v =>
    if v.mant = 0 ∨ n > 323 then x
    else if n < -308 then 0.0 * x
    else toFloat v.neg (v.scaledRound n) (-n)

end GammaFit.Decimal

/-! ## Rounding to integers and to decimal places in double arithmetic

`rint` rounds to the nearest integer with a tie going to the even one. Rounding samples to
`d` decimal places is done in double arithmetic: multiply by `10^d`, round to an integer,
divide back (for negative `d`, divide, round, multiply), where `10^d` is exact up to `10^8`
and built by repeated multiplication beyond.
-/

namespace GammaFit.Numeric

/-- The nearest integer, a tie going to the even one; values that are not finite, and those of
magnitude `2^52` or more, are integers already. -/
def rint (x : Float) : Float :=
  if x.isNaN ∨ x.isInf ∨ x.abs ≥ 4503599627370496.0 then x else
  let f := x.floor
  let d := x - f
  let r := if d < 0.5 then f else if d > 0.5 then f + 1.0
    else if (f / 2.0).floor * 2.0 == f then f else f + 1.0
  -- keep the sign of a zero result
  if r == 0.0 then (if x < 0.0 ∨ (x == 0.0 ∧ 1.0 / x < 0.0) then -0.0 else 0.0) else r

/-- `10^n` as a double: exact for `n ≤ 8`, then `10^9` multiplied by ten `n - 9` times. -/
def powerOfTen (n : Nat) : Float :=
  if n < 9 then #[1e0, 1e1, 1e2, 1e3, 1e4, 1e5, 1e6, 1e7, 1e8].getD n 1.0
  else (List.range (n - 9)).foldl (fun acc _ => acc * 10.0) 1e9

/-- `x` rounded to `d` decimal places in double arithmetic. -/
def roundPlaces (x : Float) (d : Int) : Float :=
  if 0 ≤ d then
    let f := powerOfTen d.toNat
    rint (x * f) / f
  else
    let f := powerOfTen (-d).toNat
    rint (x / f) * f

end GammaFit.Numeric
