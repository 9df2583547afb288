import GammaFit.Decimal.Round
import GammaFit.Failure

/-! # Decimal text of a double

Four styles cover every number this library writes: a fixed count of places, scientific
notation with a fixed count of places, the general style (significant digits, trailing zeros
dropped, scientific only for very large or small values), and the shortest text that reads
back. Where the shortest text switches to scientific notation is a choice of layout, kept in
one record.
-/

namespace GammaFit.Decimal

/-- How a double's text is chosen. -/
inductive Style where
  /-- A fixed number of places after the point. -/
  | fixed (places : Nat)
  /-- One digit, the point, `places` digits, then the exponent. -/
  | scientific (places : Nat)
  /-- `sig` significant digits with trailing zeros dropped; scientific when the exponent is
  below `-4` or at least `sig`. -/
  | general (sig : Nat)
  /-- The fewest digits that read back. -/
  | shortest

/-- Layout of the shortest text: positional for decimal exponents in `[minPositional, maxPositional]`,
otherwise scientific; a whole number keeps a `.0`. -/
structure ShortestLayout where
  minPositional : Int
  maxPositional : Int
  keepPointZero : Bool

/-- The layout of numbers in this library's answers and messages: positional from `1e-4` up to
below `1e16`, and `1.0` keeps its point. -/
def ShortestLayout.standard : ShortestLayout := ⟨-4, 15, true⟩

/-- `n` copies of `c`. -/
def fill (n : Nat) (c : Char) : String := String.ofList (List.replicate n c)

/-- Exponent text: the mark, a sign, at least two digits. -/
def exponentText (e : Int) : String :=
  let digits := toString e.natAbs
  "e" ++ (if e < 0 then "-" else "+") ++ (if digits.length < 2 then "0" ++ digits else digits)

/-- The digits of `c` with a point inserted so that `places` digits follow it. -/
def pointed (c : Nat) (places : Nat) : String :=
  if places = 0 then toString c else
  let s := toString c
  let s := if s.length ≤ places then fill (places + 1 - s.length) '0' ++ s else s
  let cut := s.length - places
  String.ofList (s.toList.take cut) ++ "." ++ String.ofList (s.toList.drop cut)

/-- Text of the digit string `ds` read as `d.ddd` times `10^k`. -/
def scientificText (ds : String) (k : Int) : String :=
  let head := String.ofList (ds.toList.take 1)
  let tail := String.ofList (ds.toList.drop 1)
  head ++ (if tail.isEmpty then "" else "." ++ tail) ++ exponentText k

/-- Text of a nonzero decimal `c · 10^e` without trailing zeros, under `layout`. -/
def Digits.layoutText (d : Digits) (layout : ShortestLayout) : String :=
  let ds := toString d.digits
  let k := d.exp + ds.length - 1
  if layout.minPositional ≤ k ∧ k ≤ layout.maxPositional then
    if 0 ≤ d.exp then ds ++ fill d.exp.toNat '0' ++ (if layout.keepPointZero then ".0" else "")
    else pointed d.digits (-d.exp).toNat
  else scientificText ds k

/-- Text of `|v|` in the general style with `sig ≥ 1` significant digits. -/
def Binary.generalText (v : Binary) (sig : Nat) : String :=
  if v.mant = 0 then "0" else
  let d := v.significant sig
  let k := d.exp + sig - 1
  if -4 ≤ k ∧ k < sig then
    (Digits.trim d).layoutText ⟨-4, sig, false⟩
  else scientificText (toString (Digits.trim d).digits) k

/-- Text of `|v|` in scientific style with `places` digits after the point. -/
def Binary.scientificPlaces (v : Binary) (places : Nat) : String :=
  let d := v.significant (places + 1)
  let ds := toString d.digits
  let ds := if v.mant = 0 then fill (places + 1) '0' else ds
  let k := if v.mant = 0 then 0 else d.exp + places
  let head := String.ofList (ds.toList.take 1)
  let tail := String.ofList (ds.toList.drop 1)
  head ++ (if places = 0 then "" else "." ++ tail) ++ exponentText k

/-- The text of `x` in style `s`: `nan`, `inf` and `-inf` for values that are not finite, and a
minus sign for every negative value, zero included. -/
def format (s : Style) (x : Float) : String :=
  match kind x with
  | .nan => "nan"
  | .inf neg => if neg then "-inf" else "inf"
  | .finite v =>
    let sign := if v.neg then "-" else ""
    sign ++ match s with
      | .fixed p => pointed (v.scaledRound p) p
      | .scientific p => v.scientificPlaces p
      | .general p => v.generalText (if p = 0 then 1 else p)
      | .shortest =>
        if v.mant = 0 then "0.0" else v.shortest.layoutText ShortestLayout.standard

end GammaFit.Decimal

/-! ## A value with its uncertainty as text

`value ± uncertainty` with the uncertainty to `precision` significant digits and the value to
the same decimal place. Uncertainties of ten or more are written without decimals, those from
one to ten with one decimal. A value that is not finite is `nan`; without a usable uncertainty
the value alone is written with `precision` decimals.
-/

namespace GammaFit

/-- The double nearest to `10^k`, or an overflow beyond the doubles. -/
def tenToThe (k : Nat) : Outcome Float :=
  let x := Decimal.toFloat false (Nat.pow 10 k) 0
  if x.isInf then .error (.overflow "int too large to convert to float") else .ok x

/-- The text `value ± uncertainty`. -/
def formatUncertainty (value uncertainty : Float) (precision : Int) : Outcome String := do
  let fixed (p : Int) (x : Float) := Decimal.format (.fixed p.toNat) x
  if value.isNaN ∨ value.isInf then return "nan"
  if uncertainty.isNaN ∨ uncertainty.isInf ∨ uncertainty ≤ 0.0 then
    return fixed precision value
  if uncertainty ≥ 10.0 then return fixed 0 value ++ " ± " ++ fixed 0 uncertainty
  if uncertainty ≥ 1.0 then return fixed 1 value ++ " ± " ++ fixed 1 uncertainty
  let e := (Float.log10 uncertainty).floor
  let ex : Int := if e < 0.0 then -((-e).toUInt64.toNat : Int) else e.toUInt64.toNat
  -- the factor `10^-e` is an integer here, since the uncertainty is below one
  let factor ← tenToThe (-ex).toNat
  let unc := Numeric.roundPlaces (uncertainty * factor) (precision - 1) / factor
  let val := Numeric.roundPlaces value (-ex + precision - 1)
  let decimals := -ex + precision - 1
  return fixed decimals val ++ " ± " ++ fixed decimals unc

end GammaFit
