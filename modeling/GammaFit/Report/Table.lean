import GammaFit.Region.Peak
import GammaFit.Decimal.Parse
import GammaFit.Decimal.Format

/-!
# The peak table

Each peak gives one row: its center, energy and width, the Hypermet area and rate, and the
summation centroid, width, background, area, rate and Currie grade. Figures a peak does not
have are NaN, its grade then `0`.

The table is written as comma-separated text with four decimals (missing figures left empty),
as a list of records whose figures are rounded to ten decimals, or as aligned text lines.
-/

namespace GammaFit

open Json

/-- One row of the peak table. -/
structure PeakRow where
  center : Float
  energy : Float
  fwhm : Float
  areaHyp : Float
  areaHypErr : Float
  cpsHyp : Float
  centroidS4 : Float
  centroidS4Err : Float
  fwhmS4 : Float
  backgroundS4 : Float
  backgroundS4Err : Float
  areaS4 : Float
  areaS4Err : Float
  cpsS4 : Float
  cqi : Nat

namespace PeakRow

/-- NaN, the mark of a missing figure. -/
def missing : Float := 0.0 / 0.0

/-- The row of a peak. -/
def ofPeak (p : Peak) : PeakRow :=
  let (areaHyp, areaHypErr, cpsHyp) := match p.hypermet with
    | some h => (h.area.1, h.area.2, p.cpsHyp)
    | none => (missing, missing, missing)
  match p.sum4 with
  | some s =>
    { center := p.center, energy := p.energy, fwhm := p.fwhmEnergy, areaHyp, areaHypErr, cpsHyp,
      centroidS4 := s.centroid, centroidS4Err := s.centroidUncertainty, fwhmS4 := s.fwhm,
      backgroundS4 := s.backgroundArea, backgroundS4Err := s.backgroundUncertainty,
      areaS4 := s.netArea, areaS4Err := s.netUncertainty, cpsS4 := p.cpsSum4, cqi := s.grade }
  | none =>
    { center := p.center, energy := p.energy, fwhm := p.fwhmEnergy, areaHyp, areaHypErr, cpsHyp,
      centroidS4 := missing, centroidS4Err := missing, fwhmS4 := missing,
      backgroundS4 := missing, backgroundS4Err := missing, areaS4 := missing,
      areaS4Err := missing, cpsS4 := missing, cqi := 0 }

/-- The names of the columns, in order. -/
def columns : List String :=
  ["center", "energy", "fwhm", "area_hyp", "area_hyp_err", "cps_hyp", "centroid_s4",
   "centroid_s4_err", "fwhm_s4", "background_s4", "background_s4_err", "area_s4",
   "area_s4_err", "cps_s4", "cqi"]

/-- The figures of the row in column order, the grade excepted. -/
def figures (r : PeakRow) : List Float :=
  [r.center, r.energy, r.fwhm, r.areaHyp, r.areaHypErr, r.cpsHyp, r.centroidS4, r.centroidS4Err,
   r.fwhmS4, r.backgroundS4, r.backgroundS4Err, r.areaS4, r.areaS4Err, r.cpsS4]

/-- The row as a list of values in column order. -/
def toJson (r : PeakRow) : Value := .arr (r.figures.map .num ++ [.int r.cqi])

end PeakRow

/-- The table of some peaks: its columns and rows. -/
def peakTableJson (peaks : List Peak) : Value :=
  .obj [("columns", Value.strs PeakRow.columns),
    ("rows", .arr (peaks.map fun p => (PeakRow.ofPeak p).toJson))]

/-- The comma-separated table: a header line, then one line per peak. Figures are written by
`figure`, missing ones left empty. -/
def peakTableCsv (peaks : List Peak) (figure : Float → String) : String :=
  let cell (x : Float) := if x.isNaN then "" else figure x
  let line (r : PeakRow) := ",".intercalate (r.figures.map cell ++ [toString r.cqi])
  String.join ((",".intercalate PeakRow.columns :: (peaks.map fun p => line (PeakRow.ofPeak p))).map
    (· ++ "\n"))

/-- A double written with at most ten decimals, the last one rounded from the digits beyond,
ties going up after an odd or zero digit; values from `10^16` up or below `10^-15` are written
with ten significant digits. `none` for values that are not finite. -/
def tenDecimals (x : Float) : Option String :=
  if x.isNaN || x.isInf then none else
  let neg := x < 0.0
  let v := if neg then -x else x
  let sign := if neg then "-" else ""
  if v > 1e16 - 1.0 || (v != 0.0 && v < 1e-15) then some (sign ++ Decimal.format (.general 10) v) else
  let scale : Float := 1e10
  let whole := v.toUInt64
  let tmp := (v - whole.toFloat) * scale
  let frac := tmp.toUInt64
  let diff := tmp - frac.toFloat
  let frac := if diff > 0.5 || (diff == 0.5 && (frac == 0 || frac % 2 == 1)) then frac + 1 else frac
  let (whole, frac) := if frac.toFloat ≥ scale then (whole + 1, 0) else (whole, frac)
  if frac == 0 then some (sign ++ toString whole.toNat ++ ".0") else
  let digits := toString frac.toNat
  let digits := String.ofList (List.replicate (10 - digits.length) '0') ++ digits
  let digits := String.ofList (digits.toList.reverse.dropWhile (· == '0')).reverse
  some (sign ++ toString whole.toNat ++ "." ++ digits)

/-- A figure of the records: ten decimals read back, missing and infinite figures `null`. -/
def recordFigure (x : Float) : Value :=
  match tenDecimals x >>= Decimal.parseFloat? with
  | some y => .num y
  | none => .null

/-- The table as records, one document per peak keyed by column. -/
def peakRecords (peaks : List Peak) : Value :=
  .arr (peaks.map fun p =>
    let r := PeakRow.ofPeak p
    .obj ((PeakRow.columns.zip (r.figures.map recordFigure ++ [.int r.cqi]))))

/-- `s` right-aligned in `width` characters. -/
def alignRight (width : Nat) (s : String) : String :=
  String.ofList (List.replicate (width - s.length) ' ') ++ s

/-- A value with its uncertainty, `-` when the value is not finite. -/
def valueWithError (value error : Float) : Outcome String :=
  if value.isNaN || value.isInf then .ok "-" else formatUncertainty value error 2

/-- The header of the aligned peak lines. -/
def peakLinesHeader : String :=
  alignRight 12 "center" ++ " | " ++ alignRight 12 "energy" ++ " | " ++ alignRight 10 "FWHM" ++
  " | " ++ alignRight 22 "area(Hyp)" ++ " | " ++ alignRight 10 "cps(Hyp)" ++ " || " ++
  alignRight 20 "centroid(S4)" ++ " | " ++ alignRight 10 "FWHM(S4)" ++ " | " ++
  alignRight 20 "bckg-area(S4)" ++ " | " ++ alignRight 20 "area(S4)" ++ " | " ++
  alignRight 10 "cps(S4)" ++ " | " ++ alignRight 3 "CQI"

/-- The aligned lines of the peaks: a header, a rule as long, and one line per peak. -/
def peakLines (peaks : List Peak) : Outcome String := do
  let fixed3 (x : Float) := Decimal.format (.fixed 3) x
  let general4 (x : Float) := Decimal.format (.general 4) x
  let header := peakLinesHeader
  let mut out := header ++ "\n" ++ String.ofList (List.replicate header.length '-') ++ "\n"
  for p in peaks do
    let r := PeakRow.ofPeak p
    out := out ++ alignRight 12 (fixed3 r.center) ++ " | " ++ alignRight 12 (fixed3 r.energy) ++
      " | " ++ alignRight 10 (fixed3 r.fwhm) ++ " | " ++
      alignRight 22 (← valueWithError r.areaHyp r.areaHypErr) ++ " | " ++
      alignRight 10 (general4 r.cpsHyp) ++ " || " ++
      alignRight 20 (← valueWithError r.centroidS4 r.centroidS4Err) ++ " | " ++
      alignRight 10 (fixed3 r.fwhmS4) ++ " | " ++
      alignRight 20 (← valueWithError r.backgroundS4 r.backgroundS4Err) ++ " | " ++
      alignRight 20 (← valueWithError r.areaS4 r.areaS4Err) ++ " | " ++
      alignRight 10 (general4 r.cpsS4) ++ " | " ++ alignRight 3 (toString r.cqi) ++ "\n"
  return out

end GammaFit
