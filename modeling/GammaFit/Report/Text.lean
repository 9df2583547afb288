import GammaFit.Report.Table
import GammaFit.Analysis.Basic

/-!
# The text report of an analysis

The report names the spectrum, gives its resolution and acquisition times, the dead time when
the live time is positive and below the real time, the total count and the count rates, and
then the aligned lines of all peaks by energy.
-/

namespace GammaFit

open Json

/-- A value as plain text: a text as it is, a number in its shortest form, a truth value
capitalised. -/
def plainText : Value → String
  | .str s => s
  | .null => "None"
  | .bool true => "True"
  | .bool false => "False"
  | .int n => toString n
  | .num x => Decimal.format .shortest x
  | v => v.render Layout.answer

/-- A numeric setting as a double. -/
def settingValue (v : Value) : Float := Settings.float v

/-- The resolution of the spectrum: `2^bits` for a positive bit count, else the number of bins. -/
def resolutionText (bits : Value) (bins : Nat) : String :=
  match bits with
  | .int n => if n > 0 then toString (Nat.pow 2 n.toNat) else toString bins
  | .bool true => "2"
  | .num b => if b > 0.0 then Decimal.format .shortest (Float.pow 2.0 b) else toString bins
  | _ => toString bins

/-- A rule of seventy equal signs. -/
def ruleLine : String := String.ofList (List.replicate 70 '=') ++ "\n"

/-- The text report of an analysis. -/
def analysisReport (a : Analysis) : Outcome String := do
  let s := a.settings
  let peaks := a.peaks
  let general (x : Float) := Decimal.format (.general 6) x
  let live := settingValue s.liveTime
  let real := settingValue s.realTime
  let mut out := "Spectrum \"" ++ plainText a.name ++ "\"\n" ++ ruleLine
  out := out ++ "Bits: " ++ plainText s.bits ++ "    Resolution: " ++
    resolutionText s.bits a.finder.x.size ++ "\n" ++ ruleLine ++ "\n"
  out := out ++ "Live time(s):   " ++ general live ++ "\n"
  out := out ++ "Real time(s):   " ++ general real ++ "\n"
  if 0.0 < live && live < real then
    out := out ++ "Dead time(%):   " ++ Decimal.format (.fixed 3) ((real - live) / real * 100.0) ++ "\n"
  let total := a.totalCount
  out := out ++ "Total count:    " ++ general total ++ "\n"
  if total > 0.0 && live > 0.0 then
    out := out ++ "Count rate:     " ++ Decimal.format (.general 4) (total / live) ++ " cps(total/live)\n"
  if total > 0.0 && real > 0.0 then
    out := out ++ "Count rate:     " ++ Decimal.format (.general 4) (total / real) ++ " cps(total/real)\n"
  out := out ++ "\n" ++ ruleLine ++ "PEAK ANALYSIS RESULTS\n"
  out := out ++ "Regions: " ++ toString a.regionMap.length ++ "    Peaks: " ++ toString peaks.length ++ "\n"
  out := out ++ ruleLine ++ "\n"
  out := out ++ (← peakLines peaks)
  out := out ++ "\nCQI: 1 = detectable, 2 = above critical level, 3 = not significant\n"
  return out

end GammaFit
