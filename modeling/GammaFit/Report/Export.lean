import GammaFit.Report.Table
import GammaFit.Spectrum.Files

/-!
# Exporting the peak table

The table is exported as comma-separated text, as records, or as aligned text lines. The
format may be named, or chosen by the file's extension (`.csv`, `.json`, `.txt`; anything else
gives comma-separated text). An unknown format name also gives comma-separated text, with the
figures in their shortest form.
-/

namespace GammaFit

open Json

/-- The formats of an exported table. -/
inductive TableFormat where
  | csv
  | records
  | lines
  /-- A format name that is not known; the table is written as plain comma-separated text. -/
  | unknown

/-- The format a name asks for, `auto` choosing by the file's extension. -/
def TableFormat.ofName (name fileName : String) : TableFormat :=
  match name with
  | "auto" =>
    match Spectrum.extension fileName with
    | ".json" => .records
    | ".txt" => .lines
    | _ => .csv
  | "csv" => .csv
  | "json" => .records
  | "text" => .lines
  | _ => .unknown

/-- The text of the exported table. -/
def exportTable (peaks : List Peak) (fileName format : String) : Outcome String :=
  match TableFormat.ofName format fileName with
  | .csv => .ok (peakTableCsv peaks (Decimal.format (.fixed 4)))
  | .records => .ok ((peakRecords peaks).render Layout.file)
  | .lines => peakLines peaks
  | .unknown => .ok (peakTableCsv peaks (Decimal.format .shortest))

end GammaFit
