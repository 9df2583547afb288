import GammaFit.Command.Options
import GammaFit.Analysis.Document
import GammaFit.Report.Text
import GammaFit.Report.Export
import GammaFit.Json.Read

/-!
# Running the command

One run reads the spectrum and the optional settings file, builds the settings (the file's,
then the calibrations, the iteration limit and the summation switch of the command line),
loads the spectrum (with the acquisition times of an IAEA file), finds and fits every region,
and writes the text report and the peak table into the output directory, named after the
spectrum file, and the stored analysis where asked.

The run sees files only through a lookup from paths to what they hold, and answers with its
exit status and the files it writes, so that it is a function of its inputs. Status `1` marks
a spectrum or settings that cannot be used; status `2` a command line that does not read.
-/

namespace GammaFit

open Json

/-- What a path holds. -/
inductive Entry where
  | file (bytes : ByteArray)
  | directory

/-- The content of a written file: text, or a document written as indented JSON. -/
inductive Content where
  | text (s : String)
  | document (v : Value)

/-- A file the command writes. -/
structure Written where
  /-- The directory it goes into, or `none` for a path of its own. -/
  directory : Option String
  name : String
  content : Content

/-- The text of a written file. -/
def Content.render : Content → String
  | .text s => s
  | .document v => v.render Layout.file

/-- The end of a run: its exit status and the files it writes. -/
structure RunResult where
  status : Nat
  written : List Written := []

/-- The last component of a path, trailing slashes ignored. -/
def baseName (path : String) : String :=
  let parts := (path.splitOn "/").filter (!·.isEmpty)
  parts.getLastD ""

/-- The name of a file without its extension: everything before the last point, unless the
point is the first or last character. -/
def stemOf (path : String) : String :=
  let name := baseName path
  let cs := name.toList
  match (List.range cs.length).reverse.find? (fun i => cs.getD i ' ' = '.') with
  | some i => if 0 < i ∧ i + 1 < cs.length then String.ofList (cs.take i) else name
  | none => name

/-- Whether a failure is one the command reports by exit status `1` rather than one that
stops it: a missing file, or a value that cannot be used. -/
def Failure.expected : Failure → Bool
  | .notFound _ | .invalid _ | .undecodable _ => true
  | _ => false

/-- The settings of a run: from the settings file when one is named, then the command line's
calibrations, iteration limit and summation switch, checked. -/
def runSettings (o : Options) (look : String → Option Entry) : Outcome Settings := do
  let base ← match o.config with
    | some path =>
      if path.isEmpty then pure ({} : Settings) else
      match look path with
      | some (.file bytes) =>
        match String.fromUTF8? bytes with
        | none => throw (.undecodable ("'utf-8' codec can't decode the settings file " ++ path))
        | some text =>
          match parse? text with
          | some d => Settings.ofJson d
          | none => throw (.invalid ("Invalid JSON in settings file: " ++ path))
      | some .directory => throw (.invalid ("Is a directory: " ++ path))
      | none => throw (.notFound ("Settings file not found: " ++ path))
    | none => pure {}
  let mut s := base
  if let some text := o.calibration then
    if !text.isEmpty then s := { s with calibration := some (← parseLinearCalibration text) }
  if let some text := o.fwhmCalibration then
    if !text.isEmpty then
      let c ← parseLinearCalibration text
      s := { s with fwhmCalibration := some { c with kind := .resolution, units := .str "bin" } }
  if let some n := o.maxIterations then s := { s with residMaxIterations := .int n }
  if o.sum4Only then s := { s with sum4Only := .bool true }
  s.validate
  return s

/-- Catch the failures the command reports by status `1`. -/
def expectedOr {α : Type} (o : Outcome α) : Outcome (Option α) :=
  match o with
  | .ok a => .ok (some a)
  | .error e => if Failure.expected e then .ok none else .error e

/-- Run the command on its arguments over the files `look` finds. -/
def runCommand (args : List String) (look : String → Option Entry) : RegionM RunResult := do
  let o ← match parseOptions args with
    | .exit status => return { status }
    | .run o => pure o
  let some (.file bytes) := look o.spectrum | return { status := 1 }
  if bytes.size == 0 then return { status := 1 }
  let some s ← liftOutcome (expectedOr (runSettings o look)) | return { status := 1 }
  let some (x, y) ← liftOutcome (expectedOr (Spectrum.load { name := o.spectrum, bytes := some bytes }))
    | return { status := 1 }
  let (live, real) ← if Spectrum.extension o.spectrum == ".spe" then
      liftOutcome (Spectrum.measurementTimes bytes)
    else pure (0.0, 0.0)
  let live := if live != 0.0 then Value.num live else s.liveTime
  let real := if real != 0.0 then Value.num real else s.realTime
  let name := stemOf o.spectrum
  let (ok, a) ← liftOutcome ((Analysis.new s).setData x y s.bits live real (.str name))
  if !ok then return { status := 1 }
  let (_, a) ← liftOutcome (a.findRegions.mapError (·.1))
  let (_, a) ← a.autoFitRegions false
  let report ← liftOutcome (analysisReport a)
  let tableName := name ++ "_peaks.csv"
  let table ← liftOutcome (exportTable a.peaks tableName "auto")
  let mut written : List Written :=
    [{ directory := some o.outputDir, name := name ++ "_report.txt", content := .text report },
     { directory := some o.outputDir, name := tableName, content := .text table }]
  if let some path := o.saveFit then
    if !path.isEmpty then
      let doc ← liftOutcome a.toDocument
      let stored : Written := { directory := none, name := path, content := .document doc }
      written := written ++ [stored]
  return { status := 0, written }

end GammaFit
