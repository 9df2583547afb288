import GammaFit.Request.Args
import GammaFit.Spectrum.Files
import GammaFit.Text.Base64
import GammaFit.Command.Run

/-!
# Requests over spectrum files and the command

A spectrum request reads one file, named `spectrum` followed by the requested extension
(`.csv` by default). Its bytes are the UTF-8 text `content`, or the base64 `content_b64`; with
neither, the file does not exist.

A `cli` request runs the command over a small file system: the spectrum file (`spectrum.csv`
unless named) with the request's text or base64 bytes, or a directory of that name; and
`config.json` with the request's settings text. The command line is the spectrum file, the
output directory `out`, `--quiet`, and the request's arguments. The answer is the exit status
and the files written: those in `out` by name, a stored analysis as its document.
-/

namespace GammaFit.Request

open Json

/-- The file a request describes. -/
def spectrumFile (req : Value) : Outcome Spectrum.File := do
  let ext := match opt? req "ext" with
    | some (.str s) => s
    | _ => ".csv"
  let bytes := match opt? req "content", opt? req "content_b64" with
    | some (.str s), _ => some s.toUTF8
    | _, some (.str s) => some (Text.decodeBase64 s)
    | _, _ => none
  pure ⟨"spectrum" ++ ext, bytes⟩

/-- Bins and counts of a spectrum file, with its live and real times when asked. -/
def loadSpectrum (req : Value) : Outcome Value := do
  let file ← spectrumFile req
  let (x, y) ← Spectrum.load file
  let base := [("x", Value.floatArray x), ("y", Value.floatArray y)]
  if (opt? req "times").any Value.truthy then
    let (live, real) ← Spectrum.measurementTimes (file.bytes.getD ByteArray.empty)
    pure (.obj (base ++ [("times", Value.floats [live, real])]))
  else pure (.obj base)

/-- Whether a directory names the output directory `out`. -/
def isOutputDirectory (dir : String) : Bool :=
  dir == "out" || dir == "out/" || dir == "./out" || dir == "./out/"

/-- Run the command as a request describes. -/
def command (req : Value) : Outcome Value := do
  let fileName := match opt? req "file" with
    | some (.str s) => s
    | _ => "spectrum.csv"
  let spectrumEntry : Option Entry :=
    if (opt? req "as_dir").any Value.truthy then some .directory
    else match opt? req "content", opt? req "content_b64" with
      | some (.str s), _ => some (.file s.toUTF8)
      | _, some (.str s) => some (.file (Text.decodeBase64 s))
      | _, _ => none
  let configEntry : Option Entry := match opt? req "config" with
    | some (.str s) => some (.file s.toUTF8)
    | _ => none
  let look (path : String) : Option Entry :=
    if path == fileName then spectrumEntry
    else if path == "config.json" || path == "./config.json" then configEntry
    else none
  let extra ← match opt? req "args" with
    | some (.arr items) => items.mapM fun v => match v with
      | .str s => pure s
      | v => pure (shown v)
    | _ => pure []
  let args := [fileName, "--output-dir", "out", "--quiet"] ++ extra
  let (result, _) := (runCommand args look).run.run 1
  let r ← result
  let files := r.written.filterMap fun w =>
    match w.directory, w.content with
    | some dir, .text s => if isOutputDirectory dir then some (w.name, Value.str s) else none
    | some dir, .document v => if isOutputDirectory dir then some (w.name, v) else none
    | none, .document v => some (w.name, v)
    | none, .text s => some (w.name, Value.str s)
  return .obj [("code", .int r.status), ("files", .obj files)]

end GammaFit.Request
