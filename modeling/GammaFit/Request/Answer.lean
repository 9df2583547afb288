import GammaFit.Request.Basic
import GammaFit.Request.Shapes
import GammaFit.Request.Search
import GammaFit.Request.Calibrations
import GammaFit.Request.Regions
import GammaFit.Request.Analyses
import GammaFit.Request.Commands
import GammaFit.Json.Read

/-! # Answering requests

A request document names its operation under `op`; the answer is the operation's result
document, or the document of its failure. An operation that this library does not have is a
refused request.
-/

namespace GammaFit.Request

open Json

/-- The operations by name. -/
def operation? : String → Option (Value → Outcome Value)
  | "edge_window" => some edgeWindow
  | "fitparam" => some fitParam
  | "poly" => some polynomial
  | "background" => some backgrounds
  | "currie" => some currie
  | "sum4" => some summation
  | "shape" => some shape
  | "hypermet" => some hypermet
  | "settings" => some settings
  | "parse_calibration" => some parseCalibration
  | "validate_spectrum" => some validateSpectrum
  | "counting_stats" => some countingStats
  | "format_uncertainty" => some uncertaintyText
  | "synthetic" => some synthetic
  | "estimate_width" => some estimateWidth
  | "finder" => some finder
  | "calibration" => some calibration
  | "gaussian_from_data" => some gaussianEstimate
  | "load_spectrum" => some loadSpectrum
  | "fit_multi" => some fitMultiplet
  | "roi" => some region
  | "fitter" => some analysis
  | "cli" => some command
  | _ => none

/-- The answer to a request document. -/
def answer (req : Value) : Value :=
  let result : Outcome Value := do
    let op ← arg req "op"
    let name := match op with
      | .str s => s
      | v => shown v
    match operation? name with
    | some run => run req
    | none => .error (.badRequest ("unknown op: " ++ name))
  match result with
  | .ok v => v
  | .error f => failureJson f

/-- The answer line to a request line. -/
def answerLine (line : String) : String :=
  let reply := match parse? line with
    | some req => answer req
    | none => failureJson (.badRequest "request is not a JSON document")
  reply.render Layout.answer

end GammaFit.Request
