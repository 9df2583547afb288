import GammaFit.Request.Shapes
import GammaFit.Search.Finder

/-! # Requests on the candidate search

A `finder` request loads a range, optionally sets a model, searches, and then looks up bins
and cuts out a sub-range, answering with the state of the finder after each step.
-/

namespace GammaFit.Request

open Json Search

/-- The document of a finder's search state. -/
def finderJson (f : Finder) : Value :=
  .obj [("n", .int f.x.size), ("prelim", Value.nats f.prelim.toList),
    ("filtered", Value.nats f.filtered.toList), ("lefts", Value.nats f.lefts.toList),
    ("rights", Value.nats f.rights.toList), ("fw_theoretical_bin", Value.floatArray f.fwTheoretical),
    ("response", Value.floatArray f.response), ("y_resid", Value.floatArray f.yResid)]

/-- Load, model, search, look up and cut, as the request asks. -/
def finder (req : Value) : Outcome Value := do
  let s ← settingsOf req
  let x ← shapedSamples (← arg req "x")
  let y ← shapedSamples (← arg req "y")
  let (loaded, f) ← match x, y with
    | .flat x, .flat y => Finder.ofData s x y
    | _, _ => pure (false, {})
  let mut out : List (String × Value) := [("set_data", .bool loaded)]
  let mut f := f
  if let some fitv := opt? req "fit" then
    let fit ← samples fitv
    let bg ← match opt? req "fit_background" with
      | some v => samples v
      | none => pure fit
    let (ok, g) := f.setFit fit bg
    f := g
    out := out ++ [("set_fit", .bool ok)]
  let width := (opt? req "width").getD s.konWidth
  let sigma ← match opt? req "sigma" with
    | some v => number v
    | none => pure (Settings.float s.sigmaSpectrum)
  let (count, g) ← f.findPeaks s width sigma
  f := g
  out := out ++ [("count", .int count), ("finder", finderJson f)]
  if let some v := opt? req "index_of" then
    let vs ← samples v
    out := out ++ [("index_of", Value.ints (vs.toList.map f.indexOf))]
  if let some v := opt? req "clone" then
    let (first, last) ← intPair v
    let c ← f.cloneRange s first last
    out := out ++ [("clone", .obj [("n", .int c.x.size), ("x", Value.floatArray c.x),
      ("y_fit", Value.floatArray c.yFit), ("y_resid", Value.floatArray c.yResid)])]
  return .obj out

end GammaFit.Request
