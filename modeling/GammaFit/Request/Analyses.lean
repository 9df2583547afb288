import GammaFit.Request.Regions
import GammaFit.Analysis.Document
import GammaFit.Report.Text
import GammaFit.Report.Export

/-!
# Requests on a whole spectrum

A `fitter` request starts an analysis without a spectrum and runs a list of steps on it, each
answered with its result and the analysis's state after it. As for regions, a failing step is
answered with its failure and the following steps run on.
-/

namespace GammaFit.Request

open Json

/-- The state of an analysis: the size and ends of its spectrum, the total count, its regions
by first bin, and the identities of its peaks by energy. -/
def analysisState (a : Analysis) : Value :=
  let x := a.finder.x
  let fin := if x.isEmpty then Value.null else .num (x.getD (x.size - 1) 0.0)
  .obj [("n", .int x.size), ("first", if x.isEmpty then .null else .num (x.getD 0 0.0)),
    ("last", fin), ("total_count", .num a.totalCount),
    ("regions", .arr (a.regions.map regionState)),
    ("peak_order", Value.nats (a.peaks.map (·.id)))]

/-- The region a step names: by its first bin `key`, or by position `region` among the regions
by first bin (negative positions count from the end); a position outside names no region. -/
def regionKey (a : Analysis) (step : Value) : Outcome Float := do
  match opt? step "key" with
  | some v => number v
  | none =>
    let i ← integer (← arg step "region")
    let rs := a.regions
    let n : Int := rs.length
    let k := if i < 0 then i + n else i
    if 0 ≤ k ∧ k < n then return (rs.getD k.toNat default).left else return 0.0 / 0.0

/-- The search state of the spectrum's finder. -/
def spectrumSearchJson (a : Analysis) : Value :=
  let f := a.finder
  .obj [("n", .int f.x.size), ("prelim", Value.nats f.prelim.toList),
    ("filtered", Value.nats f.filtered.toList), ("lefts", Value.nats f.lefts.toList),
    ("rights", Value.nats f.rights.toList), ("fw_theoretical_bin", Value.floatArray f.fwTheoretical)]

/-- Run one step on an analysis: the step's result and the analysis after it. A step that
fails before it changes the analysis fails; a search for regions that fails once it has begun
answers with the failure and the analysis as far as it got. -/
def analysisStep (a : Analysis) (step : Value) : RegionM (Outcome Value × Analysis) := do
  let lift {α : Type} (o : Outcome α) : RegionM α := liftOutcome o
  let num (key : String) : RegionM Float := lift (do number (← arg step key))
  let name := match step.get? "do" with
    | some (.str s) => s
    | some v => shown v
    | none => "None"
  let flagged (ok : Bool × Analysis) : Outcome Value × Analysis := (.ok (.bool ok.1), ok.2)
  let adjusting (edit : Analysis.RangeEdit) : RegionM (Outcome Value × Analysis) := do
    let key ← lift (regionKey a step)
    let l ← num "left"
    let rt ← num "right"
    return flagged (← lift (a.adjust key edit l rt))
  match name with
  | "set_data" =>
    let x ← lift (do shapedSamples (← arg step "x"))
    let y ← lift (do shapedSamples (← arg step "y"))
    let field (key : String) (dflt : Value) := (opt? step key).getD dflt
    match x, y with
    | .flat x, .flat y =>
      return flagged (← lift (a.setData x y (field "bits" (.int 0)) (field "live_time" (.num 0.0))
        (field "real_time" (.num 0.0)) (field "name" (.str ""))))
    | _, _ => return (.ok (.bool false), a)
  | "find_regions" =>
    match a.findRegions with
    | .ok (n, t) => return (.ok (.int n), t)
    | .error (e, t) => return (.error e, t)
  | "auto_fit_regions" =>
    let (n, t) ← a.autoFitRegions (switch step "interrupt")
    return (.ok (.int n), t)
  | "add_peak" =>
    let l ← num "left"
    let rt ← num "right"
    return flagged (← a.addPeak l rt false)
  | "remove_peaks" =>
    let ids ← lift (namedPeaks step a.peaks)
    let ids := ids.filterMap fun i => if i < 0 then none else some i.toNat
    return flagged (← lift (a.removePeaks ids))
  | "replace_peak" =>
    let p ← lift (editedPeak (fun id => a.peaks.find? (·.id == id)) step)
    return flagged (← lift (a.replacePeak p))
  | "adjust_LB" => adjusting .leftEdge
  | "adjust_RB" => adjusting .rightEdge
  | "adjust_bounds" => adjusting .bounds
  | "delete_roi" =>
    let key ← lift (regionKey a step)
    return flagged (a.deleteRegion key)
  | "parent_of" =>
    let id ← lift (do integer (← arg step "id"))
    let parent := if id < 0 then none else a.parentOf id.toNat
    return (.ok (match parent with
      | some (_, r) => .num r.left
      | none => .null), a)
  | "apply_settings" =>
    let s ← lift (do Settings.ofJson (← arg step "settings"))
    let t ← lift (a.applySettings s)
    return (.ok (spectrumSearchJson t), t)
  | "clear" => return (.ok .null, a.clear)
  | "table" => return (.ok (peakTableJson a.peaks), a)
  | "report" => return (.ok (.str (← lift (analysisReport a))), a)
  | "export" =>
    let ext := match opt? step "ext" with
      | some v => plainText v
      | none => ".csv"
    let format := match opt? step "format" with
      | some v => plainText v
      | none => "auto"
    return (.ok (.str (← lift (exportTable a.peaks ("export" ++ ext) format))), a)
  | "to_dict" => return (.ok (← lift a.toDocument), a)
  | "reload" =>
    let doc ← match opt? step "doc" with
      | some d => if d.truthy then pure d else lift a.toDocument
      | none => lift a.toDocument
    return (.ok (.bool true), ← Analysis.ofDocument doc)
  | "save_load" =>
    let doc ← lift a.toDocument
    return (.ok (.bool true), ← Analysis.ofDocument doc)
  | other => throw (.badRequest ("unknown step: " ++ other))

/-- Run the steps in order, each answered with its result (or failure) and the state after
it; peak identities are handed out from `next` on. A refused step refuses them all. -/
def analysisSteps (steps : List Value) (a : Analysis) (next : Nat) : Outcome (List Value) :=
  match steps with
  | [] => .ok []
  | step :: rest =>
    let (result, next) := (analysisStep a step).run.run next
    let failed (e : Failure) (t : Analysis) : Outcome (List Value) :=
      if Failure.refused e then .error e else do
        let tail ← analysisSteps rest t next
        return .obj [("error", .str e.kindName), ("message", .str e.message),
          ("fitter", analysisState t)] :: tail
    match result with
    | .ok (.ok v, t) => do
      let tail ← analysisSteps rest t next
      return .obj [("result", v), ("fitter", analysisState t)] :: tail
    | .ok (.error e, t) => failed e t
    | .error e => failed e a

/-- An analysis driven through a list of steps. -/
def analysis (req : Value) : Outcome Value := do
  let s ← settingsOf req
  let steps := match ← arg req "ops" with
    | .arr items => items
    | _ => []
  let answers ← analysisSteps steps (Analysis.new s) 1
  return .obj [("steps", .arr answers)]

end GammaFit.Request
