import GammaFit.Request.Search
import GammaFit.Request.Basic
import GammaFit.Region.Document

/-!
# Requests on a region

A `roi` request builds a finder over the whole spectrum, starts an empty region, and runs a
list of steps on it, each answered with its result and the region's state after it. A step
that fails is answered with its failure and the state, and the next steps run on; a refused
request in a step refuses the whole request.
-/

namespace GammaFit.Request

open Json
open Search (Finder)

/-- The state of a region: phase, range, edges, backgrounds, peaks, history and the last
candidate search. -/
def regionState (r : Region) : Value :=
  let f := r.finder
  .obj [("state", .str r.phase.name), ("left", .num r.left), ("right", .num r.right),
    ("n", .int f.x.size), ("LB", edgeJson r.lb), ("RB", edgeJson r.rb),
    ("background", backgroundJson r.background),
    ("sum4_background", backgroundJson r.sum4Background),
    ("peaks", .arr (r.peaks.map Peak.toJson)),
    ("history", Value.strs (r.history.toList.map (·.description))),
    ("current_fit", .int r.currentFit), ("description", .str r.description),
    ("rsq", .num r.rsq), ("filtered", Value.nats f.filtered.toList),
    ("lefts", Value.nats f.lefts.toList), ("rights", Value.nats f.rights.toList)]

/-- The rendered model of a region with the finder's model, background and residual. -/
def renderingJson (r : Region) : Value :=
  let g := r.rendering
  let f := r.finder
  .obj [("hr_x", Value.floatArray g.hrX), ("hr_x_energy", Value.floatArray g.hrXEnergy),
    ("hr_background", Value.floatArray g.hrBackground),
    ("hr_back_steps", Value.floatArray g.hrBackSteps),
    ("hr_fullfit", Value.floatArray g.hrFullfit), ("y_fit", Value.floatArray f.yFit),
    ("y_background", Value.floatArray f.yBackground), ("y_resid", Value.floatArray f.yResid)]

/-- A refused request inside a step refuses the whole request; other failures belong to the
step. -/
def Failure.refused : Failure → Bool
  | .badRequest _ => true
  | _ => false

/-- A truth-valued step argument; absent means false. -/
def switch (step : Value) (key : String) : Bool := (opt? step key).any flag

/-- The peak identities a removal names: `ids`, or positions `indices` in the list by center
(negative positions count from the end; a position outside the list names no peak). -/
def namedPeaks (step : Value) (peaks : List Peak) : Outcome (List Int) := do
  match opt? step "ids" with
  | some (.arr ids) => ids.mapM integer
  | some v => return [← integer v]
  | none =>
    match opt? step "indices" with
    | some (.arr idx) =>
      idx.mapM fun v => do
        let i ← integer v
        let n : Int := peaks.length
        let k := if i < 0 then i + n else i
        if 0 ≤ k ∧ k < n then
          return ((peaks.getD k.toNat default).id : Int)
        else return -1
    | _ => return []

/-- The edited peak of a replacement: a copy of the peak with identity `id` as `lookup` finds
it (an empty peak when there is none), its Hypermet shape dropped when asked, and the named
parameters set. -/
def editedPeak (lookup : Nat → Option Peak) (step : Value) : Outcome Peak := do
  let id ← integer (← arg step "id")
  let base : Peak := if id < 0 then { id := 0 } else (lookup id.toNat).getD { id := id.toNat }
  let mut p := if switch step "drop_hypermet" then { base with hypermet := none } else base
  match opt? step "set" with
  | some (.obj fields) =>
    for (name, v) in fields do
      let x ← number v
      match p.hypermet with
      | none => throw (.noAttribute ("'NoneType' object has no attribute " ++ quoteName name))
      | some h =>
        match h.allParams.find? (·.name == name) with
        | some q => p := { p with hypermet := some (h.setParam { q with value := x }) }
        | none => throw (.noAttribute ("'Hypermet' object has no attribute " ++ quoteName name))
  | _ => pure ()
  return p

/-- Run one step on a region with the spectrum's finder: the step's result and the region
after it. A step that fails before it changes the region fails; new data that fails once the
region has taken it, and peaks from the residual that fail once some are added or an automatic
fit is recorded, answer with the failure and the region as far as it got. -/
def regionStep (parent : Finder) (r : Region) (step : Value) : RegionM (Outcome Value × Region) := do
  let lift {α : Type} (o : Outcome α) : RegionM α := liftOutcome o
  let num (key : String) : RegionM Float := lift (do number (← arg step key))
  let name := match step.get? "do" with
    | some (.str s) => s
    | some v => shown v
    | none => "None"
  let flagged (ok : Bool × Region) : Outcome Value × Region := (.ok (.bool ok.1), ok.2)
  match name with
  | "set_data" =>
    let lo ← num "min"
    let hi ← num "max"
    match r.setData parent.x parent.y lo hi with
    | .ok (some t) => return (.ok (.bool true), t)
    | .ok none => return (.ok (.bool false), r)
    | .error (e, t) => return (.error e, t)
  | "auto_fit" =>
    let (o, t) ← r.autoFit (switch step "interrupt")
    return (o.map .bool, t)
  | "iterative_fit" =>
    let (o, t) ← r.iterativeFit (switch step "interrupt")
    return (o.map fun n => .int n, t)
  | "add_from_resid" =>
    let hint ← match opt? step "hint" with
      | some v => some <$> lift (number v)
      | none => pure none
    match ← r.addFromResid hint with
    | some t => return (.ok (.bool true), t)
    | none => return (.ok (.bool false), r)
  | "add_peak" =>
    let l ← num "left"
    let rt ← num "right"
    return flagged (← r.addPeak parent l rt false)
  | "add_sum4_peak" =>
    let l ← num "left"
    let rt ← num "right"
    return flagged (← r.addSum4Peak l rt)
  | "summation_peak" =>
    let l ← num "left"
    let rt ← num "right"
    let p ← r.summationPeak l rt
    return (.ok (Value.opt Summation.toJson (p.bind (·.sum4))), r)
  | "remove_peaks" =>
    let ids ← lift (namedPeaks step r.peaks)
    let ids := ids.filterMap fun i => if i < 0 then none else some i.toNat
    return flagged (← lift (r.removePeaks ids))
  | "replace_peak" =>
    let p ← lift (editedPeak r.peak? step)
    return flagged (← lift (r.replacePeak p))
  | "rebuild" =>
    let description := match opt? step "description" with
      | some (.str s) => s
      | some v => shown v
      | none => "Rebuild"
    match ← lift (r.rebuild description) with
    | some t => return (.ok (.bool true), t)
    | none => return (.ok (.bool false), r)
  | "rollback" =>
    let i ← lift (do integer (← arg step "index"))
    return flagged (← lift (r.rollback i))
  | "cull_peaks" =>
    let (t, n) ← lift r.cullPeaks
    return (.ok (.int n), t)
  | "set_edges" =>
    let lb ← lift (do numberPair (← arg step "lb"))
    let rb ← lift (do numberPair (← arg step "rb"))
    return flagged (r.setEdges lb rb)
  | "adjust_LB" =>
    let l ← num "left"
    let rt ← num "right"
    return flagged (← lift (r.adjustLB parent l rt))
  | "adjust_RB" =>
    let l ← num "left"
    let rt ← num "right"
    return flagged (← lift (r.adjustRB parent l rt))
  | "adjust_bounds" =>
    let l ← num "left"
    let rt ← num "right"
    return flagged (← lift (r.adjustBounds parent l rt))
  | "overlaps" =>
    let l ← num "left"
    let rt ← match opt? step "right" with
      | some v => some <$> lift (number v)
      | none => pure none
    return (.ok (.bool (r.overlaps l rt)), r)
  | "render" =>
    let t ← lift r.render
    return (.ok (renderingJson t), t)
  | "to_dict" => return (.ok (← lift (r.toDocument (switch step "include_settings"))), r)
  | "reload" =>
    let doc ← match opt? step "doc" with
      | some d => if d.truthy then pure d else lift (r.toDocument (switch step "include_settings"))
      | none => lift (r.toDocument (switch step "include_settings"))
    match ← Region.ofDocument doc parent r.settings with
    | some t => return (.ok (.bool true), t)
    | none => return (.ok (.bool false), r)
  | other => throw (.badRequest ("unknown step: " ++ other))

/-- Run the steps in order, each answered with its result (or failure) and the state after
it; peak identities are handed out from `next` on. A refused step refuses them all. -/
def regionSteps (parent : Finder) (steps : List Value) (r : Region) (next : Nat) :
    Outcome (List Value) :=
  match steps with
  | [] => .ok []
  | step :: rest =>
    let (result, next) := (regionStep parent r step).run.run next
    let failed (e : Failure) (t : Region) : Outcome (List Value) :=
      if Failure.refused e then .error e else do
        let tail ← regionSteps parent rest t next
        return .obj [("error", .str e.kindName), ("message", .str e.message),
          ("roi", regionState t)] :: tail
    match result with
    | .ok (.ok v, t) => do
      let tail ← regionSteps parent rest t next
      return .obj [("result", v), ("roi", regionState t)] :: tail
    | .ok (.error e, t) => failed e t
    | .error e => failed e r

/-- A region driven through a list of steps over a whole spectrum. -/
def region (req : Value) : Outcome Value := do
  let s ← settingsOf req
  let x ← samples (← arg req "x")
  let y ← samples (← arg req "y")
  let (_, parent) ← Finder.ofData s x y
  let steps := match ← arg req "ops" with
    | .arr items => items
    | _ => []
  let answers ← regionSteps parent steps (Region.new s) 1
  return .obj [("steps", .arr answers)]

end GammaFit.Request
