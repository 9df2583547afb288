import GammaFit.Region.Edit

/-!
# Stored regions

A region is stored as a document holding the bin bounds of its two edge windows, its
regression background, the description of its current fit and its peaks: each peak by its
center and energy, with the window of its summation integral or its Hypermet shape.

Reading a document rebuilds the region against the whole spectrum: the range runs from the
left edge's first bin to the right edge's last, the edges are placed again, and the stored
background and peaks are installed without regression. A summation peak is integrated again
over its stored window. A stored peak or background that cannot be read is skipped; a
document whose edges cannot be read, or are not covered by the spectrum, gives no region.
-/

namespace GammaFit

open Json
open Search (Finder)

namespace Region

/-- The document of a peak: center and energy, with its summation window or Hypermet shape. -/
def peakDocument (p : Peak) : Value :=
  .obj ([("center", .num p.center), ("energy", .num p.energy)] ++
    (match p.sum4 with
      | some s => [("sum4", .obj [("left", .num s.leftBin), ("right", .num s.rightBin)])]
      | none => []) ++
    (match p.hypermet with
      | some h => [("hypermet", h.toJson)]
      | none => []))

/-- The failure of asking a missing edge window for its document. -/
def missingEdge : Failure := .noAttribute "'NoneType' object has no attribute 'to_dict'"

/-- The document of a region, with its settings when asked; a region without edge windows has
none. -/
def toDocument (r : Region) (withSettings : Bool) : Outcome Value := do
  let some l := r.lb | throw missingEdge
  let some rt := r.rb | throw missingEdge
  let fields := [("LB", l.boundsJson), ("RB", rt.boundsJson),
    ("background", Value.opt Background.toJson r.background),
    ("description", .str r.description), ("peaks", .arr (r.peaks.map peakDocument))]
  return .obj (if withSettings then fields ++ [("settings", r.settings.toJson)] else fields)

/-- Whether a failure is one of those that make a stored part unreadable (a missing field, a
value of the wrong type or outside its domain) rather than a fault to report. -/
def Failure.unreadable : Failure → Bool
  | .invalid _ | .missingKey _ | .wrongType _ | .noAttribute _ => true
  | _ => false

/-- Read a stored part: `none` when it is unreadable, other failures passed on. -/
def readable {α : Type} (o : Outcome α) : Outcome (Option α) :=
  match o with
  | .ok a => .ok (some a)
  | .error e => if Failure.unreadable e then .ok none else .error e

/-- The failure of subscripting a value that is not a document. -/
def notSubscriptable (v : Value) : Failure :=
  .wrongType ("'" ++ v.typeName ++ "' object is not subscriptable")

/-- The field of a document, as subscripting reads it. -/
def entry (v : Value) (key : String) : Outcome Value :=
  match v with
  | .obj _ => v.field key
  | .str _ | .arr _ => .error (.wrongType "string indices must be integers")
  | _ => .error (notSubscriptable v)

/-- The bin bounds `left`, `right` of a stored edge window. -/
def boundsOf (doc : Value) (key : String) : Outcome (Float × Float) := do
  let w ← entry doc key
  let l ← (← entry w "left").toFloat
  let r ← (← entry w "right").toFloat
  return (l, r)

/-- A stored background; `none` when it cannot be read. A value that is not a document has
no fields to look up, which is a fault. -/
def storedBackground (v : Value) : Outcome (Option Background) :=
  match v with
  | .obj _ =>
    match v.get? "coefficients" with
    | none | some (.arr _) => readable (Background.ofJson v)
    | some (.str "") | some (.obj []) => readable (Background.ofJson (.obj [("xoffset", v.fieldD "xoffset" (.num 0.0))]))
    | some _ => .ok none
  | _ => .error (.noAttribute ("'" ++ v.typeName ++ "' object has no attribute 'get'"))

/-- One stored peak against the region being rebuilt: a Hypermet peak takes a fresh
identity before its shape is read; a summation peak is integrated again over its window and
takes an identity only when that succeeds. -/
def storedPeak (r : Region) (e : Value) : RegionM (Option Peak) := do
  match e with
  | .obj _ =>
    let hyp := e.fieldD "hypermet" .null
    if hyp.truthy then
      let id ← nextPeakId
      let h? ← liftOutcome (readable (Hypermet.ofJson hyp r.settings))
      return h?.map fun h => { id, hypermet := some h }
    else
      let some bins ← liftOutcome (readable (boundsOf e "sum4")) | return none
      r.summationPeak bins.1 bins.2
  | _ => return none

/-- The region a document describes over the whole spectrum `parent`, or `none` when its
edges cannot be read, are not covered by the spectrum, or cannot be placed. The document's
own settings, when it has them, replace `settings`. -/
def ofDocument (doc : Value) (parent : Finder) (settings : Settings) : RegionM (Option Region) := do
  match doc with
  | .obj _ => pure ()
  | .str _ | .arr _ | .null => return none
  | v => throw (.wrongType ("argument of type '" ++ v.typeName ++ "' is not iterable"))
  let settings ← match doc.get? "settings" with
    | some d => liftOutcome (Settings.ofJson d)
    | none => pure settings
  let some lbBins ← liftOutcome (readable (boundsOf doc "LB")) | return none
  let some rbBins ← liftOutcome (readable (boundsOf doc "RB")) | return none
  if parent.x.isEmpty || lbBins.1 < parent.x.getD 0 0.0 ||
      rbBins.2 > parent.x.getD (parent.x.size - 1) 0.0 then return none
  let some r ← liftOutcome (Region.ofRange settings parent.x parent.y lbBins.1 rbBins.2)
    | return none
  let (ok, r) := r.setEdges lbBins rbBins
  if !ok then return none
  let stored := doc.fieldD "background" .null
  let background ← if stored.truthy then liftOutcome (storedBackground stored) else pure none
  let entries ← match doc.fieldD "peaks" (.arr []) with
    | .arr items => pure items
    | .obj fields => pure (fields.map fun (k, _) => Value.str k)
    | .str s => pure (s.toList.map fun c => Value.str c.toString)
    | v => throw (.wrongType ("'" ++ v.typeName ++ "' object is not iterable"))
  let mut peaks : List Peak := []
  for e in entries do
    if let some p ← r.storedPeak e then
      peaks := peaks ++ [p]
  let description := match doc.fieldD "description" .null with
    | .str s => if s.isEmpty then "Loaded" else s
    | _ => "Loaded"
  liftOutcome (r.loadFit peaks background description)

end Region

end GammaFit
