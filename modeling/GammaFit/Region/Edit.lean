import GammaFit.Region.Fit

/-! # Editing a region

Manual changes to a region: summation peaks over a window of bins, peaks added between two
bins (from the residual, or by widening the range from the whole spectrum), peaks removed or
replaced, edge windows placed or moved, the range changed, and the history rolled back.
After a change of peaks or edges the Hypermet peaks are regressed again when possible, and
otherwise the change is accepted as it stands.
-/

namespace GammaFit

open Search (Finder)

namespace Region

/-- The summation peak over the bins `leftBin … rightBin`, not inserted. -/
def summationPeak (r : Region) (leftBin rightBin : Float) : RegionM (Option Peak) := do
  if r.lb.isNone || r.rb.isNone then return none
  let x := r.finder.x
  let left : Int := Numeric.searchLeft x leftBin
  let right : Int := (Numeric.searchRight x rightBin : Int) - 1
  r.summationPeakAt left right

/-- Insert a summation peak over the bins `leftBin … rightBin`. -/
def addSum4Peak (r : Region) (leftBin rightBin : Float) : RegionM (Bool × Region) := do
  let some p ← r.summationPeak leftBin rightBin | return (false, r)
  let t ← liftOutcome ({ r with peakMap := insertPeak r.peakMap p }.refresh "Summation peak added")
  return (true, t)

/-- Install stored peaks (and a background) without regression. -/
def loadFit (r : Region) (peaks : List Peak) (background : Option Background)
    (description : String) : Outcome Region :=
  let r := match background with
    | some b => { r with background := some b }
    | none => r
  { r with peakMap := peaks.foldl insertPeak [] }.refresh description

/-- Add a peak between two bins of the whole spectrum `parent`. Inside the range a peak from
the residual near the middle is tried first and a summation peak next; bounds beyond the range
widen it from the parent first, with a full automatic fit when the residual gives nothing. -/
def addPeak (r : Region) (parent : Finder) (leftBin rightBin : Float) (interrupted : Bool) :
    RegionM (Bool × Region) := do
  if r.phase == .empty || parent.x.isEmpty || !(leftBin < rightBin) then return (false, r)
  if leftBin < parent.x.getD 0 0.0 || rightBin > parent.x.getD (parent.x.size - 1) 0.0 then
    return (false, r)
  let hint := (leftBin + rightBin) / 2.0
  if r.overlaps leftBin none && r.overlaps rightBin none then
    match ← r.addFromResid (some hint) with
    | some t => return (true, t)
    | none => return ← r.addSum4Peak leftBin rightBin
  let lo := if r.left < leftBin then r.left else leftBin
  let hi := if r.right > rightBin then r.right else rightBin
  let some t ← liftOutcome (r.setRange parent lo hi) | return (false, r)
  let t := (← liftOutcome t.defaultEdges).initBackground
  let (t, _) ← liftOutcome t.cullPeaks
  let t ← liftOutcome t.recompute
  let t ← liftOutcome ({ t with phase := if t.peakMap.isEmpty then .searched else .fitted }.render)
  match ← t.addFromResid (some hint) with
  | some u => return (true, u)
  | none =>
    let (o, u) ← t.autoFit interrupted
    if ← liftOutcome o then return (true, u) else return (false, r)

/-- A refit after a change: regress again, or accept the change as it is. -/
def refitOrRefresh (r : Region) (description : String) : Outcome Region := do
  match ← r.rebuild description with
  | some t => return t
  | none => r.refresh description

/-- Delete peaks by identity and regress the rest; `false` when none belongs here. -/
def removePeaks (r : Region) (ids : List Nat) : Outcome (Bool × Region) := do
  if !ids.any r.contains then return (false, r)
  let t := { r with peakMap := r.peakMap.filter fun (i, _) => !ids.contains i }
  return (true, ← t.refitOrRefresh "Peaks removed")

/-- Replace a peak by an edited one with the same identity; `false` when the identity is
unknown or the new center is outside the edges. -/
def replacePeak (r : Region) (p : Peak) : Outcome (Bool × Region) := do
  if !r.contains p.id then return (false, r)
  if !(← r.insideEdges p.center) then return (false, r)
  return (true, ← { r with peakMap := insertPeak r.peakMap p }.refresh "Peak replaced")

/-- Place both edge windows at windows of bins; backgrounds start again, peaks outside are
culled and the rest await a regression. `false` when a window is empty or they overlap. -/
def setEdges (r : Region) (lbBins rbBins : Float × Float) : Bool × Region :=
  match r.edgeAt lbBins.1 lbBins.2, r.edgeAt rbBins.1 rbBins.2 with
  | some l, some rt =>
    if !(l.stop < rt.start) then (false, r) else
    let t := { r with lb := some l, rb := some rt }.initBackground
    let (t, _) := t.cullWithin l rt
    (true, if t.peakMap.isEmpty then t else { t with phase := .stale })
  | _, _ => (false, r)

/-- Cut the range from the parent at the outer ends of two edge windows, place the windows
and refit. -/
def applyEdges (r : Region) (parent : Finder) (lbBins rbBins : Float × Float)
    (description : String) : Outcome (Bool × Region) := do
  let some t ← r.setRange parent lbBins.1 rbBins.2 | return (false, r)
  let (ok, t) := t.setEdges lbBins rbBins
  if !ok then return (false, r)
  return (true, ← t.refitOrRefresh description)

/-- Move the left edge window to `left … right`; the range starts with it. -/
def adjustLB (r : Region) (parent : Finder) (left right : Float) : Outcome (Bool × Region) := do
  if r.phase == .empty || !(left ≤ right) then return (false, r)
  let some rt := r.rb | return (false, r)
  if right ≥ rt.start then return (false, r)
  r.applyEdges parent (left, right) (rt.start, rt.stop) "Left edge adjusted"

/-- Move the right edge window to `left … right`; the range ends with it. -/
def adjustRB (r : Region) (parent : Finder) (left right : Float) : Outcome (Bool × Region) := do
  if r.phase == .empty || !(left ≤ right) then return (false, r)
  let some l := r.lb | return (false, r)
  if left ≤ l.stop then return (false, r)
  r.applyEdges parent (l.start, l.stop) (left, right) "Right edge adjusted"

/-- Change the range; the edge windows are taken again at the new ends. -/
def adjustBounds (r : Region) (parent : Finder) (left right : Float) :
    Outcome (Bool × Region) := do
  if r.phase == .empty then return (false, r)
  let some t ← r.setRange parent left right | return (false, r)
  let (t, _) ← (← t.defaultEdges).initBackground.cullPeaks
  return (true, ← { t with phase := .stale }.refitOrRefresh "Bounds adjusted")

/-- The region set back to a snapshot and made current as the fit at `index`: edges,
backgrounds, finder and peaks as recorded; the model is not drawn again yet. -/
def restore (r : Region) (snap : Snapshot) (index : Int) : Region :=
  { r with lb := snap.lb, rb := snap.rb, background := snap.background,
           sum4Background := snap.sum4Background, finder := snap.finder,
           peakMap := snap.peaks.foldl insertPeak [], currentFit := index,
           phase := if snap.peaks.isEmpty then .searched else .fitted }

/-- Restore a snapshot of the history verbatim and make it current; `false` when the index is
out of range. -/
def rollback (r : Region) (index : Int) : Outcome (Bool × Region) := do
  if !(0 ≤ index ∧ index < r.history.size) then return (false, r)
  return (true, ← (r.restore (r.history.getD index.toNat default) index).render)

end Region

end GammaFit
