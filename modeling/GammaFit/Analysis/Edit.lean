import GammaFit.Analysis.Basic

/-!
# Editing an analysis

Manual edits are routed to the region they concern and applied to a copy of it, which
replaces the region only when the edit succeeds and the changed region does not overlap a
neighbour. A peak added away from every region gets a region of its own. Fitting all regions
fits each one in turn, by first bin.
-/

namespace GammaFit

namespace Analysis

/-- The index range of a new region over `[leftBin, rightBin]`: the bins in it, or, when they
are too few for two edge windows, widened by one edge window on each side without reaching
past the spectrum's ends or into a neighbouring region. -/
def newRegionRange (a : Analysis) (leftBin rightBin : Float) : Int × Int :=
  let x := a.finder.x
  let first : Int := Numeric.searchLeft x leftBin
  let last : Int := (Numeric.searchRight x rightBin : Int) - 1
  let samples := Settings.count a.settings.edgeSamples
  if last - first + 1 ≥ 2 * samples + 1 then (first, last) else
  let (lower, upper) := a.regionMap.foldl (fun (lo, up) (_, o) =>
      if o.right < leftBin then (max lo (Numeric.searchRight x o.right : Int), up)
      else if o.left > rightBin then (lo, min up ((Numeric.searchLeft x o.left : Int) - 1))
      else (lo, up))
    ((0 : Int), (x.size : Int) - 1)
  (max lower (first - samples), min upper (last + samples))

/-- Add a peak between two bins: through the first region (by first bin) that the bounds
overlap, or in a new region automatically fitted, with a summation peak over the bounds when
that finds nothing. -/
def addPeak (a : Analysis) (leftBin rightBin : Float) (interrupted : Bool) :
    RegionM (Bool × Analysis) := do
  if a.finder.x.isEmpty || !(leftBin < rightBin) then return (false, a)
  match a.regions.find? (·.overlaps leftBin (some rightBin)) with
  | some r =>
    let (ok, t) ← r.addPeak a.finder leftBin rightBin interrupted
    if !ok || a.overlapsOthers t (some r.left) then return (false, a)
    return (true, a.replaceRegion (some r.left) t)
  | none =>
    let (first, last) := a.newRegionRange leftBin rightBin
    if last ≤ first then return (false, a)
    let x := a.finder.x
    let some r ← liftOutcome (Region.ofRange a.settings x a.finder.y (atIndex x first) (atIndex x last))
      | return (false, a)
    let (o, r) ← r.autoFit interrupted
    let r ← if ← liftOutcome o then pure r else do
      let (_, t) ← r.addSum4Peak leftBin rightBin
      pure t
    return (true, a.replaceRegion none r)

/-- Delete peaks by identity from every region holding one; `false` when none was removed. -/
def removePeaks (a : Analysis) (ids : List Nat) : Outcome (Bool × Analysis) := do
  let mut current := a
  let mut removed := false
  for r in a.regions do
    if ids.any r.contains then
      let (ok, t) ← r.removePeaks ids
      if ok then
        current := current.replaceRegion (some r.left) t
        removed := true
  return (removed, current)

/-- Replace a peak by an edited one with the same identity, in the region holding it. -/
def replacePeak (a : Analysis) (p : Peak) : Outcome (Bool × Analysis) := do
  let some (key, r) := a.parentOf p.id | return (false, a)
  let (ok, t) ← r.replacePeak p
  if !ok then return (false, a)
  return (true, a.replaceRegion (some key) t)

/-- An edge or range change of one region. -/
inductive RangeEdit where
  | leftEdge
  | rightEdge
  | bounds

/-- Apply a range change to the region under `key`; `false` when there is no such region,
the change fails, or the changed region overlaps a neighbour. -/
def adjust (a : Analysis) (key : Float) (edit : RangeEdit) (leftBin rightBin : Float) :
    Outcome (Bool × Analysis) := do
  let some r := a.region? key | return (false, a)
  let (ok, t) ← match edit with
    | .leftEdge => r.adjustLB a.finder leftBin rightBin
    | .rightEdge => r.adjustRB a.finder leftBin rightBin
    | .bounds => r.adjustBounds a.finder leftBin rightBin
  if !ok || a.overlapsOthers t (some r.left) then return (false, a)
  return (true, a.replaceRegion (some r.left) t)

/-- Fit every region automatically, by first bin; returns how many hold peaks afterwards. An
interruption leaves the regions as they are. -/
def autoFitRegions (a : Analysis) (interrupted : Bool) : RegionM (Nat × Analysis) := do
  let mut current := a
  let mut count := 0
  for r in a.regions do
    let t ← if interrupted then pure r else do
      let (o, t) ← r.autoFit interrupted
      let _ ← liftOutcome o
      pure t
    current := current.replaceRegion (some r.left) t
    if !t.peakMap.isEmpty then count := count + 1
  return (count, current)

end Analysis

end GammaFit
