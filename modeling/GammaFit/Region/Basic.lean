import GammaFit.Region.Peak
import GammaFit.Search.Finder

/-! # Regions of interest

A region is a contiguous range of a spectrum fitted as one unit. It holds a finder over its
range (the data, the current model and the last candidate search), two background edge windows
at its ends, a regression background and a summation background between them, its peaks, and
a history of accepted fits.

A region is `empty` until it is given data, `searched` while it has no peaks, `fitted` with
peaks, and `stale` when its edges moved and the peaks await a new regression. Peaks are kept
in the order they were added and listed by center.

This module holds the region's state, its queries, the setup of its range and edges, the
upkeep of its peaks (integrals, energies, rates) and the rendering of its model.
-/

namespace GammaFit

open Search (Finder)

/-- The phases of a region. -/
inductive Phase where
  | empty
  | searched
  | fitted
  | stale
deriving DecidableEq, Inhabited

/-- The name of a phase. -/
def Phase.name : Phase → String
  | .empty => "empty"
  | .searched => "searched"
  | .fitted => "fitted"
  | .stale => "stale"

/-- An accepted state of a region, kept in its history. -/
structure Snapshot where
  lb : Option Edge
  rb : Option Edge
  background : Option Background
  sum4Background : Option Background
  peaks : List Peak
  finder : Finder
  description : String
  rsq : Float
deriving Inhabited

/-- The model on a grid of quarter bins: the bins (and their energies), the background, the
background with the peaks' steps and tails, and the whole model. -/
structure Rendering where
  hrX : Array Float := #[]
  hrXEnergy : Array Float := #[]
  hrBackground : Array Float := #[]
  hrBackSteps : Array Float := #[]
  hrFullfit : Array Float := #[]
deriving Inhabited

/-- A region of interest. -/
structure Region where
  settings : Settings
  finder : Finder := {}
  lb : Option Edge := none
  rb : Option Edge := none
  background : Option Background := none
  sum4Background : Option Background := none
  /-- The peaks by identity, in the order they were added. -/
  peakMap : List (Nat × Peak) := []
  history : Array Snapshot := #[]
  currentFit : Int := -1
  phase : Phase := .empty
  rendering : Rendering := {}
deriving Inhabited

/-- Computations on regions: they may fail, and they hand out peak identities from a counter
that survives failures. -/
abbrev RegionM := ExceptT Failure (StateM Nat)

/-- A fresh peak identity. -/
def nextPeakId : RegionM Nat := do
  let n ← get
  set (n + 1)
  pure n

/-- Lift a computation that may fail. -/
def liftOutcome {α : Type} (o : Outcome α) : RegionM α :=
  match o with
  | .ok a => pure a
  | .error e => throw e

/-- Run a computation with its failure kept as a value; the identities it handed out stay
handed out. -/
def attempt {α : Type} (m : RegionM α) : RegionM (Outcome α) :=
  ExceptT.lift m.run

/-- A setting as a double. -/
abbrev setting (v : Json.Value) : Float := Settings.float v

/-- Put a peak under its identity: in place when the identity is present, else last. -/
def insertPeak (m : List (Nat × Peak)) (p : Peak) : List (Nat × Peak) :=
  if m.any (·.1 == p.id) then m.map fun (i, q) => if i == p.id then (i, p) else (i, q)
  else m ++ [(p.id, p)]

/-- Peaks listed by center, peaks with equal centers in the order they were added. -/
def byCenter (ps : List Peak) : List Peak :=
  ps.mergeSort fun a b => !(b.center < a.center)

namespace Region

/-- The empty region with the given settings. -/
def new (s : Settings) : Region := { settings := s }

/-- The peaks by center. -/
def peaks (r : Region) : List Peak := byCenter (r.peakMap.map (·.2))

/-- The peak with an identity. -/
def peak? (r : Region) (id : Nat) : Option Peak := (r.peakMap.find? (·.1 == id)).map (·.2)

/-- Whether a peak with this identity belongs to the region. -/
def contains (r : Region) (id : Nat) : Bool := r.peakMap.any (·.1 == id)

/-- The first bin, NaN for an empty region. -/
def left (r : Region) : Float := if r.finder.x.isEmpty then 0.0 / 0.0 else r.finder.x.getD 0 0.0

/-- The last bin, NaN for an empty region. -/
def right (r : Region) : Float :=
  if r.finder.x.isEmpty then 0.0 / 0.0 else r.finder.x.getD (r.finder.x.size - 1) 0.0

/-- Whether a bin, or any part of `[left, right]`, lies in the region. -/
def overlaps (r : Region) (left : Float) (right : Option Float) : Bool :=
  if r.finder.x.isEmpty then false else
  match right with
  | none => r.left ≤ left && left ≤ r.right
  | some rt => left ≤ r.right && rt ≥ r.left

/-- The peaks with a Hypermet shape, by center. -/
def parametric (r : Region) : List Peak := r.peaks.filter (·.hypermet.isSome)

/-- R² of the first peak with a Hypermet shape, NaN when there is none. -/
def rsq (r : Region) : Float :=
  match r.parametric.head? >>= (·.hypermet) with
  | some h => h.rsq
  | none => 0.0 / 0.0

/-- The description of the current fit, empty when there is none. -/
def description (r : Region) : String :=
  if 0 ≤ r.currentFit ∧ r.currentFit < r.history.size then
    (r.history.getD r.currentFit.toNat default).description
  else ""

/-- The window over bins `start … stop` of the region. -/
def edgeAt (r : Region) (start stop : Float) : Option Edge :=
  let x := r.finder.x
  let first : Int := Numeric.searchLeft x start
  let last : Int := (Numeric.searchRight x stop : Int) - 1
  Edge.ofSamples? x r.finder.y first last

/-- The number of samples of an edge window. -/
def edgeSamples (r : Region) : Int := Settings.count r.settings.edgeSamples

/-- Whether `bins` bins are too few for two edge windows and a bin between them, that is
`bins < 2k + 1` for `k` samples: exactly for a whole count, in doubles for a count given as a
double. -/
def tooFewBins (r : Region) (bins : Int) : Bool :=
  match r.settings.edgeSamples with
  | .num k => Float.ofInt bins < 2.0 * k + 1.0
  | _ => bins < 2 * r.edgeSamples + 1

/-- Both edge windows at the ends of the range. A count of samples given as a double cannot
index the samples: it is refused, unless the windows' bounds fall outside the range before any
sample is taken, which leaves both windows out. -/
def defaultEdges (r : Region) : Outcome Region := do
  let x := r.finder.x
  let y := r.finder.y
  let n : Int := x.size
  match r.settings.edgeSamples with
  | .num k =>
    if x.size != y.size || 0.0 > k - 1.0 || k - 1.0 ≥ Float.ofNat y.size then
      return { r with lb := none, rb := none }
    throw (.wrongType "slice indices must be integers or None or have an __index__ method")
  | _ =>
    let k := r.edgeSamples
    return { r with lb := Edge.ofSamples? x y 0 (k - 1), rb := Edge.ofSamples? x y (n - k) (n - 1) }

/-- Both backgrounds through the edge windows. -/
def initBackground (r : Region) : Region :=
  match r.lb, r.rb with
  | some l, some rt =>
    { r with background := Background.regression l rt, sum4Background := Background.summation l rt }
  | _, _ => { r with background := none, sum4Background := none }

/-- A new range `left … right` cut from the parent spectrum, peaks kept; `none` when the range
is inverted or too short for two edge windows. -/
def setRange (r : Region) (parent : Finder) (left right : Float) : Outcome (Option Region) := do
  if parent.x.isEmpty || left ≥ right then return none
  let first : Int := Numeric.searchLeft parent.x left
  let last : Int := (Numeric.searchRight parent.x right : Int) - 1
  if r.tooFewBins (last - first + 1) then return none
  let f ← Finder.cloneRange r.settings parent first last
  if f.x.isEmpty then return none
  return some { r with finder := f }

/-- Whether a position lies strictly between two edge windows: past the last sample of the left
one and before the first sample of the right one. -/
def encloses (l rt : Edge) (center : Float) : Bool :=
  l.stop < center && center < rt.start

/-- The left edge window, or the failure of asking a missing one for its `field`. -/
def leftEdge (r : Region) (field : String) : Outcome Edge :=
  match r.lb with
  | some l => .ok l
  | none => .error (.noAttribute ("'NoneType' object has no attribute " ++ quoteName field))

/-- The right edge window, or the failure of asking a missing one for its `field`. -/
def rightEdge (r : Region) (field : String) : Outcome Edge :=
  match r.rb with
  | some rt => .ok rt
  | none => .error (.noAttribute ("'NoneType' object has no attribute " ++ quoteName field))

/-- Whether a position lies strictly between the region's edge windows. The left window is asked
for its end first, and the right one for its start only past it; a missing window has neither. -/
def insideEdges (r : Region) (center : Float) : Outcome Bool := do
  let l ← r.leftEdge "end"
  if l.stop < center then
    let rt ← r.rightEdge "start"
    return center < rt.start
  else return false

/-- The value of the energy calibration at a bin, when it is valid. -/
def energyOf (r : Region) (x : Float) : Outcome (Option Float) :=
  match r.settings.calibration with
  | some c => if c.valid then some <$> c.transform x else pure none
  | none => pure none

/-- A peak's summation integral over the region: around the Hypermet center, none unless both
edge windows and the summation background are there; or, for a summation peak, over its own
window kept between the edges, which must be there to keep it so. -/
def sum4Of (r : Region) (p : Peak) : Outcome (Option Summation) := do
  let f := r.finder
  match p.hypermet, p.sum4 with
  | some h, _ =>
    match r.sum4Background, r.lb, r.rb with
    | some b, some l, some rt =>
      return Summation.around? f.x f.y h.center.value h.fwhm b l rt (setting r.settings.sum4Factor)
    | _, _, _ => return none
  | none, some s =>
    let first : Int := Numeric.searchLeft f.x s.leftBin
    let last : Int := (Numeric.searchRight f.x s.rightBin : Int) - 1
    let l ← r.leftEdge "last"
    let rt ← r.rightEdge "first"
    match r.sum4Background with
    | some b =>
      return Summation.ofCounts? f.x f.y (max first (l.last + 1)) (min last ((rt.first : Int) - 1))
        b l rt
    | none => return none
  | none, none => return none

/-- A peak's energy and energy width (through the calibration, when it is valid) and its count
rates, from its results. -/
def derivedOf (r : Region) (p : Peak) : Outcome (Float × Float × Float × Float) := do
  let center := p.center
  let half := p.fwhm / 2.0
  let (energy, fwhmEnergy) ← match ← r.energyOf center with
    | some e =>
      let hi ← (r.energyOf (center + half))
      let lo ← (r.energyOf (center - half))
      pure (e, (hi.getD 0.0 - lo.getD 0.0).abs)
    | none => pure (center, p.fwhm)
  let live := setting r.settings.liveTime
  let cpsHyp := if live > 0.0 then (match p.hypermet with | some h => h.area.1 / live | none => 0.0) else 0.0
  let cpsSum4 := if live > 0.0 then (match p.sum4 with | some s => s.netArea / live | none => 0.0) else 0.0
  return (energy, fwhmEnergy, cpsHyp, cpsSum4)

/-- A peak's integral, energy and rates brought up to date: a Hypermet peak is integrated
around its center, a summation peak over its window kept between the edges. -/
def recomputePeak (r : Region) (p : Peak) : Outcome Peak := do
  let sum4 ← r.sum4Of p
  let (energy, fwhmEnergy, cpsHyp, cpsSum4) ← r.derivedOf { p with sum4 }
  return { p with sum4, energy, fwhmEnergy, cpsHyp, cpsSum4 }

/-- Whether a peak brought up to date is dropped: it has neither result, or lies outside the
edges. -/
def dropped (r : Region) (q : Peak) : Outcome Bool :=
  if q.hypermet.isNone && q.sum4.isNone then pure true
  else return !(← r.insideEdges q.center)

/-- The peaks of `m` brought up to date, in order, the dropped ones left out; each peak is
brought up to date and judged before the next. -/
def upToDate (r : Region) : List (Nat × Peak) → Outcome (List (Nat × Peak))
  | [] => pure []
  | (i, p) :: rest => do
    let q ← r.recomputePeak p
    let drop ← r.dropped q
    let kept ← r.upToDate rest
    return if drop then kept else (i, q) :: kept

/-- Every peak brought up to date; peaks with neither result, or outside the edges, dropped. -/
def recompute (r : Region) : Outcome Region := do
  return { r with peakMap := ← r.upToDate r.peakMap }

/-- Peaks whose centers are not strictly between the edge windows `l` and `rt` removed, with
their number. -/
def cullWithin (r : Region) (l rt : Edge) : Region × Nat :=
  let kept := r.peakMap.filter fun (_, p) => encloses l rt p.center
  ({ r with peakMap := kept }, r.peakMap.length - kept.length)

/-- The entries of `m` whose peaks lie strictly between the region's edge windows, in order. -/
def insidePeaks (r : Region) : List (Nat × Peak) → Outcome (List (Nat × Peak))
  | [] => pure []
  | (i, p) :: rest => do
    let inside ← r.insideEdges p.center
    let kept ← r.insidePeaks rest
    return if inside then (i, p) :: kept else kept

/-- Peaks whose centers are not strictly between the region's edge windows removed, with their
number. -/
def cullPeaks (r : Region) : Outcome (Region × Nat) := do
  let kept ← r.insidePeaks r.peakMap
  return ({ r with peakMap := kept }, r.peakMap.length - kept.length)

/-- The current state as a snapshot of the history. -/
def snapshot (r : Region) (description : String) : Snapshot :=
  { lb := r.lb, rb := r.rb, background := r.background, sum4Background := r.sum4Background,
    peaks := r.peaks, finder := r.finder, description, rsq := r.rsq }

/-- The current state appended to the history and made current. -/
def saveCurrentFit (r : Region) (description : String) : Region :=
  { r with history := r.history.push (r.snapshot description), currentFit := r.history.size }

/-- The model over the bins `x` under the background `b` and the Hypermet peaks `peaks`: on the
bins, the whole model and the background with the peaks' steps and tails; and the model on the
quarter-bin grid. -/
def evalModel (s : Settings) (x : Array Float) (b : Background) (peaks : List Peak) :
    Outcome (Array Float × Array Float × Rendering) := do
  let x0 := x.getD 0 0.0
  let hrX := (Array.range (4 * x.size)).map fun i => x0 + Float.ofNat i * 0.25
  let hrXEnergy ← match s.calibration with
    | some c => if c.valid then hrX.mapM c.transform else pure hrX
    | none => pure hrX
  let hrBackground := b.evalAll hrX
  let add (a c : Array Float) := Array.zipWith (· + ·) a c
  let mut backSteps := hrBackground
  let mut fullfit := hrBackground
  let mut lowSteps := b.evalAll x
  let mut lowFull := lowSteps
  for p in peaks do
    if let some h := p.hypermet then
      let step := h.stepTail hrX
      backSteps := add backSteps step
      fullfit := add fullfit (add step (h.peak hrX))
      let step := h.stepTail x
      lowSteps := add lowSteps step
      lowFull := add lowFull (add step (h.peak x))
  return (lowFull, lowSteps,
    { hrX, hrXEnergy, hrBackground, hrBackSteps := backSteps, hrFullfit := fullfit })

/-- The model of the data `f` under the background `b` and the Hypermet peaks `peaks`: the
finder with the model set, so that its residual is the current one, and the model on the
quarter-bin grid. -/
def renderWith (s : Settings) (f : Finder) (b : Background) (peaks : List Peak) :
    Outcome (Finder × Rendering) := do
  let (full, steps, rendering) ← evalModel s f.x b peaks
  return ((f.setFit full steps).2, rendering)

/-- The model evaluated on the quarter-bin grid and on the bins; the finder's model is set to
it, so its residual is the current one. Without data or background the rendering is cleared. -/
def render (r : Region) : Outcome Region := do
  match r.background with
  | none => return { r with rendering := {} }
  | some b =>
    if r.finder.x.isEmpty then return { r with rendering := {} }
    let (f, rendering) ← renderWith r.settings r.finder b r.parametric
    return { r with finder := f, rendering }

/-- Search the region's residual with the default half width at significance `sigma`. -/
def search (r : Region) (sigma : Float) : Outcome Region := do
  let (_, f) ← Finder.findPeaks r.settings r.finder r.settings.konWidth sigma
  return { r with finder := f }

/-- Take the bins `minBin … maxBin` of a spectrum as the region: edges and backgrounds at the
ends, no peaks, no history, and a first search. `none` (the region unchanged) for mismatched
arrays, an inverted range, or a range too short for two edge windows.

The region is changed in place once its data is taken, stage by stage, so a failure after that
comes with the region as far as it got: with the new data and no peaks, and the edges, the
search and the phase as the stages before the failure left them. -/
def setData (r : Region) (x y : Array Float) (minBin maxBin : Float) :
    Except (Failure × Region) (Option Region) := do
  if x.size != y.size || !(minBin < maxBin) then return none
  let inRange := (List.range x.size).filter fun i =>
    let v := x.getD i 0.0
    v ≥ minBin && v ≤ maxBin
  if r.tooFewBins inRange.length then return none
  let first := inRange.headD 0
  let last := inRange.getLastD 0
  let (ok, f) ← (Finder.ofData r.settings (x.extract first (last + 1))
    (y.extract first (last + 1))).mapError (·, r)
  if !ok then return none
  let r := { r with finder := f, peakMap := [], history := #[], currentFit := -1 }
  let r ← r.defaultEdges.mapError (·, r)
  let r := r.initBackground
  let r ← (r.search (setting r.settings.sigmaSpectrum)).mapError (·, r)
  let r := { r with phase := .searched }
  let r ← r.render.mapError (·, r)
  return some r

/-- A new region over the bins `minBin … maxBin` of a spectrum (see `setData`); a failure
leaves no region. -/
def ofRange (s : Settings) (x y : Array Float) (minBin maxBin : Float) : Outcome (Option Region) :=
  ((Region.new s).setData x y minBin maxBin).mapError (·.1)

end Region

end GammaFit
