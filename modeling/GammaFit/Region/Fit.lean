import GammaFit.Region.Basic
import GammaFit.Multiplet
import GammaFit.Shape.Gaussian

/-! # Fitting a region

* `regress`: the given peaks regressed jointly with the background, tallest seed first. On
  success the regressed peaks that lie between the edges replace the region's Hypermet peaks
  (keeping their identities), summation peaks are carried over, and everything is brought up
  to date.
* `rebuild`: all Hypermet peaks regressed again with a fresh background.
* `autoFit`: a search of the data; each candidate window that gives an acceptable Gaussian
  estimate seeds a peak; the seeds are regressed, or, when that is not possible or the
  settings ask for summation only, each window becomes a summation peak. Then, unless the
  settings forbid it, `iterativeFit`.
* `addFromResid`: a search of the residual; the acceptable candidate of largest area (or the
  one nearest a hint) is added to the Hypermet peaks and all are regressed.
* `iterativeFit`: `addFromResid` repeated while R² strictly improves, at most
  `resid_max_iterations` times.

Every operation that may fail works on a copy and returns the region unchanged on failure.
-/

namespace GammaFit

namespace Region

/-- The region with the current peaks accepted without regression. -/
def refresh (r : Region) (description : String) : Outcome Region := do
  let r ← r.recompute
  let r ← { r with phase := if r.peakMap.isEmpty then .searched else .fitted }.render
  return r.saveCurrentFit description

/-- A regression result put into the peaks `m` under its seed's identity, when it lies between
the edges; a result that came out not physical is left out. -/
def keepRegressed (r : Region) (m : List (Nat × Peak)) (e : (Nat × Hypermet) × Option Hypermet) :
    Outcome (List (Nat × Peak)) := do
  match e.2 with
  | some h =>
    if ← r.insideEdges h.center.value then return insertPeak m { id := e.1.1, hypermet := some h }
    else return m
  | none => return m

/-- Regress the seeds (identity and Hypermet) with the background. -/
def regress (r : Region) (seeds : List (Nat × Hypermet)) (gaussianOnly : Bool) :
    Outcome (Option Region) := do
  let some bg := r.background | return none
  if seeds.isEmpty then return none
  let ordered := seeds.mergeSort fun a b => !(-b.2.height.value < -a.2.height.value)
  let some (fitted, bg) :=
      Multiplet.regress r.finder.x r.finder.y (ordered.map (·.2)) bg r.settings gaussianOnly
    | return none
  -- a seed identity given twice names one peak, the later result in the earlier place
  let regressed ← (ordered.zip fitted).foldlM r.keepRegressed []
  if regressed.isEmpty then return none
  let summed := r.peakMap.filter fun (_, p) => p.sum4Only
  let map := summed.foldl (fun m (_, p) => insertPeak m p) regressed
  let r ← { r with background := some bg, peakMap := map }.recompute
  let r ← { r with phase := .fitted }.render
  return some r

/-- Regress all Hypermet peaks again with a fresh background; `none` when there are none or
the regression fails. -/
def rebuild (r : Region) (description : String) : Outcome (Option Region) := do
  let fitted := r.parametric
  if fitted.isEmpty || r.lb.isNone || r.rb.isNone then return none
  let gaussianOnly := fitted.all fun p => (p.hypermet.map Hypermet.gaussianOnly).getD true
  let seeds := fitted.filterMap fun p => p.hypermet.map (p.id, ·)
  match ← r.initBackground.regress seeds gaussianOnly with
  | some t => return some (t.saveCurrentFit description)
  | none => return none

/-- The Hypermet peak a Gaussian estimate seeds. -/
def seedOf (g : Gaussian) (s : Settings) : Hypermet :=
  Hypermet.make g.center g.height (g.hwhm / sqrtLn2) s

/-- Whether a position is closer to a Hypermet peak than `resid_too_close` of its width. -/
def tooClose (r : Region) (center : Float) : Bool :=
  let slack := setting r.settings.residTooClose
  r.parametric.any fun p => (center - p.center).abs < slack * p.fwhm

/-- The first element of greatest key. -/
def firstMax {α : Type} (key : α → Float) : List α → Option α
  | [] => none
  | a :: rest => some (rest.foldl (fun b c => if key c > key b then c else b) a)

/-- The first element of least key. -/
def firstMin {α : Type} (key : α → Float) : List α → Option α
  | [] => none
  | a :: rest => some (rest.foldl (fun b c => if key c < key b then c else b) a)

/-- Add one peak found in the residual and regress; `none` when there is no acceptable
candidate or the regression fails. -/
def addFromResid (r : Region) (hint : Option Float) : RegionM (Option Region) := do
  let s := r.settings
  if r.finder.x.isEmpty || r.background.isNone then return none
  let trial ← liftOutcome (r.search (setting s.sigmaResid))
  let f := trial.finder
  let mut candidates : List (Float × Gaussian) := []
  for k in [0:f.filtered.size] do
    let pk := f.filtered.getD k 0
    let lo := f.lefts.getD k 0
    let hi := f.rights.getD k 0
    let g := Gaussian.ofData (f.x.extract lo (hi + 1)) (f.yResid.extract lo (hi + 1))
    if !g.acceptedIn (f.x.getD lo 0.0) (f.x.getD hi 0.0) then continue
    if hint.isNone && (g.height < setting s.residMinAmplitude || r.tooClose g.center) then continue
    candidates := candidates ++ [(f.x.getD pk 0.0, g)]
  let chosen := match hint with
    | none => firstMax (fun (c : Float × Gaussian) => c.2.area) candidates
    | some h => firstMin (fun (c : Float × Gaussian) => (c.1 - h).abs) candidates
  let some (_, g) := chosen | return none
  let id ← nextPeakId
  let seeds := r.parametric.filterMap (fun (p : Peak) => p.hypermet.map (p.id, ·)) ++
    [(id, seedOf g s)]
  let gaussianOnly := seeds.all fun (_, h) => h.gaussianOnly
  match ← liftOutcome (trial.regress seeds gaussianOnly) with
  | some t => return some (t.saveCurrentFit "Added from residual")
  | none => return none

/-- At most `rounds` peaks added from the residual one after another, each kept while it raises
R² strictly above `previous` to a finite value: the number kept, or the failure of an addition,
with the region as far as it got. -/
def refineResid (r : Region) (interrupted : Bool) (previous : Float) :
    Nat → RegionM (Outcome Nat × Region)
  | 0 => return (.ok 0, r)
  | rounds + 1 => do
    if interrupted then return (.ok 0, r)
    match ← attempt (r.addFromResid none) with
    | .error e => return (.error e, r)
    | .ok none => return (.ok 0, r)
    | .ok (some trial) =>
      let q := trial.rsq
      if !q.isNaN && !q.isInf && q > previous then
        let (o, t) ← trial.refineResid interrupted q rounds
        return (o.map (· + 1), t)
      else return (.ok 0, r)

/-- Add peaks from the residual while R² strictly improves, at most `resid_max_iterations`
times: the number added, or the failure that stopped it, with the region as far as it got. An
interruption stops before the first attempt; a number of rounds given as a double is refused
once the loop is reached. -/
def iterativeFit (r : Region) (interrupted : Bool) : RegionM (Outcome Nat × Region) := do
  let s := r.settings
  if r.phase != .fitted || s.sum4Only.truthy || r.parametric.isEmpty then return (.ok 0, r)
  let previous := r.rsq
  if previous.isNaN || previous.isInf then return (.ok 0, r)
  match Settings.rounds s.residMaxIterations with
  | .error e => return (.error e, r)
  | .ok rounds => r.refineResid interrupted previous rounds

/-- The summation peak over the bins `left … right`, kept between the edges; `none` when the
window is empty or its centroid lies outside the edges. -/
def summationPeakAt (r : Region) (left right : Int) : RegionM (Option Peak) := do
  let l ← liftOutcome (r.leftEdge "last")
  let rt ← liftOutcome (r.rightEdge "first")
  let left := max left (l.last + 1)
  let right := min right ((rt.first : Int) - 1)
  match r.sum4Background with
  | some b =>
    match Summation.ofCounts? r.finder.x r.finder.y left right b l rt with
    | some s =>
      if encloses l rt s.centroid then
        let id ← nextPeakId
        return some { id, sum4 := some s }
      else return none
    | none => return none
  | none => return none

/-- Summation peaks over the candidate windows of the finder `f`, put in one after another and
brought up to date. -/
def summationPeaks (r : Region) (f : Search.Finder) : RegionM Region := do
  let mut t := r
  for k in [0:f.lefts.size] do
    if let some p ← t.summationPeakAt (f.lefts.getD k 0) (f.rights.getD k 0) then
      t := { t with peakMap := insertPeak t.peakMap p }
  liftOutcome t.recompute

/-- The end of an automatic fit: a region with peaks is drawn as fitted and recorded, and peaks
are added from the residual when the settings `s` ask for it; a region without peaks is drawn
as searched. -/
def finishAutoFit (r : Region) (s : Settings) (interrupted : Bool) :
    RegionM (Outcome Bool × Region) := do
  if r.peakMap.isEmpty then
    let t ← liftOutcome ({ r with phase := .searched }.render)
    return (.ok false, t)
  let t ← liftOutcome ({ r with phase := .fitted }.render)
  let t := t.saveCurrentFit "Autofit"
  if s.residAuto.truthy && !s.sum4Only.truthy then
    let (o, t) ← t.iterativeFit interrupted
    return (o.map fun _ => true, t)
  return (.ok true, t)

/-- Search the data, regress the accepted candidates, fall back to summation peaks; returns
whether the region ends with a peak, or the failure of the peaks added from the residual after
the fit was recorded, with the region as far as it got. -/
def autoFit (r : Region) (interrupted : Bool) : RegionM (Outcome Bool × Region) := do
  if r.phase == .empty then return (.ok false, r)
  let s := r.settings
  let trial := { r with peakMap := [] }.initBackground
  let trial := { trial with finder := { trial.finder with yResid := trial.finder.y } }
  let trial ← liftOutcome (trial.search (setting s.sigmaSpectrum))
  let f := trial.finder
  if f.filtered.isEmpty then
    let t ← liftOutcome ({ trial with phase := .searched }.render)
    return (.ok false, t)
  let bgValues := match trial.background with
    | some b => b.evalAll f.x
    | none => f.x.map fun _ => 0.0 / 0.0
  let yNoBackground := Array.zipWith (· - ·) f.y bgValues
  let mut seeds : List (Nat × Hypermet) := []
  for k in [0:f.lefts.size] do
    let lo := f.lefts.getD k 0
    let hi := f.rights.getD k 0
    let g := Gaussian.ofData (f.x.extract lo (hi + 1)) (yNoBackground.extract lo (hi + 1))
    if g.acceptedIn (f.x.getD lo 0.0) (f.x.getD hi 0.0) then
      let id ← nextPeakId
      seeds := seeds ++ [(id, seedOf g s)]
  let mut regressed : Option Region := none
  if !seeds.isEmpty && !s.sum4Only.truthy then
    let gaussianOnly := seeds.all fun (_, h) => h.gaussianOnly
    regressed ← liftOutcome (trial.regress seeds gaussianOnly)
  let trial ← match regressed with
    | some t => pure t
    | none => trial.summationPeaks f
  trial.finishAutoFit s interrupted

end Region

end GammaFit
