import GammaFit.Shape.Hypermet
import GammaFit.Background
import GammaFit.Optimize.Reflective

/-! # Joint regression of a multiplet

The peaks of a region and its background are regressed together: the residuals are
`(y - model) / √max(y, 1)`, and the free parameters of every peak (in order: center, height,
width, then those of the components switched on) and the free background coefficients are
found by bounded least squares. Around its seed, a peak's center may move by `center_slack`
widths within the range of bins, its width by the factor `width_variation`, and its height
stays non-negative.

The uncertainty of each parameter is the square root of the diagonal of the pseudo-inverse of
`JᵀJ`, scaled by the reduced χ². A regressed peak that is not physical (height or width not
positive, or a center that is not finite) is dropped; the regression fails when none is left,
when R² is not finite, or when the minimization cannot run.
-/

namespace GammaFit

open GammaFit.Linear (entry Mat)
open GammaFit.Optimize (Box)

/-- Where a regressed value goes: a parameter of one peak, or a background coefficient. -/
inductive Slot where
  | peak (k : Nat) (n : ParamName)
  | coefficient (j : Nat)
deriving Inhabited, DecidableEq

/-- A bounded least-squares minimizer: from the residuals, the start and the box, within the
tolerances, a point and what was found there, or why it could not run. -/
abbrev Minimizer : Type :=
  (Array Float → Array Float) → Array Float → Box → Optimize.BoxTolerances →
    Except Optimize.BoxError Optimize.BoxMinimum

namespace Multiplet

/-- The interval a seed's center at `c` with width `w` may move in: `center_slack` widths either
side of it, cut to the bins (an end that is NaN is cut to the bin), or every bin when the cut
leaves no room, its ends meeting or crossed. -/
def centerRange (x : Array Float) (s : Settings) (c w : Float) : Float × Float :=
  let slack := Settings.float s.centerSlack
  let first := x.getD 0 0.0
  let last := x.getD (x.size - 1) 0.0
  let lo := c - slack * w
  let hi := c + slack * w
  let lower := if lo > first then lo else first
  let upper := if hi < last then hi else last
  if lower ≥ upper then (first, last) else (lower, upper)

/-- A peak with bounds for its core around the seed values. -/
def boundCore (h : Hypermet) (x : Array Float) (s : Settings) : Hypermet :=
  let w := h.width.value
  let variation := Settings.float s.widthVariation
  let range := centerRange x s h.center.value w
  { h with center := { h.center with lower := range.1, upper := range.2 },
           width := { h.width with lower := w / variation, upper := w * variation },
           height := { h.height with lower := 0.0, upper := 1.0 / 0.0 } }

/-- A seed made ready for the regression: with `gaussianOnly` every component switched off,
then the core bounded around the seed values. -/
def prepare (gaussianOnly : Bool) (x : Array Float) (s : Settings) (h : Hypermet) : Hypermet :=
  let h := if gaussianOnly then Component.all.foldl (fun h c => h.setComponent c false) h else h
  boundCore h x s

/-- The free parameters as slots, with the parameters themselves. -/
def slots (peaks : Array Hypermet) (bg : Background) : Array (Slot × Param) :=
  let fromPeaks := peaks.zipIdx.toList.flatMap fun (h, k) =>
    (h.paramNames.filter fun n => (h.param n).free).map fun n => (Slot.peak k n, h.param n)
  let fromBg := bg.coeffs.zipIdx.filterMap fun (c, j) =>
    if c.free then some (Slot.coefficient j, c) else none
  (fromPeaks ++ fromBg).toArray

/-- Set the value of one parameter. -/
def setValue (slot : Slot) (v : Float) (peaks : Array Hypermet) (bg : Background) :
    Array Hypermet × Background :=
  match slot with
  | .peak k n => (peaks.modify k fun h => h.modifyParam n fun p => { p with value := v }, bg)
  | .coefficient j =>
    (peaks, { bg with coeffs := bg.coeffs.modify j fun c => { c with value := v } })

/-- Set the uncertainty of one parameter. -/
def setUncertainty (slot : Slot) (u : Float) (peaks : Array Hypermet) (bg : Background) :
    Array Hypermet × Background :=
  match slot with
  | .peak k n => (peaks.modify k fun h => h.modifyParam n fun p => { p with uncertainty := u }, bg)
  | .coefficient j =>
    (peaks, { bg with coeffs := bg.coeffs.modify j fun c => { c with uncertainty := u } })

/-- Install a vector of values into the slots. -/
def install (ss : Array (Slot × Param)) (values : Array Float) (peaks : Array Hypermet)
    (bg : Background) : Array Hypermet × Background :=
  (ss.zip values).foldl (fun (ps, b) ((slot, _), v) => setValue slot v ps b) (peaks, bg)

/-- The background plus every peak at the bins. -/
def model (x : Array Float) (peaks : Array Hypermet) (bg : Background) : Array Float :=
  peaks.foldl (fun total h => Array.zipWith (· + ·) total (h.eval x)) (bg.evalAll x)

/-- `JᵀJ` for a Jacobian given by columns, each entry one fused running sum over the rows. -/
def normalMatrix (jac : Array (Array Float)) : Mat := Id.run do
  let n := jac.size
  let mut a := Mat.zeros n n
  for i in [0:n] do
    for j in [0:n] do
      let ci := jac.getD i #[]
      let cj := jac.getD j #[]
      let mut acc := 0.0
      for k in [0:ci.size] do
        acc := Numeric.fma (entry ci k) (entry cj k) acc
      a := a.set i j acc
  return a

/-- The diagonal of the pseudo-inverse of a square matrix, singular values up to `10⁻¹⁵` of
the largest discarded; `none` when the decomposition fails. -/
def pseudoInverseDiagonal (a : Mat) : Option (Array Float) := do
  let svd ← a.thinSVD
  let n := a.cols
  let top := if svd.s.any Float.isNaN then 0.0 / 0.0 else svd.s.foldl Numeric.fmax (entry svd.s 0)
  let cutoff := 1e-15 * top
  let inv := svd.s.map fun v => if v > cutoff then 1.0 / v else 0.0
  pure <| (Array.range n).map fun i => Id.run do
    let mut acc := 0.0
    for k in [0:n] do
      acc := Numeric.fma (svd.vt.get k i) (entry inv k * svd.u.get i k) acc
    return acc

/-- The box of the slots' bounds. -/
def box (ss : Array (Slot × Param)) : Box := ⟨ss.map (·.2.lower), ss.map (·.2.upper)⟩

/-- The weighted residuals `(y - model) / σ` with `values` installed in the slots. -/
def residuals (x y sigma : Array Float) (ss : Array (Slot × Param)) (peaks : Array Hypermet)
    (bg : Background) (values : Array Float) : Array Float :=
  let (ps, b) := install ss values peaks bg
  let m := model x ps b
  Array.zipWith (· / ·) (Array.zipWith (· - ·) y m) sigma

/-- The uncertainties of the slots at the minimum: from the Jacobian, scaled by the reduced χ²;
all zero when the pseudo-inverse cannot be formed. -/
def uncertainties (y : Array Float) (ss : Array (Slot × Param)) (fit : Optimize.BoxMinimum) :
    Array Float :=
  let dof := if y.size > ss.size + 1 then y.size - ss.size else 1
  let chiSquare := Numeric.sum (fit.residuals.map fun v => v * v)
  match pseudoInverseDiagonal (normalMatrix fit.jacobian) with
  | some diag => diag.map fun v => Float.sqrt (v * (chiSquare / dof.toFloat)).abs
  | none => ss.map fun _ => 0.0

/-- Install a vector of uncertainties into the slots. -/
def installUncertainties (ss : Array (Slot × Param)) (errors : Array Float)
    (peaks : Array Hypermet) (bg : Background) : Array Hypermet × Background :=
  (ss.zip errors).foldl (fun (ps, b) ((slot, _), u) => setUncertainty slot u ps b) (peaks, bg)

/-- The regressed peaks in order, each with R² set, `none` in place of one that is not
physical. -/
def physical (rsq : Float) (peaks : Array Hypermet) : List (Option Hypermet) :=
  peaks.toList.map fun h =>
    if h.height.value > 0.0 && h.width.value > 0.0 && !h.center.value.isNaN &&
        !h.center.value.isInf then some { h with rsq } else none

/-- The end of a regression from the minimizer's point: nothing when the point is not finite,
R² is not finite or no peak is physical. -/
def conclude (x y : Array Float) (ss : Array (Slot × Param)) (peaks : Array Hypermet)
    (bg : Background) (fit : Optimize.BoxMinimum) :
    Option (List (Option Hypermet) × Background) := do
  if fit.x.any fun v => v.isNaN || v.isInf then none
  let (peaks, bg) := install ss fit.x peaks bg
  let (peaks, bg) := installUncertainties ss (uncertainties y ss fit) peaks bg
  let rsq := rSquared y (model x peaks bg)
  if rsq.isNaN || rsq.isInf then none
  let fits := physical rsq peaks
  if fits.all Option.isNone then none
  pure (fits, bg)

/-- Regress the peaks (seeds in order) and the background over the bins `x` with counts `y`
by the minimizer `minimize`; with `gaussianOnly`, every component is switched off first. The
result lists the regressed peaks in seed order, `none` for those that came out not physical. -/
def regressWith (minimize : Minimizer) (x y : Array Float) (seeds : List Hypermet)
    (bg : Background) (s : Settings) (gaussianOnly : Bool) :
    Option (List (Option Hypermet) × Background) := do
  if x.size != y.size || x.size < 3 || seeds.isEmpty then none
  if seeds.any (·.width.value ≤ 0.0) then none
  let peaks := seeds.toArray.map (prepare gaussianOnly x s)
  let ss := slots peaks bg
  if ss.isEmpty then none
  let sigma := y.map fun v => Float.sqrt (Numeric.fmax v 1.0)
  let budget := (Settings.count s.maxEvaluations).toNat
  let fit ← (minimize (residuals x y sigma ss peaks bg) (ss.map (·.2.clipped)) (box ss)
    { maxEvaluations := budget }).toOption
  conclude x y ss peaks bg fit

/-- The regression by the bounded trust-region method. -/
def regress (x y : Array Float) (seeds : List Hypermet) (bg : Background) (s : Settings)
    (gaussianOnly : Bool) : Option (List (Option Hypermet) × Background) :=
  regressWith Optimize.minimizeInBox x y seeds bg s gaussianOnly

end Multiplet

end GammaFit
