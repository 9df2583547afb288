import GammaFit.Shape.Profile
import GammaFit.Optimize.Levenberg
import GammaFit.Numeric.Order
import GammaFit.Decimal.Format

/-! # Single Gaussian estimates

A Gaussian estimate `h · exp(-ln 2 · ((x - c) / w)²)` is given by its center, height and half
width at half maximum `w`. It is fitted to a window of background-free counts by damped
Gauss–Newton least squares, started from the tallest sample, its position, and half the spread
of the samples at half its height (at least one half). Windows that cannot be fitted (fewer
than three samples, no positive maximum, samples that are not finite, a fit that does not
converge) give the zero estimate.

An estimate is accepted as a peak candidate in a window when its parameters are finite, its
height and width positive and its center strictly inside.
-/

namespace GammaFit

/-- A single Gaussian estimate and the R² of its fit. -/
structure Gaussian where
  center : Float := 0.0
  height : Float := 0.0
  hwhm : Float := 0.0
  rsq : Float := 0.0
deriving Inhabited

namespace Gaussian

/-- Full width at half maximum. -/
def fwhm (g : Gaussian) : Float := 2.0 * g.hwhm

/-- `π`. -/
def pi : Float := 3.141592653589793

/-- The area under the curve, `h · w · √(π / ln 2)`. -/
def area (g : Gaussian) : Float := g.height * g.hwhm * Float.sqrt (pi / ln2)

/-- The curve at one point; zero everywhere for a width that is not positive. -/
def evalAt (g : Gaussian) (x : Float) : Float :=
  if g.hwhm ≤ 0.0 then 0.0 else gaussianAt g.height g.center g.hwhm x

/-- The curve at every sample. -/
def eval (g : Gaussian) (xs : Array Float) : Array Float := xs.map g.evalAt

/-- Whether the estimate is a plausible peak in `(left, right)`. -/
def acceptedIn (g : Gaussian) (left right : Float) : Bool :=
  let finite (v : Float) := !v.isNaN && !v.isInf
  finite g.center && finite g.height && finite g.hwhm &&
    g.height > 0.0 && g.hwhm > 0.0 && left < g.center && g.center < right

/-- The text `Gaussian(center=…, height=…, hwhm=…)` with three places each. -/
def describe (g : Gaussian) : String :=
  "Gaussian(center=" ++ Decimal.format (.fixed 3) g.center ++ ", height=" ++
    Decimal.format (.fixed 3) g.height ++ ", hwhm=" ++ Decimal.format (.fixed 3) g.hwhm ++ ")"

/-- The starting half width: half the spread of the positions whose counts reach half the
maximum, at least one half. -/
def seedWidth (x y : Array Float) (peak : Float) : Float :=
  let above := (x.zip y).filterMap fun (xi, yi) => if yi ≥ peak / 2.0 then some xi else none
  let spread := (above.getD (above.size - 1) 0.0 - above.getD 0 0.0) / 2.0
  if 0.5 > spread then 0.5 else spread

/-- The residuals `g(x) - y` of the curve with parameters `(height, center, hwhm)`. -/
def residuals (x y : Array Float) (p : Array Float) : Array Float :=
  let h := p.getD 0 0.0
  let c := p.getD 1 0.0
  let w := p.getD 2 0.0
  Array.zipWith (fun xi yi => gaussianAt h c w xi - yi) x y

/-- The fit's limits: the default tolerances with a budget of 2000 evaluations. -/
def fitTolerances : Optimize.Tolerances := {}

/-- Fit an estimate to a window of counts. -/
def ofData (x y : Array Float) : Gaussian :=
  if x.size != y.size || x.size < 3 then {} else
  let top := Numeric.argmax y
  let peak := y.getD top 0.0
  if !(peak > 0.0) then {} else
  let finite (v : Float) := !v.isNaN && !v.isInf
  if !(x.all finite && y.all finite) then {} else
  let start := #[peak, x.getD top 0.0, seedWidth x y peak]
  let fit := Optimize.minimize (residuals x y) start fitTolerances
  if !fit.stop.converged then {} else
  let g : Gaussian :=
    { center := fit.x.getD 1 0.0, height := fit.x.getD 0 0.0, hwhm := (fit.x.getD 2 0.0).abs }
  if g.hwhm > 0.0 then { g with rsq := rSquared y (g.eval x) } else g

end Gaussian

end GammaFit
