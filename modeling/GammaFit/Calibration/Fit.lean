import GammaFit.Calibration
import GammaFit.Linear.Vandermonde
import GammaFit.Numeric.Order

/-! # Fitting calibrations

An energy calibration of order one without weights is the least-squares line, found from the
centred moments: `slope = Σ (x - x̄)(y - ȳ) / Σ (x - x̄)²` (each sum a fused running sum,
scaled by `1/n`), `intercept = ȳ - slope · x̄`. Other orders, and points with weights, are fitted
as least-squares polynomials. A resolution calibration fits a polynomial to the squared widths.

After a fit the calibration records how well it reproduces its points: the root-mean-square
and the largest residual, and the coefficient of determination `R² = 1 - Σ r² / Σ (y - ȳ)²`
(one when the values do not vary).
-/

namespace GammaFit

open GammaFit.Linear GammaFit.Numeric

/-- `Σ aᵢ bᵢ` as one fused running sum from zero. -/
def fusedDot (a b : Array Float) : Float :=
  (List.range (min a.size b.size)).foldl (fun acc i => fma (entry a i) (entry b i) acc) 0.0

/-- The least-squares line through the points, as `(intercept, slope)`. -/
def lineFit (xs ys : Array Float) : Outcome (Float × Float) := do
  if xs.isEmpty || ys.isEmpty then throw (.invalid "Inputs must not be empty.")
  if maximum xs == minimum xs && xs.size > 1 then
    throw (.invalid "Cannot calculate a linear regression if all x values are identical")
  let xm := mean xs
  let ym := mean ys
  let dx := xs.map (· - xm)
  let dy := ys.map (· - ym)
  let f := 1.0 / Float.ofNat xs.size
  let sxx := fusedDot dx dx * f
  let sxy := fusedDot dx dy * f
  let slope := sxy / sxx
  return (ym - slope * xm, slope)

/-- How well a calibration reproduces its points. -/
structure FitQuality where
  /-- The root-mean-square residual. -/
  rms : Float
  /-- The largest absolute residual. -/
  maxError : Float
  /-- The coefficient of determination. -/
  rSquared : Float

namespace Calibration

/-- The fit quality of the calibration over its points. -/
def quality (c : Calibration) (xs ys : Array Float) : Outcome FitQuality := do
  let fitted ← xs.mapM c.transform
  let residuals := ys.zipWith (· - ·) fitted
  let ym := mean ys
  let spread := sum (ys.map fun y => (y - ym) * (y - ym))
  let squares := residuals.map fun r => r * r
  return { rms := Float.sqrt (mean squares), maxError := maximum (residuals.map Float.abs),
           rSquared := if spread > 0.0 then 1.0 - sum squares / spread else 1.0 }

/-- The calibration fitted to the points `(xs[i], ys[i])` with a polynomial of degree `order`,
weighted when `weights` are given, with its fit quality. -/
def fit (c : Calibration) (xs ys : Array Float) (order : Int) (weights : Option (Array Float)) :
    Outcome (Calibration × FitQuality) := do
  if (xs.size : Int) < order + 1 then
    throw (.invalid ("At least " ++ toString (order + 1) ++ " calibration points required"))
  if order < 0 then throw (.invalid "expected deg >= 0")
  let deg := order.toNat
  let coefficients ← match c.kind with
    | .energy =>
      if order = 1 && weights.isNone then do
        let (b, a) ← lineFit xs ys
        pure #[b, a]
      else fitted (fitPowersUp xs ys deg weights)
    | .resolution => fitted (fitPowersUp xs (ys.map fun y => y * y) deg none)
  let c := { c with coefficients := coefficients.toList.map .num }
  return (c, ← c.quality xs ys)
where
  /-- A polynomial fit, or the failure of its solve. -/
  fitted : Option (Array Float) → Outcome (Array Float)
  | some cs => .ok cs
  | none => .error (.linearAlgebra "SVD did not converge in Linear Least Squares")

end Calibration

end GammaFit
