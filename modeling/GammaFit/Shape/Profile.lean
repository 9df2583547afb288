import GammaFit.Numeric.Erf
import GammaFit.Numeric.Sum
import GammaFit.Failure

/-! # Peak profiles

The profiles that peak models are built from, evaluated sample by sample: the Gaussian in terms
of its half width at half maximum, and the skew profile, an exponential of decay length `s`
convolved with a Gaussian of width `w`:
`exp((w/2s)² + x/s) · erfc(w/2s + x/w)`. On the right of its peak the skew profile is rewritten
as `exp(-(x/w)²) · erfcx(w/2s + x/w)`, which neither overflows nor underflows. The coefficient of
determination compares data with a fitted curve.
-/

namespace GammaFit

/-- `ln 2`. -/
def ln2 : Float := Float.log 2.0

/-- `√(ln 2)`: the half width at half maximum of `exp(-(x/w)²)` per unit `w`. -/
def sqrtLn2 : Float := Float.sqrt ln2

/-- `height · exp(-ln 2 · ((x - center) / hwhm)²)` at one sample. -/
def gaussianAt (height center hwhm x : Float) : Float :=
  let t := (x - center) / hwhm
  height * Numeric.expSample (-ln2 * (t * t))

/-- The Gaussian at every sample. -/
def gaussianProfile (xs : Array Float) (height center hwhm : Float) : Array Float :=
  xs.map (gaussianAt height center hwhm)

/-- The skew profile at one distance `xc` from the peak, given `a = w / 2s`. -/
def skewAt (a width slope xc : Float) : Float :=
  let z := a + xc / width
  if z < 0.0 then Numeric.expSample (a * a + xc / slope) * Numeric.erfc z
  else
    let q := xc / width
    Numeric.expSample (-(q * q)) * Numeric.erfcx z

/-- The skew profile of width `width` and decay length `slope` at every distance; a zero decay
length divides by zero. -/
def skewProfile (xcs : Array Float) (width slope : Float) : Outcome (Array Float) :=
  if slope == 0.0 then .error (.divisionByZero "float division by zero") else
  let a := 0.5 * width / slope
  .ok (xcs.map (skewAt a width slope))

/-- The skew profile where the decay length is known to be positive. -/
def skewProfilePos (xcs : Array Float) (width slope : Float) : Array Float :=
  let a := 0.5 * width / slope
  xcs.map (skewAt a width slope)

/-- `1 - Σ(y - ŷ)² / Σ(y - ȳ)²`, NaN when the data have no spread. -/
def rSquared (y yFit : Array Float) : Float :=
  let mean := Numeric.mean y
  let ssTot := Numeric.sum (y.map fun v => (v - mean) * (v - mean))
  if ssTot ≤ 0.0 then 0.0 / 0.0 else
  1.0 - Numeric.sum (Array.zipWith (fun a b => (a - b) * (a - b)) y yFit) / ssTot

end GammaFit
