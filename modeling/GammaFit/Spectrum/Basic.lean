import GammaFit.Numeric.Sum
import GammaFit.Numeric.Order
import GammaFit.Numeric.Exp
import GammaFit.Json.Value

/-! # Spectra

A spectrum is a run of bins, strictly increasing and finite, with a finite count in each. This
module checks that shape, sums up counting statistics, and builds exact synthetic spectra: a
straight background with Gaussian peaks, clipped at zero.
-/

namespace GammaFit.Spectrum

/-- Bins and counts form a spectrum: equal nonempty lengths, all finite, bins strictly increasing. -/
def valid (x y : Array Float) : Bool :=
  x.size == y.size && x.size != 0 &&
  x.all (fun v => !(v.isNaN || v.isInf)) && y.all (fun v => !(v.isNaN || v.isInf)) &&
  (List.range (x.size - 1)).all fun i => x.getD (i + 1) 0.0 - x.getD i 0.0 > 0.0

/-- Total, number of bins, bins with counts, mean and largest count. -/
def statistics (counts : Array Float) : Json.Value :=
  if counts.isEmpty then .obj [("total_counts", .num 0.0), ("channels", .int 0)] else
  .obj [("total_counts", .num (Numeric.sum counts)), ("channels", .int counts.size),
    ("non_zero_channels", .int (counts.filter (· != 0.0)).size),
    ("mean_counts", .num (Numeric.mean counts)), ("max_counts", .num (Numeric.maximum counts))]

/-- A Gaussian peak of a synthetic spectrum: position, height and standard deviation. -/
structure SyntheticPeak where
  channel : Float
  height : Float
  sigma : Float

/-- The three peaks of a synthetic spectrum of `n` bins when none are given: at a quarter, half
and three quarters of the range, narrow and high to wide and low. -/
def defaultPeaks (n : Nat) : List SyntheticPeak :=
  [⟨n.toFloat * 0.25, 1000.0, 5.0⟩, ⟨n.toFloat * 0.5, 500.0, 8.0⟩, ⟨n.toFloat * 0.75, 300.0, 12.0⟩]

/-- The bins `0 … n-1` and the counts `level + slope · x` plus each peak inside the range, clipped
at zero. -/
def synthetic (n : Nat) (peaks : List SyntheticPeak) (level slope : Float) : Array Float × Array Float :=
  let xs := (Array.range n).map Nat.toFloat
  let base := xs.map fun x => level + slope * x
  let counts := peaks.foldl (fun acc p =>
    if 0.0 ≤ p.channel ∧ p.channel < n.toFloat then
      Array.zipWith (fun c x =>
        let q := (x - p.channel) / p.sigma
        c + p.height * Numeric.expSample (-0.5 * (q * q))) acc xs
    else acc) base
  (xs, counts.map fun c => if c.isNaN then c else if c < 0.0 then 0.0 else c)

/-- The area of a Gaussian of `height` and standard deviation `sigma`: `h σ √(2π)`. -/
def gaussianArea (height sigma : Float) : Float :=
  height * sigma * Float.sqrt (2.0 * 3.141592653589793)

end GammaFit.Spectrum
