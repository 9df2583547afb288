import GammaFit.Background

/-! # Summation integrals

The summation method integrates a peak without a model: the gross counts of a window of bins,
less the trapezoid under the held background line, give the net area; the background-subtracted
counts weight the centroid and the second moment, whose square root scaled by `2√(2 ln 2)` is
the width at half maximum. Poisson statistics give the variances. Currie's criteria grade
the net area against the background's spread.

The areas and the centroid (`moments`) are written for any arithmetic; the integral takes them
in doubles.
-/

namespace GammaFit

/-- `2√(2 ln 2)`: the full width at half maximum of a normal distribution per standard deviation. -/
def fwhmPerSigma : Float := 2.0 * Float.sqrt (2.0 * Float.log 2.0)

/-- Currie's grade of a net area: `1` above the detection limit `2.71 + 4.65 σ`, `2` above the
critical level `2.33 σ`, `3` otherwise, where `σ` is the root of the background variance;
equality falls to the lower grade. -/
def currieGrade (net variance : Float) : Nat :=
  let v := if 0.0 > variance then 0.0 else variance
  let sigma := Float.sqrt v
  if net > 2.71 + 4.65 * sigma then 1
  else if net > 2.33 * sigma then 2
  else 3

/-- A summation integral over the bins `left … right` of a region. -/
structure Summation where
  left : Nat
  right : Nat
  leftBin : Float
  rightBin : Float
  width : Nat
  backgroundArea : Float
  backgroundVariance : Float
  grossArea : Float
  grossVariance : Float
  netArea : Float
  netVariance : Float
  centroid : Float
  centroidVariance : Float
  fwhm : Float
  grade : Nat
deriving Inhabited

namespace Summation

/-- The areas and the centroid of a window of bins, in any arithmetic. -/
structure Moments (α : Type) where
  /-- The trapezoid under the background between the window's end bins. -/
  backgroundArea : α
  /-- The sum of the counts. -/
  gross : α
  /-- The counts less the trapezoid. -/
  net : α
  /-- The counts less the background, bin by bin. -/
  signal : Array α
  /-- The sum of `signal`. -/
  signalSum : α
  /-- The bins' mean weighted by `signal`; the middle of the window when `signal` does not sum
  to a positive number. -/
  centroid : α

/-- The moments of `n` bins `xs` with counts `ys` above a background whose value at one bin
`eval` gives and at every bin `evalAll` gives. -/
def moments {α : Type} [Add α] [Sub α] [Mul α] [Div α] [Zero α] [OfNat α 2] [LT α]
    [DecidableLT α] (eval : α → α) (evalAll : Array α → Array α) (n : α) (xs ys : Array α) :
    Moments α :=
  let x0 := xs.getD 0 0
  let x1 := xs.getD (xs.size - 1) 0
  let backgroundArea := n * (eval x0 + eval x1) / 2
  let gross := Numeric.sum ys
  let signal := Array.zipWith (· - ·) ys (evalAll xs)
  let signalSum := Numeric.sum signal
  let centroid :=
    if 0 < signalSum then Numeric.sum (Array.zipWith (· * ·) xs signal) / signalSum
    else (x0 + x1) / 2
  ⟨backgroundArea, gross, gross - backgroundArea, signal, signalSum, centroid⟩

/-- The integral over `left … right` (inclusive) of counts `y` at bins `x`, above background `b`
between edge windows `lb` and `rb`; `none` when the lengths differ or the indices leave the
spectrum. The centroid falls back to the middle of the window, and the width to zero, when the
background-subtracted counts do not sum to a positive number. -/
def ofCounts? (x y : Array Float) (left right : Int) (b : Background) (lb rb : Edge) :
    Option Summation :=
  if x.size ≠ y.size ∨ left < 0 ∨ right ≥ x.size ∨ left > right then none else
  let l := left.toNat
  let r := right.toNat
  let xs := x.extract l (r + 1)
  let ys := y.extract l (r + 1)
  let n := r - l + 1
  let x0 := xs.getD 0 0.0
  let x1 := xs.getD (n - 1) 0.0
  let m := moments b.eval b.evalAll n.toFloat xs ys
  let half := n.toFloat / 2.0
  let backgroundVariance := half ^ 2.0 * (lb.variance + rb.variance)
  let centroid := m.centroid
  let fwhm :=
    if m.signalSum > 0.0 then
      let second := Numeric.sum (Array.zipWith (fun s xv => s * ((xv - centroid) * (xv - centroid)))
        m.signal xs) / m.signalSum
      fwhmPerSigma * Float.sqrt (if 0.0 > second then 0.0 else second)
    else 0.0
  let centroidVariance :=
    if m.net != 0.0 then
      Numeric.sum (Array.zipWith (fun yv xv => yv * ((xv - centroid) * (xv - centroid))) ys xs) /
        m.net ^ 2.0
    else 1.0 / 0.0
  some { left := l, right := r, leftBin := x0, rightBin := x1, width := n,
         backgroundArea := m.backgroundArea, backgroundVariance, grossArea := m.gross,
         grossVariance := m.gross, netArea := m.net, netVariance := m.gross + backgroundVariance,
         centroid, centroidVariance, fwhm, grade := currieGrade m.net backgroundVariance }

/-- The integral over `center ± factor · fwhm`, kept strictly between the edge windows; `none`
when the width is not positive or the window is empty. -/
def around? (x y : Array Float) (center fwhm : Float) (b : Background) (lb rb : Edge)
    (factor : Float) : Option Summation :=
  if !(fwhm > 0.0) then none else
  let half := factor * fwhm
  let left : Int := Numeric.searchLeft x (center - half)
  let right : Int := (Numeric.searchRight x (center + half) : Int) - 1
  let left := max left (lb.last + 1)
  let right := min right ((rb.first : Int) - 1)
  if left > right then none else ofCounts? x y left right b lb rb

/-- Root of the net variance. -/
def netUncertainty (s : Summation) : Float := Float.sqrt s.netVariance

/-- Root of the background variance. -/
def backgroundUncertainty (s : Summation) : Float := Float.sqrt s.backgroundVariance

/-- Root of the centroid variance. -/
def centroidUncertainty (s : Summation) : Float := Float.sqrt s.centroidVariance

/-- Every figure of the integral, with indices and uncertainties. -/
def toJson (s : Summation) : Json.Value :=
  .obj [("left", .int s.left), ("right", .int s.right), ("left_bin", .num s.leftBin),
    ("right_bin", .num s.rightBin), ("width", .int s.width),
    ("background_area", .num s.backgroundArea), ("background_variance", .num s.backgroundVariance),
    ("gross_area", .num s.grossArea), ("gross_variance", .num s.grossVariance),
    ("net_area", .num s.netArea), ("net_variance", .num s.netVariance),
    ("centroid", .num s.centroid), ("centroid_variance", .num s.centroidVariance),
    ("fwhm", .num s.fwhm), ("currie_quality_indicator", .int s.grade),
    ("net_uncertainty", .num s.netUncertainty),
    ("background_uncertainty", .num s.backgroundUncertainty),
    ("centroid_uncertainty", .num s.centroidUncertainty)]

/-- The stored document of the integral: window bins, areas, centroid and grade. -/
def recordJson (s : Summation) : Json.Value :=
  .obj [("left", .num s.leftBin), ("right", .num s.rightBin),
    ("background_area", .num s.backgroundArea), ("background_variance", .num s.backgroundVariance),
    ("gross_area", .num s.grossArea), ("net_area", .num s.netArea),
    ("net_variance", .num s.netVariance), ("centroid", .num s.centroid),
    ("centroid_variance", .num s.centroidVariance), ("fwhm", .num s.fwhm),
    ("currie_quality_indicator", .int s.grade)]

end Summation

end GammaFit
