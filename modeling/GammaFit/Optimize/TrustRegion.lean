import GammaFit.Optimize.Box
import GammaFit.Numeric.Sum

/-! # Trust-region subproblems

The pieces of a trust-region least-squares method that work on one linear model
`m(p) = ‖J p + f‖²/2` of the sum of squares:

* `trustRegionStep`: the minimizer of the model within `‖p‖ ≤ Δ`, from the singular value
  decomposition of `J`. The Gauss–Newton step when it is short enough; otherwise the damped
  step `p(α) = -V (Σ² + α)⁻¹ Σ Uᵀ f` with `‖p(α)‖ = Δ`, where `α` solves the secular equation
  `φ(α) = ‖p(α)‖ - Δ = 0` by safeguarded Newton steps (at most ten, to a relative 1%), and the
  step is finally rescaled to length `Δ`.
* one-dimensional quadratics along a direction, and their minimum on an interval;
* the two crossings of a line with the sphere `‖x‖ = Δ`;
* the radius update from the ratio of actual to predicted reduction, and the tests that end
  the iteration.

Products with matrices go through the fixed-order kernels, so every result is one
deterministic double.
-/

namespace GammaFit.Optimize

open GammaFit.Linear (entry dot transposedProduct)

/-- The Euclidean length. -/
def euclidean (v : Array Float) : Float := Float.sqrt (dot v v)

/-- The largest magnitude, NaN when an entry is NaN. -/
def largestMagnitude (v : Array Float) : Float :=
  if v.any Float.isNaN then 0.0 / 0.0 else v.foldl (fun a x => Numeric.fmax a x.abs) 0.0

/-- The relative spacing of doubles. -/
def unitRoundoff : Float := 2.220446049250313e-16

/-- `Σ_j cols[j] * w[j]` as rows: the product of the matrix whose rows are `cols` with `w`. -/
def rowsTimes (rows : Array (Array Float)) (w : Array Float) : Array Float :=
  transposedProduct rows w 1.0 (Array.replicate rows.size 0.0)

/-- Entrywise product. -/
def hadamard (a b : Array Float) : Array Float := Array.zipWith (· * ·) a b

/-- The larger of two doubles, keeping the first unless the second is greater. -/
def keepLarger (a b : Float) : Float := if b > a then b else a

/-- The secular function `φ(α) = ‖p(α)‖ - Δ` and its derivative, for `suf = Σ Uᵀ f`. -/
def secular (alpha : Float) (suf s : Array Float) (delta : Float) : Float × Float :=
  let denom := s.map fun si => si * si + alpha
  let pNorm := euclidean (Array.zipWith (· / ·) suf denom)
  let terms := Array.zipWith (fun a d => a * a / Float.pow d 3.0) suf denom
  (pNorm - delta, -Numeric.sum terms / pNorm)

/-- A trust-region step with the damping that produced it and the Newton steps taken. -/
structure TrustStep where
  step : Array Float
  alpha : Float
  iterations : Nat

/-- The minimizer of `‖J p + f‖` within `‖p‖ ≤ Δ`, for `J = U Σ Vᵀ` with `m` rows and `n`
columns, `uf = Uᵀ f`, the singular values `s` (decreasing) and the columns of `Vᵀ` in `vtCols`.
The damping starts from `alpha0`. -/
def trustRegionStep (n m : Nat) (uf s : Array Float) (vtCols : Array (Array Float))
    (delta alpha0 : Float) : TrustStep := Id.run do
  let suf := hadamard s uf
  let fullRank := m ≥ n && entry s (n - 1) > unitRoundoff * m.toFloat * entry s 0
  if fullRank then
    let p := (rowsTimes vtCols (Array.zipWith (· / ·) uf s)).map (-·)
    if euclidean p ≤ delta then return ⟨p, 0.0, 0⟩
  let mut upper := euclidean suf / delta
  let mut lower := 0.0
  if fullRank then
    let (phi, phiPrime) := secular 0.0 suf s delta
    lower := -phi / phiPrime
  let restart (lo up : Float) : Float := keepLarger (0.001 * up) (Float.pow (lo * up) 0.5)
  let mut alpha := if !fullRank && alpha0 == 0.0 then restart lower upper else alpha0
  let mut iterations := 10
  for it in [0:10] do
    if alpha < lower || alpha > upper then alpha := restart lower upper
    let (phi, phiPrime) := secular alpha suf s delta
    if phi < 0.0 then upper := alpha
    let ratio := phi / phiPrime
    lower := keepLarger lower (alpha - ratio)
    alpha := alpha - (phi + delta) * ratio / delta
    if phi.abs < 0.01 * delta then
      iterations := it + 1
      break
  let denom := s.map fun si => si * si + alpha
  let p := (rowsTimes vtCols (Array.zipWith (· / ·) suf denom)).map (-·)
  let k := delta / euclidean p
  return ⟨p.map (· * k), alpha, iterations⟩

/-- The value `½ ‖J s‖² + ½ sᵀ D s + gᵀ s` of the model along `s`, `J` given by rows. -/
def modelValue (rows : Array (Array Float)) (g s diag : Array Float) : Float :=
  let js := rowsTimes rows s
  let q := dot js js + dot (hadamard s diag) s
  0.5 * q + dot s g

/-- The coefficients `a t² + b t + c` of the model along `s0 + t s`. -/
def lineQuadratic (rows : Array (Array Float)) (g s diag s0 : Array Float) :
    Float × Float × Float :=
  let v := rowsTimes rows s
  let a := (dot v v + dot (hadamard s diag) s) * 0.5
  let u := rowsTimes rows s0
  let b := dot g s + dot u v + dot (hadamard s0 diag) s
  let c := 0.5 * dot u u + dot g s0 + 0.5 * dot (hadamard s0 diag) s0
  (a, b, c)

/-- The coefficients `a t² + b t` of the model along `t s` from the origin. -/
def rayQuadratic (rows : Array (Array Float)) (g s diag : Array Float) : Float × Float :=
  let v := rowsTimes rows s
  ((dot v v + dot (hadamard s diag) s) * 0.5, dot g s)

/-- The least of `a t² + b t + c` over `lo`, `hi` and the vertex when it lies strictly between,
with the point where it is taken; the first candidate wins ties, and a NaN value wins. -/
def quadraticMinimum (a b lo hi c : Float) : Float × Float :=
  let ts := if a != 0.0 then
      let vertex := -0.5 * b / a
      if lo < vertex && vertex < hi then [lo, hi, vertex] else [lo, hi]
    else [lo, hi]
  let ys := ts.map fun t => t * (a * t + b) + c
  let pairs := ts.zip ys
  let best := pairs.foldl (fun (bt, by_) (t, y) =>
    if by_.isNaN then (bt, by_) else if y.isNaN || y < by_ then (t, y) else (bt, by_))
    (pairs.headD (0.0, 0.0))
  best

/-- Why a sphere crossing does not exist. -/
inductive CrossingError where
  | zeroDirection
  | outsideSphere

/-- The message of a missing crossing. -/
def CrossingError.message : CrossingError → String
  | .zeroDirection => "`s` is zero."
  | .outsideSphere => "`x` is not within the trust region."

/-- The two values of `t` where `x + t s` meets the sphere of radius `Δ`, smaller first. -/
def sphereCrossings (x s : Array Float) (delta : Float) : Except CrossingError (Float × Float) :=
  let a := dot s s
  if a == 0.0 then .error .zeroDirection else
  let b := dot x s
  let c := dot x x - Float.pow delta 2.0
  if c > 0.0 then .error .outsideSphere else
  let d := Float.sqrt (b * b - a * c)
  let signed := if b < 0.0 || (b == 0.0 && (1.0 / b) < 0.0) then -d.abs else d.abs
  let q := -(b + signed)
  let t1 := q / a
  let t2 := c / q
  .ok (if t1 < t2 then (t1, t2) else (t2, t1))

/-- The new radius and the reduction ratio: a quarter of the step after a poor step (ratio
below ¼), doubled after a good step (above ¾) that reached the boundary, kept otherwise. -/
def updateRadius (delta actual predicted stepNorm : Float) (boundHit : Bool) : Float × Float :=
  let ratio :=
    if predicted > 0.0 then actual / predicted
    else if predicted == actual && actual == 0.0 then 1.0 else 0.0
  let delta :=
    if ratio < 0.25 then 0.25 * stepNorm
    else if ratio > 0.75 && boundHit then delta * 2.0 else delta
  (delta, ratio)

/-- Why an iteration ends successfully. -/
inductive Converged where
  /-- The gradient is small. -/
  | gradient
  /-- The reduction of the sum of squares is small. -/
  | reduction
  /-- The step is small. -/
  | step
  /-- Both the reduction and the step are small. -/
  | both
deriving DecidableEq, Inhabited

/-- The status number of a convergence reason. -/
def Converged.code : Converged → Nat
  | .gradient => 1
  | .reduction => 2
  | .step => 3
  | .both => 4

/-- The convergence tests after a step: a small relative reduction with a good ratio, a small
step relative to the point. -/
def convergence (dF F dxNorm xNorm ratio ftol xtol : Float) : Option Converged :=
  let reduced := dF < ftol * F && ratio > 0.25
  let small := dxNorm < xtol * (xtol + xNorm)
  if reduced && small then some .both
  else if reduced then some .reduction
  else if small then some .step
  else none

end GammaFit.Optimize
