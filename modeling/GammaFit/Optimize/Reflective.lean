import GammaFit.Optimize.TrustRegion
import GammaFit.Linear.Singular

/-! # Bounded least squares by reflective trust regions

`minimizeInBox f x₀ box` looks for a local minimum of `‖f x‖²/2` with `x` inside a box. The
variables are scaled twice: by the column norms of the Jacobian (the largest seen so far), and
by the square roots of the distances to the bounds that the gradient points at. In the scaled
variables each iteration solves a trust-region subproblem of the model augmented with the
curvature of that second scaling. A step that would leave the box is cut at the boundary and
compared with its reflection off the boundary and with the steepest-descent step; the best of
the three by the model is taken, shortened slightly to stay strictly inside.

The Jacobian is approximated by forward differences with steps `√ε · max(1, |xᵢ|)`, turned back
or shortened where they would leave the box. Steps that give residuals that are not finite
shrink the radius to a quarter of their length. The iteration ends when the scaled gradient,
the relative reduction or the relative step is small, or when the evaluations run out.
-/

namespace GammaFit.Optimize

open GammaFit.Linear (entry dot transposedProduct Mat)

/-- Tolerances and the evaluation budget of a bounded minimization. -/
structure BoxTolerances where
  ftol : Float := 1e-8
  xtol : Float := 1e-8
  gtol : Float := 1e-8
  maxEvaluations : Nat

/-- The end of a bounded minimization. -/
structure BoxMinimum where
  /-- The point reached. -/
  x : Array Float
  /-- Half the sum of squares there. -/
  cost : Float
  /-- The residuals there. -/
  residuals : Array Float
  /-- The Jacobian there, by columns. -/
  jacobian : Array (Array Float)
  /-- Why the iteration ended; `none` when the evaluations ran out. -/
  converged : Option Converged
  /-- Evaluations of the residuals, the ones for the Jacobian not counted. -/
  evaluations : Nat

/-- The forward-difference steps at `x`: `√ε · max(1, |xᵢ|)` with the sign of `xᵢ` (positive
at zero); a step that leaves the box is reversed when the reversed one fits, and otherwise
replaced by the distance to the farther bound. -/
def differenceSteps (box : Box) (x : Array Float) : Array Float :=
  let rstep := Float.pow unitRoundoff 0.5
  x.mapIdx fun i xi =>
    let sign := if xi ≥ 0.0 then 1.0 else -1.0
    let h := rstep * sign * atLeastOne xi
    let l := entry box.lower i
    let u := entry box.upper i
    if l == -1.0 / 0.0 && u == 1.0 / 0.0 then h else
    let ld := xi - l
    let ud := u - xi
    let moved := xi + h
    let violated := moved < l || moved > u
    let fitting := h.abs ≤ Numeric.fmax ld ud
    if !fitting then (if ud ≥ ld then ud else -ld)
    else if violated then -h else h

/-- The forward-difference Jacobian at `x`, where `fx = f x`, by columns. -/
def differenceJacobian (f : Array Float → Array Float) (box : Box) (x fx : Array Float) :
    Array (Array Float) :=
  let unbounded := box.lower.all (· == -1.0 / 0.0) && box.upper.all (· == 1.0 / 0.0)
  let hs := if unbounded then
      x.map fun xi => Float.pow unitRoundoff 0.5 * (if xi ≥ 0.0 then 1.0 else -1.0) * atLeastOne xi
    else differenceSteps box x
  hs.mapIdx fun i h =>
    let moved := entry x i + h
    let dx := moved - entry x i
    let fh := f (x.set! i moved)
    Array.zipWith (fun a b => (a - b) / dx) fh fx

/-- The column norms of the Jacobian, pairwise summed; a zero norm counts as one at the start,
and later the norms never decrease. Returns the scales and their inverses. -/
def columnScales (jac : Array (Array Float)) (previous : Option (Array Float)) :
    Array Float × Array Float :=
  let norms := jac.map fun c => Float.sqrt (Numeric.sum (c.map fun v => v * v))
  let inv := match previous with
    | none => norms.map fun v => if v == 0.0 then 1.0 else v
    | some old => Array.zipWith Numeric.fmax norms old
  (inv.map (1.0 / ·), inv)

/-- The chosen step in both scalings and the model's predicted reduction. -/
structure Chosen where
  step : Array Float
  stepScaled : Array Float
  predicted : Float

/-- Choose among the trust-region step `p` (scaled `ph`), its reflection off the box, and the
steepest-descent step, by the model's value. -/
def chooseStep (box : Box) (x : Array Float) (rows : Array (Array Float))
    (diagH gH p ph d : Array Float) (delta theta : Float) : Except CrossingError Chosen := do
  let add (a b : Array Float) := Array.zipWith (· + ·) a b
  let scaleBy (k : Float) (v : Array Float) := v.map (· * k)
  if box.contains (add x p) then
    return ⟨p, ph, -modelValue rows gH ph diagH⟩
  let (pStride, hits) := box.stepToBoundary x p
  let rh := ph.mapIdx fun i v => if hits.getD i 0 != 0 then -v else v
  let r := hadamard d rh
  let p := scaleBy pStride p
  let ph := scaleBy pStride ph
  let onBound := add x p
  let (_, toSphere) ← sphereCrossings ph rh delta
  let (toBound, _) := box.stepToBoundary onBound r
  let rStride := Numeric.fmin toBound toSphere
  let (lo, hi) :=
    if rStride > 0.0 then
      ((1.0 - theta) * pStride / rStride, if rStride == toBound then theta * toBound else toSphere)
    else (0.0, -1.0)
  let (r, rh, rValue) :=
    if lo ≤ hi then
      let (a, b, c) := lineQuadratic rows gH rh diagH ph
      let (t, value) := quadraticMinimum a b lo hi c
      let rh := add (scaleBy t rh) ph
      (hadamard rh d, rh, value)
    else (r, rh, 1.0 / 0.0)
  let p := scaleBy theta p
  let ph := scaleBy theta ph
  let pValue := modelValue rows gH ph diagH
  let agh := gH.map (-·)
  let ag := hadamard d agh
  let toSphere := delta / euclidean agh
  let (toBound, _) := box.stepToBoundary x ag
  let agStride := if toBound < toSphere then theta * toBound else toSphere
  let (a, b) := rayQuadratic rows gH agh diagH
  let (agStride, agValue) := quadraticMinimum a b 0.0 agStride 0.0
  let agh := scaleBy agStride agh
  let ag := scaleBy agStride ag
  if pValue < rValue && pValue < agValue then return ⟨p, ph, -pValue⟩
  else if rValue < pValue && rValue < agValue then return ⟨r, rh, -rValue⟩
  else return ⟨ag, agh, -agValue⟩

/-- Why a bounded minimization could not run. -/
inductive BoxError where
  /-- The inputs are unusable: bounds not ordered, a start outside, residuals not finite, a
  crossing that does not exist, a matrix with entries that are not finite. -/
  | invalid (msg : String)
  /-- The singular value decomposition did not converge. -/
  | noConvergence

/-- The message of a failed minimization. -/
def BoxError.message : BoxError → String
  | .invalid m => m
  | .noConvergence => "SVD did not converge"

/-- The state carried between iterations. -/
structure Iterate where
  x : Array Float
  f : Array Float
  cost : Float
  jac : Array (Array Float)
  g : Array Float
  scale : Array Float
  scaleInv : Array Float
  delta : Float
  alpha : Float
  evaluations : Nat
  converged : Option Converged

/-- The gradient `Jᵀ f`. -/
def gradientOf (jac : Array (Array Float)) (f : Array Float) : Array Float :=
  transposedProduct jac f 1.0 (Array.replicate jac.size 0.0)

/-- The singular value decomposition of the scaled Jacobian stacked on the diagonal `√diagH`. -/
def augmentedSVD (rows : Array (Array Float)) (diagH : Array Float) (n : Nat) :
    Except BoxError Linear.ThinSVD := do
  let aug := rows ++ (Array.range n).map fun j =>
    (Array.range n).map fun i => if i == j then Float.sqrt (entry diagH i) else 0.0
  if aug.any (·.any fun v => !finite v) then
    throw (.invalid "array must not contain infs or NaNs")
  match (Mat.ofRows n aug).thinSVD with
  | some svd => return svd
  | none => throw .noConvergence

/-- One outer iteration: factor the scaled model, then try steps until one reduces the sum of
squares, the evaluations run out, or a convergence test passes. -/
def iterate (f : Array Float → Array Float) (box : Box) (tol : BoxTolerances) (it : Iterate) :
    Except BoxError Iterate := do
  let n := it.x.size
  let m := it.f.size
  let (v0, dv) := box.scaling it.x it.g
  let v := v0.mapIdx fun i vi => if entry dv i != 0.0 then vi * entry it.scaleInv i else vi
  let gNorm := largestMagnitude (hadamard it.g v0)
  let d := v.mapIdx fun i vi => Float.sqrt vi * entry it.scale i
  let diagH := (Array.range n).map fun i => entry it.g i * entry dv i * entry it.scale i
  let gH := hadamard d it.g
  let rows := (Array.range m).map fun k =>
    (Array.range n).map fun i => entry (it.jac.getD i #[]) k * entry d i
  let svd ← augmentedSVD rows diagH n
  let uCols := (Array.range n).map fun j => svd.u.column j
  let vtCols := (Array.range n).map fun j => svd.vt.column j
  let uf := transposedProduct uCols (it.f ++ Array.replicate n 0.0) 1.0 (Array.replicate n 0.0)
  let theta := keepLarger 0.995 (1.0 - gNorm)
  let mut delta := it.delta
  let mut alpha := it.alpha
  let mut evals := it.evaluations
  let mut reduction := -1.0
  let mut converged : Option Converged := none
  let mut accepted : Option (Array Float × Array Float × Float) := none
  for _ in [0:tol.maxEvaluations + 1] do
    if !(reduction ≤ 0.0 && evals < tol.maxEvaluations) then break
    let ts := trustRegionStep n m uf svd.s vtCols delta alpha
    alpha := ts.alpha
    let p := hadamard d ts.step
    let chosen ← match chooseStep box it.x rows diagH gH p ts.step d delta theta with
      | .ok c => pure c
      | .error e => throw (BoxError.invalid e.message)
    let xNew := box.inside (Array.zipWith (· + ·) it.x chosen.step) 0.0
    let fNew := f xNew
    evals := evals + 1
    let stepHNorm := euclidean chosen.stepScaled
    if fNew.any fun v => !finite v then
      delta := 0.25 * stepHNorm
      continue
    let costNew := 0.5 * dot fNew fNew
    reduction := it.cost - costNew
    let (deltaNew, ratio) :=
      updateRadius delta reduction chosen.predicted stepHNorm (stepHNorm > 0.95 * delta)
    let stepNorm := euclidean chosen.step
    accepted := some (xNew, fNew, costNew)
    converged := convergence reduction it.cost stepNorm (euclidean it.x) ratio tol.ftol tol.xtol
    if converged.isSome then break
    alpha := alpha * (delta / deltaNew)
    delta := deltaNew
  match accepted with
  | some (xNew, fNew, costNew) =>
    if reduction > 0.0 then
      let jac := differenceJacobian f box xNew fNew
      let (scale, scaleInv) := columnScales jac (some it.scaleInv)
      return { x := xNew, f := fNew, cost := costNew, jac, g := gradientOf jac fNew, scale,
               scaleInv, delta, alpha, evaluations := evals, converged }
    else return { it with delta, alpha, evaluations := evals, converged }
  | none => return { it with delta, alpha, evaluations := evals, converged }

/-- Minimize `‖f x‖²/2` over the box from `x₀`. -/
def minimizeInBox (f : Array Float → Array Float) (x0 : Array Float) (box : Box)
    (tol : BoxTolerances) : Except BoxError BoxMinimum := do
  let n := x0.size
  if (List.range n).any (fun i => entry box.lower i ≥ entry box.upper i) then
    throw (.invalid "Each lower bound must be strictly less than each upper bound.")
  if !box.contains x0 then throw (.invalid "`x0` is infeasible.")
  let x0 := box.inside x0 1e-10
  let f0 := f x0
  if f0.any fun v => !finite v then
    throw (.invalid "Residuals are not finite in the initial point.")
  let jac := differenceJacobian f box x0 f0
  let g := gradientOf jac f0
  let (scale, scaleInv) := columnScales jac none
  let (v0, dv) := box.scaling x0 g
  let v := v0.mapIdx fun i vi => if entry dv i != 0.0 then vi * entry scaleInv i else vi
  let delta0 := euclidean ((Array.range n).map fun i =>
    entry x0 i * entry scaleInv i / Float.sqrt (entry v i))
  let mut it : Iterate :=
    { x := x0, f := f0, cost := 0.5 * dot f0 f0, jac, g, scale, scaleInv,
      delta := if delta0 == 0.0 then 1.0 else delta0, alpha := 0.0, evaluations := 1,
      converged := none }
  for _ in [0:tol.maxEvaluations + 2] do
    let (v0, _) := box.scaling it.x it.g
    let gNorm := largestMagnitude (hadamard it.g v0)
    if gNorm < tol.gtol then it := { it with converged := some .gradient }
    if it.converged.isSome || it.evaluations == tol.maxEvaluations then break
    it ← iterate f box tol it
  return { x := it.x, cost := it.cost, residuals := it.f, jacobian := it.jac,
           converged := it.converged, evaluations := it.evaluations }

end GammaFit.Optimize
