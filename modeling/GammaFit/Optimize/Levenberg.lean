import GammaFit.Optimize.Levenberg.Damping

/-! # Damped Gauss–Newton least squares

`minimize f x₀` looks for a local minimum of `‖f x‖²` from `x₀`, with a forward-difference
Jacobian. Each outer step factors the Jacobian with column pivoting, tests the gradient, and
then tries damped steps inside a trust radius `Δ` until one reduces the sum of squares by at
least a ten-thousandth of what the linear model predicts. The radius shrinks after poor steps
and grows after good ones; the variables are scaled by the largest column norms seen so far.

The run stops for one of the reasons of `Stop`; the first four count as convergence.
Every evaluation of `f` is counted against a budget, which also bounds both loops.
-/

namespace GammaFit.Optimize

/-- Why a minimization stopped. -/
inductive Stop where
  /-- Actual and predicted relative reductions of the sum of squares are within `ftol`. -/
  | reduction
  /-- The relative error between two consecutive iterates is within `xtol`. -/
  | steps
  /-- Both of the above. -/
  | both
  /-- The residuals are orthogonal to the Jacobian's columns to within `gtol`. -/
  | gradient
  /-- The evaluation budget is spent. -/
  | budget
  /-- `ftol` is too small: no further reduction is possible. -/
  | reductionLimit
  /-- `xtol` is too small: no further improvement of the iterate is possible. -/
  | stepsLimit
  /-- `gtol` is too small: the residuals are orthogonal to machine precision. -/
  | gradientLimit
deriving DecidableEq, Inhabited

/-- The first four reasons are convergence; the rest are failures. -/
def Stop.converged : Stop → Bool
  | .reduction | .steps | .both | .gradient => true
  | _ => false

/-- Tolerances and limits of a minimization. -/
structure Tolerances where
  ftol : Float := 1.49012e-8
  xtol : Float := 1.49012e-8
  gtol : Float := 0.0
  /-- The most evaluations of the residuals. -/
  budget : Nat := 2000
  /-- The relative error of the residuals, which sets the difference step. -/
  epsfcn : Float := machinePrecision
  /-- The first radius is this factor times the scaled length of `x₀`. -/
  factor : Float := 100.0

/-- The end of a minimization. -/
structure Minimum where
  x : Array Float
  stop : Stop
  evals : Nat

/-- Forward differences `(f(x + h eⱼ) - f x) / h` with `h = √ε |xⱼ|`, or `√ε` at zero. -/
def forwardJacobian (f : Array Float → Array Float) (x fx : Array Float) (epsfcn : Float) :
    Array (Array Float) :=
  let eps := Float.sqrt (keepMax epsfcn machinePrecision)
  (Array.range x.size).map fun j =>
    let xj := cell x j
    let h0 := eps * xj.abs
    let h := if h0 == 0.0 then eps else h0
    let fh := f (x.set! j (xj + h))
    (Array.range fx.size).map fun i => (cell fh i - cell fx i) / h

/-- The scaled length `‖D x‖`. -/
def scaledLength (d x : Array Float) : Float :=
  stableNorm ((Array.range x.size).map fun j => cell d j * cell x j)

/-- `Qᵀ f` from the reflectors stored in a pivoted factor, with `R`'s diagonal put back in place
of the reflectors' leading entries. -/
def applyReflectors (m n : Nat) (qr : PivotedQR) (fvec : Array Float) :
    Array (Array Float) × Array Float := Id.run do
  let mut fjac := qr.cols
  let mut w := fvec
  let mut qtf := Array.replicate n 0.0
  for j in [0:n] do
    let colj := fjac.getD j #[]
    if cell colj j != 0.0 then
      let mut s := 0.0
      for i in [j:m] do
        s := cell colj i * cell w i + s
      let temp := -s / cell colj j
      for i in [j:m] do
        w := w.set! i (cell colj i * temp + cell w i)
    fjac := setCell fjac j j (cell qr.rdiag j)
    qtf := qtf.set! j (cell w j)
  return (fjac, qtf)

/-- The largest cosine between the residuals and a column of the Jacobian. -/
def gradientCosine (n : Nat) (qr : PivotedQR) (r : Array (Array Float)) (qtf : Array Float)
    (fnorm : Float) : Float := Id.run do
  let mut gnorm := 0.0
  if fnorm != 0.0 then
    for j in [0:n] do
      let l := qr.perm.getD j 0
      if cell qr.colNorms l != 0.0 then
        let mut s := 0.0
        for i in [0:j + 1] do
          s := getCell r j i * (cell qtf i / fnorm) + s
        gnorm := keepMax gnorm (s / cell qr.colNorms l).abs
  return gnorm

/-- `‖R Pᵀ p‖`: the length of the linear model's change along the step `p`. -/
def modelChange (n : Nat) (r : Array (Array Float)) (perm : Array Nat) (p : Array Float) :
    Float := Id.run do
  let mut w := Array.replicate n 0.0
  for j in [0:n] do
    let temp := cell p (perm.getD j 0)
    for i in [0:j + 1] do
      w := w.set! i (getCell r j i * temp + cell w i)
  return stableNorm w

/-- Minimize `‖f x‖²` from `x₀`. -/
def minimize (f : Array Float → Array Float) (x0 : Array Float) (tol : Tolerances) :
    Minimum := Id.run do
  let n := x0.size
  let mut x := x0
  let mut fvec := f x0
  let m := fvec.size
  let mut nfev := 1
  let mut fnorm := stableNorm fvec
  let mut par := 0.0
  let mut iter := 1
  let mut diag := Array.replicate n 0.0
  let mut delta := 0.0
  let mut xnorm := 0.0
  for _ in [0:tol.budget + 1] do
    let qr := factorPivoted m (forwardJacobian f x fvec tol.epsfcn)
    nfev := nfev + n
    if iter == 1 then
      diag := qr.colNorms.map fun v => if v == 0.0 then 1.0 else v
      xnorm := scaledLength diag x
      delta := tol.factor * xnorm
      if delta == 0.0 then delta := tol.factor
    let (fjac0, qtf) := applyReflectors m n qr fvec
    let mut fjac := fjac0
    let gnorm := gradientCosine n qr fjac qtf fnorm
    if gnorm ≤ tol.gtol then
      return { x, stop := .gradient, evals := nfev }
    diag := (Array.range n).map fun j => keepMax (cell diag j) (cell qr.colNorms j)
    for _ in [0:tol.budget + 1] do
      let damped := damping n fjac qr.perm diag qtf delta par
      par := damped.par
      fjac := damped.r
      let step := damped.step.map (-·)
      let trial := (Array.range n).map fun j => cell x j + cell step j
      let pnorm := scaledLength diag step
      if iter == 1 then delta := keepMin delta pnorm
      let ftrial := f trial
      nfev := nfev + 1
      let fnorm1 := stableNorm ftrial
      let mut actred := -1.0
      if 0.1 * fnorm1 < fnorm then
        actred := -(fnorm1 / fnorm) * (fnorm1 / fnorm) + 1.0
      let temp1 := modelChange n fjac qr.perm step / fnorm
      let temp2 := (Float.sqrt par * pnorm) / fnorm
      let prered := temp1 * temp1 + temp2 * temp2 / 0.5
      let dirder := -(temp1 * temp1 + temp2 * temp2)
      let ratio := if prered != 0.0 then actred / prered else 0.0
      if ratio ≤ 0.25 then
        -- a reduction that is not a number leaves the last permuted step entry as the factor
        let mut temp := cell step (qr.perm.getD (n - 1) 0)
        if actred ≥ 0.0 then temp := 0.5
        if actred < 0.0 then temp := 0.5 * dirder / (0.5 * actred + dirder)
        if 0.1 * fnorm1 ≥ fnorm || temp < 0.1 then temp := 0.1
        delta := temp * keepMin delta (pnorm / 0.1)
        par := par / temp
      else if !(par != 0.0 && ratio < 0.75) then
        delta := pnorm / 0.5
        par := 0.5 * par
      if ratio ≥ 0.0001 then
        x := trial
        fvec := ftrial
        xnorm := scaledLength diag x
        fnorm := fnorm1
        iter := iter + 1
      let reduced := actred.abs ≤ tol.ftol && prered ≤ tol.ftol && 0.5 * ratio ≤ 1.0
      let settled := delta ≤ tol.xtol * xnorm
      if reduced && settled then return { x, stop := .both, evals := nfev }
      if settled then return { x, stop := .steps, evals := nfev }
      if reduced then return { x, stop := .reduction, evals := nfev }
      if gnorm ≤ machinePrecision then return { x, stop := .gradientLimit, evals := nfev }
      if delta ≤ machinePrecision * xnorm then return { x, stop := .stepsLimit, evals := nfev }
      if actred.abs ≤ machinePrecision && prered ≤ machinePrecision && 0.5 * ratio ≤ 1.0 then
        return { x, stop := .reductionLimit, evals := nfev }
      if nfev ≥ tol.budget then return { x, stop := .budget, evals := nfev }
      if ratio ≥ 0.0001 then break
  return { x, stop := .budget, evals := nfev }

end GammaFit.Optimize
