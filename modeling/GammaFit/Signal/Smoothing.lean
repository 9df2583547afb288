import GammaFit.Linear.Vandermonde
import GammaFit.Failure

/-! # Least-squares polynomial smoothing

A smoothing filter of degree `p` over a window of `w` samples replaces each sample by the value
(or a derivative) at the window's centre of the degree-`p` polynomial fitted to the window by
least squares. Inside the signal this is a correlation with fixed weights, the minimum-norm
solution of `Aᵀ c = δ_d · d!` where `A` holds the powers `0, …, p` of the window's offsets.
Within half a window of either end, the polynomial fitted to the first (or last) `w` samples
is evaluated instead.

* `filterWeights` are the convolution weights (offsets reversed);
* `correlate` applies weights with zeros outside the signal, pairing mirrored samples first
  when the weights are symmetric or antisymmetric to within `2^-52`;
* `smooth` puts them together.
-/

namespace GammaFit.Signal

open GammaFit.Linear

/-- The failure of a least-squares solve whose singular value iteration does not settle. -/
def unsettled : Failure := .linearAlgebra "SVD did not converge in Linear Least Squares"

/-- `n!` as a double. -/
def factorial (n : Nat) : Float := Float.ofNat ((List.range n).foldl (fun acc k => acc * (k + 1)) 1)

/-- The convolution weights of the degree-`order` filter over `window` samples that gives the
`deriv`-th derivative at the centre (for an even window, half a sample left of the middle). The
weights are zero when the derivative exceeds the degree. -/
def filterWeights (window order deriv : Nat) : Outcome (Array Float) := do
  if order ≥ window then throw (.invalid "polyorder must be less than window_length.")
  if deriv > order then return Array.replicate window 0.0
  let half := window / 2
  let pos : Float := if window % 2 = 1 then Float.ofNat half else Float.ofNat half - 0.5
  let offsets := (Array.range window).map (fun k => -pos + Float.ofNat k) |>.reverse
  let a := Mat.ofRows window ((Array.range (order + 1)).map fun p =>
    offsets.map fun x => Float.pow x (Float.ofNat p))
  let rhs := Mat.ofColumns (order + 1) #[(Array.replicate (order + 1) 0.0).set! deriv (factorial deriv)]
  match solveLeastSquares a rhs precision with
  | some r => return r.solution.column 0
  | none => throw unsettled

/-- The weights `w` applied at each sample `i` of `xs` as `Σ_j xs[i + j] · w[c + j]` (`c` the
centre of an odd-length `w`), with zeros outside `xs`. Symmetric weights add each mirrored
pair first, antisymmetric ones subtract it; otherwise the sum starts from the last weight and
runs from the first. -/
def correlate (xs w : Array Float) : Array Float := Id.run do
  let n := w.size
  let size1 := n / 2
  let size2 := n - size1 - 1
  let fw (j : Int) : Float := entry w (size1 + j).toNat
  let get (i : Int) : Float := if 0 ≤ i ∧ i < xs.size then entry xs i.toNat else 0.0
  let odd := n % 2 = 1
  let symmetric := odd && (List.range size1).all fun k =>
    !((fw (k + 1 : Nat) - fw (-((k + 1 : Nat) : Int))).abs > precision)
  let antisymmetric := odd && !symmetric && (List.range size1).all fun k =>
    !((fw (k + 1 : Nat) + fw (-((k + 1 : Nat) : Int))).abs > precision)
  let mut out : Array Float := #[]
  for i' in [0:xs.size] do
    let i : Int := i'
    let mut t := 0.0
    if symmetric then
      t := get i * fw 0
      for k in [0:size1] do
        let j : Int := -((size1 - k : Nat) : Int)
        t := t + (get (i + j) + get (i - j)) * fw j
    else if antisymmetric then
      t := get i * fw 0
      for k in [0:size1] do
        let j : Int := -((size1 - k : Nat) : Int)
        t := t + (get (i + j) - get (i - j)) * fw j
    else
      t := get (i + size2) * fw size2
      for k in [0:size1 + size2] do
        let j : Int := (k : Int) - size1
        t := t + get (i + j) * fw j
    out := out.push t
  return out

/-- The `m`-th derivative of a polynomial given highest power first. -/
def derivative (p : Array Float) (m : Nat) : Array Float :=
  if m = 0 then p
  else if p.size ≤ m then #[0.0]
  else Id.run do
    let n := p.size
    let mut dp := p.extract 0 (n - m)
    for k in [0:m] do
      dp := dp.mapIdx fun i v => v * Float.ofNat (n - k - 1 - i)
    return dp

/-- A polynomial given highest power first, at `x`, by Horner's rule from zero. -/
def evalPolynomial (p : Array Float) (x : Float) : Float :=
  p.foldl (fun y c => y * x + c) 0.0

/-- The samples `xs` smoothed by the degree-`order` filter over `window` samples, or its
`deriv`-th derivative, the ends taken from the polynomials fitted to the first and last
windows. The window must fit in the signal. -/
def smooth (xs : Array Float) (window order deriv : Nat) : Outcome (Array Float) := do
  let w ← filterWeights window order deriv
  if window > xs.size then
    throw (.invalid "If mode is 'interp', window_length must be less than or equal to the size of x.")
  let mut out := correlate xs w.reverse
  let half := window / 2
  let n := xs.size
  let edges : List (Nat × Nat) := [(0, 0), (n - window, n - half)]
  for (start, from_) in edges do
    let p ← match fitPowersDown ((Array.range window).map Float.ofNat) (xs.extract start (start + window)) order with
      | some p => pure p
      | none => throw unsettled
    let p := derivative p deriv
    for k in [0:half] do
      out := out.set! (from_ + k) (evalPolynomial p (Float.ofNat (from_ + k - start)))
  return out

end GammaFit.Signal
