import GammaFit.Linear.LeastSquares
import GammaFit.Numeric.Sum

/-! # Least-squares polynomials

A polynomial of degree `d` through `m` points by least squares is the minimum-norm solution of
the Vandermonde system `V c ≈ y`. Each column of `V` is divided by its Euclidean norm first,
which makes the system better conditioned without changing its solution, and the coefficients are divided by the same norms after. Singular values below
`m · 2^-52` relative to the largest are treated as zero.

Two conventions are kept, as two functions:

* `fitPowersDown` gives the coefficients highest power first; the column norms are sums of
  squares row after row, used as they are;
* `fitPowersUp` gives them lowest power first and takes a weight per point, multiplying its
  row and its value; the column norms are pairwise sums of squares, a zero norm read as one.

Powers are formed by repeated multiplication, `xᵏ = xᵏ⁻¹ · x`.
-/

namespace GammaFit.Linear

/-- The powers `1, x, …, x^d` of each point, lowest first. -/
def powersUp (xs : Array Float) (deg : Nat) : Array (Array Float) :=
  xs.map fun x => Id.run do
    let mut row : Array Float := #[1.0]
    for k in [1:deg + 1] do
      row := row.push (if k = 1 then x else entry row (k - 1) * x)
    return row

/-- The minimum-norm least-squares solution of the system with the given rows, after dividing
each column by its norm (`norms`), divided by the norms after. -/
def solveScaled (rows : Array (Array Float)) (norms : Array Float) (ys : Array Float) :
    Option (Array Float) :=
  let n := norms.size
  let m := rows.size
  let a := Mat.ofRows n (rows.map fun r => r.mapIdx fun j v => v / entry norms j)
  match solveLeastSquares a (Mat.ofColumns m #[ys]) (Float.ofNat m * precision) with
  | some r => some ((r.solution.column 0).mapIdx fun j c => c / entry norms j)
  | none => none

/-- The least-squares polynomial of degree `deg` through `(xs[i], ys[i])`, highest power
first; `none` when the singular value iteration does not converge. -/
def fitPowersDown (xs ys : Array Float) (deg : Nat) : Option (Array Float) :=
  let rows := (powersUp xs deg).map Array.reverse
  let norms := (rows.foldl (fun acc r => acc.mapIdx fun j s => s + entry r j * entry r j)
    (Array.replicate (deg + 1) 0.0)).map Float.sqrt
  solveScaled rows norms ys

/-- The weighted least-squares polynomial of degree `deg` through `(xs[i], ys[i])`, lowest
power first, each point's row and value multiplied by its weight (all ones when there are no
weights); `none` when the singular value iteration does not converge. -/
def fitPowersUp (xs ys : Array Float) (deg : Nat) (weights : Option (Array Float)) :
    Option (Array Float) :=
  let rows := powersUp xs deg
  let (rows, ys) : Array (Array Float) × Array Float := match weights with
    | some w =>
      (rows.mapIdx fun i (r : Array Float) => r.map (· * entry w i),
        ys.mapIdx fun i (y : Float) => y * entry w i)
    | none => (rows, ys)
  let norms := (Array.range (deg + 1)).map fun j =>
    let s := Float.sqrt (Numeric.sum (rows.map fun r => entry r j * entry r j))
    if s == 0.0 then 1.0 else s
  solveScaled rows norms ys

end GammaFit.Linear
