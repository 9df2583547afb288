/-! # Extremes and searches over samples

Minimum and maximum of samples propagate a NaN: a NaN anywhere makes the extreme NaN. A
search in sorted samples returns the insertion point that keeps them sorted.
-/

namespace GammaFit.Numeric

/-- The smaller of two doubles, NaN if either is. -/
def fmin (a b : Float) : Float := if a.isNaN then a else if b.isNaN then b else if b < a then b else a

/-- The larger of two doubles, NaN if either is. -/
def fmax (a b : Float) : Float := if a.isNaN then a else if b.isNaN then b else if b > a then b else a

/-- The least of nonempty samples, NaN if any is NaN. -/
def minimum (xs : Array Float) : Float := xs.foldl fmin (xs.getD 0 0.0)

/-- The greatest of nonempty samples, NaN if any is NaN. -/
def maximum (xs : Array Float) : Float := xs.foldl fmax (xs.getD 0 0.0)

/-- The first index of a greatest sample (a NaN counts as greatest, its first occurrence wins). -/
def argmax (xs : Array Float) : Nat :=
  (xs.foldl (fun (acc : Nat × Float × Nat) v =>
    let (best, bv, i) := acc
    if bv.isNaN then (best, bv, i + 1)
    else if v.isNaN ∨ v > bv then (i, v, i + 1) else (best, bv, i + 1))
    (0, xs.getD 0 0.0, 0)).1

/-- The first index `i` in `[lo, hi)` with `p xs[i]`, or `hi` (binary search, `p` monotone). -/
def firstWith (xs : Array Float) (p : Float → Bool) (lo hi : Nat) : Nat :=
  if h : lo < hi then
    let mid := (lo + hi) / 2
    if p (xs.getD mid 0.0) then firstWith xs p lo mid else firstWith xs p (mid + 1) hi
  else lo
termination_by hi - lo

/-- The order used for searching: NaN sorts above every number. -/
def sortLt (a b : Float) : Bool := a < b || (b.isNaN && !a.isNaN)

/-- Insertion point of `v` in sorted samples, before samples equal to it. -/
def searchLeft (xs : Array Float) (v : Float) : Nat :=
  firstWith xs (fun a => !sortLt a v) 0 xs.size

/-- Insertion point of `v` in sorted samples, after samples equal to it. -/
def searchRight (xs : Array Float) (v : Float) : Nat :=
  firstWith xs (fun a => sortLt v a) 0 xs.size

end GammaFit.Numeric
