/-! # Norms and pivoted factorizations for damped least squares

The damped Gauss–Newton method works on the Jacobian `J` (`m × n`, stored by columns) through a
Householder factorization with column pivoting, `J P = Q R`, where each step brings the
remaining column of largest norm to the front. This module holds that factorization and the
Euclidean norm it is built on.

The norm accumulates squares in three ranges (tiny, ordinary, huge) so that no square
overflows or underflows, then joins the ranges. Every multiply and add below is a separate
rounding: nothing is fused.
-/

namespace GammaFit.Optimize

/-- Entry `i` of a column, zero beyond its end. -/
@[inline] def cell (xs : Array Float) (i : Nat) : Float := xs.getD i 0.0

/-- The larger of two values, keeping the first unless the second is greater. -/
@[inline] def keepMax (a b : Float) : Float := if b > a then b else a

/-- The smaller of two values, keeping the first unless the second is less. -/
@[inline] def keepMin (a b : Float) : Float := if b < a then b else a

/-- Squares below this magnitude's square may underflow. -/
def tinyMagnitude : Float := 3.834e-20

/-- Squares above this magnitude's square may overflow. -/
def hugeMagnitude : Float := 1.304e19

/-- The Euclidean norm, with tiny and huge entries summed in scaled form. -/
def stableNorm (xs : Array Float) : Float := Id.run do
  let agiant := hugeMagnitude / xs.size.toFloat
  let mut s1 := 0.0
  let mut s2 := 0.0
  let mut s3 := 0.0
  let mut x1max := 0.0
  let mut x3max := 0.0
  for v in xs do
    let xabs := v.abs
    if xabs > tinyMagnitude && xabs < agiant then
      s2 := s2 + xabs * xabs
    else if xabs ≤ tinyMagnitude then
      if xabs > x3max then
        s3 := 1.0 + s3 * ((x3max / xabs) * (x3max / xabs))
        x3max := xabs
      else if xabs != 0.0 then
        s3 := s3 + (xabs / x3max) * (xabs / x3max)
    else
      if xabs > x1max then
        s1 := 1.0 + s1 * ((x1max / xabs) * (x1max / xabs))
        x1max := xabs
      else
        s1 := s1 + (xabs / x1max) * (xabs / x1max)
  if s1 != 0.0 then
    return x1max * Float.sqrt (s1 + (s2 / x1max) / x1max)
  if s2 != 0.0 then
    if s2 ≥ x3max then
      return Float.sqrt (s2 * (1.0 + (x3max / s2) * (x3max * s3)))
    return Float.sqrt (x3max * ((s2 / x3max) + (x3max * s3)))
  return x3max * Float.sqrt s3

/-- The relative machine precision. -/
def machinePrecision : Float := 2.220446049250313e-16

/-- The smallest positive normal number. -/
def smallestNormal : Float := 2.2250738585072014e-308

/-- A Householder factorization with column pivoting, `J P = Q R`, of an `m × n` matrix stored by
columns. -/
structure PivotedQR where
  /-- Column `j` holds `R` above the diagonal and the `j`-th Householder vector from the
  diagonal down. -/
  cols : Array (Array Float)
  /-- `perm[j]` is the original column that ended up in place `j`. -/
  perm : Array Nat
  /-- The diagonal of `R`. -/
  rdiag : Array Float
  /-- The norms of the original columns. -/
  colNorms : Array Float

/-- The suffix of a column from row `j`. -/
def tailFrom (xs : Array Float) (j : Nat) : Array Float := xs.extract j xs.size

/-- Factor `J P = Q R` with column pivoting. Each step swaps in the column of largest remaining
norm, reflects it onto `-‖·‖ e_j`, updates the later columns and their remaining norms, and
recomputes a norm in full once cancellation has eaten most of its digits. -/
def factorPivoted (m : Nat) (cols : Array (Array Float)) : PivotedQR := Id.run do
  let n := cols.size
  let acnorm := cols.map stableNorm
  let mut a := cols
  let mut rdiag := acnorm
  let mut wa := acnorm
  let mut ipvt := Array.range n
  for j in [0:min m n] do
    let mut kmax := j
    for k in [j:n] do
      if cell rdiag k > cell rdiag kmax then kmax := k
    if kmax != j then
      let cj := a.getD j #[]
      a := (a.set! j (a.getD kmax #[])).set! kmax cj
      rdiag := rdiag.set! kmax (cell rdiag j)
      wa := wa.set! kmax (cell wa j)
      let pj := ipvt.getD j 0
      ipvt := (ipvt.set! j (ipvt.getD kmax 0)).set! kmax pj
    let mut ajnorm := stableNorm (tailFrom (a.getD j #[]) j)
    if ajnorm != 0.0 then
      let colj0 := a.getD j #[]
      if cell colj0 j < 0.0 then ajnorm := -ajnorm
      let mut colj := colj0
      for i in [j:m] do
        colj := colj.set! i (cell colj i / ajnorm)
      colj := colj.set! j (cell colj j + 1.0)
      a := a.set! j colj
      for k in [j + 1:n] do
        let mut colk := a.getD k #[]
        let mut s := 0.0
        for i in [j:m] do
          s := cell colj i * cell colk i + s
        let temp := s / cell colj j
        for i in [j:m] do
          colk := colk.set! i (-temp * cell colj i + cell colk i)
        a := a.set! k colk
        if cell rdiag k != 0.0 then
          let t := cell colk j / cell rdiag k
          rdiag := rdiag.set! k (cell rdiag k * Float.sqrt (keepMax 0.0 (1.0 - t * t)))
          let q := cell rdiag k / cell wa k
          if 0.05 * (q * q) ≤ machinePrecision then
            let fresh := stableNorm (tailFrom colk (j + 1))
            rdiag := rdiag.set! k fresh
            wa := wa.set! k fresh
    rdiag := rdiag.set! j (-ajnorm)
  return { cols := a, perm := ipvt, rdiag, colNorms := acnorm }

end GammaFit.Optimize
