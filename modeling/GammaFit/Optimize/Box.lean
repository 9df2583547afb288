import GammaFit.Linear.Kernels
import GammaFit.Numeric.Order

/-! # Boxes

A box is a lower and an upper bound for each variable; bounds may be infinite. This module
holds what a trust-region method needs to stay inside one:

* which bounds a point lies on, to a relative tolerance (`Box.sideOf`);
* moving a point strictly inside (`Box.inside`), by a relative step or to the next double;
* the longest step along a direction before a bound is crossed (`Box.stepToBoundary`);
* the scaling of the variables by their distances to the bounds the gradient points at
  (`Box.scaling`).
-/

namespace GammaFit.Optimize

open GammaFit.Linear (entry)

/-- Lower and upper bounds of each variable. -/
structure Box where
  lower : Array Float
  upper : Array Float

/-- Where a variable lies relative to its bounds. -/
inductive Side where
  | lower
  | interior
  | upper
deriving DecidableEq, Inhabited

/-- `max 1 |v|`, NaN for NaN. -/
def atLeastOne (v : Float) : Float := Numeric.fmax 1.0 v.abs

/-- Whether a double is finite. -/
def finite (v : Float) : Bool := !v.isNaN && !v.isInf

/-- The neighbouring double of `x` in the direction of `y`. -/
def nextToward (x y : Float) : Float :=
  if x.isNaN || y.isNaN then x + y
  else if x == y then y
  else if x == 0.0 then
    if y > 0.0 then Float.ofBits 1 else Float.ofBits 0x8000000000000001
  else
    let b := x.toBits
    if (x < y) == (x > 0.0) then Float.ofBits (b + 1) else Float.ofBits (b - 1)

namespace Box

/-- Whether every variable lies within its bounds. -/
def contains (b : Box) (x : Array Float) : Bool :=
  (List.range x.size).all fun i => entry b.lower i ≤ entry x i && entry x i ≤ entry b.upper i

/-- The bound a variable lies on: with tolerance `rtol = 0`, on or beyond it; otherwise within
`rtol · max(1, |bound|)` of a finite bound and nearer to it than to the other one. -/
def sideOf (x l u rtol : Float) : Side :=
  if rtol == 0.0 then
    if x ≥ u then .upper else if x ≤ l then .lower else .interior
  else
    let ld := x - l
    let ud := u - x
    let atUpper := finite u && ud ≤ Numeric.fmin ld (rtol * atLeastOne u)
    let atLower := finite l && ld ≤ Numeric.fmin ud (rtol * atLeastOne l)
    if atUpper then .upper else if atLower then .lower else .interior

/-- The sides of all variables. -/
def sides (b : Box) (x : Array Float) (rtol : Float) : Array Side :=
  x.mapIdx fun i xi => sideOf xi (entry b.lower i) (entry b.upper i) rtol

/-- The point moved strictly inside: a variable on a bound moves off it by
`rstep · max(1, |bound|)`, or to the next double when `rstep = 0`; a variable that still is
not within its bounds goes to their midpoint. -/
def inside (b : Box) (x : Array Float) (rstep : Float) : Array Float :=
  x.mapIdx fun i xi =>
    let l := entry b.lower i
    let u := entry b.upper i
    let v := match sideOf xi l u rstep with
      | .lower => if rstep == 0.0 then nextToward l u else l + rstep * atLeastOne l
      | .upper => if rstep == 0.0 then nextToward u l else u - rstep * atLeastOne u
      | .interior => xi
    if v < l || v > u then 0.5 * (l + u) else v

/-- The sign of a direction's component as an integer. -/
def signOf (v : Float) : Int := if v > 0.0 then 1 else if v < 0.0 then -1 else 0

/-- The largest `t` with `x + t s` within the box, and for each variable the sign of `s` where
its bound is reached at that `t` (zero elsewhere). -/
def stepToBoundary (b : Box) (x s : Array Float) : Float × Array Int :=
  let inf := 1.0 / 0.0
  let steps := s.mapIdx fun i si =>
    if si != 0.0 then
      Numeric.fmax ((entry b.lower i - entry x i) / si) ((entry b.upper i - entry x i) / si)
    else inf
  let least := if steps.any Float.isNaN then 0.0 / 0.0 else steps.foldl Numeric.fmin inf
  (least, steps.mapIdx fun i t => if t == least then signOf (entry s i) else 0)

/-- The scaling of the variables: where the gradient points down towards a finite bound, the
distance to it (and the sign of its derivative); `1` (and `0`) elsewhere. -/
def scaling (b : Box) (x g : Array Float) : Array Float × Array Float :=
  let pick (i : Nat) : Float × Float :=
    let gi := entry g i
    let xi := entry x i
    let l := entry b.lower i
    let u := entry b.upper i
    if gi > 0.0 && finite l then (xi - l, 1.0)
    else if gi < 0.0 && finite u then (u - xi, -1.0)
    else (1.0, 0.0)
  let vs := (Array.range x.size).map pick
  (vs.map (·.1), vs.map (·.2))

end Box

end GammaFit.Optimize
