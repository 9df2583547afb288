import GammaFit.Json.Convert

/-! # Bounded parameters

A parameter of a fitted model: a value with bounds, switched on or off, held fixed or free.
A switched-off parameter counts as zero in its model. A parameter is regressed only when it is
on, not held, and its bounds leave room to move.

A parameter's numbers are doubles; the parameter and the tests on it are written for any
numbers, so that the same definitions can be read in exact arithmetic.
-/

namespace GammaFit

/-- Bounds closer than this hold a parameter as if it were fixed. -/
def boundTolerance {α : Type} [OfScientific α] : α := 1e-12

/-- A bounded model parameter; an unbounded parameter starts at zero. -/
structure Param (α : Type := Float) [OfScientific α] [Neg α] [Div α] where
  name : String
  value : α := 0.0
  lower : α := -1.0 / 0.0
  upper : α := 1.0 / 0.0
  enabled : Bool := true
  fixed : Bool := false
  uncertainty : α := 0.0
deriving Inhabited

namespace Param

section Numbers

variable {α : Type} [OfScientific α] [Neg α] [Div α]

/-- Whether the parameter is regressed: on, not held, and its bounds apart. -/
def free [Sub α] [LT α] [DecidableLT α] (p : Param α) : Bool :=
  p.enabled && !p.fixed && (p.upper - p.lower) > boundTolerance

/-- The parameter's contribution to its model: its value when on, zero when off. -/
def effective (p : Param α) : α := if p.enabled then p.value else 0.0

end Numbers

/-- The value moved into the bounds: raised to `lower`, then lowered to `upper`. A comparison
with NaN moves nothing. -/
def clipped (p : Param) : Float :=
  let raised := if p.lower > p.value then p.lower else p.value
  if p.upper < raised then p.upper else raised

/-- The parameter's document. -/
def toJson (p : Param) : Json.Value :=
  .obj [("value", .num p.value), ("lower", .num p.lower), ("upper", .num p.upper),
    ("enabled", .bool p.enabled), ("fixed", .bool p.fixed), ("uncertainty", .num p.uncertainty)]

/-- A parameter named `name` from its document: `value` is required, the rest defaults. -/
def ofJson (name : String) (d : Json.Value) : Outcome Param := do
  let value ← (← d.field "value").toFloat
  let lower ← (d.fieldD "lower" (.num (-1.0 / 0.0))).toFloat
  let upper ← (d.fieldD "upper" (.num (1.0 / 0.0))).toFloat
  let enabled := (d.fieldD "enabled" (.bool true)).truthy
  let fixed := (d.fieldD "fixed" (.bool false)).truthy
  let uncertainty ← (d.fieldD "uncertainty" (.num 0.0)).toFloat
  pure { name, value, lower, upper, enabled, fixed, uncertainty }

end Param

end GammaFit
