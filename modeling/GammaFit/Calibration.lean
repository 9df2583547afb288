import GammaFit.Json.Order

/-! # Calibrations

A calibration maps bins to a physical value by a polynomial with ascending coefficients. The
energy calibration is the polynomial itself, or the identity while it has no coefficients. The
resolution calibration gives the width at half maximum in bins as the square root of the
polynomial (clipped at zero), or zero while it has no coefficients. Coefficients keep the form
a document gave them until a fit replaces them.

The derivative and the inverse belong to the polynomial, also for a resolution calibration: the
derivative is the polynomial's, and a line of nonzero slope is inverted in closed form.

The arithmetic of a calibration (`polyval`, `polyder`, `valueAt`, `slopeAt`, `lineInverse?`) is
written for any numbers: the calibration evaluates it in doubles, and the same definitions read
in exact arithmetic are what its laws are stated about.
-/

namespace GammaFit

/-- What a calibration gives. -/
inductive CalibrationKind where
  /-- Energy (or another value) per bin. -/
  | energy
  /-- Width at half maximum in bins, as the root of the polynomial. -/
  | resolution
deriving DecidableEq, Inhabited

/-- A polynomial calibration. -/
structure Calibration where
  kind : CalibrationKind := .energy
  coefficients : List Json.Value := []
  units : Json.Value := .str "keV"
  bits : Json.Value := .int 0
deriving Inhabited

section Arithmetic

variable {α : Type} [Add α] [Mul α] [Zero α]

/-- `Σ cᵢ xⁱ` by Horner's rule from the highest coefficient, which starts as `c_top + x · 0`. -/
def polyval (cs : Array α) (x : α) : α :=
  let n := cs.size
  (List.range (n - 1)).foldl (fun acc i => cs.getD (n - 2 - i) 0 + acc * x)
    (cs.getD (n - 1) 0 + x * 0)

/-- Coefficients of the derivative: `i · cᵢ` for `i ≥ 1`, or `[0]` for a constant; `num` reads a
count as a number. -/
def polyder (num : Nat → α) (cs : Array α) : Array α :=
  if cs.size ≤ 1 then #[cs.getD 0 0 * 0]
  else (Array.range (cs.size - 1)).map fun j => num (j + 1) * cs.getD (j + 1) 0

namespace Calibration

/-- The value at `x` of a calibration of kind `kind` with coefficients `cs`: the polynomial for
energy, and for resolution its root taken by `root`, the square root of a value clipped at zero. -/
def valueAt (root : α → α) (kind : CalibrationKind) (cs : Array α) (x : α) : α :=
  match kind with
  | .energy => polyval cs x
  | .resolution => root (polyval cs x)

/-- The slope at `x` of the polynomial with coefficients `cs`. -/
def slopeAt (num : Nat → α) (cs : Array α) (x : α) : α := polyval (polyder num cs) x

/-- The bin at which the line `c₀ + c₁ x` of nonzero slope reaches `value`; none for coefficients
that are not such a line. -/
def lineInverse? [Sub α] [Div α] [BEq α] (cs : Array α) (value : α) : Option α :=
  if cs.size = 2 ∧ cs.getD 1 0 != 0 then some ((value - cs.getD 0 0) / cs.getD 1 0) else none

end Calibration

end Arithmetic

/-- The square root of a double clipped at zero; NaN stays NaN. -/
def clippedRoot (v : Float) : Float :=
  Float.sqrt (if v.isNaN then v else if v < 0.0 then 0.0 else v)

namespace Calibration

/-- The name of the calibration's model. -/
def modelName (c : Calibration) : String :=
  match c.kind with
  | .energy => "Calibration"
  | .resolution => "FWHMCalibration"

/-- A calibration is in use once it has coefficients. -/
def valid (c : Calibration) : Bool := !c.coefficients.isEmpty

/-- The coefficients as doubles. -/
def floats (c : Calibration) : Outcome (Array Float) :=
  c.coefficients.toArray.mapM Json.Value.toFloat

/-- The calibrated value of one bin. -/
def transform (c : Calibration) (x : Float) : Outcome Float := do
  if !c.valid then
    return (match c.kind with
      | .energy => x
      | .resolution => 0.0)
  return valueAt clippedRoot c.kind (← c.floats) x

/-- The derivative of the polynomial at one bin (also for a resolution calibration), or `1`
while there are no coefficients. -/
def derivative (c : Calibration) (x : Float) : Outcome Float := do
  if !c.valid then return 1.0
  return slopeAt Nat.toFloat (← c.floats) x

/-- Newton's iteration for the bin of `value`, from bin `0`, at most `fuel` steps: stops when a
step moves at most `1e-6`, and gives NaN when the slope vanishes or the steps do not settle. -/
def newton (c : Calibration) (value : Float) : Nat → Float → Outcome Float
  | 0, _ => .ok (0.0 / 0.0)
  | fuel + 1, x0 => do
    let slope ← c.derivative x0
    if slope == 0.0 then return 0.0 / 0.0
    let x1 := x0 + (value - (← c.transform x0)) / slope
    if (x1 - x0).abs ≤ 1e-6 then return x1
    c.newton value fuel x1

/-- The bin at which the calibration gives `value`: exact for a line of nonzero slope, by
Newton's iteration otherwise, the value itself while there are no coefficients. -/
def inverse (c : Calibration) (value : Float) : Outcome Float := do
  if !c.valid then return value
  match lineInverse? (← c.floats) value with
  | some b => return b
  | none => c.newton value 100 0.0

/-- A calibration with coefficients evaluates its arithmetic on them as doubles. -/
theorem transform_of_floats {c : Calibration} {cs : Array Float} (hv : c.valid = true)
    (hc : c.floats = .ok cs) (x : Float) :
    c.transform x = .ok (valueAt clippedRoot c.kind cs x) := by
  simp [transform, hv, hc, bind, Except.bind, pure, Except.pure]

theorem derivative_of_floats {c : Calibration} {cs : Array Float} (hv : c.valid = true)
    (hc : c.floats = .ok cs) (x : Float) : c.derivative x = .ok (slopeAt Nat.toFloat cs x) := by
  simp [derivative, hv, hc, bind, Except.bind, pure, Except.pure]

/-- A calibration whose coefficients are a line of nonzero slope inverts it in closed form. -/
theorem inverse_of_line {c : Calibration} {cs : Array Float} (hv : c.valid = true)
    (hc : c.floats = .ok cs) {value b : Float} (hb : lineInverse? cs value = some b) :
    c.inverse value = .ok b := by
  simp [inverse, hv, hc, hb, bind, Except.bind, pure, Except.pure]

/-- The calibration's document. -/
def toJson (c : Calibration) : Json.Value :=
  .obj [("model", .str c.modelName), ("coefficients", .arr c.coefficients), ("units", c.units),
    ("bits", c.bits)]

/-- The coefficients a document gives: none for a false value (`null`, zero, an empty list),
else the values iterating over it gives. -/
def coefficientsOf (v : Json.Value) : Outcome (List Json.Value) :=
  if v.truthy then v.iterate else .ok []

/-- A calibration from its document; the model `FWHMCalibration` gives a resolution
calibration, any other an energy calibration, both with units `keV` unless given. Only an
object is a calibration's document. -/
def ofJson (d : Json.Value) : Outcome Calibration := do
  let model ← d.lookupD "model" (.str "Calibration")
  let kind := match model with
    | .str "FWHMCalibration" => CalibrationKind.resolution
    | _ => .energy
  let coefficients ← coefficientsOf (← d.lookupD "coefficients" (.arr []))
  let units ← d.lookupD "units" (.str "keV")
  let bits ← d.lookupD "bits" (.int 0)
  pure { kind, coefficients, units, bits }

/-- A resolution calibration with the coefficients and bits of a document, in bins. -/
def resolutionOfJson (d : Json.Value) : Outcome Calibration := do
  let coefficients ← coefficientsOf (← d.lookupD "coefficients" (.arr []))
  let bits ← d.lookupD "bits" (.int 0)
  pure { kind := .resolution, coefficients, units := .str "bin", bits }

end Calibration

/-- The linear calibration `value = a · bin + b` from the text `a,b`. -/
def parseLinearCalibration (text : String) : Outcome Calibration :=
  let parts := (text.splitOn ",").map Decimal.parseFloat?
  let bad : Outcome Calibration := .error (.invalid "calibration must be 'a,b' format")
  if parts.any Option.isNone then bad else
  match parts with
  | [some a, some b] => .ok { coefficients := [.num b, .num a] }
  | _ => bad

end GammaFit
