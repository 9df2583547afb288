import Mathlib
import GammaFit.Calibration

/-!
# Calibrations of a line in exact arithmetic

The arithmetic of a calibration (`polyval`, `polyder`, `valueAt`, `slopeAt`, `lineInverse?`) is
written for any numbers; read in the reals it is the calibration in exact arithmetic. With two
coefficients `c₀, c₁`, `c₁ ≠ 0`, the polynomial is the line `c₀ + c₁ x`, the derivative is the
constant `c₁`, and the inverse takes the closed form `(v - c₀) / c₁`.

An energy calibration is the line itself, so its inverse takes every value back to its bin and its
derivative is its slope. A resolution calibration gives the root `√(c₀ + c₁ x)`, while its
derivative and inverse stay those of the line under the root: the inverse takes the square of a
width back to its bin, and the slope of the width is the derivative divided by twice the width
(`line_inverse_and_derivative`).
-/

namespace GammaFit

/-! ## Two coefficients: a line -/

section Line

variable {α : Type} [CommRing α]

/-- Horner's rule over two coefficients gives the line through them. -/
@[simp] theorem polyval_pair (c₀ c₁ x : α) : polyval #[c₀, c₁] x = c₀ + c₁ * x := by
  simp [polyval]

/-- The derivative of a line has the slope as its one coefficient. -/
@[simp] theorem polyder_pair (num : Nat → α) (c₀ c₁ : α) :
    polyder num #[c₀, c₁] = #[num 1 * c₁] := by
  simp [polyder, show Array.range 1 = #[0] from rfl]

/-- Horner's rule over one coefficient gives the constant. -/
@[simp] theorem polyval_single (d x : α) : polyval #[d] x = d := by
  simp [polyval]

namespace Calibration

/-- The slope of a line, counts read as numbers, is its second coefficient. -/
@[simp] theorem slopeAt_pair (c₀ c₁ x : α) : slopeAt (fun n => (n : α)) #[c₀, c₁] x = c₁ := by
  simp [slopeAt]

/-- A line of nonzero slope is inverted in closed form. -/
theorem lineInverse?_pair [Div α] [DecidableEq α] {c₀ c₁ : α} (h : c₁ ≠ 0) (v : α) :
    lineInverse? #[c₀, c₁] v = some ((v - c₀) / c₁) := by
  simp [lineInverse?, h]

end Calibration

end Line

/-! ## The laws in the reals -/

namespace Calibration

variable {c₀ c₁ : ℝ}

/-- The energy calibration of a line is the line. -/
theorem valueAt_energy_pair : valueAt Real.sqrt .energy #[c₀, c₁] = fun x => c₀ + c₁ * x :=
  funext fun x => polyval_pair c₀ c₁ x

/-- The resolution calibration of a line is its root. -/
theorem valueAt_resolution_pair :
    valueAt Real.sqrt .resolution #[c₀, c₁] = fun x => Real.sqrt (c₀ + c₁ * x) :=
  funext fun x => congrArg Real.sqrt (polyval_pair c₀ c₁ x)

/-- The closed form takes every point of the line back to its bin. -/
theorem lineInverse?_of_line (h : c₁ ≠ 0) (x : ℝ) :
    lineInverse? #[c₀, c₁] (c₀ + c₁ * x) = some x := by
  rw [lineInverse?_pair h]
  congr 1
  field_simp
  ring

/-- The line changes at the rate of its slope. -/
theorem hasDerivAt_line (x : ℝ) : HasDerivAt (fun x => c₀ + c₁ * x) c₁ x :=
  (((hasDerivAt_id x).const_mul c₁).const_add c₀).congr_deriv (mul_one c₁)

/-- For two coefficients `c₀, c₁` with `c₁ ≠ 0`, in exact arithmetic: the inverse of an energy
calibration takes every calibrated value back to its bin, and its derivative is the slope of the
calibration. A resolution calibration keeps the line's inverse and derivative: where
`c₀ + c₁ x > 0`, the inverse takes the square of the width back to the bin, and the slope of the
width is the derivative divided by twice the width. -/
theorem line_inverse_and_derivative (h : c₁ ≠ 0) :
    (∀ x, lineInverse? #[c₀, c₁] (valueAt Real.sqrt .energy #[c₀, c₁] x) = some x ∧
      HasDerivAt (valueAt Real.sqrt .energy #[c₀, c₁]) (slopeAt (fun n => (n : ℝ)) #[c₀, c₁] x) x) ∧
    (∀ x, 0 < c₀ + c₁ * x →
      lineInverse? #[c₀, c₁] (valueAt Real.sqrt .resolution #[c₀, c₁] x ^ 2) = some x ∧
      HasDerivAt (valueAt Real.sqrt .resolution #[c₀, c₁])
        (slopeAt (fun n => (n : ℝ)) #[c₀, c₁] x / (2 * valueAt Real.sqrt .resolution #[c₀, c₁] x))
        x) := by
  refine ⟨fun x => ⟨?_, ?_⟩, fun x hx => ⟨?_, ?_⟩⟩
  · rw [valueAt_energy_pair]
    exact lineInverse?_of_line h x
  · rw [valueAt_energy_pair, slopeAt_pair]
    exact hasDerivAt_line x
  · -- the square of the root is the line again
    rw [valueAt_resolution_pair, Real.sq_sqrt hx.le]
    exact lineInverse?_of_line h x
  · rw [valueAt_resolution_pair, slopeAt_pair]
    exact (hasDerivAt_line x).sqrt hx.ne'

/-- The coefficients `0, 1`: the energy calibration `x` is inverted exactly, and the resolution
calibration `√x` has the slope `1 / (2 √x)` where its derivative says `1`. -/
theorem unit_line_inverse_and_derivative :
    (1 : ℝ) ≠ 0 ∧
      ((∀ x, lineInverse? #[0, 1] (valueAt Real.sqrt .energy #[(0 : ℝ), 1] x) = some x ∧
        HasDerivAt (valueAt Real.sqrt .energy #[(0 : ℝ), 1])
          (slopeAt (fun n => (n : ℝ)) #[0, 1] x) x) ∧
      (∀ x, 0 < 0 + 1 * x →
        lineInverse? #[0, 1] (valueAt Real.sqrt .resolution #[(0 : ℝ), 1] x ^ 2) = some x ∧
        HasDerivAt (valueAt Real.sqrt .resolution #[(0 : ℝ), 1])
          (slopeAt (fun n => (n : ℝ)) #[0, 1] x /
            (2 * valueAt Real.sqrt .resolution #[(0 : ℝ), 1] x)) x)) :=
  ⟨one_ne_zero, line_inverse_and_derivative one_ne_zero⟩

end Calibration

end GammaFit
