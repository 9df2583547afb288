import GammaFit.Shape.Hypermet
import GammaFit.Summation

/-! # Peaks of a region

A peak of a region has an identity, and a regressed Hypermet shape, a summation integral, or
both. Its position and width come from the Hypermet shape when there is one, else from the
integral; a peak with only an integral is a summation peak. Each peak also carries its energy
and energy width (through the calibration, when there is a valid one) and its count rates.
-/

namespace GammaFit

/-- A peak of a region. -/
structure Peak where
  id : Nat
  hypermet : Option Hypermet := none
  sum4 : Option Summation := none
  energy : Float := 0.0
  fwhmEnergy : Float := 0.0
  cpsHyp : Float := 0.0
  cpsSum4 : Float := 0.0
deriving Inhabited

namespace Peak

/-- A peak with only a summation integral. -/
def sum4Only (p : Peak) : Bool := p.hypermet.isNone

/-- The position: the Hypermet center, else the centroid of the integral, else NaN. -/
def center (p : Peak) : Float :=
  match p.hypermet, p.sum4 with
  | some h, _ => h.center.value
  | none, some s => s.centroid
  | none, none => 0.0 / 0.0

/-- The width at half maximum: the Hypermet's, else the integral's, else zero. -/
def fwhm (p : Peak) : Float :=
  match p.hypermet, p.sum4 with
  | some h, _ => h.fwhm
  | none, some s => s.fwhm
  | none, none => 0.0

/-- The area with its uncertainty: the Hypermet's, else the net area of the integral. -/
def area (p : Peak) : Float × Float :=
  match p.hypermet, p.sum4 with
  | some h, _ => h.area
  | none, some s => (s.netArea, s.netUncertainty)
  | none, none => (0.0, 0.0)

/-- The peak's view: identity, position, widths, energy, rates, area and both results. -/
def toJson (p : Peak) : Json.Value :=
  let (a, u) := p.area
  .obj [("id", .int p.id), ("center", .num p.center), ("fwhm", .num p.fwhm),
    ("energy", .num p.energy), ("fwhm_energy", .num p.fwhmEnergy), ("cps_hyp", .num p.cpsHyp),
    ("cps_sum4", .num p.cpsSum4), ("area", .arr [.num a, .num u]),
    ("sum4_only", .bool p.sum4Only), ("hypermet", Json.Value.opt Hypermet.summaryJson p.hypermet),
    ("sum4", Json.Value.opt Summation.toJson p.sum4)]

end Peak

end GammaFit
