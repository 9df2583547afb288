import GammaFit.Shape.Profile
import GammaFit.Settings
import GammaFit.Param
import GammaFit.Decimal.Format

/-! # The Hypermet peak shape

A Hypermet peak is a Gaussian core `h · exp(-((x - c) / w)²)` with four optional components, each
switched on or off and bounded:

- step: `h/2 · A · erfc((x - c) / w)`;
- tail: `h/2 · A · skew(x - c, w, s)`;
- left skew: `h/2 · A · skew(x - c, w, s)`;
- right skew: `h/2 · A · skew(c - x, w, s)`.

Step and tail belong to the background-like part (`stepTail`), core and skews to the peak itself
(`peak`). The analytic area of the peak part is `h · (w √π + A_l s_l + A_r s_r)` over the skews
switched on.
-/

namespace GammaFit

/-- The optional components of a Hypermet peak. -/
inductive Component where
  | step
  | tail
  | lskew
  | rskew
deriving DecidableEq, Inhabited

/-- The components in their fixed order. -/
def Component.all : List Component := [.step, .tail, .lskew, .rskew]

/-- A Hypermet peak: core parameters, component parameters and the fit's R². -/
structure Hypermet where
  center : Param
  height : Param
  width : Param
  stepAmplitude : Param
  tailAmplitude : Param
  tailSlope : Param
  lskewAmplitude : Param
  lskewSlope : Param
  rskewAmplitude : Param
  rskewSlope : Param
  rsq : Float := 0.0
deriving Inhabited

/-- The ten parameters of a Hypermet peak, in their fixed order. -/
inductive ParamName where
  | center
  | height
  | width
  | stepAmplitude
  | tailAmplitude
  | tailSlope
  | lskewAmplitude
  | lskewSlope
  | rskewAmplitude
  | rskewSlope
deriving DecidableEq, Inhabited

/-- A component's parameters by name. -/
def Component.paramNames : Component → List ParamName
  | .step => [.stepAmplitude]
  | .tail => [.tailAmplitude, .tailSlope]
  | .lskew => [.lskewAmplitude, .lskewSlope]
  | .rskew => [.rskewAmplitude, .rskewSlope]

/-- The component a parameter belongs to, none for the core. -/
def ParamName.component : ParamName → Option Component
  | .center | .height | .width => none
  | .stepAmplitude => some .step
  | .tailAmplitude | .tailSlope => some .tail
  | .lskewAmplitude | .lskewSlope => some .lskew
  | .rskewAmplitude | .rskewSlope => some .rskew

namespace Hypermet

/-- A component parameter from the settings' bounds, starting at its initial value. -/
def componentParam (s : Settings) (name : String) (enabled : Bool) : Param :=
  let (lower, upper, initial) := s.bounds name
  { name, value := initial, lower, upper, enabled }

/-- A Hypermet peak at `center` with `height` and `width`; the components take their bounds
and their switches from the settings. -/
def make (center height width : Float) (s : Settings) : Hypermet :=
  let step := s.stepEnabled.truthy
  let tail := s.tailEnabled.truthy
  let lskew := s.lskewEnabled.truthy
  let rskew := s.rskewEnabled.truthy
  { center := { name := "center", value := center },
    height := { name := "height", value := height, lower := 0.0 },
    width := { name := "width", value := width, lower := 0.0 },
    stepAmplitude := componentParam s "step_amplitude" step,
    tailAmplitude := componentParam s "tail_amplitude" tail,
    tailSlope := componentParam s "tail_slope" tail,
    lskewAmplitude := componentParam s "lskew_amplitude" lskew,
    lskewSlope := componentParam s "lskew_slope" lskew,
    rskewAmplitude := componentParam s "rskew_amplitude" rskew,
    rskewSlope := componentParam s "rskew_slope" rskew }

/-- Whether a component is switched on (its amplitude is). -/
def enabled (h : Hypermet) : Component → Bool
  | .step => h.stepAmplitude.enabled
  | .tail => h.tailAmplitude.enabled
  | .lskew => h.lskewAmplitude.enabled
  | .rskew => h.rskewAmplitude.enabled

/-- Switch a component's parameters on or off. -/
def setComponent (h : Hypermet) (c : Component) (on : Bool) : Hypermet :=
  match c with
  | .step => { h with stepAmplitude.enabled := on }
  | .tail => { h with tailAmplitude.enabled := on, tailSlope.enabled := on }
  | .lskew => { h with lskewAmplitude.enabled := on, lskewSlope.enabled := on }
  | .rskew => { h with rskewAmplitude.enabled := on, rskewSlope.enabled := on }

/-- No component is switched on. -/
def gaussianOnly (h : Hypermet) : Bool := !(Component.all.any h.enabled)

/-- A component's parameters. -/
def componentParams (h : Hypermet) : Component → List Param
  | .step => [h.stepAmplitude]
  | .tail => [h.tailAmplitude, h.tailSlope]
  | .lskew => [h.lskewAmplitude, h.lskewSlope]
  | .rskew => [h.rskewAmplitude, h.rskewSlope]

/-- The core parameters: center, height and width. -/
def coreParams (h : Hypermet) : List Param := [h.center, h.height, h.width]

/-- The parameters in use: the core, then those of the components switched on. -/
def params (h : Hypermet) : List Param :=
  h.coreParams ++ (Component.all.filter h.enabled).flatMap h.componentParams

/-- All ten parameters in their fixed order. -/
def allParams (h : Hypermet) : List Param :=
  [h.center, h.height, h.width] ++ Component.all.flatMap h.componentParams

/-- The parameter of a given name. -/
def param (h : Hypermet) : ParamName → Param
  | .center => h.center
  | .height => h.height
  | .width => h.width
  | .stepAmplitude => h.stepAmplitude
  | .tailAmplitude => h.tailAmplitude
  | .tailSlope => h.tailSlope
  | .lskewAmplitude => h.lskewAmplitude
  | .lskewSlope => h.lskewSlope
  | .rskewAmplitude => h.rskewAmplitude
  | .rskewSlope => h.rskewSlope

/-- Change the parameter of a given name. -/
def modifyParam (h : Hypermet) (n : ParamName) (f : Param → Param) : Hypermet :=
  match n with
  | .center => { h with center := f h.center }
  | .height => { h with height := f h.height }
  | .width => { h with width := f h.width }
  | .stepAmplitude => { h with stepAmplitude := f h.stepAmplitude }
  | .tailAmplitude => { h with tailAmplitude := f h.tailAmplitude }
  | .tailSlope => { h with tailSlope := f h.tailSlope }
  | .lskewAmplitude => { h with lskewAmplitude := f h.lskewAmplitude }
  | .lskewSlope => { h with lskewSlope := f h.lskewSlope }
  | .rskewAmplitude => { h with rskewAmplitude := f h.rskewAmplitude }
  | .rskewSlope => { h with rskewSlope := f h.rskewSlope }

/-- The names of the parameters in use, in the order of `params`: the core, then those of the
components switched on. -/
def paramNames (h : Hypermet) : List ParamName :=
  [.center, .height, .width] ++ (Component.all.filter h.enabled).flatMap Component.paramNames

/-- Replace the parameter named `p.name` by `p`. -/
def setParam (h : Hypermet) (p : Param) : Hypermet :=
  match p.name with
  | "center" => { h with center := p }
  | "height" => { h with height := p }
  | "width" => { h with width := p }
  | "step_amplitude" => { h with stepAmplitude := p }
  | "tail_amplitude" => { h with tailAmplitude := p }
  | "tail_slope" => { h with tailSlope := p }
  | "lskew_amplitude" => { h with lskewAmplitude := p }
  | "lskew_slope" => { h with lskewSlope := p }
  | "rskew_amplitude" => { h with rskewAmplitude := p }
  | "rskew_slope" => { h with rskewSlope := p }
  | _ => h

/-- Half width at half maximum of the core: `w · √(ln 2)`. -/
def hwhm (h : Hypermet) : Float := h.width.value * sqrtLn2

/-- Full width at half maximum of the core. -/
def fwhm (h : Hypermet) : Float := 2.0 * h.hwhm

/-- The peak part (core and skews) at every sample; zero for a width that is not positive. -/
def peak (h : Hypermet) (xs : Array Float) : Array Float :=
  let w := h.width.value
  if w ≤ 0.0 then xs.map fun _ => 0.0 else
  let xc := xs.map (· - h.center.value)
  let core := xc.map fun v => Numeric.expSample (-((v / w) * (v / w)))
  let withL :=
    if h.lskewAmplitude.enabled ∧ h.lskewSlope.value > 0.0 then
      let k := 0.5 * h.lskewAmplitude.value
      Array.zipWith (fun r s => r + k * s) core (skewProfilePos xc w h.lskewSlope.value)
    else core
  let withR :=
    if h.rskewAmplitude.enabled ∧ h.rskewSlope.value > 0.0 then
      let k := 0.5 * h.rskewAmplitude.value
      Array.zipWith (fun r s => r + k * s) withL (skewProfilePos (xc.map (-·)) w h.rskewSlope.value)
    else withL
  withR.map (h.height.value * ·)

/-- The step and tail at every sample; zero for a width that is not positive. -/
def stepTail (h : Hypermet) (xs : Array Float) : Array Float :=
  let w := h.width.value
  if w ≤ 0.0 then xs.map fun _ => 0.0 else
  let xc := xs.map (· - h.center.value)
  let zero := xc.map fun _ => 0.0
  let withStep :=
    if h.stepAmplitude.enabled then
      Array.zipWith (fun r v => r + h.stepAmplitude.value * Numeric.erfc (v / w)) zero xc
    else zero
  let withTail :=
    if h.tailAmplitude.enabled ∧ h.tailSlope.value > 0.0 then
      Array.zipWith (fun r s => r + h.tailAmplitude.value * s) withStep
        (skewProfilePos xc w h.tailSlope.value)
    else withStep
  let k := 0.5 * h.height.value
  withTail.map (k * ·)

/-- The whole shape at every sample. -/
def eval (h : Hypermet) (xs : Array Float) : Array Float :=
  Array.zipWith (· + ·) (h.peak xs) (h.stepTail xs)

/-- `√π`. -/
def sqrtPi : Float := Float.sqrt 3.141592653589793

/-- The analytic area of the peak part with its uncertainty, propagated from the height's and
the width's; zero uncertainty when height or width is not positive. -/
def area (h : Hypermet) : Float × Float :=
  let hv := h.height.value
  let w := h.width.value
  let shape := w * sqrtPi
  let shape := if h.lskewAmplitude.enabled then shape + h.lskewAmplitude.value * h.lskewSlope.value else shape
  let shape := if h.rskewAmplitude.enabled then shape + h.rskewAmplitude.value * h.rskewSlope.value else shape
  let a := hv * shape
  if hv ≤ 0.0 ∨ w ≤ 0.0 then (a, 0.0) else
  let rel := Float.sqrt ((h.height.uncertainty / hv) ^ 2.0 + (h.width.uncertainty / w) ^ 2.0)
  (a, a.abs * rel)

/-- The text `Hypermet(center=…, height=…, width=…)` with three places each. -/
def describe (h : Hypermet) : String :=
  "Hypermet(center=" ++ Decimal.format (.fixed 3) h.center.value ++ ", height=" ++
    Decimal.format (.fixed 3) h.height.value ++ ", width=" ++
    Decimal.format (.fixed 3) h.width.value ++ ")"

/-- The stored document: every parameter, and R² (`null` when not finite). -/
def toJson (h : Hypermet) : Json.Value :=
  .obj (h.allParams.map (fun p => (p.name, p.toJson)) ++
    [("rsq", if h.rsq.isNaN ∨ h.rsq.isInf then .null else .num h.rsq)])

/-- The full view: every parameter, R², the width, the area and whether it is a bare Gaussian. -/
def summaryJson (h : Hypermet) : Json.Value :=
  let (a, u) := h.area
  .obj (h.allParams.map (fun p => (p.name, p.toJson)) ++
    [("rsq", .num h.rsq), ("fwhm", .num h.fwhm), ("area", .arr [.num a, .num u]),
     ("gaussian_only", .bool h.gaussianOnly)])

/-- A peak from its stored document over the settings' defaults: the core parameters are
required, the components optional, R² zero when absent. -/
def ofJson (d : Json.Value) (s : Settings) : Outcome Hypermet := do
  let mut h := make 0.0 0.0 0.0 s
  for name in ["center", "height", "width"] do
    h := h.setParam (← Param.ofJson name (← d.field name))
  for name in ["step_amplitude", "tail_amplitude", "tail_slope", "lskew_amplitude",
      "lskew_slope", "rskew_amplitude", "rskew_slope"] do
    if let some v := d.get? name then
      h := h.setParam (← Param.ofJson name v)
  let rsq ← match d.get? "rsq" with
    | none | some .null => pure 0.0
    | some v => v.toFloat
  pure { h with rsq }

end Hypermet

end GammaFit
