import GammaFit.Request.Args
import GammaFit.Calibration.Fit

/-! # Requests on calibrations

A `calibration` request builds an energy or resolution calibration, optionally fits it to
channels and values (or to a list of points, which carry unit weights), and evaluates it.
-/

namespace GammaFit.Request

open Json

/-- The calibration a request describes: the resolution model when it says so, with the
model's own units. -/
def calibrationOf (d : Value) : Outcome Calibration := do
  let kind := match d.get? "model" with
    | some (.str "FWHMCalibration") => CalibrationKind.resolution
    | _ => .energy
  let coefficients ← Calibration.coefficientsOf (← d.lookupD "coefficients" (.arr []))
  let bits ← d.lookupD "bits" (.int 0)
  pure { kind, coefficients, units := .str (if kind = .resolution then "bin" else "keV"), bits }

/-- The document of a fit quality. -/
def qualityJson (q : FitQuality) : Value :=
  .obj [("rms_error", .num q.rms), ("max_error", .num q.maxError), ("r_squared", .num q.rSquared)]

/-- The calibration fitted as the `fit` document asks. -/
def fitCalibration (c : Calibration) (f : Value) : Outcome (Calibration × FitQuality) := do
  let order ← match opt? f "order" with
    | some v => integer v
    | none => pure 1
  match opt? f "points" with
  | some (.arr pts) =>
    if pts.isEmpty then throw (.invalid "No calibration data provided")
    let pairs ← pts.toArray.mapM numberPair
    let weights := if c.kind = .energy then some (pairs.map fun _ => 1.0) else none
    c.fit (pairs.map (·.1)) (pairs.map (·.2)) order weights
  | _ =>
    let xs ← samples (← arg f "channels")
    let ys ← samples (← arg f "values")
    c.fit xs ys order none

/-- Values of a calibration at points, keeping the shape of the points. -/
def evalPoints (p : Points) (f : Float → Outcome Float) : Outcome Value :=
  match p with
  | .one x => return .num (← f x)
  | .many xs => return Value.floatArray (← xs.mapM f)

/-- Build, fit and evaluate a calibration. -/
def calibration (req : Value) : Outcome Value := do
  let mut c ← calibrationOf (← arg req "calibration")
  let mut out : List (String × Value) := []
  if let some f := opt? req "fit" then
    let (c', q) ← fitCalibration c f
    c := c'
    out := out ++ [("coefficients", .arr c.coefficients), ("fit_quality", qualityJson q)]
  out := out ++ [("valid", .bool c.valid)]
  if let some atv := opt? req "at" then
    let pts ← points atv
    out := out ++ [("transform", ← evalPoints pts c.transform),
      ("derivative", ← evalPoints pts c.derivative)]
  if let some inv := opt? req "inverse" then
    let vs ← samples inv
    out := out ++ [("inverse", Value.floatArray (← vs.mapM c.inverse))]
  return .obj (out ++ [("dict", c.toJson), ("roundtrip_model", .str c.modelName)])

end GammaFit.Request
