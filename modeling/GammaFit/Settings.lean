import GammaFit.Calibration

/-! # Fit settings

Every tunable of the search, the regression, the residual refinement and the summation, with the
calibrations handed in by the caller. A setting keeps the form its document gave it (an integer
stays an integer when written back).

The fields and their document keys are one table (`Settings.fields`): the settings' document is
the table's entries in order, and reading a document puts each entry into the field its key
names, over the defaults, ignoring unknown keys. The calibrations are read from documents of
their own, and the Hypermet bounds are merged over the defaults, each bound taken as the items
of its value; a calibration or a bounds table that cannot be read fails the reading. Every
setting is then checked against its range, numbers being compared by their exact value.
-/

namespace GammaFit

/-- Default `(lower, upper, initial)` of each optional Hypermet parameter; amplitudes are
relative to the peak height, slopes in bins. -/
def defaultHypermetBounds : List (String × Float × Float × Float) :=
  [("step_amplitude", 1e-10, 0.75, 0.01), ("tail_amplitude", 1e-10, 0.015, 0.005),
   ("tail_slope", 2.5, 50.0, 10.0), ("lskew_amplitude", 1e-10, 0.75, 0.1),
   ("lskew_slope", 0.3, 2.0, 1.0), ("rskew_amplitude", 1e-10, 0.75, 0.1),
   ("rskew_slope", 0.3, 1.5, 0.8)]

/-- The default bounds, each as the values of a triple. -/
def defaultBoundsJson : List (String × List Json.Value) :=
  defaultHypermetBounds.map fun (n, l, u, i) => (n, [.num l, .num u, .num i])

/-- Settings of the search and fitting engine, each as given. -/
structure Settings where
  bits : Json.Value := .int 0
  calibration : Option Calibration := none
  fwhmCalibration : Option Calibration := none
  liveTime : Json.Value := .num 0.0
  realTime : Json.Value := .num 0.0
  edgeSamples : Json.Value := .int 7
  konWidth : Json.Value := .int 4
  konMinWidth : Json.Value := .int 2
  sigmaSpectrum : Json.Value := .num 3.0
  sigmaResid : Json.Value := .num 3.0
  finderCutoff : Json.Value := .num 100.0
  extendBackground : Json.Value := .num 0.6
  residAuto : Json.Value := .bool true
  residMaxIterations : Json.Value := .int 5
  residMinAmplitude : Json.Value := .num 5.0
  residTooClose : Json.Value := .num 0.5
  sum4Factor : Json.Value := .num 1.5
  sum4Only : Json.Value := .bool false
  widthVariation : Json.Value := .num 2.0
  centerSlack : Json.Value := .num 1.0
  maxEvaluations : Json.Value := .int 2000
  stepEnabled : Json.Value := .bool false
  tailEnabled : Json.Value := .bool false
  lskewEnabled : Json.Value := .bool false
  rskewEnabled : Json.Value := .bool false
  hypermetBounds : List (String × List Json.Value) := defaultBoundsJson
deriving Inhabited

/-- `v < bound` for an integer bound, in the order of values. -/
def settingBelow (v : Json.Value) (bound : Int) : Outcome Bool :=
  Json.Value.compare .lt v (.int bound)

/-- `v ≤ bound` for an integer bound, in the order of values. -/
def settingAtMost (v : Json.Value) (bound : Int) : Outcome Bool :=
  Json.Value.compare .le v (.int bound)

namespace Settings

/-- Raise `msg` when `bad` holds. -/
def check (bad : Outcome Bool) (msg : String) : Outcome Unit := do
  if ← bad then .error (.invalid msg) else pure ()

/-- Check every setting against its range, in a fixed order; the first violation is reported. -/
def validate (s : Settings) : Outcome Unit := do
  check (settingBelow s.edgeSamples 1) "background_edge_samples must be at least 1"
  check (settingBelow s.konWidth 1) "kon_width must be at least 1"
  check (settingBelow s.konMinWidth 1) "kon_min_width must be at least 1"
  check (do
      if ← settingAtMost s.sigmaSpectrum 0 then return true
      settingAtMost s.sigmaResid 0)
    "kon_sigma_spectrum and kon_sigma_resid must be positive"
  check (settingBelow s.extendBackground 0) "roi_extend_background must not be negative"
  check (settingBelow s.residMaxIterations 0) "resid_max_iterations must not be negative"
  check (settingBelow s.residTooClose 0) "resid_too_close must not be negative"
  check (settingAtMost s.sum4Factor 0) "sum4_fwhm_factor must be positive"
  check (settingAtMost s.widthVariation 1) "width_variation must be greater than 1"
  check (settingAtMost s.centerSlack 0) "center_slack must be positive"
  check (settingBelow s.maxEvaluations 1) "max_nfev must be at least 1"
  check (do
      if ← settingBelow s.liveTime 0 then return true
      settingBelow s.realTime 0)
    "live_time and real_time must not be negative"
  for (name, bounds) in s.hypermetBounds do
    if !(defaultHypermetBounds.any (·.1 == name)) then
      throw (.invalid ("Unknown hypermet parameter: " ++ name))
    match bounds with
    | [lower, upper, initial] =>
      let ok ← do
        if ← Json.Value.compare .le lower initial then Json.Value.compare .le initial upper
        else pure false
      if !ok then
        throw (.invalid ("hypermet_bounds[" ++ name ++ "] must satisfy lower <= initial <= upper"))
    | items =>
      if items.length < 3 then
        throw (.invalid ("not enough values to unpack (expected 3, got " ++ toString items.length ++ ")"))
      else throw (.invalid "too many values to unpack (expected 3)")

/-- Replace `key`'s entry of an ordered table, or add it at the end. -/
def upsert {α : Type} (table : List (String × α)) (key : String) (v : α) : List (String × α) :=
  if table.any (·.1 == key) then table.map fun (k, w) => if k == key then (k, v) else (k, w)
  else table ++ [(key, v)]

/-- The bounds table a document's `hypermet_bounds` gives: the defaults with each of its entries
put over them in turn, each bound taken as the items of its value. A value that is not an
object has no entries to read. -/
def readBounds (v : Json.Value) : Outcome (List (String × List Json.Value)) :=
  match v with
  | .obj entries => do
    let read ← entries.mapM fun e => do pure (e.1, ← e.2.iterate)
    pure (read.foldl (fun t e => upsert t e.1 e.2) defaultBoundsJson)
  | v => .error (.noAttribute (quoteName v.typeName ++ " object has no attribute 'items'"))

/-- An optional calibration read by `read` from its document: none for `null`. -/
def readCalibration (read : Json.Value → Outcome Calibration) (v : Json.Value) :
    Outcome (Option Calibration) :=
  match v with
  | .null => .ok none
  | d => some <$> read d

/-- How a field of the settings is written to its entry of the document and read back. -/
inductive Field where
  /-- A setting kept as its document gives it, with its accessor and its update. -/
  | plain (get : Settings → Json.Value) (put : Settings → Json.Value → Settings)
  /-- The energy calibration, `null` for none. -/
  | calibration
  /-- The resolution calibration, `null` for none. -/
  | fwhmCalibration
  /-- The bounds of the optional Hypermet parameters, read over the defaults. -/
  | hypermetBounds

/-- The fields of the settings under their document keys, in the settings' own order. -/
def fields : List (String × Field) :=
  [("bits", .plain (·.bits) fun s v => { s with bits := v }),
   ("calibration", .calibration), ("fwhm_calibration", .fwhmCalibration),
   ("live_time", .plain (·.liveTime) fun s v => { s with liveTime := v }),
   ("real_time", .plain (·.realTime) fun s v => { s with realTime := v }),
   ("background_edge_samples", .plain (·.edgeSamples) fun s v => { s with edgeSamples := v }),
   ("kon_width", .plain (·.konWidth) fun s v => { s with konWidth := v }),
   ("kon_min_width", .plain (·.konMinWidth) fun s v => { s with konMinWidth := v }),
   ("kon_sigma_spectrum", .plain (·.sigmaSpectrum) fun s v => { s with sigmaSpectrum := v }),
   ("kon_sigma_resid", .plain (·.sigmaResid) fun s v => { s with sigmaResid := v }),
   ("finder_cutoff_kev", .plain (·.finderCutoff) fun s v => { s with finderCutoff := v }),
   ("roi_extend_background",
     .plain (·.extendBackground) fun s v => { s with extendBackground := v }),
   ("resid_auto", .plain (·.residAuto) fun s v => { s with residAuto := v }),
   ("resid_max_iterations",
     .plain (·.residMaxIterations) fun s v => { s with residMaxIterations := v }),
   ("resid_min_amplitude",
     .plain (·.residMinAmplitude) fun s v => { s with residMinAmplitude := v }),
   ("resid_too_close", .plain (·.residTooClose) fun s v => { s with residTooClose := v }),
   ("sum4_fwhm_factor", .plain (·.sum4Factor) fun s v => { s with sum4Factor := v }),
   ("sum4_only", .plain (·.sum4Only) fun s v => { s with sum4Only := v }),
   ("width_variation", .plain (·.widthVariation) fun s v => { s with widthVariation := v }),
   ("center_slack", .plain (·.centerSlack) fun s v => { s with centerSlack := v }),
   ("max_nfev", .plain (·.maxEvaluations) fun s v => { s with maxEvaluations := v }),
   ("step_enabled", .plain (·.stepEnabled) fun s v => { s with stepEnabled := v }),
   ("tail_enabled", .plain (·.tailEnabled) fun s v => { s with tailEnabled := v }),
   ("lskew_enabled", .plain (·.lskewEnabled) fun s v => { s with lskewEnabled := v }),
   ("rskew_enabled", .plain (·.rskewEnabled) fun s v => { s with rskewEnabled := v }),
   ("hypermet_bounds", .hypermetBounds)]

namespace Field

/-- The field's entry in the document of `s`; each bound is written as a list. -/
def write (s : Settings) : Field → Json.Value
  | .plain get _ => get s
  | .calibration => Json.Value.opt Calibration.toJson s.calibration
  | .fwhmCalibration => Json.Value.opt Calibration.toJson s.fwhmCalibration
  | .hypermetBounds => .obj (s.hypermetBounds.map fun e => (e.1, .arr e.2))

/-- The settings `s` with the field read from the entry `v`. -/
def read (s : Settings) (v : Json.Value) : Field → Outcome Settings
  | .plain _ put => .ok (put s v)
  | .calibration => do
    let c ← readCalibration Calibration.ofJson v
    pure { s with calibration := c }
  | .fwhmCalibration => do
    let c ← readCalibration Calibration.resolutionOfJson v
    pure { s with fwhmCalibration := c }
  | .hypermetBounds => do
    let t ← readBounds v
    pure { s with hypermetBounds := t }

end Field

/-- The settings' document: every field under its key, in the settings' own order. -/
def toJson (s : Settings) : Json.Value :=
  .obj (fields.map fun e => (e.1, e.2.write s))

/-- Read one document entry into the field its key names; a key that names no field changes
nothing. -/
def set (s : Settings) (key : String) (v : Json.Value) : Outcome Settings :=
  match fields.lookup key with
  | some f => f.read s v
  | none => .ok s

/-- Settings from a document over the defaults, entry by entry in its order, checked. -/
def ofJson (d : Json.Value) : Outcome Settings := do
  let entries ← match d with
    | .obj entries => pure entries
    | v => throw (.noAttribute (quoteName v.typeName ++ " object has no attribute 'items'"))
  let s ← entries.foldlM (fun s e => s.set e.1 e.2) ({} : Settings)
  s.validate
  pure s

/-- A setting read as a double. -/
def float (v : Json.Value) : Float := (v.toFloat.toOption).getD 0.0

/-- A setting read as an integer count (a double is cut toward zero). -/
def count (v : Json.Value) : Int :=
  match v with
  | .int n => n
  | .bool b => if b then 1 else 0
  | .num x => if x < 0.0 then -((-x).toUInt64.toNat : Int) else (x.toUInt64.toNat : Int)
  | _ => 0

/-- A setting read as the number of rounds of a loop: only an integer (or a truth value) counts
them. -/
def rounds (v : Json.Value) : Outcome Nat :=
  match v with
  | .int n => .ok n.toNat
  | .bool b => .ok (if b then 1 else 0)
  | v => .error (.wrongType (quoteName v.typeName ++ " object cannot be interpreted as an integer"))

/-- `(lower, upper, initial)` of an optional Hypermet parameter. -/
def bounds (s : Settings) (name : String) : Float × Float × Float :=
  match s.hypermetBounds.find? (·.1 == name) with
  | some (_, [l, u, i]) => (float l, float u, float i)
  | _ => (0.0, 0.0, 0.0)

end Settings

end GammaFit
