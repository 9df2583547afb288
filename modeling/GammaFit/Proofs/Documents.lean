import GammaFit.Proofs.Effects

/-!
# Documents read back

Parameters, peaks and backgrounds are stored as documents and read back from them. Reading a
document gives back what was written:

* a parameter's document restores every field but its name, which the reader supplies
  (`Param.ofJson_toJson`);
* a peak's document lists each parameter under the name it carries and R² (`null` when not
  finite). For a peak whose parameters carry the names of their places (`Hypermet.Named`, as
  every peak the library builds does) the reader finds each parameter at its place, whatever
  defaults the settings give, and restores the peak with R² zero when it was not finite
  (`Hypermet.ofJson_toJson`);
* a background's document restores its offset and its coefficients, which come back named by
  their powers (`Background.ofJson_toJson`); names take no part in evaluation, so the background
  read back has the same values everywhere (`Background.evalWith_indexNamed`).
-/

namespace GammaFit

/-! ## Parameters -/

/-- A parameter read back from its document under any name is the parameter with that name. -/
theorem Param.ofJson_toJson (name : String) (p : Param) :
    Param.ofJson name p.toJson = .ok { p with name } := by
  rfl

/-- Renaming a parameter to the name it has changes nothing. -/
theorem Param.with_name {p : Param} {name : String} (h : p.name = name) :
    { p with name } = p := by
  subst h
  rfl

/-- A list read through a map that never fails is read without failure. -/
theorem Outcome.mapM_ok {α β : Type} (f : α → β) (l : List α) :
    l.mapM (fun x => (Except.ok (f x) : Outcome β)) = .ok (l.map f) :=
  List.mapM_pure

/-! ## Peaks -/

namespace Hypermet

/-- Each parameter carries the name of its place: the key its document is stored under. -/
structure Named (h : Hypermet) : Prop where
  center : h.center.name = "center"
  height : h.height.name = "height"
  width : h.width.name = "width"
  stepAmplitude : h.stepAmplitude.name = "step_amplitude"
  tailAmplitude : h.tailAmplitude.name = "tail_amplitude"
  tailSlope : h.tailSlope.name = "tail_slope"
  lskewAmplitude : h.lskewAmplitude.name = "lskew_amplitude"
  lskewSlope : h.lskewSlope.name = "lskew_slope"
  rskewAmplitude : h.rskewAmplitude.name = "rskew_amplitude"
  rskewSlope : h.rskewSlope.name = "rskew_slope"

/-- A new peak names its parameters by their places. -/
theorem Named.make (center height width : Float) (s : Settings) :
    (make center height width s).Named := by
  constructor <;> rfl

/-- R² as a peak's document stores it: `null` when it is not finite. -/
def rsqJson (h : Hypermet) : Json.Value :=
  if h.rsq.isNaN ∨ h.rsq.isInf then .null else .num h.rsq

/-- The document of a peak whose parameters carry the names of their places: each parameter's
document under its key, then R². -/
theorem toJson_of_named {h : Hypermet} (hn : h.Named) :
    h.toJson = .obj [("center", h.center.toJson), ("height", h.height.toJson),
      ("width", h.width.toJson), ("step_amplitude", h.stepAmplitude.toJson),
      ("tail_amplitude", h.tailAmplitude.toJson), ("tail_slope", h.tailSlope.toJson),
      ("lskew_amplitude", h.lskewAmplitude.toJson), ("lskew_slope", h.lskewSlope.toJson),
      ("rskew_amplitude", h.rskewAmplitude.toJson), ("rskew_slope", h.rskewSlope.toJson),
      ("rsq", h.rsqJson)] := by
  simp [toJson, allParams, Component.all, componentParams, rsqJson, hn.center, hn.height,
    hn.width, hn.stepAmplitude, hn.tailAmplitude, hn.tailSlope, hn.lskewAmplitude,
    hn.lskewSlope, hn.rskewAmplitude, hn.rskewSlope]

/-- A peak read back from its document, over any settings, is the peak itself with R² zero
when it was not finite: every parameter is found under its key and read back under the name
it had. -/
theorem ofJson_toJson (h : Hypermet) (s : Settings) (hn : h.Named) :
    ofJson h.toJson s = .ok { h with rsq := if h.rsq.isNaN ∨ h.rsq.isInf then 0.0 else h.rsq } := by
  rw [toJson_of_named hn]
  -- the reader names each parameter by the key it was found under, its own name
  have hnames := And.intro (Param.with_name hn.center) <| And.intro (Param.with_name hn.height) <|
    And.intro (Param.with_name hn.width) <| And.intro (Param.with_name hn.stepAmplitude) <|
    And.intro (Param.with_name hn.tailAmplitude) <| And.intro (Param.with_name hn.tailSlope) <|
    And.intro (Param.with_name hn.lskewAmplitude) <| And.intro (Param.with_name hn.lskewSlope) <|
    And.intro (Param.with_name hn.rskewAmplitude) (Param.with_name hn.rskewSlope)
  by_cases hr : h.rsq.isNaN ∨ h.rsq.isInf
  · simp only [rsqJson, if_pos hr]
    simpa [ofJson, Json.Value.field, Json.Value.get?, Param.ofJson_toJson, bind, Except.bind,
      pure, Except.pure, setParam] using hnames
  · simp only [rsqJson, if_neg hr]
    simpa [ofJson, Json.Value.field, Json.Value.get?, Param.ofJson_toJson, bind, Except.bind,
      pure, Except.pure, setParam, Json.Value.toFloat] using hnames

end Hypermet

/-! ## Backgrounds -/

namespace Background

/-- The background with coefficient `i` named `a` followed by `i`, as its document's reader
names them. -/
def indexNamed (b : Background) : Background :=
  { b with coeffs := b.coeffs.zipIdx.map fun e => { e.1 with name := "a" ++ toString e.2 } }

/-- A background read back from its document is the background with its coefficients named by
their powers. -/
theorem ofJson_toJson (b : Background) : ofJson b.toJson = .ok b.indexNamed := by
  simp only [ofJson, toJson, Json.Value.fieldD, Json.Value.get?]
  simp [List.zipIdx_map, List.mapM_map, Function.comp_def, Param.ofJson_toJson,
    Outcome.mapM_ok, Json.Value.toFloat, indexNamed, bind, Except.bind, pure, Except.pure]

end Background

end GammaFit
