import GammaFit.Request.Args
import GammaFit.Shape.Hypermet
import GammaFit.Spectrum.Basic
import GammaFit.Search.Width
import GammaFit.Shape.Gaussian
import GammaFit.Multiplet

/-! # Requests on peak shapes, settings, calibrations, spectra, Gaussian estimates and regressions -/

namespace GammaFit.Request

open Json

/-- The settings of a request: its `settings` document, or the defaults. -/
def settingsOf (req : Value) : Outcome Settings :=
  match opt? req "settings" with
  | some d => Settings.ofJson d
  | none => .ok {}

/-- A profile evaluated at samples: a Gaussian, a skew profile, or R² of a fit. -/
def shape (req : Value) : Outcome Value := do
  let kind := match req.get? "kind" with
    | some (.str s) => s
    | some v => shown v
    | none => "None"
  match kind with
  | "gaussian" =>
    let pts ← points (← arg req "x")
    let h ← number (← arg req "height")
    let c ← number (← arg req "center")
    let w ← number (← arg req "hwhm")
    pure (.obj [("value", pts.eval (gaussianAt h c w) (gaussianProfile · h c w))])
  | "skew" =>
    let pts ← points (← arg req "x")
    let w ← number (← arg req "width")
    let s ← number (← arg req "slope")
    let xs := match pts with
      | .one x => #[x]
      | .many xs => xs
    let vs ← skewProfile xs w s
    pure (.obj [("value", match pts with
      | .one _ => .num (vs.getD 0 0.0)
      | .many _ => Value.floatArray vs)])
  | "r_squared" =>
    let y ← samples (← arg req "x")
    let yFit ← samples (← arg req "y_fit")
    pure (.obj [("value", .num (rSquared y yFit))])
  | k => .error (.badRequest ("unknown shape kind: " ++ k))

/-- A truth value of a request; anything but `false`, `null`, zero and empty values is true. -/
def flag (v : Value) : Bool := v.truthy

/-- A Hypermet peak from a request: plain center, height and width with optional component
switches, or a stored document (whose center is a document). -/
def hypermetOf (spec : Value) (s : Settings) : Outcome Hypermet := do
  match spec.get? "center" with
  | some (.obj _) => Hypermet.ofJson spec s
  | _ =>
    let c ← number (← arg spec "center")
    let h ← number (← arg spec "height")
    let w ← number (← arg spec "width")
    let mut peak := Hypermet.make c h w s
    for (key, comp) in [("step", Component.step), ("tail", .tail), ("lskew", .lskew), ("rskew", .rskew)] do
      if let some v := opt? spec key then
        peak := peak.setComponent comp (flag v)
    pure peak

/-- A Hypermet peak described and evaluated. -/
def hypermet (req : Value) : Outcome Value := do
  let s ← settingsOf req
  let h ← hypermetOf (← arg req "hypermet") s
  let base := [("hypermet", h.summaryJson), ("hwhm", .num h.hwhm), ("repr", .str h.describe),
    ("params", Value.strs (h.params.map (·.name))),
    ("params_gaussian", Value.strs (h.coreParams.map (·.name))), ("dict", h.toJson)]
  match opt? req "at" with
  | none => pure (.obj base)
  | some atv =>
    let pts ← points atv
    let one (f : Hypermet → Array Float → Array Float) (x : Float) := (f h #[x]).getD 0 0.0
    pure (.obj (base ++ [("peak", pts.eval (one Hypermet.peak) h.peak),
      ("step_tail", pts.eval (one Hypermet.stepTail) h.stepTail),
      ("eval", pts.eval (one Hypermet.eval) h.eval)]))

/-- Settings read, checked and written back. -/
def settings (req : Value) : Outcome Value := do
  let s ← Settings.ofJson (← arg req "data")
  pure (.obj [("settings", s.toJson)])

/-- The linear calibration parsed from `a,b`. -/
def parseCalibration (req : Value) : Outcome Value := do
  let text := match ← arg req "text" with
    | .str s => s
    | v => shown v
  let c ← parseLinearCalibration text
  pure (.obj [("coefficients", .arr c.coefficients)])

/-- Whether bins and counts form a spectrum. -/
def validateSpectrum (req : Value) : Outcome Value := do
  let valid := match ← shapedSamples (← arg req "x"), ← shapedSamples (← arg req "y") with
    | .flat x, .flat y => Spectrum.valid x y
    | _, _ => false
  pure (.obj [("valid", .bool valid)])

/-- Counting statistics of a spectrum. -/
def countingStats (req : Value) : Outcome Value := do
  let counts ← samples (← arg req "counts")
  pure (.obj [("stats", Spectrum.statistics counts)])

/-- A value and its uncertainty as text. -/
def uncertaintyText (req : Value) : Outcome Value := do
  let v ← number (← arg req "value")
  let u ← number (← arg req "uncertainty")
  let p ← match opt? req "precision" with
    | some p => integer p
    | none => pure 2
  pure (.obj [("text", .str (← formatUncertainty v u p))])

/-- A synthetic spectrum without noise. -/
def synthetic (req : Value) : Outcome Value := do
  let n ← integer (← arg req "n")
  let level ← match opt? req "level" with
    | some v => number v
    | none => pure 10.0
  let slope ← match opt? req "slope" with
    | some v => number v
    | none => pure 0.0
  let given ← match opt? req "peaks" with
    | some (.arr items) => items.mapM fun p => do
        match p with
        | .arr [c, h, s] => pure (some (Spectrum.SyntheticPeak.mk (← number c) (← number h) (← number s)))
        | _ => .error (.invalid "a peak is [channel, height, sigma]")
    | _ => pure []
  let given := given.filterMap id
  let peaks := if (opt? req "peaks").isSome then given else Spectrum.defaultPeaks n.toNat
  let (x, y) := Spectrum.synthetic n.toNat peaks level slope
  pure (.obj [("x", Value.floatArray x), ("y", Value.floatArray y),
    ("gaussian_area", Value.floats (given.map fun p => Spectrum.gaussianArea p.height p.sigma))])

/-- The width at half maximum of a peak in counts. -/
def estimateWidth (req : Value) : Outcome Value := do
  let counts ← samples (← arg req "counts")
  let peak ← integer (← arg req "peak")
  let baseline ← match opt? req "baseline" with
    | some v => number v
    | none => pure 0.0
  pure (.obj [("fwhm", .num (← Search.estimateWidth counts peak baseline))])

/-- A Gaussian fitted to a window of counts, with its derived values; whether it is accepted in
`window` and its values at `at` when those are given. -/
def gaussianEstimate (req : Value) : Outcome Value := do
  let x ← samples (← arg req "x")
  let y ← samples (← arg req "y")
  let g := Gaussian.ofData x y
  let base : List (String × Value) :=
    [("center", .num g.center), ("height", .num g.height), ("hwhm", .num g.hwhm),
     ("rsq", .num g.rsq), ("fwhm", .num g.fwhm), ("area", .num g.area), ("repr", .str g.describe)]
  let accepted ← match opt? req "window" with
    | some w => do
      let (l, r) ← numberPair w
      pure [("accepted", Value.bool (g.acceptedIn l r))]
    | none => pure []
  let values ← match opt? req "at" with
    | some a => do
      let pts ← points a
      pure [("eval", pts.eval g.evalAt g.eval)]
    | none => pure []
  pure (.obj (base ++ accepted ++ values))

/-- The peaks and background of a region regressed together; `static` or `gaussian_only`
regress the Gaussian cores alone. -/
def fitMultiplet (req : Value) : Outcome Value := do
  let s ← settingsOf req
  let x ← samples (← arg req "x")
  let y ← samples (← arg req "y")
  let specs := match ← arg req "peaks" with
    | .arr items => items
    | _ => []
  let peaks ← specs.mapM (hypermetOf · s)
  let bg ← match ← arg req "background" with
    | .null => pure none
    | d => some <$> Background.ofJson d
  let coreOnly := (opt? req "static").any flag || (opt? req "gaussian_only").any flag
  let result := bg.bind fun b => Multiplet.regress x y peaks b s coreOnly
  pure (.obj [("result", match result with
    | none => .null
    | some (ps, b) => .obj [("peaks", .arr (ps.map (Value.opt Hypermet.summaryJson))),
        ("background", b.toJson)])])

end GammaFit.Request
