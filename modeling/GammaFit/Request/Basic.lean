import GammaFit.Request.Args
import GammaFit.Summation

/-! # Requests on parameters, edge windows, backgrounds and summation integrals -/

namespace GammaFit.Request

open Json

/-- An edge window's document, or `null`. -/
def edgeJson : Option Edge → Value := Value.opt Edge.toJson

/-- A background's document, or `null`. -/
def backgroundJson : Option Background → Value := Value.opt Background.toJson

/-- Statistics of one edge window. -/
def edgeWindow (req : Value) : Outcome Value := do
  let x ← samples (← arg req "x")
  let y ← samples (← arg req "y")
  let first ← integer (← arg req "first")
  let last ← integer (← arg req "last")
  pure (.obj [("edge", edgeJson (Edge.ofSamples? x y first last))])

/-- A parameter's derived properties. -/
def fitParam (req : Value) : Outcome Value := do
  let name := match opt? req "name" with
    | some (.str s) => s
    | _ => "p"
  let p ← Param.ofJson name (← arg req "param")
  pure (.obj [("free", .bool p.free), ("effective", .num p.effective),
    ("clipped", .num p.clipped), ("dict", p.toJson)])

/-- A background polynomial evaluated and described. -/
def polynomial (req : Value) : Outcome Value := do
  let b ← Background.ofJson (← arg req "poly")
  let pts ← points (← arg req "at")
  pure (.obj [("eval", pts.eval b.eval b.evalAll), ("coefficients", Value.floats b.coefficients),
    ("free", Value.strs (b.freeParams.map (·.name))), ("dict", b.toJson), ("repr", .str b.describe)])

/-- The two windows given by index pairs `lb` and `rb`. -/
def edgesOf (req : Value) (x y : Array Float) : Outcome (Option Edge × Option Edge) := do
  let (l0, l1) ← intPair (← arg req "lb")
  let (r0, r1) ← intPair (← arg req "rb")
  pure (Edge.ofSamples? x y l0 l1, Edge.ofSamples? x y r0 r1)

/-- Both backgrounds between two windows, evaluated at `at` when given. -/
def backgrounds (req : Value) : Outcome Value := do
  let x ← samples (← arg req "x")
  let y ← samples (← arg req "y")
  let (lb, rb) ← edgesOf req x y
  let pair := match lb, rb with
    | some l, some r => (Background.regression l r, Background.summation l r)
    | _, _ => (none, none)
  let base := [("LB", edgeJson lb), ("RB", edgeJson rb), ("regression", backgroundJson pair.1),
    ("summation", backgroundJson pair.2)]
  match opt? req "at", pair with
  | some atv, (some reg, sum) =>
    let pts ← points atv
    pure (.obj (base ++ [("eval", pts.eval reg.eval reg.evalAll),
      ("free", Value.strs (reg.freeParams.map (·.name))),
      ("summation_free", Value.strs ((sum.map Background.freeParams).getD [] |>.map (·.name)))]))
  | _, _ => pure (.obj base)

/-- Currie's grade of a net area. -/
def currie (req : Value) : Outcome Value := do
  let net ← number (← arg req "net")
  let variance ← number (← arg req "variance")
  pure (.obj [("cqi", .int (currieGrade net variance))])

/-- A summation integral between index bounds, or around a center. -/
def summation (req : Value) : Outcome Value := do
  let x ← samples (← arg req "x")
  let y ← samples (← arg req "y")
  let (lb, rb) ← edgesOf req x y
  let bg := match lb, rb with
    | some l, some r => Background.summation l r
    | _, _ => none
  let result ← match req.get? "left" with
    | some lv => do
      let left ← integer lv
      let right ← integer (← arg req "right")
      pure (match bg, lb, rb with
        | some b, some l, some r => Summation.ofCounts? x y left right b l r
        | _, _, _ => none)
    | none => do
      let center ← number (← arg req "center")
      let fwhm ← number (← arg req "fwhm")
      let factor ← match opt? req "factor" with
        | some f => number f
        | none => pure 1.5
      pure (match bg, lb, rb with
        | some b, some l, some r => Summation.around? x y center fwhm b l r factor
        | _, _, _ => none)
  pure (.obj [("sum4", Value.opt Summation.toJson result), ("dict", Value.opt Summation.recordJson result)])

end GammaFit.Request
