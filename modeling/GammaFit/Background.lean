import GammaFit.Param
import GammaFit.Edge
import GammaFit.Decimal.Format

/-! # Background polynomials

A background is a polynomial in `x - xoffset` with bounded coefficients. Between two edge
windows it is the straight line through their averages, anchored at the last bin of the left
window; its intercept may move between the left window's extreme samples and its slope between
the slopes joining opposite extremes of the two windows. The regression background lets both
move while peaks are fitted; the summation background holds them.

The backgrounds are written for any numbers; in doubles they are what the fits use, and read in
exact arithmetic they are what their laws are stated about.
-/

namespace GammaFit

/-- A polynomial `Σ cᵢ (x - xoffset)^i` with bounded coefficients, in doubles unless said
otherwise. -/
structure Background (α : Type := Float) [OfScientific α] [Neg α] [Div α] where
  coeffs : List (Param α)
  xoffset : α
deriving Inhabited

/-- `x ^ k` for a natural power of one sample among many: `1` for the zeroth power (also of
NaN), the value itself, its rounded square, else the library power. -/
def powSample (x : Float) (k : Nat) : Float :=
  match k with
  | 0 => 1.0
  | 1 => x
  | 2 => x * x
  | k => x ^ k.toFloat

/-- `x ^ k` for a natural power of a single value: the library power, which is `1` for the
zeroth power and `x` for the first. -/
def powValue (x : Float) (k : Nat) : Float :=
  match k with
  | 0 => 1.0
  | 1 => x
  | k => x ^ k.toFloat

/-- `Σ cᵢ (x - x₀)^i` in any arithmetic: the terms summed in order of power onto zero, the
powers taken by `pow`. -/
def polyAt {α : Type} [Add α] [Sub α] [Mul α] [Zero α] (pow : α → Nat → α) (cs : List α)
    (x₀ x : α) : α :=
  let dx := x - x₀
  cs.zipIdx.foldl (fun acc (c, i) => acc + c * pow dx i) 0

namespace Background

section Numbers

variable {α : Type} [OfScientific α] [Neg α] [Div α]

/-- The coefficients' contributions. -/
def coefficients (b : Background α) : List α := b.coeffs.map Param.effective

/-- The terms summed in order of power onto zero, powers taken by `pow`. -/
def evalWith [Add α] [Sub α] [Mul α] [Zero α] (pow : α → Nat → α) (b : Background α) (x : α) :
    α :=
  polyAt pow b.coefficients b.xoffset x

/-- The coefficients that are regressed. -/
def freeParams [Sub α] [LT α] [DecidableLT α] (b : Background α) : List (Param α) :=
  b.coeffs.filter Param.free

variable [Sub α] [LE α] [DecidableLE α]

/-- The line through the averages of two windows, or `none` when the right window does not
start after the left one ends. -/
def twoPoint (lb rb : Edge α) (fixed : Bool) : Option (Background α) :=
  let run := rb.start - lb.stop
  if run ≤ 0.0 then none else
  let slope := (rb.average - lb.average) / run
  let minSlope := (rb.min - lb.max) / run
  let maxSlope := (rb.max - lb.min) / run
  some ⟨[{ name := "a0", value := lb.average, lower := lb.min, upper := lb.max, fixed },
         { name := "a1", value := slope, lower := minSlope, upper := maxSlope, fixed }], lb.stop⟩

/-- The background regressed with the peaks: free within the windows' envelope. -/
def regression (lb rb : Edge α) : Option (Background α) := twoPoint lb rb false

/-- The background of summation integrals: held at the two-point line. -/
def summation (lb rb : Edge α) : Option (Background α) := twoPoint lb rb true

end Numbers

/-- The value at a single `x`. -/
def eval (b : Background) (x : Float) : Float := b.evalWith powValue x

/-- The values at every sample. -/
def evalAll (b : Background) (xs : Array Float) : Array Float := xs.map (b.evalWith powSample)

/-- The text `BoundedPolynomial([c0, c1, …], xoffset=x)`, coefficients to six significant digits. -/
def describe (b : Background) : String :=
  let terms := ", ".intercalate (b.coeffs.map fun c => Decimal.format (.general 6) c.value)
  "BoundedPolynomial([" ++ terms ++ "], xoffset=" ++ Decimal.format (.general 6) b.xoffset ++ ")"

/-- The background's document. -/
def toJson (b : Background) : Json.Value :=
  .obj [("xoffset", .num b.xoffset), ("coefficients", .arr (b.coeffs.map Param.toJson))]

/-- A background from its document; coefficient `i` is named `a` followed by `i`. -/
def ofJson (d : Json.Value) : Outcome Background := do
  let items := match d.fieldD "coefficients" (.arr []) with
    | .arr items => items
    | _ => []
  let coeffs ← items.zipIdx.mapM fun (c, i) => Param.ofJson ("a" ++ toString i) c
  let xoffset ← (d.fieldD "xoffset" (.num 0.0)).toFloat
  pure ⟨coeffs, xoffset⟩

end Background

end GammaFit
