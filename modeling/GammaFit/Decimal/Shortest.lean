import GammaFit.Decimal.Basic

/-! # Shortest decimal that reads back

For a nonzero finite double `v` the reals that round to it form an interval around it, whose ends
belong to it exactly when the significand is even (reading rounds a tie to the even neighbour).
Trying grids `10^g` with 1, 2, … 17 significant digits, the first grid holding a point of that
interval gives the fewest digits; of the two grid points next to `v`, the nearer one is taken.
-/

namespace GammaFit.Decimal

/-- A decimal `digits · 10^exp`. -/
structure Digits where
  digits : Nat
  exp : Int
deriving DecidableEq

/-- The interval of reals that read back as `v`, in units of `2^(exp-2)`: `(low, high, closed)`.
The lower neighbour is closer when `v` is a power of two above the subnormal range. -/
def Binary.roundingInterval (v : Binary) : Nat × Nat × Bool :=
  let m4 := 4 * v.mant
  let low := if v.mant = Nat.pow 2 52 ∧ v.exp > -1074 then m4 - 1 else m4 - 2
  (low, m4 + 2, v.mant % 2 = 0)

/-- Whether `c · 10^g` reads back as `v`. -/
def Binary.readsBack (v : Binary) (c : Nat) (g : Int) : Bool :=
  let (low, high, closed) := v.roundingInterval
  let e := v.exp - 2
  if closed then (!ltScaled c g low e) && leScaled c g high e
  else (!leScaled c g low e) && ltScaled c g high e

/-- The grid points `⌊|v| / 10^g⌋` and the one above it, with `|v| = c · 10^g` exactly when
they agree. -/
def Binary.gridNeighbours (v : Binary) (g : Int) : Nat × Nat :=
  let (num, den) := v.fraction
  let (g1, g2) := powPair 10 g
  let n := num * g2
  let d := den * g1
  (n / d, if n % d = 0 then n / d else n / d + 1)

/-- Which of two grid points lies nearer to `|v|`; a tie goes to the even one. -/
def Binary.nearer (v : Binary) (g : Int) (a b : Nat) : Nat :=
  let (num, den) := v.fraction
  let (g1, g2) := powPair 10 g
  let x := num * g2
  let da := if a * g1 * den ≤ x then x - a * g1 * den else a * g1 * den - x
  let db := if b * g1 * den ≤ x then x - b * g1 * den else b * g1 * den - x
  if da < db then a else if db < da then b else if a % 2 = 0 then a else b

/-- Drop trailing zeros of a decimal, keeping its value. -/
def Digits.trim (d : Digits) : Digits :=
  if h : d.digits ≠ 0 ∧ d.digits % 10 = 0 then
    Digits.trim ⟨d.digits / 10, d.exp + 1⟩
  else d
termination_by d.digits
decreasing_by omega

/-- Search the grids with `n, n+1, …` significant digits, `fuel` of them. -/
def Binary.shortestFrom (v : Binary) (k : Int) : Nat → Nat → Digits
  | 0, _ => ⟨v.mant, v.exp⟩
  | fuel + 1, n =>
    let g := k + 1 - n
    let (lo, hi) := v.gridNeighbours g
    match v.readsBack lo g, v.readsBack hi g with
    | true, true => (Digits.trim ⟨v.nearer g lo hi, g⟩)
    | true, false => (Digits.trim ⟨lo, g⟩)
    | false, true => (Digits.trim ⟨hi, g⟩)
    | false, false => v.shortestFrom k fuel (n + 1)

/-- The shortest decimal that reads back as the nonzero value `v`, without trailing zeros.
Seventeen significant digits always suffice for a double. -/
def Binary.shortest (v : Binary) : Digits :=
  v.shortestFrom v.log10 17 1

end GammaFit.Decimal
