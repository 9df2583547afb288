import GammaFit.Numeric.Sum
import GammaFit.Numeric.Order
import GammaFit.Json.Value

/-! # Edge windows

An edge window is a short run of bins at one side of a region, free of peaks, whose counts fix
the background there. Its statistics are those of Poisson counts: the average count per bin,
and the variance of that average, which is the sum divided by the squared width.
-/

namespace GammaFit

/-- Statistics of the samples `first … last` (inclusive) of a spectrum, in doubles unless said
otherwise. -/
structure Edge (α : Type := Float) where
  first : Nat
  last : Nat
  /-- Bin value of the first sample. -/
  start : α
  /-- Bin value of the last sample. -/
  stop : α
  width : Nat
  sum : α
  average : α
  variance : α
  min : α
  max : α
  midpoint : α
deriving Inhabited, DecidableEq

namespace Edge

/-- The window over samples `first … last` of bins `x` and counts `y` in any arithmetic, where
`num` reads a count as a number and `least` and `greatest` give the extremes of nonempty samples;
`none` when the lengths differ or the indices do not name a nonempty run inside the spectrum. -/
def window? {α : Type} [Add α] [Sub α] [Div α] [Zero α] [OfScientific α] (num : Nat → α)
    (least greatest : Array α → α) (x y : Array α) (first last : Int) : Option (Edge α) :=
  if x.size ≠ y.size ∨ first < 0 ∨ last ≥ y.size ∨ first > last then none else
  let f := first.toNat
  let l := last.toNat
  let samples := y.extract f (l + 1)
  let width := l - f + 1
  let total := Numeric.sum samples
  let x0 := x.getD f 0.0
  let x1 := x.getD l 0.0
  some { first := f, last := l, start := x0, stop := x1, width, sum := total,
         average := total / num width,
         variance := total / num (width * width),
         min := least samples, max := greatest samples,
         midpoint := x0 + (x1 - x0) / 2.0 }

/-- The window over samples `first … last` of bins `x` and counts `y` in doubles, its extremes
NaN when a sample is. -/
def ofSamples? (x y : Array Float) (first last : Int) : Option Edge :=
  window? Nat.toFloat Numeric.minimum Numeric.maximum x y first last

/-- The window's document: indices, bin values, width and statistics. -/
def toJson (e : Edge) : Json.Value :=
  .obj [("first", .int e.first), ("last", .int e.last), ("start", .num e.start),
    ("end", .num e.stop), ("width", .int e.width), ("sum", .num e.sum),
    ("average", .num e.average), ("variance", .num e.variance), ("min", .num e.min),
    ("max", .num e.max), ("midpoint", .num e.midpoint)]

/-- The window's bounds as a stored document: its first and last bin values. -/
def boundsJson (e : Edge) : Json.Value :=
  .obj [("left", .num e.start), ("right", .num e.stop)]

end Edge

end GammaFit
