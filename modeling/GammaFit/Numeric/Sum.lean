/-! # Pairwise summation

Sums of many doubles are taken pairwise: runs of fewer than eight terms left to right; up to 128
terms in eight interleaved partial sums combined as a balanced tree, the leftover terms added
last; longer runs split in two halves (the first a multiple of eight long) summed separately.
The rounding error then grows with the logarithm of the length rather than the length.

The summation is written for any numbers with an addition and a zero: the doubles are one
instance, and exact arithmetic, where the order of the additions does not matter, is another.
-/

namespace GammaFit.Numeric

variable {α : Type} [Add α] [Zero α]

/-- Left-to-right sum of `xs[lo + i]` for `i` in `[from, n)`, added onto `acc`. -/
def sumFrom (xs : Array α) (lo n : Nat) (i : Nat) (acc : α) : α :=
  if i < n then sumFrom xs lo n (i + 1) (acc + xs.getD (lo + i) 0) else acc
termination_by n - i

/-- The eight interleaved partial sums over whole blocks of eight, starting at block `i`. -/
def lanes (xs : Array α) (lo stop : Nat) (i : Nat) (r : Array α) : Array α :=
  if i + 8 ≤ stop then
    lanes xs lo stop (i + 8) (r.mapIdx fun j v => v + xs.getD (lo + i + j) 0)
  else r
termination_by stop - i

/-- Pairwise sum of the `n` terms `xs[lo], …, xs[lo + n - 1]`. -/
def pairwise (xs : Array α) (lo n : Nat) : α :=
  if n < 8 then sumFrom xs lo n 0 0
  else if n ≤ 128 then
    let start := (Array.range 8).map fun j => xs.getD (lo + j) 0
    let whole := n - n % 8
    let r := lanes xs lo whole 8 start
    let g (j : Nat) := r.getD j 0
    let res := ((g 0 + g 1) + (g 2 + g 3)) + ((g 4 + g 5) + (g 6 + g 7))
    sumFrom xs lo n whole res
  else
    let half := n / 2 - (n / 2) % 8
    pairwise xs lo half + pairwise xs (lo + half) (n - half)
termination_by n
decreasing_by all_goals omega

/-- The sum of all terms, pairwise, added onto zero. -/
def sum (xs : Array α) : α := 0 + pairwise xs 0 xs.size

/-- The arithmetic mean: the pairwise sum divided by the count. -/
def mean (xs : Array Float) : Float := sum xs / xs.size.toFloat

end GammaFit.Numeric
