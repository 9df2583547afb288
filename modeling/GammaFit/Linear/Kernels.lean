import GammaFit.Numeric.Fma

/-! # Vector kernels with a fixed evaluation order

Floating-point sums depend on the order of their terms, so each kernel here fixes one order.
The orders are those of the vector units the library's results were computed with:

* products that feed a running sum are fused with it (`fma`), except in the two narrow
  matrix–vector kernels, which multiply and add separately;
* the wide kernels keep one partial sum per lane (row `r` goes to lane `r mod 4` or `r mod 2`)
  and join the lanes pairwise at the end;
* rows left over after the blocks of four are added one column at a time in scalar code.

Vectors are plain arrays; a missing entry reads as zero.
-/

namespace GammaFit.Linear

open GammaFit.Numeric (fma)

/-- Entry `i` of `xs`, zero beyond the end. -/
@[inline] def entry (xs : Array Float) (i : Nat) : Float := xs.getD i 0.0

/-- The dot product of two vectors of 16 or more entries, in the wide kernel's order: blocks of
32 in four 8-lane fused sums, folded to four 4-lane sums, then blocks of 8, then lanes joined. -/
def dotWide (xs ys : Array Float) (n : Nat) : Float := Id.run do
  let mut wide : Array Float := Array.replicate 32 0.0
  let n32 := n / 32 * 32
  for i in [0:n32] do
    let k := i % 32
    wide := wide.set! k (fma (entry xs i) (entry ys i) (entry wide k))
  let mut acc : Array Float := Array.replicate 16 0.0
  for a in [0:4] do
    for l in [0:4] do
      acc := acc.set! (4 * a + l) (entry wide (8 * a + l) + entry wide (8 * a + l + 4))
  for i in [n32:n] do
    let k := (i - n32) % 8
    acc := acc.set! k (fma (entry xs i) (entry ys i) (entry acc k))
  let lane (l : Nat) := ((entry acc l + entry acc (4 + l)) + entry acc (8 + l)) + entry acc (12 + l)
  return (lane 0 + lane 2) + (lane 1 + lane 3)

/-- The dot product of two contiguous vectors: the wide kernel on the largest multiple of 16,
then the rest one fused step at a time. -/
def dot (xs ys : Array Float) : Float := Id.run do
  let n := min xs.size ys.size
  let n16 := n / 16 * 16
  let mut s := if n16 > 0 then dotWide xs ys n16 else 0.0
  for i in [n16:n] do
    s := fma (entry ys i) (entry xs i) s
  return s

/-- `Σ a_r x_r` over the first `nb` rows in the four-lane fused kernel. -/
def laneSumFused (a x : Array Float) (nb : Nat) : Float := Id.run do
  let mut l : Array Float := #[0.0, 0.0, 0.0, 0.0]
  for r in [0:nb] do
    l := l.set! (r % 4) (fma (entry a r) (entry x r) (entry l (r % 4)))
  return (entry l 0 + entry l 2) + (entry l 1 + entry l 3)

/-- `Σ a_r x_r` over the first `nb` rows in the two-column kernel: two lanes, products rounded
before they are added. -/
def laneSumPair (a x : Array Float) (nb : Nat) : Float := Id.run do
  let mut l : Array Float := #[0.0, 0.0]
  for r in [0:nb] do
    l := l.set! (r % 2) (entry l (r % 2) + entry a r * entry x r)
  return entry l 0 + entry l 1

/-- `Σ a_r x_r` over the first `nb` rows in the one-column kernel: rows `0, 1 mod 4` and rows
`2, 3 mod 4` in two pairs of lanes, products rounded before they are added. -/
def laneSumSingle (a x : Array Float) (nb : Nat) : Float := Id.run do
  let mut l : Array Float := #[0.0, 0.0, 0.0, 0.0]
  for r in [0:nb] do
    l := l.set! (r % 4) (entry l (r % 4) + entry a r * entry x r)
  return (entry l 0 + entry l 2) + (entry l 1 + entry l 3)

/-- `y + α Aᵀ x` for a matrix given by its columns (each with at least `x.size` rows). Rows come
in blocks of four through the lane kernels (four columns at a time, then two, then one); the
last `m mod 4` rows are added per column in scalar code, with `x` scaled by `α` first. -/
def transposedProduct (cols : Array (Array Float)) (x : Array Float) (alpha : Float)
    (y : Array Float) : Array Float := Id.run do
  let m := x.size
  let n := cols.size
  let m3 := m % 4
  let nb := m - m3
  let mut y := y
  if nb > 0 then
    let quads := n / 4 * 4
    for j in [0:quads] do
      y := y.set! j (fma (laneSumFused (cols.getD j #[]) x nb) alpha (entry y j))
    let mut j := quads
    if n % 4 ≥ 2 then
      for k in [0:2] do
        y := y.set! (j + k) (fma (laneSumPair (cols.getD (j + k) #[]) x nb) alpha (entry y (j + k)))
      j := j + 2
    if n % 2 = 1 then
      y := y.set! j (fma (laneSumSingle (cols.getD j #[]) x nb) alpha (entry y j))
  if m3 > 0 then
    let t0 := entry x nb * alpha
    let t1 := entry x (nb + 1) * alpha
    let t2 := entry x (nb + 2) * alpha
    for j in [0:n] do
      let c := cols.getD j #[]
      let v :=
        if m3 = 1 then fma (entry c nb) t0 (entry y j)
        else if m3 = 2 then entry y j + fma (entry c nb) t0 (entry c (nb + 1) * t1)
        else entry y j + fma (entry c (nb + 2)) t2 (fma (entry c nb) t0 (entry c (nb + 1) * t1))
      y := y.set! j v
  return y

/-- `y + α A x` for a matrix given by its columns, `x` read one entry per column. Rows come in
blocks of four: four columns at a time give one fused sum per row (`a₁x₁` rounded, then `a₀x₀`,
`a₂x₂` and `a₃x₃` fused onto it), joined to `y` as `y + α · sum` fused; each column left over adds `a · (α x)`, product and sum rounded apart.
The last `rows mod 4` rows keep one fused running sum per row over all columns, then
`y + α · sum` fused. -/
def columnCombination (cols : Array (Array Float)) (x : Array Float) (alpha : Float)
    (rows : Nat) (y : Array Float) : Array Float := Id.run do
  let n := cols.size
  let m3 := rows % 4
  let nb := rows - m3
  let mut y := y
  if nb > 0 then
    for g in [0:n / 4] do
      let j := 4 * g
      let c0 := cols.getD j #[]
      let c1 := cols.getD (j + 1) #[]
      let c2 := cols.getD (j + 2) #[]
      let c3 := cols.getD (j + 3) #[]
      for r in [0:nb] do
        let acc := fma (entry c3 r) (entry x (j + 3)) (fma (entry c2 r) (entry x (j + 2))
          (fma (entry c0 r) (entry x j) (entry c1 r * entry x (j + 1))))
        y := y.set! r (fma acc alpha (entry y r))
    for j in [n / 4 * 4:n] do
      let c := cols.getD j #[]
      let xa := entry x j * alpha
      for r in [0:nb] do
        y := y.set! r (entry y r + entry c r * xa)
  let mut temps : Array Float := Array.replicate m3 0.0
  for j in [0:n] do
    let c := cols.getD j #[]
    for r in [0:m3] do
      temps := temps.set! r (fma (entry c (nb + r)) (entry x j) (entry temps r))
  for r in [0:m3] do
    y := y.set! (nb + r) (fma alpha (entry temps r) (entry y (nb + r)))
  return y

/-- `y + α x` entry by entry, each entry one fused step. -/
def axpy (alpha : Float) (x y : Array Float) : Array Float :=
  y.mapIdx fun i v => fma alpha (entry x i) v

/-- The plane rotation `(x, y) ↦ (c x + s y, c y - s x)` of one pair, fused as compiled. -/
@[inline] def rotatePair (c s x y : Float) : Float × Float :=
  (fma c x (s * y), fma c y (-(s * x)))

end GammaFit.Linear
