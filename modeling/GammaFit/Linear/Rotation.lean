import GammaFit.Linear.Reflector

/-! # Plane rotations and 2 × 2 triangular singular values

The building blocks of the bidiagonal singular value iteration:

* `givens f g` is the rotation `(c, s)` with `c f + s g = r`, `-s f + c g = 0`, `c ≥ 0` and
  `r` of the sign of `f`; inside the safe range it is `r = ±√(f² + g²)` directly, outside it
  the pair is first divided by the larger magnitude.
* `triangularSingular f g h` are the two singular values of `[[f, g], [0, h]]`, and
  `triangularSVD f g h` adds the two rotations that diagonalize it, with signs chosen so that
  the larger value keeps the sign of the entry it comes from.
* `Mat.rotateRows` and `Mat.rotateColumns` apply a sequence of rotations to consecutive
  pairs of rows or columns, forwards or backwards; a rotation `(1, 0)` is skipped.

All of it is plain rounded arithmetic, one operation at a time.
-/

namespace GammaFit.Linear

/-- The rotation `(c, s, r)` taking `(f, g)` to `(r, 0)`, described above. -/
def givens (f g : Float) : Float × Float × Float :=
  let rtmin := Float.sqrt safeMin
  let rtmax := Float.sqrt ((1.0 / safeMin) / 2.0)
  let f1 := f.abs
  let g1 := g.abs
  if g == 0.0 then (1.0, 0.0, f)
  else if f == 0.0 then (0.0, withSign 1.0 g, g1)
  else if f1 > rtmin && f1 < rtmax && g1 > rtmin && g1 < rtmax then
    let d := Float.sqrt (f * f + g * g)
    let c := f1 / d
    let r := withSign d f
    (c, g / r, r)
  else
    let u := min (1.0 / safeMin) (max safeMin (max f1 g1))
    let fs := f / u
    let gs := g / u
    let d := Float.sqrt (fs * fs + gs * gs)
    let c := fs.abs / d
    let r := withSign d f
    (c, gs / r, r * u)

/-- The smaller and the larger singular value of the upper triangular `[[f, g], [0, h]]`. -/
def triangularSingular (f g h : Float) : Float × Float :=
  let fa := f.abs
  let ga := g.abs
  let ha := h.abs
  let fhmn := min fa ha
  let fhmx := max fa ha
  if fhmn == 0.0 then
    if fhmx == 0.0 then (0.0, ga)
    else
      let mx := max fhmx ga
      let mn := min fhmx ga
      (0.0, mx * Float.sqrt (1.0 + (mn / mx) * (mn / mx)))
  else if ga < fhmx then
    let as := 1.0 + fhmn / fhmx
    let ad := (fhmx - fhmn) / fhmx
    let au := (ga / fhmx) * (ga / fhmx)
    let c := 2.0 / (Float.sqrt (as * as + au) + Float.sqrt (ad * ad + au))
    (fhmn * c, fhmx / c)
  else
    let au := fhmx / ga
    if au == 0.0 then ((fhmn * fhmx) / ga, ga)
    else
      let as := 1.0 + fhmn / fhmx
      let ad := (fhmx - fhmn) / fhmx
      let c := 1.0 / (Float.sqrt (1.0 + (as * au) * (as * au)) +
        Float.sqrt (1.0 + (ad * au) * (ad * au)))
      let smin := (fhmn * c) * au
      (smin + smin, ga / (c + c))

/-- The singular value decomposition of the upper triangular `[[f, g], [0, h]]`. -/
structure TriangularSVD where
  /-- The singular value of smaller magnitude (signed). -/
  smin : Float
  /-- The singular value of larger magnitude (signed). -/
  smax : Float
  /-- The sine of the right rotation. -/
  snr : Float
  /-- The cosine of the right rotation. -/
  csr : Float
  /-- The sine of the left rotation. -/
  snl : Float
  /-- The cosine of the left rotation. -/
  csl : Float

/-- The decomposition `[[csl, snl], [-snl, csl]] [[f, g], [0, h]] [[csr, -snr], [snr, csr]] =
[[smax, 0], [0, smin]]`, computed so that it stays accurate when the entries differ widely. -/
def triangularSVD (f g h : Float) : TriangularSVD := Id.run do
  let mut ft := f
  let mut fa := f.abs
  let mut ht := h
  let mut ha := h.abs
  let mut pmax : Nat := 1
  let swap := ha > fa
  if swap then
    pmax := 3
    (ft, ht) := (ht, ft)
    (fa, ha) := (ha, fa)
  let gt := g
  let ga := gt.abs
  let mut ssmin := 0.0
  let mut ssmax := 0.0
  let mut clt := 1.0
  let mut crt := 1.0
  let mut slt := 0.0
  let mut srt := 0.0
  if ga == 0.0 then
    ssmin := ha
    ssmax := fa
  else
    let mut gasmal := true
    if ga > fa then
      pmax := 2
      if fa / ga < unitRoundoff then
        gasmal := false
        ssmax := ga
        ssmin := if ha > 1.0 then fa / (ga / ha) else (fa / ga) * ha
        clt := 1.0
        slt := ht / gt
        srt := 1.0
        crt := ft / gt
    if gasmal then
      let d := fa - ha
      let l := if d == fa then 1.0 else d / fa
      let m := gt / ft
      let t := 2.0 - l
      let mm := m * m
      let tt := t * t
      let s := Float.sqrt (tt + mm)
      let r := if l == 0.0 then m.abs else Float.sqrt (l * l + mm)
      let a := 0.5 * (s + r)
      ssmin := ha / a
      ssmax := fa * a
      let t :=
        if mm == 0.0 then
          if l == 0.0 then withSign 2.0 ft * withSign 1.0 gt else gt / withSign d ft + m / t
        else (m / (s + t) + m / (r + l)) * (1.0 + a)
      let l := Float.sqrt (t * t + 4.0)
      crt := 2.0 / l
      srt := t / l
      clt := (crt + srt * m) / a
      slt := (ht / ft) * srt / a
  let (csl, snl, csr, snr) := if swap then (srt, crt, slt, clt) else (clt, slt, crt, srt)
  let tsign :=
    if pmax = 1 then withSign 1.0 csr * withSign 1.0 csl * withSign 1.0 f
    else if pmax = 2 then withSign 1.0 snr * withSign 1.0 csl * withSign 1.0 g
    else withSign 1.0 snr * withSign 1.0 snl * withSign 1.0 h
  return ⟨withSign ssmin (tsign * withSign 1.0 f * withSign 1.0 h), withSign ssmax tsign,
    snr, csr, snl, csl⟩

/-- The order in which a sequence of rotations of consecutive pairs is applied. -/
inductive Sweep where
  | forward
  | backward
  deriving DecidableEq, Inhabited

/-- The pair indices `0, …, count - 1` in the order of the sweep. -/
def Sweep.order (w : Sweep) (count : Nat) : List Nat :=
  match w with
  | .forward => List.range count
  | .backward => (List.range count).reverse

/-- Rows `i₀ + k` and `i₀ + k + 1` of the first `n` columns turned by `(cs[k], ss[k])`, for
`k < len - 1` in the order of the sweep: the lower row becomes `c · lower - s · upper` and the
upper `s · lower + c · upper`. -/
def Mat.rotateRows (A : Mat) (w : Sweep) (cs ss : Array Float) (i₀ len n : Nat) : Mat := Id.run do
  let mut A := A
  for k in w.order (len - 1) do
    let ct := entry cs k
    let st := entry ss k
    if ct != 1.0 || st != 0.0 then
      for j in [0:n] do
        let temp := A.get (i₀ + k + 1) j
        let up := A.get (i₀ + k) j
        A := (A.set (i₀ + k + 1) j (ct * temp - st * up)).set (i₀ + k) j (st * temp + ct * up)
  return A

/-- Columns `j₀ + k` and `j₀ + k + 1` of the first `m` rows turned by `(cs[k], ss[k])`, for
`k < len - 1` in the order of the sweep, as in `Mat.rotateRows`. -/
def Mat.rotateColumns (A : Mat) (w : Sweep) (cs ss : Array Float) (j₀ len m : Nat) : Mat := Id.run do
  let mut A := A
  for k in w.order (len - 1) do
    let ct := entry cs k
    let st := entry ss k
    if ct != 1.0 || st != 0.0 then
      for i in [0:m] do
        let temp := A.get i (j₀ + k + 1)
        let left := A.get i (j₀ + k)
        A := (A.set i (j₀ + k + 1) (ct * temp - st * left)).set i (j₀ + k) (st * temp + ct * left)
  return A

/-- Rows `i` and `i'` of the first `n` columns turned by one rotation `(c, s)`, each new entry
fused as the vector unit forms it: `x ← c x + s y`, `y ← c y - s x`. -/
def Mat.turnRows (A : Mat) (i i' n : Nat) (c s : Float) : Mat := Id.run do
  let mut A := A
  for j in [0:n] do
    let (x, y) := rotatePair c s (A.get i j) (A.get i' j)
    A := (A.set i j x).set i' j y
  return A

/-- Columns `j` and `j'` of the first `m` rows turned by one rotation `(c, s)`, fused as in
`Mat.turnRows`. -/
def Mat.turnColumns (A : Mat) (j j' m : Nat) (c s : Float) : Mat := Id.run do
  let mut A := A
  for i in [0:m] do
    let (x, y) := rotatePair c s (A.get i j) (A.get i j')
    A := (A.set i j x).set i j' y
  return A

end GammaFit.Linear
