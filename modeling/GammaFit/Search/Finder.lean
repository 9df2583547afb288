import GammaFit.Signal.Smoothing
import GammaFit.Search.Width
import GammaFit.Settings
import GammaFit.Spectrum.Basic

/-! # Searching a spectrum range for peak candidates

A finder holds a contiguous range of a spectrum, the current model of it and the residual
`y - model`. A search smooths the residual's second derivative with a quadratic least-squares
filter over `2 · width + 1` bins and divides its negative by the filter's noise (the square
root of the smoothed counts, at least one, times the norm of the filter's weights): the
response is the curvature in standard deviations.

The candidates are the runs of bins where the response exceeds `sigma`, at least the minimum
width long; each one's position is the run's highest response, its width at half maximum is
walked off the residual above the lowest residual within three run lengths, and its window
extends the run by that width on both sides. The expected width at each bin comes from the
resolution calibration when there is one, else is interpolated between the candidates' widths,
else is twice the default half width.
-/

namespace GammaFit.Search

open GammaFit.Linear

/-- A spectrum range with its model and the result of the last search. -/
structure Finder where
  /-- The bins. -/
  x : Array Float := #[]
  /-- The counts. -/
  y : Array Float := #[]
  /-- The current model. -/
  yFit : Array Float := #[]
  /-- The background part of the model. -/
  yBackground : Array Float := #[]
  /-- The counts less the model. -/
  yResid : Array Float := #[]
  /-- The expected width at half maximum at each bin. -/
  fwTheoretical : Array Float := #[]
  /-- The significance of the last search at each bin. -/
  response : Array Float := #[]
  /-- The local maxima of the response. -/
  prelim : Array Nat := #[]
  /-- The candidates' positions. -/
  filtered : Array Nat := #[]
  /-- The first bin of each candidate's window. -/
  lefts : Array Nat := #[]
  /-- The last bin of each candidate's window. -/
  rights : Array Nat := #[]
  deriving Inhabited

/-- The middle of each plateau of `xs` that is higher than the samples on both sides of it;
the first and last samples are never maxima. -/
def localMaxima (xs : Array Float) : Array Nat := Id.run do
  let n := xs.size
  let mut out : Array Nat := #[]
  let mut i := 1
  for _ in [0:n] do
    if i + 1 < n then
      if entry xs (i - 1) < entry xs i then
        let mut ahead := i + 1
        for _ in [0:n] do
          if ahead + 1 < n && entry xs ahead == entry xs i then ahead := ahead + 1
        if entry xs ahead < entry xs i then
          out := out.push ((i + (ahead - 1)) / 2)
          i := ahead
      i := i + 1
  return out

/-- The runs `(start, end)` (inclusive) of consecutive entries that hold. -/
def runs (flags : Array Bool) : Array (Nat × Nat) := Id.run do
  let mut out : Array (Nat × Nat) := #[]
  let mut start : Option Nat := none
  for i in [0:flags.size] do
    match start, flags.getD i false with
    | none, true => start := some i
    | some s, false =>
      out := out.push (s, i - 1)
      start := none
    | _, _ => pure ()
  if let some s := start then out := out.push (s, flags.size - 1)
  return out

/-- The piecewise linear interpolation of the points `(xp, fp)` (`xp` increasing) at `x`,
constant beyond the ends. -/
def interpolate (xp fp : Array Float) (x : Float) : Float :=
  let n := xp.size
  if n = 1 then
    if x < entry xp 0 then entry fp 0 else if x > entry xp 0 then entry fp 0 else entry fp 0
  else if x.isNaN then x
  else if x < entry xp 0 then entry fp 0
  else if x > entry xp (n - 1) then entry fp (n - 1)
  else
    let j := (List.range n).foldl (fun acc k => if entry xp k ≤ x then k else acc) 0
    if j = n - 1 then entry fp j
    else if entry xp j == x then entry fp j
    else
      let slope := (entry fp (j + 1) - entry fp j) / (entry xp (j + 1) - entry xp j)
      let v := slope * (x - entry xp j) + entry fp j
      if !v.isNaN then v
      else
        let v' := slope * (x - entry xp (j + 1)) + entry fp (j + 1)
        if v'.isNaN && entry fp j == entry fp (j + 1) then entry fp j else v'

namespace Finder

/-- The expected width at half maximum at each bin: from the resolution calibration when it
has coefficients, else interpolated between the candidates' widths, else twice the default
half width. -/
def expectedWidths (s : Settings) (x : Array Float) (filtered : Array Nat)
    (estimates : Array Float) : Outcome (Array Float) := do
  match s.fwhmCalibration with
  | some c =>
    if c.valid then return ← x.mapM c.transform
  | none => pure ()
  if !estimates.isEmpty then
    let xp := filtered.map Float.ofNat
    return (Array.range x.size).map fun i => interpolate xp estimates (Float.ofNat i)
  return Array.replicate x.size (2.0 * Settings.float s.konWidth)

/-- The finder of the range `(x, y)` with a zero model, or the empty finder when the range is
not a spectrum; the flag tells which. -/
def ofData (s : Settings) (x y : Array Float) : Outcome (Bool × Finder) := do
  if !Spectrum.valid x y then return (false, {})
  let zeros := y.map fun _ => 0.0
  let fw ← expectedWidths s x #[] #[]
  return (true,
    { x, y, yFit := zeros, yBackground := zeros, yResid := y, fwTheoretical := fw,
      response := zeros })

/-- The finder with a new model, or unchanged (and `false`) when the lengths do not match. -/
def setFit (f : Finder) (fit background : Array Float) : Bool × Finder :=
  if fit.size != f.y.size || background.size != f.y.size then (false, f)
  else (true,
    { f with yFit := fit, yBackground := background, yResid := f.y.zipWith (· - ·) fit })

/-- The search results cleared. -/
def clearSearch (f : Finder) : Finder :=
  { f with
    response := f.x.map (fun _ => 0.0), prelim := #[], filtered := #[], lefts := #[], rights := #[] }

/-- The response of the search over `2 · width + 1` bins, described in the module header. -/
def significance (f : Finder) (width : Nat) : Outcome (Array Float) := do
  let window := 2 * width + 1
  let smoothed ← Signal.smooth f.y window 2 0
  let curvature ← Signal.smooth f.yResid window 2 2
  let weights ← Signal.filterWeights window 2 2
  let norm := Float.sqrt (dot weights weights)
  let atLeastOne (v : Float) : Float := if v.isNaN then v else if v < 1.0 then 1.0 else v
  return smoothed.zipWith (fun sm c => (-c) / (Float.sqrt (atLeastOne sm) * norm)) curvature

/-- The finder after a search with half width `width` and threshold `sigma`, with the number
of candidates found. A half width below one or a window longer than the range finds none. -/
def search (s : Settings) (f : Finder) (width : Int) (sigma : Float) : Outcome (Nat × Finder) := do
  let f := f.clearSearch
  if width < 1 || (f.x.size : Int) < 2 * width + 1 then return (0, f)
  let response ← f.significance width.toNat
  let prelim := localMaxima response
  let last := f.x.size - 1
  let minWidth := Settings.float s.konMinWidth
  let mut filtered : Array Nat := #[]
  let mut lefts : Array Nat := #[]
  let mut rights : Array Nat := #[]
  let mut estimates : Array Float := #[]
  for (start, stop) in runs (response.map (· > sigma)) do
    let span := stop - start + 1
    if Float.ofNat span < minWidth then continue
    let peak := start + Numeric.argmax (response.extract start (stop + 1))
    let lo := start - min start (3 * span)
    let hi := min last (stop + 3 * span)
    let fwhm ← estimateWidth f.yResid peak (Numeric.minimum (f.yResid.extract lo (hi + 1)))
    estimates := estimates.push fwhm
    filtered := filtered.push peak
    let left := (Float.ofNat start - fwhm).floor
    lefts := lefts.push (if left > 0.0 then left.toUInt64.toNat else 0)
    let right := (Float.ofNat stop + fwhm).ceil
    rights := rights.push (if right < Float.ofNat last then right.toUInt64.toNat else last)
  let fw ← expectedWidths s f.x filtered estimates
  return (filtered.size, { f with response, prelim, filtered, lefts, rights, fwTheoretical := fw })

/-- The search with the half width as it is asked for: read as an integer, a double being cut
toward zero, before the finder is touched. -/
def findPeaks (s : Settings) (f : Finder) (width : Json.Value) (sigma : Float) :
    Outcome (Nat × Finder) := do
  f.search s (← width.toInt) sigma

/-- The index of the first bin at or above `v`, clamped to the range; `-1` for an empty
finder. -/
def indexOf (f : Finder) (v : Float) : Int :=
  if f.x.isEmpty then -1 else min (Numeric.searchLeft f.x v) (f.x.size - 1)

/-- A new finder over the bins `first … last` with the data and model cut to them; the empty
finder for a range that does not fit. -/
def cloneRange (s : Settings) (f : Finder) (first last : Int) : Outcome Finder := do
  if f.x.isEmpty || first < 0 || last ≥ f.x.size || first > last then return {}
  let cut (xs : Array Float) := xs.extract first.toNat (last.toNat + 1)
  let (_, g) ← ofData s (cut f.x) (cut f.y)
  return (g.setFit (cut f.yFit) (cut f.yBackground)).2

end Finder

end GammaFit.Search
