import GammaFit.Region.Document
import GammaFit.Spectrum.Basic

/-!
# Analysing a whole spectrum

An analysis holds a spectrum, trimmed of the empty bins at both ends, with its finder, and the
regions of interest cut from it. Regions are kept by their first bin, in the order they were
put in; they are listed by first bin, and their peaks by energy.

This module holds the analysis state, the loading of a spectrum, the change of settings, and
the search for regions: candidate windows closer than twice the background margin are merged,
every region is widened by the margin on both sides, and with more than two regions the gap
between neighbours is split at its middle.
-/

namespace GammaFit

open Search (Finder)

/-- A spectrum with its regions of interest. -/
structure Analysis where
  settings : Settings
  finder : Finder := {}
  /-- The spectrum's name, as given. -/
  name : Json.Value := .str ""
  /-- The sum of all counts, trimmed bins included. -/
  totalCount : Float := 0.0
  /-- The regions by first bin, in the order they were put in. -/
  regionMap : List (Float × Region) := []
deriving Inhabited

/-- The element at an index counted from the end when negative. -/
def atIndex (xs : Array Float) (i : Int) : Float :=
  if i < 0 then xs.getD (xs.size - i.natAbs) 0.0 else xs.getD i.toNat 0.0

namespace Analysis

/-- The analysis without a spectrum. -/
def new (s : Settings) : Analysis := { settings := s }

/-- The regions by first bin. -/
def regions (a : Analysis) : List Region :=
  (a.regionMap.mergeSort fun p q => p.1 ≤ q.1).map (·.2)

/-- The region whose first bin is `key`. -/
def region? (a : Analysis) (key : Float) : Option Region :=
  (a.regionMap.find? (·.1 == key)).map (·.2)

/-- Put a region under its first bin: in place when the key is present, else last. -/
def putRegion (m : List (Float × Region)) (r : Region) : List (Float × Region) :=
  if m.any (·.1 == r.left) then m.map fun (k, q) => if k == r.left then (k, r) else (k, q)
  else m ++ [(r.left, r)]

/-- The region under `key` removed, when there is one. -/
def dropRegion (m : List (Float × Region)) (key : Float) : List (Float × Region) :=
  match m.findIdx? (·.1 == key) with
  | some i => m.eraseIdx i
  | none => m

/-- Replace the region under `old` (if any) by `r`, kept under its own first bin. -/
def replaceRegion (a : Analysis) (old : Option Float) (r : Region) : Analysis :=
  let m := match old with
    | some k => dropRegion a.regionMap k
    | none => a.regionMap
  { a with regionMap := putRegion m r }

/-- Whether a region overlaps any region other than the one under `exclude`. -/
def overlapsOthers (a : Analysis) (r : Region) (exclude : Option Float) : Bool :=
  a.regionMap.any fun (k, o) => exclude != some k && o.overlaps r.left (some r.right)

/-- The region holding the peak with this identity, with its key. -/
def parentOf (a : Analysis) (id : Nat) : Option (Float × Region) :=
  a.regionMap.find? fun (_, r) => r.contains id

/-- All peaks of all regions by energy; peaks of equal energy keep the regions' order. -/
def peaks (a : Analysis) : List Peak :=
  (a.regionMap.flatMap fun (_, r) => r.peaks).mergeSort fun p q => !(q.energy < p.energy)

/-- Load a spectrum with its acquisition settings, trimming empty bins at both ends; the
regions are dropped. `false` when the data is not a spectrum or has no counts. -/
def setData (a : Analysis) (x y : Array Float) (bits live real name : Json.Value) :
    Outcome (Bool × Analysis) := do
  if !Spectrum.valid x y then return (false, a)
  let counted := (List.range y.size).filter fun i => y.getD i 0.0 > 0.0
  match counted.head?, counted.getLast? with
  | some first, some last =>
    let s := { a.settings with bits, liveTime := live, realTime := real }
    let (ok, f) ← Finder.ofData s (x.extract first (last + 1)) (y.extract first (last + 1))
    return (ok, { settings := s, finder := f, name, totalCount := Numeric.sum y })
  | _, _ => return (false, a)

/-- The spectrum and the regions dropped. -/
def clear (a : Analysis) : Analysis := { a with finder := {}, regionMap := [] }

/-- Install new settings on the analysis and every region; without regions, the spectrum is
searched again under them. -/
def applySettings (a : Analysis) (s : Settings) : Outcome Analysis := do
  s.validate
  let a := { a with settings := s,
                    regionMap := a.regionMap.map fun (k, r) => (k, { r with settings := s }) }
  if a.regionMap.isEmpty && !a.finder.x.isEmpty then
    let (_, f) ← Finder.findPeaks s a.finder s.konWidth (Settings.float s.sigmaSpectrum)
    return { a with finder := f }
  return a

/-- The background margin around a bin: a share of the expected width there. -/
def margin (a : Analysis) (i : Int) : Float :=
  let fw := a.finder.fwTheoretical
  if fw.isEmpty then 0.0 else Settings.float a.settings.extendBackground * atIndex fw i

/-- Whether a bin lies above the energy cutoff; always, without a valid calibration. -/
def aboveCutoff (a : Analysis) (i : Int) : Outcome Bool := do
  match a.settings.calibration with
  | some c =>
    if c.valid then return (← c.transform (atIndex a.finder.x i)) > Settings.float a.settings.finderCutoff
    else return true
  | none => return true

/-- The index windows of the regions: candidate windows merged while closer than twice the
margin, each widened by the margin; all but the last must lie above the energy cutoff. -/
def regionWindows (a : Analysis) : Outcome (Array (Int × Int)) := do
  let f := a.finder
  let last : Int := f.x.size - 1
  let mut bounds : Array (Int × Int) := #[]
  let mut lo : Int := f.lefts.getD 0 0
  let mut hi : Int := f.rights.getD 0 0
  for k in [1:f.lefts.size] do
    let left : Int := f.lefts.getD k 0
    let right : Int := f.rights.getD k 0
    let m := a.margin hi
    if Float.ofInt left < Float.ofInt hi + 2.0 * m then
      lo := min lo left
      hi := max hi right
      continue
    let l := max 0 (← Json.truncate (Float.ofInt lo - m))
    let r := min last (← Json.truncate (Float.ofInt hi + m))
    if ← a.aboveCutoff r then bounds := bounds.push (l, r)
    lo := left
    hi := right
  let m := a.margin hi
  bounds := bounds.push (max 0 (← Json.truncate (Float.ofInt lo - m)),
    min last (← Json.truncate (Float.ofInt hi + m)))
  if bounds.size > 2 then
    for i in [0:bounds.size - 1] do
      let (l0, r0) := bounds.getD i (0, 0)
      let (l1, r1) := bounds.getD (i + 1) (0, 0)
      if r0 < l1 then
        let mid := (l1 + r0) / 2
        bounds := (bounds.set! i (l0, mid - 1)).set! (i + 1) (mid + 1, r1)
  for i in [0:bounds.size - 1] do
    let (l0, r0) := bounds.getD i (0, 0)
    let (l1, _) := bounds.getD (i + 1) (0, 0)
    if r0 ≥ l1 then bounds := bounds.set! i (l0, l1 - 1)
  return bounds

/-- Search the whole spectrum and build a region over each window; returns how many were
built. Windows too short for two edge windows are skipped.

The analysis changes in place: its regions are dropped and its finder's residual reset before
the search, and each region joins it as it is built, so a failure comes with the analysis as far
as it got. -/
def findRegions (a : Analysis) : Except (Failure × Analysis) (Nat × Analysis) := do
  let a := { a with regionMap := [] }
  if a.finder.x.isEmpty then return (0, a)
  let s := a.settings
  let a := { a with finder := { a.finder with yResid := a.finder.y } }
  let (_, f) ← (Finder.findPeaks s a.finder s.konWidth
    (Settings.float s.sigmaSpectrum)).mapError (·, a)
  let a := { a with finder := f }
  if f.filtered.isEmpty then return (0, a)
  let mut a := a
  for (l, r) in (← a.regionWindows.mapError (·, a)).toList do
    match Region.ofRange s f.x f.y (atIndex f.x l) (atIndex f.x r) with
    | .ok (some region) => a := { a with regionMap := putRegion a.regionMap region }
    | .ok none => pure ()
    | .error e => throw (e, a)
  return (a.regionMap.length, a)

/-- Add a region built elsewhere unless it is empty or overlaps a region. -/
def insertRegion (a : Analysis) (r : Region) : Bool × Analysis :=
  if r.finder.x.isEmpty || a.overlapsOthers r none then (false, a)
  else (true, { a with regionMap := putRegion a.regionMap r })

/-- Remove the region whose first bin is `key`. -/
def deleteRegion (a : Analysis) (key : Float) : Bool × Analysis :=
  if a.regionMap.any (·.1 == key) then (true, { a with regionMap := dropRegion a.regionMap key })
  else (false, a)

end Analysis

end GammaFit
