import GammaFit.Failure

/-! # Width of a peak at half maximum

Walking down from the top of a peak on both sides to the first sample at or below half the
height above a baseline gives the full width at half maximum in bins. It is kept at least one
bin and at most a quarter of the range.
-/

namespace GammaFit.Search

/-- The sample at index `i`, counted from the end when negative; out of range is an error. -/
def sampleAt (xs : Array Float) (i : Int) : Outcome Float :=
  let j := if i < 0 then i + xs.size else i
  if 0 ≤ j ∧ j < xs.size then .ok (xs.getD j.toNat 0.0)
  else .error (.outOfRange ("index " ++ toString i ++ " is out of bounds for axis 0 with size " ++
    toString xs.size))

/-- Step left from `i` while above `half` and not at the start, at most `fuel` steps. -/
def walkLeft (xs : Array Float) (half : Float) : Nat → Int → Outcome Int
  | 0, i => .ok i
  | fuel + 1, i => do
    if i > 0 then
      if (← sampleAt xs i) > half then walkLeft xs half fuel (i - 1) else pure i
    else pure i

/-- Step right from `i` while above `half` and not at the end, at most `fuel` steps. -/
def walkRight (xs : Array Float) (half : Float) : Nat → Int → Outcome Int
  | 0, i => .ok i
  | fuel + 1, i => do
    if i < (xs.size : Int) - 1 then
      if (← sampleAt xs i) > half then walkRight xs half fuel (i + 1) else pure i
    else pure i

/-- The width at half maximum of the peak at `peak` above `baseline`, in bins. -/
def estimateWidth (counts : Array Float) (peak : Int) (baseline : Float) : Outcome Float := do
  let top ← sampleAt counts peak
  let half := baseline + (top - baseline) / 2.0
  let fuel := counts.size + peak.natAbs + 1
  let left ← walkLeft counts half fuel peak
  let right ← walkRight counts half fuel peak
  let w := Float.ofInt (right - left)
  let quarter := counts.size.toFloat / 4.0
  if w < 1.0 then return 1.0
  else if w > quarter then return (if quarter < 1.0 then 1.0 else quarter)
  else return w

end GammaFit.Search
