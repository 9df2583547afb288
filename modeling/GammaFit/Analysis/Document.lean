import GammaFit.Analysis.Edit

/-!
# Stored analyses

An analysis is stored as a document with its name, its settings, the whole spectrum and the
documents of its regions by first bin. Reading one loads the spectrum under the stored
settings and rebuilds every stored region against it; a region that cannot be rebuilt, or
that overlaps one already rebuilt, is left out.
-/

namespace GammaFit

open Json

namespace Analysis

/-- The document of an analysis. -/
def toDocument (a : Analysis) : Outcome Value := do
  let regions ← a.regions.mapM (·.toDocument false)
  return .obj [("name", a.name), ("settings", a.settings.toJson),
    ("spectrum", .obj [("x", Value.floatArray a.finder.x), ("y", Value.floatArray a.finder.y)]),
    ("regions", .arr regions)]

/-- A failure reading the document, with its cause. -/
def invalidDocument (cause : String) : Failure := .invalid ("Invalid fit document: " ++ cause)

/-- The samples of a stored list; `none` when the value is not a flat list. Absent values read
as NaN, truth values as `1` and `0`, texts as decimal numbers. -/
def storedSamples (v : Value) : Outcome (Option (Array Float)) := do
  let one (item : Value) : Outcome (Option Float) :=
    match item with
    | .null => .ok (some (0.0 / 0.0))
    | .arr _ => .ok none
    | .obj _ => .error (invalidDocument "float() argument must be a string or a real number, not 'dict'")
    | item => some <$> item.toFloat
  match v with
  | .arr items =>
    let xs ← items.mapM one
    return if xs.all Option.isSome then some (xs.filterMap id).toArray else none
  | _ => return none

/-- The field `key` of a stored document, with the failures of reading a document. -/
def storedField (v : Value) (key : String) : Outcome Value :=
  match v with
  | .obj _ =>
    match v.get? key with
    | some x => .ok x
    | none => .error (invalidDocument (quoteName key))
  | .arr _ => .error (invalidDocument "list indices must be integers or slices, not str")
  | .str _ => .error (invalidDocument "string indices must be integers, not 'str'")
  | other => .error (invalidDocument ("'" ++ other.typeName ++ "' object is not subscriptable"))

/-- The analysis a document describes. -/
def ofDocument (doc : Value) : RegionM Analysis := do
  match doc with
  | .obj _ => pure ()
  | v => throw (.noAttribute ("'" ++ v.typeName ++ "' object has no attribute 'get'"))
  let s ← liftOutcome (Settings.ofJson (doc.fieldD "settings" (.obj [])))
  let spectrum ← liftOutcome (storedField doc "spectrum")
  let x ← liftOutcome (do storedSamples (← storedField spectrum "x"))
  let y ← liftOutcome (do storedSamples (← storedField spectrum "y"))
  let invalid : Failure := .invalid "Invalid spectrum in fit document"
  let (some x, some y) := (x, y) | throw invalid
  let (ok, a) ← liftOutcome ((Analysis.new s).setData x y s.bits s.liveTime s.realTime
    (doc.fieldD "name" (.str "")))
  if !ok then throw invalid
  let entries ← match doc.fieldD "regions" (.arr []) with
    | .arr items => pure items
    | .obj fields => pure (fields.map fun (k, _) => Value.str k)
    | v => throw (.wrongType ("'" ++ v.typeName ++ "' object is not iterable"))
  let mut current := a
  for e in entries do
    if let some r ← Region.ofDocument e current.finder s then
      current := (current.insertRegion r).2
  return current

end Analysis

end GammaFit
