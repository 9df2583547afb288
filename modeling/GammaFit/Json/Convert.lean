import GammaFit.Json.Value
import GammaFit.Decimal.Parse
import GammaFit.Failure

/-! # Reading numbers and truth values from documents

Fields of a document are read the way the documents' producers read them: a double may be
given as any number, a truth value (`1` and `0`) or a decimal text; a truth value may be given
as anything, an empty or zero value counting as false.
-/

namespace GammaFit.Json

/-- The name of a value's type, as messages show it. -/
def Value.typeName : Value → String
  | .null => "NoneType"
  | .bool _ => "bool"
  | .int _ => "int"
  | .num _ => "float"
  | .str _ => "str"
  | .arr _ => "list"
  | .obj _ => "dict"

/-- The double nearest to an integer, or an overflow when it is beyond the doubles. -/
def intToFloat (n : Int) : Outcome Float :=
  let x := Decimal.toFloat (n < 0) n.natAbs 0
  if x.isInf then .error (.overflow "int too large to convert to float") else .ok x

/-- A value read as a double. -/
def Value.toFloat : Value → Outcome Float
  | .num x => .ok x
  | .int n => intToFloat n
  | .bool b => .ok (if b then 1.0 else 0.0)
  | .str s =>
    match Decimal.parseFloat? s with
    | some x => .ok x
    | none => .error (.invalid ("could not convert string to float: " ++ quoteName s))
  | v => .error (.wrongType ("float() argument must be a string or a real number, not " ++ quoteName v.typeName))

/-- A value read as a truth value: `null`, `false`, zero and empty values are false. -/
def Value.truthy : Value → Bool
  | .null => false
  | .bool b => b
  | .int n => n != 0
  | .num x => x != 0.0
  | .str s => !s.isEmpty
  | .arr items => !items.isEmpty
  | .obj fields => !fields.isEmpty

/-- The field `key`, or a missing-key failure. -/
def Value.field (v : Value) (key : String) : Outcome Value :=
  match v.get? key with
  | some x => .ok x
  | none => .error (.missingKey key)

/-- The field `key`, or `dflt` when absent. -/
def Value.fieldD (v : Value) (key : String) (dflt : Value) : Value :=
  (v.get? key).getD dflt

/-- The field `key` of an object, or `dflt` when it is absent; a value that is not an object has
no fields to look up. -/
def Value.lookupD (v : Value) (key : String) (dflt : Value) : Outcome Value :=
  match v with
  | .obj _ => .ok (v.fieldD key dflt)
  | v => .error (.noAttribute (quoteName v.typeName ++ " object has no attribute 'get'"))

end GammaFit.Json
