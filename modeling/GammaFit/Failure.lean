/-! # Failures

Why an operation of this library gave no result. Callers tell failures apart by their kind
(a value out of its domain, a missing field, a value of the wrong type, …), and read the message
for the particular cause.
-/

namespace GammaFit

/-- A failed operation: its kind and the message naming the cause. -/
inductive Failure where
  /-- A value outside the domain of the operation. -/
  | invalid (msg : String)
  /-- A required field absent from a document, named by `key`. -/
  | missingKey (key : String)
  /-- A value of a type the operation does not take. -/
  | wrongType (msg : String)
  /-- A division by zero. -/
  | divisionByZero (msg : String)
  /-- An index outside a sequence. -/
  | outOfRange (msg : String)
  /-- A number too large for a double. -/
  | overflow (msg : String)
  /-- A file that does not exist. -/
  | notFound (msg : String)
  /-- A linear-algebra computation that could not be completed, such as an iteration for
  singular values that did not converge. -/
  | linearAlgebra (msg : String)
  /-- Bytes that are not UTF-8 text. -/
  | undecodable (msg : String)
  /-- A field asked of a value that does not have it, such as an edge window of a region
  without data. -/
  | noAttribute (msg : String)
  /-- A request that names no operation of this library, or gives a non-number for a number. -/
  | badRequest (msg : String)
deriving Inhabited

/-- Results that may fail. -/
abbrev Outcome (α : Type) := Except Failure α

/-- A text quoted the way a field name is shown in a message: in single quotes, or in double
quotes when it holds a single quote and no double quote. -/
def quoteName (s : String) : String :=
  let q := if s.contains '\'' ∧ !s.contains '"' then '"' else '\''
  let body := String.join <| s.toList.map fun c =>
    if c = '\\' then "\\\\"
    else if c = q then "\\" ++ c.toString
    else if c = '\n' then "\\n"
    else if c = '\r' then "\\r"
    else if c = '\t' then "\\t"
    else c.toString
  q.toString ++ body ++ q.toString

namespace Failure

/-- The name of the failure's kind. -/
def kindName : Failure → String
  | .invalid _ => "ValueError"
  | .missingKey _ => "KeyError"
  | .wrongType _ => "TypeError"
  | .divisionByZero _ => "ZeroDivisionError"
  | .outOfRange _ => "IndexError"
  | .overflow _ => "OverflowError"
  | .notFound _ => "FileNotFoundError"
  | .linearAlgebra _ => "LinAlgError"
  | .undecodable _ => "UnicodeDecodeError"
  | .noAttribute _ => "AttributeError"
  | .badRequest _ => "BadInput"

/-- The message: a missing field is shown quoted, every other cause as written. -/
def message : Failure → String
  | .missingKey k => quoteName k
  | .invalid m | .wrongType m | .divisionByZero m | .outOfRange m | .overflow m
  | .notFound m | .linearAlgebra m | .undecodable m | .noAttribute m | .badRequest m => m

end Failure

end GammaFit
