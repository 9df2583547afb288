import GammaFit.Json.Convert

/-! # Arguments of requests

A request is a document naming an operation and its arguments. Numbers in a request may be
JSON numbers or decimal texts (`"nan"`, `"inf"`, `"1.5"`); a truth value or `null` where a
number belongs is refused. Lists of numbers become sample arrays.
-/

namespace GammaFit.Request

open Json

/-- How a value is shown in the message refusing it. -/
def shown : Value → String
  | .null => "None"
  | .bool true => "True"
  | .bool false => "False"
  | .str s => s
  | .int n => toString n
  | .num x => Decimal.format .shortest x
  | .arr _ => "list"
  | .obj _ => "dict"

/-- A number argument. -/
def number (v : Value) : Outcome Float :=
  match v with
  | .num x => .ok x
  | .int n => intToFloat n
  | .str _ => v.toFloat
  | v => .error (.badRequest ("not a number: " ++ shown v))

/-- A list of number arguments as samples. -/
def samples (v : Value) : Outcome (Array Float) :=
  match v with
  | .arr items => items.toArray.mapM number
  | v => return #[← number v]

/-- A numeric array argument of any shape: a flat list, or anything else (a single number or
nested lists), of which only the values are kept. -/
inductive Shaped where
  | flat (xs : Array Float)
  | other (values : Array Float)

/-- The numbers of a value, depth first. -/
def numbersIn : Value → Outcome (List Float)
  | .arr items => do
    let parts ← items.attach.mapM fun ⟨v, _⟩ => numbersIn v
    return parts.flatten
  | v => return [← number v]

/-- A numeric array argument of any shape. -/
def shapedSamples (v : Value) : Outcome Shaped :=
  match v with
  | .arr items =>
    if items.any (fun i => match i with | .arr _ => true | _ => false) then
      return .other (← numbersIn v).toArray
    else return .flat (← items.toArray.mapM number)
  | v => return .other #[← number v]

/-- Points to evaluate at: one number, or a list of them. The answer keeps the same shape. -/
inductive Points where
  | one (x : Float)
  | many (xs : Array Float)

/-- Points from a request argument. -/
def points (v : Value) : Outcome Points :=
  match v with
  | .arr items => return .many (← items.toArray.mapM number)
  | v => return .one (← number v)

/-- Evaluate at each point, keeping the shape: a number for one point, a list for many. -/
def Points.eval (p : Points) (one : Float → Float) (many : Array Float → Array Float) : Value :=
  match p with
  | .one x => .num (one x)
  | .many xs => Value.floatArray (many xs)

/-- An integer argument (an index or a count); a double with an integral value is taken too. -/
def integer (v : Value) : Outcome Int :=
  match v with
  | .int n => .ok n
  | .num x =>
    if x.isNaN ∨ x.isInf ∨ x.floor != x then .error (.wrongType "index must be an integer")
    else .ok (if x < 0.0 then -((-x).toUInt64.toNat : Int) else (x.toUInt64.toNat : Int))
  | v => .error (.badRequest ("not a number: " ++ shown v))

/-- A pair of integers `[a, b]`. -/
def intPair (v : Value) : Outcome (Int × Int) :=
  match v with
  | .arr [a, b] => return (← integer a, ← integer b)
  | _ => .error (.invalid "expected a pair")

/-- A pair of numbers `[a, b]`. -/
def numberPair (v : Value) : Outcome (Float × Float) :=
  match v with
  | .arr [a, b] => return (← number a, ← number b)
  | _ => .error (.invalid "expected a pair")

/-- The required argument `key`. -/
def arg (req : Value) (key : String) : Outcome Value := req.field key

/-- The optional argument `key`; `null` counts as absent. -/
def opt? (req : Value) (key : String) : Option Value :=
  match req.get? key with
  | some .null => none
  | v => v

/-- The document of a failure: its kind and message. -/
def failureJson (f : Failure) : Value :=
  .obj [("error", .str f.kindName), ("message", .str f.message)]

end GammaFit.Request
