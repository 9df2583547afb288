import GammaFit.Json.Value
import GammaFit.Decimal.Parse

/-! # Reading JSON documents

A reader for JSON text, accepting also the words `NaN`, `Infinity` and `-Infinity` for
doubles that are not finite. A number with a point or an exponent is a double (the nearest
one to its decimal value); one without is an integer.
-/

namespace GammaFit.Json

/-- Drop JSON blanks. -/
def skipBlanks : List Char → List Char
  | c :: cs => if c = ' ' ∨ c = '\t' ∨ c = '\n' ∨ c = '\r' then skipBlanks cs else c :: cs
  | [] => []

/-- The value of a hexadecimal digit. -/
def hexValue (c : Char) : Option Nat :=
  if c.isDigit then some (c.toNat - 48)
  else if 'a' ≤ c ∧ c ≤ 'f' then some (c.toNat - 87)
  else if 'A' ≤ c ∧ c ≤ 'F' then some (c.toNat - 55)
  else none

/-- The number written by four hexadecimal digits. -/
def hex4Value (a b c d : Char) : Option Nat := do
  let a ← hexValue a
  let b ← hexValue b
  let c ← hexValue c
  let d ← hexValue d
  some (((a * 16 + b) * 16 + c) * 16 + d)

/-- The character of a `\u` escape, or of a pair of them forming a surrogate pair:
`(character, used both)`. A lone surrogate reads as the replacement character. -/
def escapedChar (hi : Nat) (lo : Option Nat) : Char × Bool :=
  if 0xD800 ≤ hi ∧ hi < 0xDC00 then
    match lo with
    | some lo =>
      if 0xDC00 ≤ lo ∧ lo < 0xE000 then
        (Char.ofNat (0x10000 + (hi - 0xD800) * 0x400 + (lo - 0xDC00)), true)
      else ('\uFFFD', false)
    | none => ('\uFFFD', false)
  else if 0xDC00 ≤ hi ∧ hi < 0xE000 then ('\uFFFD', false)
  else (Char.ofNat hi, false)

/-- The body of a string literal after its opening quote; the rest after the closing one. -/
def readString (cs : List Char) (acc : List Char) : Option (String × List Char) :=
  match cs with
  | [] => none
  | '"' :: rest => some (String.ofList acc.reverse, rest)
  | '\\' :: 'u' :: a :: b :: c :: d :: '\\' :: 'u' :: e :: f :: g :: h :: rest =>
    match hex4Value a b c d with
    | none => none
    | some hi =>
      match escapedChar hi (hex4Value e f g h) with
      | (ch, true) => readString rest (ch :: acc)
      | (ch, false) => readString ('\\' :: 'u' :: e :: f :: g :: h :: rest) (ch :: acc)
  | '\\' :: 'u' :: a :: b :: c :: d :: rest =>
    match hex4Value a b c d with
    | none => none
    | some hi => readString rest ((escapedChar hi none).1 :: acc)
  | '\\' :: c :: rest =>
    match c with
    | '"' => readString rest ('"' :: acc)
    | '\\' => readString rest ('\\' :: acc)
    | '/' => readString rest ('/' :: acc)
    | 'b' => readString rest ('\x08' :: acc)
    | 'f' => readString rest ('\x0c' :: acc)
    | 'n' => readString rest ('\n' :: acc)
    | 'r' => readString rest ('\r' :: acc)
    | 't' => readString rest ('\t' :: acc)
    | _ => none
  | c :: rest => readString rest (c :: acc)
termination_by cs.length

/-- A number: `-?digits(.digits)?([eE][+-]?digits)?`. -/
def readNumber (cs : List Char) : Option (Value × List Char) :=
  let (neg, body) := match cs with
    | '-' :: r => (true, r)
    | r => (false, r)
  let (whole, n1, rest) := Decimal.takeDigits false body 0 0
  if n1 = 0 then none else
  let (digits, places, isFloat, rest) := match rest with
    | '.' :: r =>
      let (f, n, r) := Decimal.takeDigits false r whole 0
      (f, n, true, r)
    | r => (whole, 0, false, r)
  match rest with
  | c :: _ =>
    if c = 'e' ∨ c = 'E' then
      match Decimal.takeExponent rest with
      | some (e, r) => some (.num (Decimal.toFloat neg digits (e - places)), r)
      | none => none
    else if isFloat then some (.num (Decimal.toFloat neg digits (-(places : Int))), rest)
    else some (.int (if neg then -(whole : Int) else whole), rest)
  | [] =>
    if isFloat then some (.num (Decimal.toFloat neg digits (-(places : Int))), [])
    else some (.int (if neg then -(whole : Int) else whole), [])

mutual
/-- One value, with at most `fuel` nested steps. -/
def readValue : Nat → List Char → Option (Value × List Char)
  | 0, _ => none
  | fuel + 1, cs =>
    match skipBlanks cs with
    | 'n' :: 'u' :: 'l' :: 'l' :: r => some (.null, r)
    | 't' :: 'r' :: 'u' :: 'e' :: r => some (.bool true, r)
    | 'f' :: 'a' :: 'l' :: 's' :: 'e' :: r => some (.bool false, r)
    | 'N' :: 'a' :: 'N' :: r => some (.num (0.0 / 0.0), r)
    | 'I' :: 'n' :: 'f' :: 'i' :: 'n' :: 'i' :: 't' :: 'y' :: r => some (.num (1.0 / 0.0), r)
    | '-' :: 'I' :: 'n' :: 'f' :: 'i' :: 'n' :: 'i' :: 't' :: 'y' :: r => some (.num (-1.0 / 0.0), r)
    | '"' :: r => (readString r []).map fun (s, r) => (.str s, r)
    | '[' :: r =>
      match skipBlanks r with
      | ']' :: r => some (.arr [], r)
      | r => readItems fuel r []
    | '{' :: r =>
      match skipBlanks r with
      | '}' :: r => some (.obj [], r)
      | r => readFields fuel r []
    | r => readNumber r

/-- Items of a list after `[`, up to and including `]`. -/
def readItems : Nat → List Char → List Value → Option (Value × List Char)
  | 0, _, _ => none
  | fuel + 1, cs, acc =>
    match readValue fuel cs with
    | none => none
    | some (v, r) =>
      match skipBlanks r with
      | ',' :: r => readItems fuel r (v :: acc)
      | ']' :: r => some (.arr (v :: acc).reverse, r)
      | _ => none

/-- Fields of an object after `{`, up to and including `}`. -/
def readFields : Nat → List Char → List (String × Value) → Option (Value × List Char)
  | 0, _, _ => none
  | fuel + 1, cs, acc =>
    match skipBlanks cs with
    | '"' :: r =>
      match readString r [] with
      | none => none
      | some (k, r) =>
        match skipBlanks r with
        | ':' :: r =>
          match readValue fuel r with
          | none => none
          | some (v, r) =>
            match skipBlanks r with
            | ',' :: r => readFields fuel r ((k, v) :: acc)
            | '}' :: r => some (.obj ((k, v) :: acc).reverse, r)
            | _ => none
        | _ => none
    | _ => none
end

/-- The document written by `s`, which holds one value and blanks around it.
A repeated key keeps its last value, in the place of its first. -/
def parse? (s : String) : Option Value :=
  let cs := s.toList
  match readValue (cs.length + 1) cs with
  | some (v, rest) => if skipBlanks rest = [] then some v else none
  | none => none

end GammaFit.Json
