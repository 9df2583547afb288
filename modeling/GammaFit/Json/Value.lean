import GammaFit.Decimal.Format

/-! # Document values

The values of JSON documents, as this library reads and writes them: integers and doubles are
kept apart (a document that says `3` is written back as `3`, one that says `3.0` as `3.0`), and
objects keep their keys in the order they were built.
-/

namespace GammaFit.Json

/-- A JSON value; object fields stay in insertion order. -/
inductive Value where
  | null
  | bool (b : Bool)
  | int (n : Int)
  | num (x : Float)
  | str (s : String)
  | arr (items : List Value)
  | obj (fields : List (String × Value))
deriving Inhabited

namespace Value

/-- The value stored under `key`, the first one if several are. -/
def get? : Value → String → Option Value
  | .obj fields, key => (fields.find? (·.1 == key)).map (·.2)
  | _, _ => none

/-- Whether the object has a field `key`. -/
def has (v : Value) (key : String) : Bool := (v.get? key).isSome

/-- The object's keys in order. -/
def keys : Value → List String
  | .obj fields => fields.map (·.1)
  | _ => []

/-- A list of doubles. -/
def floats (xs : List Float) : Value := .arr (xs.map .num)

/-- An array of doubles. -/
def floatArray (xs : Array Float) : Value := .arr (xs.toList.map .num)

/-- A list of integers. -/
def ints (xs : List Int) : Value := .arr (xs.map .int)

/-- A list of naturals. -/
def nats (xs : List Nat) : Value := .arr (xs.map (fun (n : Nat) => Value.int n))

/-- A list of texts. -/
def strs (xs : List String) : Value := .arr (xs.map .str)

/-- An optional value, `null` when absent. -/
def opt {α : Type} (f : α → Value) : Option α → Value
  | some a => f a
  | none => .null

end Value

/-- How a double that is not finite is written. -/
inductive NonFinite where
  /-- As the strings `"nan"`, `"inf"`, `"-inf"`. -/
  | text
  /-- As the bare words `NaN`, `Infinity`, `-Infinity`. -/
  | word

/-- Layout of written JSON. -/
structure Layout where
  /-- `none` writes everything on one line with `", "` and `": "` between items;
  `some n` puts every item on its own line, indented by `n` spaces per level. -/
  indent : Option Nat
  /-- Characters beyond ASCII are written as `\u` escapes. -/
  asciiOnly : Bool
  nonFinite : NonFinite

/-- Answers: one line, UTF-8 text as is, non-finite doubles as strings. -/
def Layout.answer : Layout := ⟨none, false, .text⟩

/-- Files: two spaces of indentation, ASCII only, non-finite doubles as bare words. -/
def Layout.file : Layout := ⟨some 2, true, .word⟩

/-- Four hexadecimal digits of a UTF-16 unit. -/
def hex4 (n : Nat) : String :=
  let d (k : Nat) : Char := "0123456789abcdef".toList.getD ((n / Nat.pow 16 k) % 16) '0'
  String.ofList [d 3, d 2, d 1, d 0]

/-- A string's characters escaped for a JSON string literal. -/
def escapeChar (asciiOnly : Bool) (c : Char) : String :=
  match c with
  | '"' => "\\\""
  | '\\' => "\\\\"
  | '\n' => "\\n"
  | '\r' => "\\r"
  | '\t' => "\\t"
  | '\x08' => "\\b"
  | '\x0c' => "\\f"
  | c =>
    if c.toNat < 0x20 then "\\u" ++ hex4 c.toNat
    else if asciiOnly ∧ c.toNat > 0x7e then
      if c.toNat < 0x10000 then "\\u" ++ hex4 c.toNat
      else
        let u := c.toNat - 0x10000
        "\\u" ++ hex4 (0xD800 + u / 0x400) ++ "\\u" ++ hex4 (0xDC00 + u % 0x400)
    else c.toString

/-- A JSON string literal. -/
def quote (asciiOnly : Bool) (s : String) : String :=
  "\"" ++ String.join (s.toList.map (escapeChar asciiOnly)) ++ "\""

/-- A double in JSON: its shortest text, or the layout's spelling when it is not finite. -/
def numberText (nf : NonFinite) (x : Float) : String :=
  if x.isNaN then (match nf with | .text => "\"nan\"" | .word => "NaN")
  else if x.isInf then
    if x > 0 then (match nf with | .text => "\"inf\"" | .word => "Infinity")
    else (match nf with | .text => "\"-inf\"" | .word => "-Infinity")
  else Decimal.format .shortest x

/-- Separator and line break before an item at depth `d`. -/
def Layout.breakAt (l : Layout) (d : Nat) : String :=
  match l.indent with
  | none => ""
  | some n => "\n" ++ Decimal.fill (n * d) ' '

/-- Between two items. -/
def Layout.comma (l : Layout) : String :=
  match l.indent with
  | none => ", "
  | some _ => ","

mutual
/-- The text of `v` at nesting depth `d`. -/
def Value.write (l : Layout) (d : Nat) : Value → String
  | .null => "null"
  | .bool b => if b then "true" else "false"
  | .int n => toString n
  | .num x => numberText l.nonFinite x
  | .str s => quote l.asciiOnly s
  | .arr [] => "[]"
  | .arr items => "[" ++ writeItems l (d + 1) items ++ l.breakAt d ++ "]"
  | .obj [] => "{}"
  | .obj fields => "\x7b" ++ writeFields l (d + 1) fields ++ l.breakAt d ++ "\x7d"

/-- Items of a list, each on its own line under an indenting layout. -/
def writeItems (l : Layout) (d : Nat) : List Value → String
  | [] => ""
  | [v] => l.breakAt d ++ Value.write l d v
  | v :: rest => l.breakAt d ++ Value.write l d v ++ l.comma ++ writeItems l d rest

/-- Fields of an object, each as `"key": value`. -/
def writeFields (l : Layout) (d : Nat) : List (String × Value) → String
  | [] => ""
  | [(k, v)] => l.breakAt d ++ quote l.asciiOnly k ++ ": " ++ Value.write l d v
  | (k, v) :: rest =>
    l.breakAt d ++ quote l.asciiOnly k ++ ": " ++ Value.write l d v ++ l.comma ++ writeFields l d rest
end

/-- The text of a document under a layout. -/
def Value.render (l : Layout) (v : Value) : String := v.write l 0

end GammaFit.Json
