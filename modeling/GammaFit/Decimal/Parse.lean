import GammaFit.Decimal.Round

/-! # Reading decimal text

A decimal literal is an optional sign, digits with an optional point, and an optional exponent;
its value is the double nearest to the exact decimal. Besides literals, the words `inf`,
`infinity` and `nan` are read in any case. Single underscores may stand between digits.
-/

namespace GammaFit.Decimal

/-- Leading digits of `cs` added onto `acc`, with their count `n`; when `sep` holds, a single
underscore may stand between two digits. -/
def takeDigits (sep : Bool) (cs : List Char) (acc n : Nat) : Nat × Nat × List Char :=
  match cs with
  | c :: '_' :: d :: rest =>
    if c.isDigit then
      if sep ∧ d.isDigit then takeDigits sep (d :: rest) (acc * 10 + (c.toNat - 48)) (n + 1)
      else (acc * 10 + (c.toNat - 48), n + 1, '_' :: d :: rest)
    else (acc, n, cs)
  | c :: rest =>
    if c.isDigit then takeDigits sep rest (acc * 10 + (c.toNat - 48)) (n + 1)
    else (acc, n, cs)
  | [] => (acc, n, [])
termination_by cs.length

/-- An exponent part `[eE][+-]?digits`, its value and the rest; `none` when malformed. -/
def takeExponent : List Char → Option (Int × List Char)
  | c :: rest =>
    if c = 'e' ∨ c = 'E' then
      let (neg, rest) := match rest with
        | '+' :: r => (false, r)
        | '-' :: r => (true, r)
        | r => (false, r)
      let (v, n, rest) := takeDigits true rest 0 0
      if n = 0 then none else some (if neg then -(v : Int) else v, rest)
    else some (0, c :: rest)
  | [] => some (0, [])

/-- Read an unsigned decimal literal, all of `cs`: `some (digits, exponent)`. -/
def readUnsigned (cs : List Char) : Option (Nat × Int) :=
  let (whole, n1, rest) := takeDigits true cs 0 0
  let (frac, n2, rest) := match rest with
    | '.' :: r =>
      let (f, n, r) := takeDigits true r whole 0
      (f, n, r)
    | r => (whole, 0, r)
  if n1 + n2 = 0 then none else
  match takeExponent rest with
  | some (e, []) => some (frac, e - n2)
  | _ => none

/-- Whether a character is a blank that surrounds a number. -/
def isBlank (c : Char) : Bool :=
  c = ' ' ∨ c = '\t' ∨ c = '\n' ∨ c = '\r' ∨ c = '\x0b' ∨ c = '\x0c'

/-- The double written by `s`, surrounded by blanks, or `none` when it is no number. -/
def parseFloat? (s : String) : Option Float :=
  let cs := (s.toList.dropWhile isBlank).reverse.dropWhile isBlank |>.reverse
  let (neg, body) := match cs with
    | '+' :: r => (false, r)
    | '-' :: r => (true, r)
    | r => (false, r)
  let word := String.ofList (body.map Char.toLower)
  let sgn (x : Float) : Float := if neg then -x else x
  if word = "inf" ∨ word = "infinity" then some (sgn (1.0 / 0.0))
  else if word = "nan" then some (sgn (0.0 / 0.0))
  else (readUnsigned body).map fun (c, e) => toFloat neg c e

end GammaFit.Decimal
