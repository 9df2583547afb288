import GammaFit.Decimal.Parse

/-! # Short decimal scans

Table cells are read by a fast decimal scan that works in doubles: at most seventeen leading
digits are gathered by `n ↦ 10 n + d` (further whole digits raise the exponent, further
fractional digits are dropped), and the result is multiplied or divided by the double nearest
to a power of ten, once or, below `10^-308`, twice. Exponents beyond `308` and results that
overflow are refused. Blanks may surround the literal; the words `inf` and `infinity`, with an
optional sign and in any case, stand for infinities when nothing surrounds them.

Integer cells are read exactly: blanks, an optional sign and decimal digits.
-/

namespace GammaFit.Decimal

/-- Whether a character is an ASCII blank. -/
def isAsciiBlank (c : Char) : Bool :=
  c = ' ' ∨ c = '\t' ∨ c = '\n' ∨ c = '\x0b' ∨ c = '\x0c' ∨ c = '\r'

/-- The double nearest to `10^k`. -/
def tenTo (k : Nat) : Float := Float.ofScientific 1 false k

/-- The seventeen-digit limit of the scan. -/
def scanDigits : Nat := 17

/-- The whole digits: accumulated while fewer than seventeen are taken, then counted into the
exponent. Returns the value, digits taken, exponent and the rest. -/
def scanWhole : List Char → Float → Nat → Int → Float × Nat × Int × List Char
  | c :: rest, x, n, e =>
    if c.isDigit then
      if n < scanDigits then scanWhole rest (x * 10.0 + Float.ofNat (c.toNat - 48)) (n + 1) e
      else scanWhole rest x n (e + 1)
    else (x, n, e, c :: rest)
  | [], x, n, e => (x, n, e, [])

/-- The fractional digits while fewer than seventeen digits are taken in all; returns the
value, the digits taken in all, the fractional digits taken and the rest. -/
def scanFraction : List Char → Float → Nat → Nat → Float × Nat × Nat × List Char
  | c :: rest, x, n, k =>
    if n < scanDigits ∧ c.isDigit then
      scanFraction rest (x * 10.0 + Float.ofNat (c.toNat - 48)) (n + 1) (k + 1)
    else (x, n, k, c :: rest)
  | [], x, n, k => (x, n, k, [])

/-- Up to seventeen exponent digits: their value, count and the rest. -/
def scanExponentDigits : List Char → Nat → Nat → Nat × Nat × List Char
  | c :: rest, v, n =>
    if n < scanDigits ∧ c.isDigit then scanExponentDigits rest (v * 10 + (c.toNat - 48)) (n + 1)
    else (v, n, c :: rest)
  | [], v, n => (v, n, [])

/-- Scale the gathered digits by `10^e`; `none` when the exponent is out of range. -/
def scaleByTen (x : Float) (e : Int) : Option Float :=
  if e > 308 then none
  else if e > 0 then some (x * tenTo e.toNat)
  else if e < -308 then
    if e < -616 then some 0.0 else some (x / tenTo (-308 - e).toNat / tenTo 308)
  else some (x / tenTo (-e).toNat)

/-- The value of a literal by the short scan, when all of `cs` is one literal. -/
def scanLiteral? (cs : List Char) : Option Float :=
  let cs := cs.dropWhile isAsciiBlank
  let (neg, cs) := match cs with
    | '-' :: r => (true, r)
    | '+' :: r => (false, r)
    | r => (false, r)
  let (x, n, e, rest) := scanWhole cs 0.0 0 0
  let (x, n, e, rest) := match rest with
    | '.' :: r =>
      let (x, n', k, r) := scanFraction r x n 0
      (x, n', e - k, if n' ≥ scanDigits then r.dropWhile Char.isDigit else r)
    | r => (x, n, e, r)
  if n = 0 then none else
  let x := if neg then -x else x
  let (e, rest) := match rest with
    | c :: r =>
      if c = 'e' ∨ c = 'E' then
        let (eneg, r') := match r with
          | '-' :: t => (true, t)
          | '+' :: t => (false, t)
          | t => (false, t)
        let (v, k, r'') := scanExponentDigits r' 0 0
        if k = 0 then (e, c :: r) else (if eneg then e - v else e + v, r'')
      else (e, c :: r)
    | [] => (e, [])
  match scaleByTen x e with
  | none => none
  | some y =>
    if y.isInf then none
    else if (rest.dropWhile isAsciiBlank).isEmpty then some y else none

/-- The infinities written as words, exactly. -/
def infinityWord? (cs : List Char) : Option Float :=
  let w := String.ofList (cs.map Char.toLower)
  if w = "inf" ∨ w = "+inf" ∨ w = "infinity" ∨ w = "+infinity" then some (1.0 / 0.0)
  else if w = "-inf" ∨ w = "-infinity" then some (-1.0 / 0.0)
  else none

/-- A cell's number by the short scan, or an infinity word. -/
def scanCell? (cs : List Char) : Option Float :=
  match scanLiteral? cs with
  | some x => some x
  | none => infinityWord? cs

/-- An integer between blanks, read exactly. -/
def integerCell? (cs : List Char) : Option Int :=
  let body := (cs.dropWhile isAsciiBlank).reverse.dropWhile isAsciiBlank |>.reverse
  let (neg, ds) := match body with
    | '-' :: r => (true, r)
    | '+' :: r => (false, r)
    | r => (false, r)
  if ds.isEmpty ∨ !ds.all Char.isDigit then none else
  let v : Nat := ds.foldl (fun acc c => acc * 10 + (c.toNat - 48)) 0
  some (if neg then -(v : Int) else v)

end GammaFit.Decimal
