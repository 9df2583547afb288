import GammaFit.Decimal.Parse

/-! # Lines, blanks and words of a text

A text is cut into lines at `\n`, `\r\n` and a lone `\r`; a final line need not end with a
break, and a break at the very end opens no further line. Blanks are the Unicode white space:
the ASCII controls `\t`–`\r`, the separators `\x1c`–`\x1f`, the space, `\x85`, the no-break
space and the spaces and separators of the general punctuation block. A line is trimmed of
blanks at both ends, and its words are the maximal runs of non-blanks.
-/

namespace GammaFit.Text

/-- Whether a character is white space. -/
def isSpace (c : Char) : Bool :=
  let n := c.toNat
  (9 ≤ n && n ≤ 13) || (28 ≤ n && n ≤ 32) || n == 0x85 || n == 0xA0 || n == 0x1680 ||
    (0x2000 ≤ n && n ≤ 0x200A) || n == 0x2028 || n == 0x2029 || n == 0x202F || n == 0x205F ||
    n == 0x3000

/-- A text without the blanks at its two ends. -/
def trim (s : String) : String :=
  String.ofList ((s.toList.dropWhile isSpace).reverse.dropWhile isSpace).reverse

/-- The lines of `cs`, the current line held reversed in `cur`, finished lines in `acc`
(latest first). -/
def splitLines : List Char → List Char → List String → List String
  | [], cur, acc => (if cur.isEmpty then acc else String.ofList cur.reverse :: acc).reverse
  | '\r' :: '\n' :: rest, cur, acc => splitLines rest [] (String.ofList cur.reverse :: acc)
  | '\r' :: rest, cur, acc => splitLines rest [] (String.ofList cur.reverse :: acc)
  | '\n' :: rest, cur, acc => splitLines rest [] (String.ofList cur.reverse :: acc)
  | c :: rest, cur, acc => splitLines rest (c :: cur) acc

/-- The lines of a text, without their breaks. -/
def lines (s : String) : List String := splitLines s.toList [] []

/-- The maximal runs of non-blank characters, the current run reversed in `cur`. -/
def splitWords : List Char → List Char → List String → List String
  | [], cur, acc => (if cur.isEmpty then acc else String.ofList cur.reverse :: acc).reverse
  | c :: rest, cur, acc =>
    if isSpace c then
      splitWords rest [] (if cur.isEmpty then acc else String.ofList cur.reverse :: acc)
    else splitWords rest (c :: cur) acc

/-- The words of a text. -/
def words (s : String) : List String := splitWords s.toList [] []

/-- The number written by a text between blanks: a decimal literal (underscores allowed between
digits) or one of the words `inf`, `infinity`, `nan` with an optional sign, in any case. -/
def readNumber? (s : String) : Option Float := Decimal.parseFloat? (trim s)

end GammaFit.Text
