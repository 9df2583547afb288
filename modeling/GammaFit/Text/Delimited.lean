import GammaFit.Decimal.Scan
import GammaFit.Text.Utf8

/-! # Comma-separated tables

A table is read from bytes in two passes.

**Records and fields.** Records end at `\n`, `\r\n` or `\r`; fields are separated by commas. A
field may be quoted with `"`, inside which commas, breaks and `#` are plain text and `""` is
one quote. Outside quotes, `#` ends the record's text (a record that starts with `#` is
skipped whole), and records that are empty or hold only spaces and tabs are skipped. The first
record fixes the number of columns: shorter records are padded with empty fields, and a longer
record is refused with its line number. A leading byte-order mark is dropped.

**Columns.** Each column is typed as a whole. Cells that are empty or one of the usual words
for a missing value are missing. A column of integers only is read exactly; a column of
numbers and missing cells by the short decimal scan; a column of truth words (`True`, `TRUE`,
`true` and the same for false) and missing cells as ones and zeros; any other column cell by
cell, where a cell that is no number is missing. The cells of such a text column must be
UTF-8. Missing cells become NaN.
-/

namespace GammaFit.Text

/-- Why a table could not be read. -/
inductive TableError where
  /-- A record with more fields than the first one. -/
  | tooManyFields (expected line saw : Nat)
  /-- The data ends inside a quoted field, begun on the given record. -/
  | openQuote (row : Nat)
  /-- No record at all. -/
  | noColumns
  /-- A text cell that is not UTF-8. -/
  | undecodable (e : Malformed)

/-- The message of a table failure. -/
def TableError.message : TableError → String
  | .tooManyFields ex l saw =>
    "Error tokenizing data. C error: Expected " ++ toString ex ++ " fields in line " ++
      toString l ++ ", saw " ++ toString saw ++ "\n"
  | .openQuote r => "Error tokenizing data. C error: EOF inside string starting at row " ++ toString r
  | .noColumns => "No columns to parse from file"
  | .undecodable e => e.message

/-- Where the reader is within a record. -/
inductive Mode where
  /-- At the start of a record. -/
  | recordStart
  /-- At the start of a field. -/
  | fieldStart
  /-- Inside a field without quotes. -/
  | unquoted
  /-- Inside a quoted field. -/
  | quoted
  /-- After a quote inside a quoted field. -/
  | quoteInQuoted
  /-- In a comment after the record's fields. -/
  | comment
  /-- In a record that is a comment. -/
  | lineComment
  /-- In a record of spaces and tabs so far. -/
  | blankLine
  /-- After a carriage return that ends a record. -/
  | carriage
  /-- After a carriage return that ends a skipped record. -/
  | carriageSkip
deriving DecidableEq

/-- The reader's state: finished records, the current record and field, the spaces of a
possibly blank record, and the number of lines passed. -/
structure Reader where
  mode : Mode := .recordStart
  records : Array (Array (Array UInt8)) := #[]
  record : Array (Array UInt8) := #[]
  field : Array UInt8 := #[]
  spaces : Array UInt8 := #[]
  line : Nat := 0

namespace Reader

/-- Close the current field. -/
def endField (r : Reader) : Reader := { r with record := r.record.push r.field, field := #[] }

/-- Close the current record: padded to the first record's width, or refused when longer. -/
def endRecord (r : Reader) : Except TableError Reader :=
  match r.records[0]? with
  | some first =>
    let ex := first.size
    if r.record.size > ex then .error (.tooManyFields ex (r.line + 1) r.record.size)
    else
      let padded := r.record ++ Array.replicate (ex - r.record.size) #[]
      .ok { r with records := r.records.push padded, record := #[], line := r.line + 1,
                   mode := .recordStart }
  | none =>
    .ok { r with records := r.records.push r.record, record := #[], line := r.line + 1,
                 mode := .recordStart }

/-- Bytes with a role. -/
def newline : UInt8 := 10
def carriageReturn : UInt8 := 13
def comma : UInt8 := 44
def quote : UInt8 := 34
def hash : UInt8 := 35

/-- Whether a byte is a space or a tab. -/
def isSpaceOrTab (c : UInt8) : Bool := c == 32 || c == 9

/-- One byte inside an unquoted field. -/
def inField (r : Reader) (c : UInt8) : Except TableError Reader :=
  if c == newline then r.endField.endRecord
  else if c == carriageReturn then .ok { r.endField with mode := .carriage }
  else if c == comma then .ok { r.endField with mode := .fieldStart }
  else if c == hash then .ok { r.endField with mode := .comment }
  else .ok { r with field := r.field.push c }

/-- One byte at the start of a field. -/
def atField (r : Reader) (c : UInt8) : Except TableError Reader :=
  if c == newline then r.endField.endRecord
  else if c == carriageReturn then .ok { r.endField with mode := .carriage }
  else if c == quote then .ok { r with mode := .quoted }
  else if c == comma then .ok { r.endField with mode := .fieldStart }
  else if c == hash then .ok { r.endField with mode := .comment }
  else .ok { r with field := r.field.push c, mode := .unquoted }

/-- One byte at the start of a record. -/
def atRecord (r : Reader) (c : UInt8) : Except TableError Reader :=
  if c == newline then .ok { r with line := r.line + 1 }
  else if c == carriageReturn then .ok { r with line := r.line + 1, mode := .carriageSkip }
  else if c == hash then .ok { r with mode := .lineComment }
  else if isSpaceOrTab c then .ok { r with mode := .blankLine, spaces := #[c] }
  else r.atField c

/-- One byte. -/
def step (r : Reader) (c : UInt8) : Except TableError Reader :=
  match r.mode with
  | .recordStart => r.atRecord c
  | .fieldStart => r.atField c
  | .unquoted => r.inField c
  | .quoted =>
    if c == quote then .ok { r with mode := .quoteInQuoted }
    else .ok { r with field := r.field.push c }
  | .quoteInQuoted =>
    if c == quote then .ok { r with field := r.field.push c, mode := .quoted }
    else if c == comma then .ok { r.endField with mode := .fieldStart }
    else if c == newline then r.endField.endRecord
    else if c == carriageReturn then .ok { r.endField with mode := .carriage }
    else .ok { r with field := r.field.push c, mode := .unquoted }
  | .comment =>
    if c == newline then r.endRecord
    else if c == carriageReturn then .ok { r with mode := .carriage }
    else .ok r
  | .lineComment =>
    if c == newline then .ok { r with line := r.line + 1, mode := .recordStart }
    else if c == carriageReturn then .ok { r with line := r.line + 1, mode := .carriageSkip }
    else .ok r
  | .blankLine =>
    if c == newline then .ok { r with line := r.line + 1, mode := .recordStart, spaces := #[] }
    else if c == carriageReturn then
      .ok { r with line := r.line + 1, mode := .carriageSkip, spaces := #[] }
    else if isSpaceOrTab c then .ok { r with spaces := r.spaces.push c }
    else { r with field := r.spaces, spaces := #[], mode := .unquoted }.inField c
  | .carriage =>
    if c == newline then r.endRecord
    else if c == comma then do
      let r ← r.endRecord
      .ok { r with mode := .fieldStart }
    else do
      let r ← r.endRecord
      r.atRecord c
  | .carriageSkip =>
    let r := { r with mode := .recordStart }
    if c == newline || c == comma then .ok r else r.atRecord c

/-- The end of the data. -/
def finish (r : Reader) : Except TableError Reader :=
  match r.mode with
  | .recordStart | .blankLine | .carriageSkip | .lineComment => .ok r
  | .quoted => .error (.openQuote r.line)
  | .unquoted | .fieldStart | .quoteInQuoted => r.endField.endRecord
  | .comment | .carriage => r.endRecord

end Reader

/-- The records of a table, each a list of fields as bytes. -/
def records (bytes : ByteArray) : Except TableError (Array (Array (Array UInt8))) := do
  let bs := bytes.toList
  let bs := match bs with
    | 0xEF :: 0xBB :: 0xBF :: rest => rest
    | _ => bs
  let r ← bs.foldlM Reader.step {}
  let r ← r.finish
  if r.records.isEmpty then .error .noColumns else .ok r.records

/-- The words that mark a missing cell. -/
def missingWords : List String :=
  ["", "#N/A", "#N/A N/A", "#NA", "-1.#IND", "-1.#QNAN", "-NaN", "-nan", "1.#IND", "1.#QNAN",
   "<NA>", "N/A", "NA", "NULL", "NaN", "None", "n/a", "nan", "null"]

/-- What a single cell holds. -/
inductive Cell where
  | missing
  | whole (n : Int)
  | number (x : Float)
  | truth (b : Bool)
  | other
deriving Inhabited

/-- The characters of a field, one per byte. -/
def fieldChars (f : Array UInt8) : List Char := f.toList.map fun b => Char.ofNat b.toNat

/-- Classify a field. -/
def Cell.ofField (f : Array UInt8) : Cell :=
  let cs := fieldChars f
  let s := String.ofList cs
  if missingWords.contains s then .missing
  else match Decimal.integerCell? cs with
    | some n => .whole n
    | none =>
      match Decimal.scanCell? cs with
      | some x => .number x
      | none =>
        if s = "True" ∨ s = "TRUE" ∨ s = "true" then .truth true
        else if s = "False" ∨ s = "FALSE" ∨ s = "false" then .truth false
        else .other

/-- The cell's value by the short scan, NaN when it has none. -/
def scannedValue (f : Array UInt8) : Float :=
  (Decimal.scanCell? (fieldChars f)).getD (0.0 / 0.0)

/-- Whether integers fit the machine integers that hold an integer column. -/
def fitsColumn (ns : List Int) : Bool :=
  ns.all (fun n => -(Int.pow 2 63) ≤ n ∧ n < Int.pow 2 63) || ns.all (fun n => 0 ≤ n ∧ n < Int.pow 2 64)

/-- The values of one column, given its fields. -/
def columnValues (fields : Array (Array UInt8)) : Except TableError (Array Float) :=
  let cells := fields.map Cell.ofField
  let nan := 0.0 / 0.0
  let wholes := cells.toList.filterMap fun | .whole n => some n | _ => none
  if wholes.length = cells.size ∧ fitsColumn wholes then
    .ok (cells.map fun | .whole n => Float.ofInt n | _ => nan)
  else if cells.all (fun | .missing | .whole _ | .number _ => true | _ => false) then
    .ok ((cells.zip fields).map fun
      | (.missing, _) => nan
      | (_, f) => scannedValue f)
  else if cells.all (fun | .missing | .truth _ => true | _ => false) then
    .ok (cells.map fun | .truth b => (if b then 1.0 else 0.0) | _ => nan)
  else do
    for f in fields do
      match decodeUtf8 ⟨f⟩ with
      | .error e => throw (.undecodable e)
      | .ok _ => pure ()
    .ok ((cells.zip fields).map fun
      | (.missing, _) => nan
      | (_, f) => scannedValue f)

/-- The numeric columns of a table, missing cells and text as NaN. -/
def readColumns (bytes : ByteArray) : Except TableError (Array (Array Float)) := do
  let rs ← records bytes
  let width := (rs.getD 0 #[]).size
  (Array.range width).mapM fun j => columnValues (rs.map fun r => r.getD j #[])

end GammaFit.Text
