import GammaFit.Failure
import GammaFit.Text.Delimited
import GammaFit.Text.Lines

/-! # Spectrum files

A spectrum is read from a file in one of four formats, chosen by the file name's extension in
any case:

* `.csv`, `.txt`, `.dat`: a comma-separated table with `#` comments. One column holds the
  counts of bins `0, 1, …`; with two or more, the first two are bins and counts. Rows with a
  cell that is no number (a header, say) are dropped; negative counts become zero.
* `.spe`: the lines after `$DATA` up to the next `$` line, one count per line; a first line of
  two words is the channel range and is skipped, and lines that are no number are skipped.
* `.chn`: a 32-byte header whose last two bytes give the number of channels (little-endian),
  then one 32-bit little-endian count per channel.
* `.mca`: the lines between `<<DATA>>` and `<<END>>`, one count per line.

Any other extension is tried as a table. The live and real times of a measurement are the two
numbers on the line after `$MEAS_TIM`.
-/

namespace GammaFit.Spectrum

/-- A file as the readers see it: its name and, when it exists, its bytes. -/
structure File where
  name : String
  bytes : Option ByteArray

/-- The formats of spectrum files. -/
inductive Format where
  | table
  | iaea
  | chn
  | mca
deriving DecidableEq

/-- The extension of a file name: from its last dot, when that dot is neither first nor last,
in lower case. -/
def extension (name : String) : String :=
  let base := (name.splitOn "/").getLast?.getD name
  let cs := base.toList
  match (List.range cs.length).reverse.find? (fun i => cs.getD i ' ' = '.') with
  | some i =>
    if 0 < i ∧ i + 1 < cs.length then String.ofList ((cs.drop i).map Char.toLower) else ""
  | none => ""

/-- The format named by an extension. -/
def Format.ofExtension? : String → Option Format
  | ".csv" | ".txt" | ".dat" => some .table
  | ".spe" => some .iaea
  | ".chn" => some .chn
  | ".mca" => some .mca
  | _ => none

/-- Bins `0 … n-1`. -/
def channels (n : Nat) : Array Float := (Array.range n).map Float.ofNat

/-- A spectrum from a table's columns: rows with a NaN dropped, counts clipped at zero. -/
def ofColumns (cols : Array (Array Float)) : Outcome (Array Float × Array Float) :=
  let rows := (cols.getD 0 #[]).size
  let keep := (List.range rows).filter fun i => cols.all fun c => !(c.getD i 0.0).isNaN
  let column (j : Nat) : Array Float := (keep.map fun i => (cols.getD j #[]).getD i 0.0).toArray
  let (x, y) := if cols.size < 2 then (channels keep.length, column 0) else (column 0, column 1)
  if x.isEmpty then .error (.invalid "Empty spectrum file") else
  let y := if y.any (· < 0.0) then y.map fun v => if v < 0.0 then 0.0 else v else y
  .ok (x, y)

/-- Read a comma-separated table. -/
def readTable (bytes : ByteArray) : Outcome (Array Float × Array Float) :=
  match Text.readColumns bytes with
  | .error e => .error (.invalid ("Error reading CSV file: " ++ e.message))
  | .ok cols => ofColumns cols

/-- The lines of a text file, each trimmed. -/
def textLines (bytes : ByteArray) : Outcome (List String) :=
  match Text.decodeUtf8 bytes with
  | .error e => .error (.undecodable e.message)
  | .ok s => .ok ((Text.lines s).map Text.trim)

/-- Where the reading of an SPE data block stands. -/
structure SpeScan where
  inData : Bool := false
  rangeNext : Bool := false
  done : Bool := false
  counts : Array Float := #[]

/-- One trimmed line of an SPE file. -/
def SpeScan.push (s : SpeScan) (line : String) : SpeScan :=
  if s.done then s
  else if line.startsWith "$DATA" then { s with inData := true, rangeNext := true }
  else if !s.inData then s
  else if line.startsWith "$" then { s with done := true }
  else if s.rangeNext && (Text.words line).length = 2 then { s with rangeNext := false }
  else
    let s := { s with rangeNext := false }
    match Text.readNumber? line with
    | some v => { s with counts := s.counts.push v }
    | none => s

/-- Read an SPE file. -/
def readIaea (bytes : ByteArray) : Outcome (Array Float × Array Float) := do
  let ls ← textLines bytes
  let s := ls.foldl SpeScan.push {}
  if s.counts.isEmpty then .error (.invalid "No data found in SPE file")
  else .ok (channels s.counts.size, s.counts)

/-- Where the reading of an MCA data block stands. -/
structure McaScan where
  inData : Bool := false
  done : Bool := false
  counts : Array Float := #[]

/-- One trimmed line of an MCA file. -/
def McaScan.push (s : McaScan) (line : String) : McaScan :=
  if s.done then s
  else if line = "<<DATA>>" then { s with inData := true }
  else if line = "<<END>>" then { s with done := true }
  else if s.inData && !line.isEmpty then
    match Text.readNumber? line with
    | some v => { s with counts := s.counts.push v }
    | none => s
  else s

/-- Read an MCA file. -/
def readMca (bytes : ByteArray) : Outcome (Array Float × Array Float) := do
  let ls ← textLines bytes
  let s := ls.foldl McaScan.push {}
  if s.counts.isEmpty then .error (.invalid "No data found in MCA file")
  else .ok (channels s.counts.size, s.counts)

/-- The little-endian number in `len` bytes from `start`. -/
def littleEndian (bytes : ByteArray) (start len : Nat) : Nat :=
  (List.range len).foldr (fun k acc => acc * 256 + (bytes.get! (start + k)).toNat) 0

/-- Read a CHN file. -/
def readChn (bytes : ByteArray) : Outcome (Array Float × Array Float) :=
  if bytes.size < 32 then .error (.invalid "Error reading CHN file: truncated header") else
  let n := littleEndian bytes 30 2
  if bytes.size < 32 + 4 * n then .error (.invalid "Error reading CHN file: truncated data") else
  .ok (channels n, (Array.range n).map fun i => Float.ofNat (littleEndian bytes (32 + 4 * i) 4))

/-- Read a spectrum file in the format its extension names; any other extension is tried as a
table, and a table that cannot be read is an unsupported format. -/
def load (file : File) : Outcome (Array Float × Array Float) :=
  match file.bytes with
  | none => .error (.notFound ("Spectrum file not found: " ++ file.name))
  | some bytes =>
    let ext := extension file.name
    match Format.ofExtension? ext with
    | some .table => readTable bytes
    | some .iaea => readIaea bytes
    | some .chn => readChn bytes
    | some .mca => readMca bytes
    | none =>
      match readTable bytes with
      | .error (.invalid _) => .error (.invalid ("Unsupported file format: " ++ ext))
      | r => r

/-- The live and real times from the line after the first `$MEAS_TIM` line that is followed by
at least two words; zeros when there is none or its words are no numbers. -/
def measurementTimes (bytes : ByteArray) : Outcome (Float × Float) := do
  let ls ← textLines bytes
  let arr := ls.toArray
  for i in [0:arr.size] do
    if (arr.getD i "").startsWith "$MEAS_TIM" ∧ i + 1 < arr.size then
      match Text.words (arr.getD (i + 1) "") with
      | a :: b :: _ =>
        match Text.readNumber? a, Text.readNumber? b with
        | some live, some real => return (live, real)
        | _, _ => break
      | _ => pure ()
  return (0.0, 0.0)

end GammaFit.Spectrum
