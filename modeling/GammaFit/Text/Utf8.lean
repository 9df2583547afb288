/-! # UTF-8 text

A text file is a sequence of bytes read as UTF-8: each character is one byte below `0x80`, or
a lead byte `0xC2`–`0xF4` followed by one to three continuation bytes `0x80`–`0xBF`, with the
second byte narrowed after `0xE0`, `0xED`, `0xF0` and `0xF4` so that overlong forms,
surrogates and values beyond `0x10FFFF` are refused.

Decoding stops at the first malformed sequence. The report names the lead byte's position and
how many bytes of the sequence were well formed before the fault: a lead byte that cannot
start a character, a byte that cannot continue it, or the end of the data inside it.
-/

namespace GammaFit.Text

/-- A malformed sequence: its bytes from `start` up to `stop` (exclusive), its lead byte, and
why it is malformed. -/
structure Malformed where
  start : Nat
  stop : Nat
  lead : UInt8
  reason : String
deriving Inhabited

/-- Two lower-case hexadecimal digits of a byte. -/
def hexByte (b : UInt8) : String :=
  let digit (n : Nat) : Char := if n < 10 then Char.ofNat (48 + n) else Char.ofNat (87 + n)
  String.ofList [digit (b.toNat / 16), digit (b.toNat % 16)]

/-- The report of a malformed sequence: the lead byte alone, or the range of positions when
more than one byte is involved. -/
def Malformed.message (e : Malformed) : String :=
  let what :=
    if e.stop > e.start + 1 then
      "bytes in position " ++ toString e.start ++ "-" ++ toString (e.stop - 1)
    else "byte 0x" ++ hexByte e.lead ++ " in position " ++ toString e.start
  "'utf-8' codec can't decode " ++ what ++ ": " ++ e.reason

/-- Whether a byte continues a character. -/
@[inline] def isContinuation (b : UInt8) : Bool := b &&& 0xC0 == 0x80

/-- The low six bits of a continuation byte. -/
@[inline] def payload (b : UInt8) : Nat := b.toNat &&& 0x3F

/-- Decode `bs`, which starts at position `pos` of the data, onto the reversed characters
`acc`. -/
def decodeFrom : List UInt8 → Nat → List Char → Except Malformed (List Char)
  | [], _, acc => .ok acc.reverse
  | b :: rest, pos, acc =>
    let fault (len : Nat) (why : String) : Except Malformed (List Char) :=
      .error ⟨pos, pos + len, b, why⟩
    if b < 0x80 then decodeFrom rest (pos + 1) (Char.ofNat b.toNat :: acc)
    else if b < 0xC2 then fault 1 "invalid start byte"
    else if b < 0xE0 then
      match rest with
      | [] => fault 1 "unexpected end of data"
      | c :: rest' =>
        if isContinuation c then
          decodeFrom rest' (pos + 2) (Char.ofNat ((b.toNat &&& 0x1F) * 64 + payload c) :: acc)
        else fault 1 "invalid continuation byte"
    else if b < 0xF0 then
      let second (c : UInt8) : Bool :=
        (if b == 0xE0 then 0xA0 else 0x80) ≤ c && c ≤ (if b == 0xED then 0x9F else 0xBF)
      match rest with
      | [] => fault 1 "unexpected end of data"
      | [c] => if second c then fault 2 "unexpected end of data" else fault 1 "invalid continuation byte"
      | c :: d :: rest' =>
        if !second c then fault 1 "invalid continuation byte"
        else if !isContinuation d then fault 2 "invalid continuation byte"
        else
          let v := (b.toNat &&& 0x0F) * 4096 + payload c * 64 + payload d
          decodeFrom rest' (pos + 3) (Char.ofNat v :: acc)
    else if b < 0xF5 then
      let second (c : UInt8) : Bool :=
        (if b == 0xF0 then 0x90 else 0x80) ≤ c && c ≤ (if b == 0xF4 then 0x8F else 0xBF)
      match rest with
      | [] => fault 1 "unexpected end of data"
      | [c] => if second c then fault 2 "unexpected end of data" else fault 1 "invalid continuation byte"
      | [c, d] =>
        if !second c then fault 1 "invalid continuation byte"
        else if !isContinuation d then fault 2 "invalid continuation byte"
        else fault 3 "unexpected end of data"
      | c :: d :: e :: rest' =>
        if !second c then fault 1 "invalid continuation byte"
        else if !isContinuation d then fault 2 "invalid continuation byte"
        else if !isContinuation e then fault 3 "invalid continuation byte"
        else
          let v := (b.toNat &&& 0x07) * 262144 + payload c * 4096 + payload d * 64 + payload e
          decodeFrom rest' (pos + 4) (Char.ofNat v :: acc)
    else fault 1 "invalid start byte"

/-- The text encoded by `bytes`, or the first malformed sequence. -/
def decodeUtf8 (bytes : ByteArray) : Except Malformed String :=
  (decodeFrom bytes.toList 0 []).map String.ofList

end GammaFit.Text
