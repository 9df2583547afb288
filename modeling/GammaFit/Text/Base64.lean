/-! # Base64

Bytes written in base64: each character of `A`–`Z`, `a`–`z`, `0`–`9`, `+`, `/` carries six
bits, four characters make three bytes, and `=` pads the last group. Characters outside the
alphabet are passed over; a complete padding ends the data.
-/

namespace GammaFit.Text

/-- The six bits a base64 character stands for. -/
def sextet? (c : Char) : Option Nat :=
  if 'A' ≤ c ∧ c ≤ 'Z' then some (c.toNat - 65)
  else if 'a' ≤ c ∧ c ≤ 'z' then some (c.toNat - 71)
  else if '0' ≤ c ∧ c ≤ '9' then some (c.toNat + 4)
  else if c = '+' then some 62
  else if c = '/' then some 63
  else none

/-- Decode characters, with the bits of the unfinished group in `acc` (`k` sextets of it) and
the `=` seen in it counted by `pads`. -/
def decodeSextets : List Char → Nat → Nat → Nat → ByteArray → ByteArray
  | [], _, _, _, out => out
  | c :: rest, acc, k, pads, out =>
    if c = '=' then
      if k ≥ 2 ∧ k + pads + 1 ≥ 4 then
        -- the group is complete: its `k - 1` bytes are the last ones
        let bits := acc * Nat.pow 64 (4 - k)
        let bytes := [bits / 65536 % 256, bits / 256 % 256, bits % 256].take (k - 1)
        bytes.foldl (fun o b => o.push b.toUInt8) out
      else decodeSextets rest acc k (pads + 1) out
    else match sextet? c with
      | none => decodeSextets rest acc k pads out
      | some v =>
        let acc := acc * 64 + v
        if k + 1 = 4 then
          let out := ((out.push (acc / 65536 % 256).toUInt8).push (acc / 256 % 256).toUInt8).push
            (acc % 256).toUInt8
          decodeSextets rest 0 0 0 out
        else decodeSextets rest acc (k + 1) pads out

/-- The bytes written by a base64 text. -/
def decodeBase64 (s : String) : ByteArray := decodeSextets s.toList 0 0 0 ByteArray.empty

end GammaFit.Text
