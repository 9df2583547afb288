import Mathlib
import GammaFit.Text.Lines
import GammaFit.Text.Utf8

/-!
# Reading text back

The spectrum readers see a file as UTF-8 bytes, decode them, cut the text into lines, trim the
lines and read words and numbers from them. Each of these steps gives back what the matching
writer put down:

* the decoder reads back every text in the standard encoding (`decodeUtf8_toUTF8`); each
  character's bytes pass the decoder's checks for their length, with no overlong form, surrogate
  or value beyond `U+10FFFF` (`decodeFrom_utf8EncodeChar`);
* a text written as lines, each followed by a break, is cut into exactly those lines, and then
  into the lines of whatever follows (`lines_unlines_append`);
* trimming a line changes none of its words (`words_trim`);
* a natural number written in decimal is read as that number (`readNumber?_toString`), and its
  text starts with no marker, as markers start with a sign that is no digit
  (`startsWith_toString`).
-/

namespace GammaFit.Text

/-! ## UTF-8 -/

theorem toList_loop_eq (bs : ByteArray) (i : Nat) (r : List UInt8) :
    ByteArray.toList.loop bs i r = r.reverse ++ bs.data.toList.drop i := by
  fun_induction ByteArray.toList.loop bs i r with
  | case1 i r hlt ih =>
    have hlen : i < bs.data.toList.length := by simpa using hlt
    have hget : bs.get! i = bs.data[i]! := by cases bs; rfl
    rw [ih, List.drop_eq_getElem_cons (i := i) hlen, hget, getElem!_pos bs.data i hlt]
    simp
  | case2 i r hlt =>
    rw [List.drop_eq_nil_of_le (by simpa using Nat.le_of_not_lt hlt)]
    simp

/-- The bytes of a text are the encodings of its characters, one after the other. -/
theorem toList_toUTF8 (s : String) :
    s.toUTF8.toList = s.toList.flatMap String.utf8EncodeChar := by
  have h := String.toByteArray_ofList (l := s.toList)
  rw [String.ofList_toList] at h
  rw [ByteArray.toList, toList_loop_eq, String.toUTF8_eq_toByteArray, h, List.utf8Encode,
    List.data_toByteArray]
  simp

theorem payload_eq (b : UInt8) : payload b = b.toNat % 64 :=
  Nat.and_two_pow_sub_one_eq_mod _ 6

/-- The bytes `0x80`–`0xBF` continue a character. -/
theorem isContinuation_of_toNat {b : UInt8} (h : 128 ≤ b.toNat ∧ b.toNat < 192) :
    isContinuation b = true := by
  have hall : ∀ r, r < 64 → isContinuation (UInt8.ofNat (r + 128)) = true := by decide
  have hb : b = UInt8.ofNat (b.toNat - 128 + 128) := by
    rw [Nat.sub_add_cancel h.1, UInt8.ofNat_toNat]
  rw [hb]
  exact hall _ (by omega)

/-- The test a three- or four-byte lead puts on the second byte: one bound moves for two
particular leads, and the test passes exactly when the byte's value lies in the range. -/
theorem secondByte_check_of_toNat {b c x y l u : UInt8}
    (hc : (if b.toNat = x.toNat then l.toNat else 128) ≤ c.toNat ∧
      c.toNat ≤ (if b.toNat = y.toNat then u.toNat else 191)) :
    ((if (b == x) = true then l else 128) ≤ c && c ≤ if (b == y) = true then u else 191) = true := by
  simp only [beq_iff_eq, ← UInt8.toNat_inj, Bool.and_eq_true, decide_eq_true_eq,
    UInt8.le_iff_toNat_le]
  split_ifs at hc ⊢ <;> exact hc

/-! The decoder's four kinds of step, each stated on the bytes' values. -/

section Steps

variable {rest : List UInt8} {pos : Nat} {acc : List Char}

theorem decodeFrom_one {b : UInt8} (hb : b.toNat < 128) :
    decodeFrom (b :: rest) pos acc = decodeFrom rest (pos + 1) (Char.ofNat b.toNat :: acc) := by
  rw [decodeFrom.eq_def]
  simp [UInt8.lt_iff_toNat_lt, hb]

theorem decodeFrom_two {b c : UInt8} (hb : 194 ≤ b.toNat ∧ b.toNat < 224)
    (hc : 128 ≤ c.toNat ∧ c.toNat < 192) :
    decodeFrom (b :: c :: rest) pos acc =
      decodeFrom rest (pos + 2) (Char.ofNat (b.toNat % 32 * 64 + c.toNat % 64) :: acc) := by
  have hlow : b.toNat &&& 31 = b.toNat % 32 := Nat.and_two_pow_sub_one_eq_mod _ 5
  rw [decodeFrom.eq_def]
  simp only [UInt8.lt_iff_toNat_lt, UInt8.reduceToNat, isContinuation_of_toNat hc, payload_eq]
  rw [if_neg (by omega), if_neg (by omega), if_pos (by omega), if_pos trivial, hlow]

theorem decodeFrom_three {b c d : UInt8} (hb : 224 ≤ b.toNat ∧ b.toNat < 240)
    (hc : (if b.toNat = 224 then 160 else 128) ≤ c.toNat ∧
      c.toNat ≤ (if b.toNat = 237 then 159 else 191))
    (hd : 128 ≤ d.toNat ∧ d.toNat < 192) :
    decodeFrom (b :: c :: d :: rest) pos acc =
      decodeFrom rest (pos + 3)
        (Char.ofNat (b.toNat % 16 * 4096 + c.toNat % 64 * 64 + d.toNat % 64) :: acc) := by
  -- the second byte is checked against a range narrowed after `0xE0` and `0xED`
  have hsecond := secondByte_check_of_toNat (x := 224) (y := 237) (l := 160) (u := 159) hc
  have hlow : b.toNat &&& 15 = b.toNat % 16 := Nat.and_two_pow_sub_one_eq_mod _ 4
  rw [decodeFrom.eq_def]
  simp only [UInt8.lt_iff_toNat_lt, UInt8.reduceToNat, isContinuation_of_toNat hd, payload_eq]
  rw [if_neg (by omega), if_neg (by omega), if_neg (by omega), if_pos (by omega)]
  simp only [hsecond, Bool.not_true, Bool.false_eq_true, if_false, hlow]

theorem decodeFrom_four {b c d e : UInt8} (hb : 240 ≤ b.toNat ∧ b.toNat < 245)
    (hc : (if b.toNat = 240 then 144 else 128) ≤ c.toNat ∧
      c.toNat ≤ (if b.toNat = 244 then 143 else 191))
    (hd : 128 ≤ d.toNat ∧ d.toNat < 192) (he : 128 ≤ e.toNat ∧ e.toNat < 192) :
    decodeFrom (b :: c :: d :: e :: rest) pos acc =
      decodeFrom rest (pos + 4)
        (Char.ofNat (b.toNat % 8 * 262144 + c.toNat % 64 * 4096 + d.toNat % 64 * 64 +
          e.toNat % 64) :: acc) := by
  -- the second byte is checked against a range narrowed after `0xF0` and `0xF4`
  have hsecond := secondByte_check_of_toNat (x := 240) (y := 244) (l := 144) (u := 143) hc
  have hlow : b.toNat &&& 7 = b.toNat % 8 := Nat.and_two_pow_sub_one_eq_mod _ 3
  rw [decodeFrom.eq_def]
  simp only [UInt8.lt_iff_toNat_lt, UInt8.reduceToNat, isContinuation_of_toNat hd,
    isContinuation_of_toNat he, payload_eq]
  rw [if_neg (by omega), if_neg (by omega), if_neg (by omega), if_neg (by omega), if_pos (by omega)]
  simp only [hsecond, Bool.not_true, Bool.false_eq_true, if_false, hlow]

end Steps

theorem toNat_ofNat_byte {n : Nat} (h : n < 256) : (UInt8.ofNat n).toNat = n := by
  rw [UInt8.toNat_ofNat']
  omega

/-- The decoder reads a character's standard encoding back as that character. -/
theorem decodeFrom_utf8EncodeChar (c : Char) (rest : List UInt8) (pos : Nat) (acc : List Char) :
    decodeFrom (String.utf8EncodeChar c ++ rest) pos acc =
      decodeFrom rest (pos + (String.utf8EncodeChar c).length) (c :: acc) := by
  have hv : c.toNat < 0xD800 ∨ 0xDFFF < c.toNat ∧ c.toNat < 0x110000 := c.valid
  have hc : Char.ofNat c.toNat = c := Char.ofNat_toNat c
  unfold String.utf8EncodeChar
  dsimp only
  generalize hvc : c.val.toNat = v
  have hvc' : c.toNat = v := hvc
  rw [hvc'] at hv hc
  split_ifs with h1 h2 h3
  · -- one byte, the code itself
    have hb := toNat_ofNat_byte (n := v) (by omega)
    rw [List.singleton_append, decodeFrom_one (by omega), hb, hc]
    rfl
  · -- two bytes: five bits, then six
    have hb := toNat_ofNat_byte (n := v / 64 % 32 + 192) (by omega)
    have hd := toNat_ofNat_byte (n := v % 64 + 128) (by omega)
    rw [List.cons_append, List.singleton_append, decodeFrom_two (by omega) (by omega), hb, hd]
    have hval : (v / 64 % 32 + 192) % 32 * 64 + (v % 64 + 128) % 64 = v := by omega
    rw [hval, hc]
    rfl
  · -- three bytes: four bits, then six and six; no surrogate and no overlong form
    have hb := toNat_ofNat_byte (n := v / 4096 % 16 + 224) (by omega)
    have hd := toNat_ofNat_byte (n := v / 64 % 64 + 128) (by omega)
    have he := toNat_ofNat_byte (n := v % 64 + 128) (by omega)
    rw [List.cons_append, List.cons_append, List.singleton_append,
      decodeFrom_three (by omega) (by rw [hb, hd]; split_ifs <;> omega) (by omega), hb, hd, he]
    have hval : (v / 4096 % 16 + 224) % 16 * 4096 + (v / 64 % 64 + 128) % 64 * 64 +
        (v % 64 + 128) % 64 = v := by omega
    rw [hval, hc]
    rfl
  · -- four bytes: three bits, then six, six and six; nothing beyond `U+10FFFF`
    have hb := toNat_ofNat_byte (n := v / 262144 % 8 + 240) (by omega)
    have hd := toNat_ofNat_byte (n := v / 4096 % 64 + 128) (by omega)
    have he := toNat_ofNat_byte (n := v / 64 % 64 + 128) (by omega)
    have hf := toNat_ofNat_byte (n := v % 64 + 128) (by omega)
    rw [List.cons_append, List.cons_append, List.cons_append, List.singleton_append,
      decodeFrom_four (by omega) (by rw [hb, hd]; split_ifs <;> omega) (by omega) (by omega),
      hb, hd, he, hf]
    have hval : (v / 262144 % 8 + 240) % 8 * 262144 + (v / 4096 % 64 + 128) % 64 * 4096 +
        (v / 64 % 64 + 128) % 64 * 64 + (v % 64 + 128) % 64 = v := by omega
    rw [hval, hc]
    rfl

theorem decodeFrom_flatMap (l : List Char) (pos : Nat) (acc : List Char) :
    decodeFrom (l.flatMap String.utf8EncodeChar) pos acc = .ok (acc.reverse ++ l) := by
  induction l generalizing pos acc with
  | nil => simp [decodeFrom.eq_1]
  | cons c l ih => rw [List.flatMap_cons, decodeFrom_utf8EncodeChar, ih]; simp

/-- Every text is read back from its UTF-8 bytes. -/
theorem decodeUtf8_toUTF8 (s : String) : decodeUtf8 s.toUTF8 = .ok s := by
  rw [decodeUtf8, toList_toUTF8, decodeFrom_flatMap]
  simp [Except.map]

/-! ## Lines -/

/-- The text of lines, each followed by a line break. -/
def unlines (ls : List String) : String := String.join (ls.map (· ++ "\n"))

/-- A text of one line: no line break inside it. -/
def OneLine (s : String) : Prop := '\n' ∉ s.toList ∧ '\r' ∉ s.toList

instance (s : String) : Decidable (OneLine s) := inferInstanceAs (Decidable (_ ∧ _))

/-- A line break ends the current line, whatever came before it on the line. -/
theorem splitLines_line (cs : List Char) (h : '\n' ∉ cs ∧ '\r' ∉ cs) (rest cur : List Char)
    (acc : List String) :
    splitLines (cs ++ '\n' :: rest) cur acc =
      splitLines rest [] (String.ofList (cur.reverse ++ cs) :: acc) := by
  induction cs generalizing cur with
  | nil => simp [splitLines.eq_4]
  | cons c cs ih =>
    have hn : c ≠ '\n' := fun e => h.1 (e ▸ List.mem_cons_self)
    have hr : c ≠ '\r' := fun e => h.2 (e ▸ List.mem_cons_self)
    rw [List.cons_append, splitLines.eq_5 _ _ _ _ (fun _ e => absurd e hr) hr hn,
      ih ⟨fun m => h.1 (List.mem_cons_of_mem _ m), fun m => h.2 (List.mem_cons_of_mem _ m)⟩]
    simp

/-- Lines finished before stand before whatever the rest of the text makes. -/
theorem splitLines_append (cs cur : List Char) (acc₁ acc₂ : List String) :
    splitLines cs cur (acc₁ ++ acc₂) = acc₂.reverse ++ splitLines cs cur acc₁ := by
  fun_induction splitLines cs cur acc₁ with
  | case1 cur acc₁ => rw [splitLines.eq_1]; split <;> simp
  | case2 rest cur acc₁ ih => rw [splitLines.eq_2, ← ih, List.cons_append]
  | case3 rest cur acc₁ h ih => rw [splitLines.eq_3 _ _ _ h, ← ih, List.cons_append]
  | case4 rest cur acc₁ ih => rw [splitLines.eq_4, ← ih, List.cons_append]
  | case5 c rest cur acc₁ h₁ h₂ h₃ ih => rw [splitLines.eq_5 _ _ _ _ h₁ h₂ h₃, ih]

/-- Each line of a text made of lines is finished in turn. -/
theorem splitLines_unlines {ls : List String} (h : ∀ l ∈ ls, OneLine l) (rest : List Char)
    (acc : List String) :
    splitLines ((unlines ls).toList ++ rest) [] acc = splitLines rest [] (ls.reverse ++ acc) := by
  induction ls generalizing acc with
  | nil => simp [unlines]
  | cons l ls ih =>
    have hcons : (unlines (l :: ls)).toList ++ rest =
        l.toList ++ '\n' :: ((unlines ls).toList ++ rest) := by
      simp [unlines]
    rw [hcons, splitLines_line _ (h l List.mem_cons_self), List.reverse_nil, List.nil_append,
      String.ofList_toList, ih fun m hm => h m (List.mem_cons_of_mem _ hm)]
    simp

/-- The lines of a text made of lines and then any text are those lines and then the lines of
that text. -/
theorem lines_unlines_append {ls : List String} (h : ∀ l ∈ ls, OneLine l) (t : String) :
    lines (unlines ls ++ t) = ls ++ lines t := by
  have hrest := splitLines_append t.toList [] [] ls.reverse
  rw [List.nil_append, List.reverse_reverse] at hrest
  rw [lines, String.toList_append, splitLines_unlines h, List.append_nil, hrest, lines]

/-! ## Words -/

/-- Blanks end the current word and start none. -/
theorem splitWords_blanks {sp : List Char} (h : ∀ c ∈ sp, isSpace c = true) (cur : List Char)
    (acc : List String) : splitWords sp cur acc = splitWords [] cur acc := by
  induction sp generalizing cur acc with
  | nil => rfl
  | cons c sp ih =>
    rw [splitWords.eq_2, if_pos (h c List.mem_cons_self),
      ih (fun d hd => h d (List.mem_cons_of_mem _ hd))]
    simp [splitWords.eq_1]

/-- Blanks at the end of a text make no word. -/
theorem splitWords_append_blanks (cs : List Char) {sp : List Char}
    (h : ∀ c ∈ sp, isSpace c = true) (cur : List Char) (acc : List String) :
    splitWords (cs ++ sp) cur acc = splitWords cs cur acc := by
  induction cs generalizing cur acc with
  | nil => exact splitWords_blanks h cur acc
  | cons c cs ih => simp only [List.cons_append, splitWords.eq_2, ih]

/-- Blanks at the start of a text make no word. -/
theorem splitWords_dropWhile (cs : List Char) (acc : List String) :
    splitWords (cs.dropWhile isSpace) [] acc = splitWords cs [] acc := by
  induction cs with
  | nil => rfl
  | cons c cs ih =>
    by_cases hc : isSpace c
    · rw [List.dropWhile_cons_of_pos hc, ih, splitWords.eq_2, if_pos hc]
      rfl
    · rw [List.dropWhile_cons_of_neg hc]

/-- Trimming a text changes none of its words. -/
theorem words_trim (s : String) : words (trim s) = words s := by
  generalize hl : s.toList.dropWhile isSpace = l
  -- the text less its leading blanks is its core and then its trailing blanks
  have hcore : l = (l.reverse.dropWhile isSpace).reverse ++ (l.reverse.takeWhile isSpace).reverse := by
    rw [← List.reverse_append, List.takeWhile_append_dropWhile, List.reverse_reverse]
  have htail : ∀ c ∈ (l.reverse.takeWhile isSpace).reverse, isSpace c = true :=
    fun c hc => List.mem_takeWhile_imp (List.mem_reverse.mp hc)
  rw [words, words, trim, String.toList_ofList, hl, ← splitWords_dropWhile s.toList, hl,
    ← splitWords_append_blanks _ htail, ← hcore]

/-! ## Decimal numbers -/

/-- A digit's code lies between those of `0` and `9`. -/
theorem toNat_of_isDigit {c : Char} (h : c.isDigit = true) : 48 ≤ c.toNat ∧ c.toNat ≤ 57 := by
  simp only [Char.isDigit, Bool.and_eq_true, decide_eq_true_eq, UInt32.le_iff_toNat_le] at h
  exact h

theorem isSpace_of_isDigit {c : Char} (h : c.isDigit = true) : isSpace c = false := by
  have := toNat_of_isDigit h
  simp only [isSpace, Bool.or_eq_false_iff, Bool.and_eq_false_iff, beq_eq_false_iff_ne,
    decide_eq_false_iff_not]
  omega

theorem toLower_of_isDigit {c : Char} (h : c.isDigit = true) : c.toLower = c := by
  have := toNat_of_isDigit h
  rw [Char.toLower, dif_neg]
  simp only [ge_iff_le, UInt32.le_iff_toNat_le, not_and]
  have hA : 'A'.val.toNat = 65 := rfl
  have hc : c.val.toNat = c.toNat := rfl
  omega

/-- A text without blanks is its own trimmed text. -/
theorem trim_of_forall {s : String} (h : ∀ c ∈ s.toList, isSpace c = false) : trim s = s := by
  have hfront : s.toList.dropWhile isSpace = s.toList :=
    List.dropWhile_eq_self_iff.mpr fun hl => by simp [h _ (List.getElem_mem hl)]
  have hback : s.toList.reverse.dropWhile isSpace = s.toList.reverse :=
    List.dropWhile_eq_self_iff.mpr fun hl => by
      rw [h _ (List.mem_reverse.mp (List.getElem_mem hl))]
      exact Bool.false_ne_true
  rw [trim, hfront, hback, List.reverse_reverse, String.ofList_toList]

end GammaFit.Text

namespace GammaFit.Decimal

theorem isBlank_of_isDigit {c : Char} (h : c.isDigit = true) : isBlank c = false := by
  have := Text.toNat_of_isDigit h
  have hne : ∀ d : Char, d.toNat < 48 → c ≠ d := fun d hd e => by rw [e] at this; omega
  simp only [isBlank, decide_eq_false_iff_not]
  rintro (e | e | e | e | e | e) <;> exact hne _ (by decide) e

/-- A run of digits is taken whole, as the number it writes. -/
theorem takeDigits_of_digits {ds : List Char} (hd : ∀ c ∈ ds, c.isDigit = true) (hu : '_' ∉ ds)
    (acc n : Nat) : takeDigits true ds acc n = (Nat.ofDigitChars 10 ds acc, n + ds.length, []) := by
  induction ds generalizing acc n with
  | nil => simp [takeDigits.eq_3]
  | cons c ds ih =>
    rw [takeDigits.eq_2 _ _ _ _ _ (fun d r e => hu (by simp [e])), if_pos (hd c List.mem_cons_self),
      ih (fun d hm => hd d (List.mem_cons_of_mem _ hm)) (fun hm => hu (List.mem_cons_of_mem _ hm)),
      Nat.ofDigitChars_cons, Nat.mul_comm]
    simp only [List.length_cons, Prod.mk.injEq, and_true]
    exact ⟨rfl, by omega⟩

theorem readUnsigned_of_digits {ds : List Char} (hd : ∀ c ∈ ds, c.isDigit = true) (hu : '_' ∉ ds)
    (hne : ds ≠ []) : readUnsigned ds = some (Nat.ofDigitChars 10 ds 0, 0) := by
  have hlen : ds.length ≠ 0 := fun h => hne (List.eq_nil_of_length_eq_zero h)
  simp only [readUnsigned, takeDigits_of_digits hd hu, Nat.zero_add]
  simp [hlen, takeExponent]

/-- A text of decimal digits is read as the natural number they write. -/
theorem parseFloat?_of_digits {s : String} (hd : ∀ c ∈ s.toList, c.isDigit = true)
    (hu : '_' ∉ s.toList) (hne : s.toList ≠ []) :
    parseFloat? s = some (Float.ofNat (Nat.ofDigitChars 10 s.toList 0)) := by
  have hfront : s.toList.dropWhile isBlank = s.toList :=
    List.dropWhile_eq_self_iff.mpr fun hl => by
      simp [isBlank_of_isDigit (hd _ (List.getElem_mem hl))]
  have hback : s.toList.reverse.dropWhile isBlank = s.toList.reverse :=
    List.dropWhile_eq_self_iff.mpr fun hl => by
      rw [isBlank_of_isDigit (hd _ (List.mem_reverse.mp (List.getElem_mem hl)))]
      exact Bool.false_ne_true
  simp only [parseFloat?, hfront, hback, List.reverse_reverse]
  obtain ⟨d, ds, hs⟩ := List.exists_cons_of_ne_nil hne
  have hdig := hd d (hs ▸ List.mem_cons_self)
  have hp : d ≠ '+' := fun e => by rw [e] at hdig; exact absurd hdig (by decide)
  have hm : d ≠ '-' := fun e => by rw [e] at hdig; exact absurd hdig (by decide)
  have hlower : (d :: ds).map Char.toLower = d :: ds :=
    (List.map_congr_left fun c hc => Text.toLower_of_isDigit (hd c (hs ▸ hc))).trans
      (List.map_id _)
  -- the text is none of the words read as numbers, since each of them has a letter
  have hword : ∀ w : String, (∃ c ∈ w.toList, c.isDigit = false) → s ≠ w :=
    fun w ⟨c, hc, hcd⟩ e => by subst e; rw [hd c hc] at hcd; exact absurd hcd (by decide)
  have hinf := hword "inf" ⟨'i', by decide, by decide⟩
  have hinfinity := hword "infinity" ⟨'i', by decide, by decide⟩
  have hnan := hword "nan" ⟨'n', by decide, by decide⟩
  have hofList : String.ofList (d :: ds) = s := by rw [← hs, String.ofList_toList]
  rw [hs]
  simp only [List.cons.injEq, hp, hm, false_and, imp_false, not_false_eq_true, implies_true,
    hlower, hofList, hinf, hinfinity, hnan, or_self, if_false]
  rw [← hs, readUnsigned_of_digits hd hu hne]
  rfl

end GammaFit.Decimal

namespace GammaFit.Text

theorem isDigit_of_mem_toString {k : Nat} {c : Char} (hc : c ∈ (toString k).toList) :
    c.isDigit = true := by
  rw [Nat.toString_eq_repr, Nat.toList_repr] at hc
  exact Nat.isDigit_of_mem_toDigits (by decide) (by decide) hc

/-- A natural number written in decimal is read back as itself. -/
theorem readNumber?_toString (k : Nat) : readNumber? (toString k) = some (Float.ofNat k) := by
  have hd : ∀ c ∈ (toString k).toList, c.isDigit = true := fun _ => isDigit_of_mem_toString
  have htrim : trim (toString k) = toString k := trim_of_forall fun c hc => isSpace_of_isDigit (hd c hc)
  have hlist : (toString k).toList = Nat.toDigits 10 k := by
    rw [Nat.toString_eq_repr, Nat.toList_repr]
  rw [readNumber?, htrim, Decimal.parseFloat?_of_digits hd (hlist ▸ Nat.underscore_not_in_toDigits)
    (hlist ▸ Nat.toDigits_ne_nil), hlist, Nat.ofDigitChars_ten_toDigits]

/-- The decimal text of a natural number is its own trimmed text. -/
theorem trim_toString (k : Nat) : trim (toString k) = toString k :=
  trim_of_forall fun _ hc => isSpace_of_isDigit (isDigit_of_mem_toString hc)

/-- The decimal text of a natural number is no text with a sign that is no digit. -/
theorem toString_ne {k : Nat} {w : String} (hw : ∃ c ∈ w.toList, c.isDigit = false) :
    toString k ≠ w := by
  intro e
  subst e
  obtain ⟨c, hc, hcd⟩ := hw
  rw [isDigit_of_mem_toString hc] at hcd
  exact absurd hcd (by decide)

/-- A text starts with a marker exactly when the marker's characters begin it. -/
theorem startsWith_iff (s pat : String) : s.startsWith pat = true ↔ pat.toList <+: s.toList := by
  simp [← String.startsWith_toSlice]

/-- The decimal text of a natural number starts with no marker whose first sign is no digit. -/
theorem startsWith_toString (k : Nat) {pat : String} {c : Char} {cs : List Char}
    (hp : pat.toList = c :: cs) (hc : c.isDigit = false) : (toString k).startsWith pat = false := by
  rw [← Bool.not_eq_true, startsWith_iff, hp]
  intro hpre
  have hmem : c ∈ (toString k).toList := hpre.subset List.mem_cons_self
  rw [isDigit_of_mem_toString hmem] at hc
  exact absurd hc (by decide)

end GammaFit.Text
