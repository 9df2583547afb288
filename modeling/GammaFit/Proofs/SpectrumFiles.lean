import GammaFit.Proofs.Text
import GammaFit.Spectrum.Files

/-!
# Spectrum files read back

A spectrum file laid out as its format asks is read as the counts it holds, on bins `0 … n-1`:

* an SPE text of header lines, a `$DATA` line, a channel range of two words, the counts one per
  line and a line opening the next section (`readIaea_layout`);
* an MCA text of header lines, `<<DATA>>`, the counts one per line and `<<END>>`
  (`readMca_layout`);
* a CHN file of 30 header bytes, the number of channels in two bytes and each count in four,
  lowest byte first (`readChn_layout`); a file too short for its header, or for the counts its
  header announces, is refused (`readChn_short`, `readChn_truncated`);
* the live and real times of an SPE text are the two numbers on the line after the first
  `$MEAS_TIM` line that is followed by two words (`measurementTimes_layout`).

The text readers decode the bytes, cut them into trimmed lines and scan the lines once. Each scan
is stated one line at a time (`SpeScan.push_count` and its siblings) and then over the runs that
make a file: header lines, counts, and whatever follows the data block (`foldl_header`,
`foldl_counts`, `foldl_of_done`). The layouts say exactly what a marker is: the readers act on a
marker wherever it stands once a line is trimmed (`text_markers_read_anywhere`).
-/

namespace GammaFit.Spectrum

open Text

/-- The trimmed lines of a file holding a text. -/
theorem textLines_toUTF8 (s : String) : textLines s.toUTF8 = .ok ((lines s).map trim) := by
  rw [textLines, decodeUtf8_toUTF8]

/-- A line that does not start with `$` does not start with `$DATA` either. -/
theorem startsWith_data_of_dollar {line : String} (h : line.startsWith "$" = false) :
    line.startsWith "$DATA" = false := by
  rw [← Bool.not_eq_true, startsWith_iff] at h ⊢
  exact fun hd => h ((List.prefix_iff_eq_take.mpr rfl).trans hd)
/-! ## Counts one per line -/

theorem oneLine_toString (k : Nat) : OneLine (toString k) :=
  ⟨fun h => absurd (isDigit_of_mem_toString h) (by decide),
    fun h => absurd (isDigit_of_mem_toString h) (by decide)⟩

/-- Counts written one per line between lines of text keep every line on its own. -/
theorem oneLine_counts (pre post : List String) (h : ∀ l ∈ pre ++ post, OneLine l) (c : List Nat) :
    ∀ l ∈ pre ++ c.map toString ++ post, OneLine l := by
  intro l hl
  rw [List.mem_append, List.mem_append, List.mem_map] at hl
  rcases hl with (hl | ⟨k, -, rfl⟩) | hl
  · exact h l (List.mem_append_left _ hl)
  · exact oneLine_toString k
  · exact h l (List.mem_append_right _ hl)

/-- Counts written in decimal are their own trimmed lines. -/
theorem trim_counts (c : List Nat) : (c.map toString).map trim = c.map toString := by
  rw [List.map_map]
  exact List.map_congr_left fun k _ => trim_toString k

theorem isEmpty_counts {c : List Nat} (hc : c ≠ []) : (c.map Float.ofNat).toArray.isEmpty = false := by
  simpa [List.isEmpty_iff] using hc
/-! ## SPE files -/

namespace SpeScan

variable {s : SpeScan} {line : String}

theorem push_of_done (h : s.done = true) : s.push line = s := by
  simp [push, h]

theorem push_data (hd : s.done = false) (hl : line.startsWith "$DATA" = true) :
    s.push line = { s with inData := true, rangeNext := true } := by
  simp [push, hd, hl]

theorem push_header (hd : s.done = false) (hi : s.inData = false)
    (hl : line.startsWith "$DATA" = false) : s.push line = s := by
  simp [push, hd, hi, hl]

theorem push_section (hd : s.done = false) (hi : s.inData = true)
    (hl : line.startsWith "$DATA" = false) (hs : line.startsWith "$" = true) :
    s.push line = { s with done := true } := by
  simp [push, hd, hi, hl, hs]

theorem push_range (hd : s.done = false) (hi : s.inData = true) (hr : s.rangeNext = true)
    (hs : line.startsWith "$" = false) (hw : (words line).length = 2) :
    s.push line = { s with rangeNext := false } := by
  simp [push, hd, hi, hr, hs, startsWith_data_of_dollar hs, hw]

theorem push_count {v : Float} (hd : s.done = false) (hi : s.inData = true)
    (hr : s.rangeNext = false) (hs : line.startsWith "$" = false)
    (hv : Text.readNumber? line = some v) :
    s.push line = { s with counts := s.counts.push v } := by
  simp [push, hd, hi, hr, hs, startsWith_data_of_dollar hs, hv]

/-- Header lines before the data marker leave the scan where it was. -/
theorem foldl_header {ls : List String} (h : ∀ l ∈ ls, l.startsWith "$DATA" = false)
    (hd : s.done = false) (hi : s.inData = false) : ls.foldl push s = s := by
  induction ls with
  | nil => rfl
  | cons l ls ih =>
    rw [List.foldl_cons, push_header hd hi (h l List.mem_cons_self)]
    exact ih fun m hm => h m (List.mem_cons_of_mem _ hm)

/-- Once the data block has ended, no line is read. -/
theorem foldl_of_done (ls : List String) (h : s.done = true) : ls.foldl push s = s := by
  induction ls with
  | nil => rfl
  | cons l ls ih => rw [List.foldl_cons, push_of_done h, ih]

/-- The counts of a data block, one per line in decimal, are taken in order. -/
theorem foldl_counts (c : List Nat) (hd : s.done = false) (hi : s.inData = true)
    (hr : s.rangeNext = false) :
    (c.map toString).foldl push s = { s with counts := s.counts ++ (c.map Float.ofNat).toArray } := by
  induction c generalizing s with
  | nil => simp
  | cons k c ih =>
    rw [List.map_cons, List.foldl_cons,
      push_count hd hi hr (startsWith_toString k (c := '$') rfl rfl) (readNumber?_toString k),
      ih (s := { s with counts := s.counts.push (Float.ofNat k) }) hd hi hr]
    simp

end SpeScan

/-- An SPE text laid out as its format asks: header lines, none of which starts with `$DATA`
once trimmed; a line starting with `$DATA`; a channel range of two words; the counts, one per
line in decimal; a line starting with `$` that opens another section, but not `$DATA`; and then
anything. It is read as the counts on bins `0 … n-1`. -/
theorem readIaea_layout {header : List String} {dataLine range sec : String} {c : List Nat}
    (rest : String) (hone : ∀ l ∈ header ++ [dataLine, range, sec], OneLine l)
    (hheader : ∀ l ∈ header, (trim l).startsWith "$DATA" = false)
    (hdata : (trim dataLine).startsWith "$DATA" = true)
    (hrange : (trim range).startsWith "$" = false ∧ (words range).length = 2)
    (hsec : (trim sec).startsWith "$" = true ∧ (trim sec).startsWith "$DATA" = false)
    (hc : c ≠ []) :
    readIaea (unlines (header ++ [dataLine, range] ++ c.map toString ++ [sec]) ++ rest).toUTF8 =
      .ok (channels c.length, (c.map Float.ofNat).toArray) := by
  have hlines := oneLine_counts (header ++ [dataLine, range]) [sec] (by simpa using hone) c
  -- the scan passes the header, opens the data block, skips the range, takes the counts and
  -- stops at the next section
  have hscan : ((header ++ [dataLine, range] ++ c.map toString ++ [sec] ++ lines rest).map
      trim).foldl SpeScan.push {} =
      { inData := true, rangeNext := false, done := true, counts := (c.map Float.ofNat).toArray } := by
    simp only [List.map_append, List.foldl_append, trim_counts, List.map_cons, List.map_nil,
      List.foldl_cons, List.foldl_nil]
    have hheader' : ∀ l ∈ header.map trim, l.startsWith "$DATA" = false := by
      intro l hl
      obtain ⟨m, hm, rfl⟩ := List.mem_map.mp hl
      exact hheader m hm
    rw [SpeScan.foldl_header hheader' rfl rfl, SpeScan.push_data rfl hdata,
      SpeScan.push_range rfl rfl rfl hrange.1 (by rw [words_trim]; exact hrange.2),
      SpeScan.foldl_counts c rfl rfl rfl, SpeScan.push_section rfl rfl hsec.2 hsec.1,
      SpeScan.foldl_of_done _ rfl]
    simp
  rw [readIaea, textLines_toUTF8, lines_unlines_append hlines]
  simp only [bind, Except.bind, hscan, isEmpty_counts hc]
  simp
/-! ## MCA files -/

namespace McaScan

variable {s : McaScan} {line : String}

theorem push_of_done (h : s.done = true) : s.push line = s := by
  simp [push, h]

theorem push_header (hd : s.done = false) (hi : s.inData = false) (h₁ : line ≠ "<<DATA>>")
    (h₂ : line ≠ "<<END>>") : s.push line = s := by
  simp [push, hd, hi, h₁, h₂]

theorem push_data (hd : s.done = false) (hl : line = "<<DATA>>") :
    s.push line = { s with inData := true } := by
  simp [push, hd, hl]

theorem push_end (hd : s.done = false) (hl : line = "<<END>>") :
    s.push line = { s with done := true } := by
  simp [push, hd, hl]

theorem push_count {v : Float} (hd : s.done = false) (hi : s.inData = true)
    (h₁ : line ≠ "<<DATA>>") (h₂ : line ≠ "<<END>>") (hne : line.isEmpty = false)
    (hv : Text.readNumber? line = some v) :
    s.push line = { s with counts := s.counts.push v } := by
  simp [push, hd, hi, h₁, h₂, hne, hv]

/-- Header lines before the data marker leave the scan where it was. -/
theorem foldl_header {ls : List String} (h : ∀ l ∈ ls, l ≠ "<<DATA>>" ∧ l ≠ "<<END>>")
    (hd : s.done = false) (hi : s.inData = false) : ls.foldl push s = s := by
  induction ls with
  | nil => rfl
  | cons l ls ih =>
    have hl := h l List.mem_cons_self
    rw [List.foldl_cons, push_header hd hi hl.1 hl.2]
    exact ih fun m hm => h m (List.mem_cons_of_mem _ hm)

/-- After the end marker, no line is read. -/
theorem foldl_of_done (ls : List String) (h : s.done = true) : ls.foldl push s = s := by
  induction ls with
  | nil => rfl
  | cons l ls ih => rw [List.foldl_cons, push_of_done h, ih]

/-- The counts of the data block, one per line in decimal, are taken in order. -/
theorem foldl_counts (c : List Nat) (hd : s.done = false) (hi : s.inData = true) :
    (c.map toString).foldl push s = { s with counts := s.counts ++ (c.map Float.ofNat).toArray } := by
  induction c generalizing s with
  | nil => simp
  | cons k c ih =>
    have hne : (toString k).isEmpty = false := by
      simp [Nat.repr_ne_empty]
    rw [List.map_cons, List.foldl_cons,
      push_count hd hi (toString_ne ⟨'<', by decide, by decide⟩)
        (toString_ne ⟨'<', by decide, by decide⟩) hne (readNumber?_toString k),
      ih (s := { s with counts := s.counts.push (Float.ofNat k) }) hd hi]
    simp

end McaScan

/-- An MCA text laid out as its format asks: header lines, none of which is `<<DATA>>` or
`<<END>>` once trimmed; the line `<<DATA>>`; the counts, one per line in decimal; the line
`<<END>>`; and then anything. It is read as the counts on bins `0 … n-1`. -/
theorem readMca_layout {header : List String} {dataLine endLine : String} {c : List Nat}
    (rest : String) (hone : ∀ l ∈ header ++ [dataLine, endLine], OneLine l)
    (hheader : ∀ l ∈ header, trim l ≠ "<<DATA>>" ∧ trim l ≠ "<<END>>")
    (hdata : trim dataLine = "<<DATA>>") (hend : trim endLine = "<<END>>") (hc : c ≠ []) :
    readMca (unlines (header ++ [dataLine] ++ c.map toString ++ [endLine]) ++ rest).toUTF8 =
      .ok (channels c.length, (c.map Float.ofNat).toArray) := by
  have hlines := oneLine_counts (header ++ [dataLine]) [endLine] (by simpa using hone) c
  have hheader' : ∀ l ∈ header.map trim, l ≠ "<<DATA>>" ∧ l ≠ "<<END>>" := by
    intro l hl
    obtain ⟨m, hm, rfl⟩ := List.mem_map.mp hl
    exact hheader m hm
  -- the scan passes the header, opens the data block, takes the counts and stops at the end
  have hscan : ((header ++ [dataLine] ++ c.map toString ++ [endLine] ++ lines rest).map
      trim).foldl McaScan.push {} =
      { inData := true, done := true, counts := (c.map Float.ofNat).toArray } := by
    simp only [List.map_append, List.foldl_append, trim_counts, List.map_cons, List.map_nil,
      List.foldl_cons, List.foldl_nil]
    rw [McaScan.foldl_header hheader' rfl rfl, McaScan.push_data rfl hdata,
      McaScan.foldl_counts c rfl rfl, McaScan.push_end rfl hend, McaScan.foldl_of_done _ rfl]
    simp
  rw [readMca, textLines_toUTF8, lines_unlines_append hlines]
  simp only [bind, Except.bind, hscan, isEmpty_counts hc]
  simp

/-! ## CHN files -/

/-- The `k` bytes of `v`, lowest first. -/
def leBytes : Nat → Nat → List UInt8
  | 0, _ => []
  | k + 1, v => UInt8.ofNat v :: leBytes k (v / 256)

@[simp] theorem length_leBytes (k v : Nat) : (leBytes k v).length = k := by
  induction k generalizing v with
  | zero => rfl
  | succ k ih => simp [leBytes, ih]

theorem get!_toByteArray (l : List UInt8) (i : Nat) : l.toByteArray.get! i = l.getD i 0 := by
  simp [ByteArray.get!, List.data_toByteArray]
  rfl

theorem littleEndian_zero (bytes : ByteArray) (start : Nat) : littleEndian bytes start 0 = 0 := rfl

/-- A little-endian number is its lowest byte and, above it, the number in the bytes after. -/
theorem littleEndian_succ (bytes : ByteArray) (start len : Nat) :
    littleEndian bytes start (len + 1) =
      (bytes.get! start).toNat + 256 * littleEndian bytes (start + 1) len := by
  have hf : (fun k acc => acc * 256 + (bytes.get! (start + k.succ)).toNat) =
      fun k acc => acc * 256 + (bytes.get! (start + 1 + k)).toNat := by
    funext k acc
    rw [Nat.succ_eq_add_one, ← Nat.add_assoc, Nat.add_right_comm]
  rw [littleEndian, littleEndian, List.range_succ_eq_map, List.foldr_cons, List.foldr_map]
  simp only [hf, Nat.add_zero]
  omega

/-- The number written by `leBytes` is read back, reduced to the bytes it fills. -/
theorem littleEndian_leBytes (pre post : List UInt8) (len v : Nat) :
    littleEndian (pre ++ leBytes len v ++ post).toByteArray pre.length len = v % 256 ^ len := by
  induction len generalizing pre v with
  | zero => simp [littleEndian_zero, Nat.mod_one]
  | succ len ih =>
    have hsplit : pre ++ leBytes (len + 1) v ++ post =
        (pre ++ [UInt8.ofNat v]) ++ leBytes len (v / 256) ++ post := by
      simp [leBytes]
    have hbyte : ((pre ++ leBytes (len + 1) v ++ post).toByteArray.get! pre.length).toNat = v % 256 := by
      rw [get!_toByteArray, hsplit]
      simp [List.getD_eq_getElem?_getD, UInt8.toNat_ofNat']
    rw [littleEndian_succ, hbyte, hsplit]
    have := ih (pre ++ [UInt8.ofNat v]) (v / 256)
    rw [List.length_append, List.length_singleton] at this
    rw [this, Nat.pow_succ', Nat.mod_mul]

/-- The count of channel `i` lies in the four bytes at `32 + 4i` of a CHN file. -/
theorem littleEndian_count {header trailing : List UInt8} (hh : header.length = 30) {cs : List Nat}
    {i : Nat} (hi : i < cs.length) (hc : cs[i] < 2 ^ 32) :
    littleEndian (header ++ leBytes 2 cs.length ++ cs.flatMap (leBytes 4) ++ trailing).toByteArray
      (32 + 4 * i) 4 = cs[i] := by
  -- the counts before channel `i` fill `4i` bytes after the 32 of the header
  have hsplit : header ++ leBytes 2 cs.length ++ cs.flatMap (leBytes 4) ++ trailing =
      (header ++ leBytes 2 cs.length ++ (cs.take i).flatMap (leBytes 4)) ++ leBytes 4 cs[i] ++
        ((cs.drop (i + 1)).flatMap (leBytes 4) ++ trailing) := by
    have hflat : cs.flatMap (leBytes 4) = (cs.take i).flatMap (leBytes 4) ++ leBytes 4 cs[i] ++
        (cs.drop (i + 1)).flatMap (leBytes 4) := by
      conv_lhs => rw [← List.take_append_drop i cs]
      rw [List.flatMap_append, List.drop_eq_getElem_cons hi, List.flatMap_cons, List.append_assoc]
    rw [hflat]
    simp
  have hpre : (header ++ leBytes 2 cs.length ++ (cs.take i).flatMap (leBytes 4)).length =
      32 + 4 * i := by
    simp [hh, List.length_flatMap, Nat.min_eq_left hi.le]
    omega
  rw [hsplit, ← hpre, littleEndian_leBytes]
  exact Nat.mod_eq_of_lt hc

/-- A CHN file of any 30 header bytes, the number of channels in two bytes and each channel's
count in four, lowest byte first, then anything, is read as those counts on bins `0 … n-1`. -/
theorem readChn_layout (header : List UInt8) (hh : header.length = 30) (cs : List Nat)
    (hn : cs.length < 2 ^ 16) (hc : ∀ k ∈ cs, k < 2 ^ 32) (trailing : List UInt8) :
    readChn (header ++ leBytes 2 cs.length ++ cs.flatMap (leBytes 4) ++ trailing).toByteArray =
      .ok (channels cs.length, (cs.map Float.ofNat).toArray) := by
  have hsize : (header ++ leBytes 2 cs.length ++ cs.flatMap (leBytes 4) ++ trailing).toByteArray.size =
      32 + 4 * cs.length + trailing.length := by
    simp [hh, List.length_flatMap]
    omega
  have hcount : littleEndian
      (header ++ leBytes 2 cs.length ++ cs.flatMap (leBytes 4) ++ trailing).toByteArray 30 2 =
      cs.length := by
    have h := littleEndian_leBytes header (cs.flatMap (leBytes 4) ++ trailing) 2 cs.length
    rw [hh, ← List.append_assoc] at h
    rw [h]
    exact Nat.mod_eq_of_lt hn
  rw [readChn, if_neg (by omega), hcount, if_neg (by omega)]
  congr 2
  apply Array.ext
  · simp
  · intro i hi _
    simp only [Array.getElem_map, Array.getElem_range, List.getElem_toArray, List.getElem_map]
    simp only [Array.size_map, Array.size_range] at hi
    rw [littleEndian_count hh hi (hc _ (List.getElem_mem hi))]

theorem littleEndian_two (bytes : ByteArray) (start : Nat) :
    littleEndian bytes start 2 =
      (bytes.get! start).toNat + 256 * (bytes.get! (start + 1)).toNat := by
  rw [littleEndian_succ, littleEndian_succ, littleEndian_zero]
  omega

/-- A CHN file shorter than its header is refused. -/
theorem readChn_short {bytes : ByteArray} (h : bytes.size < 32) :
    readChn bytes = .error (.invalid "Error reading CHN file: truncated header") := by
  rw [readChn, if_pos h]

/-- A CHN file shorter than the counts its header announces is refused. -/
theorem readChn_truncated {bytes : ByteArray} (h32 : 32 ≤ bytes.size)
    (h : bytes.size < 32 + 4 * ((bytes.get! 30).toNat + 256 * (bytes.get! 31).toNat)) :
    readChn bytes = .error (.invalid "Error reading CHN file: truncated data") := by
  rw [readChn, if_neg (by omega), littleEndian_two, if_pos h]

/-! ## Measurement times -/

section Loops

variable {α β ε : Type} {f : α → β → Except ε (ForInStep β)} {b : β}

/-- Steps that go on with the state unchanged can be passed over. -/
theorem forIn_append_of_yield {l₁ l₂ : List α} (h : ∀ x ∈ l₁, f x b = .ok (.yield b)) :
    forIn (l₁ ++ l₂) b f = forIn l₂ b f := by
  induction l₁ with
  | nil => rfl
  | cons x l₁ ih =>
    rw [List.cons_append, List.forIn_cons, h x List.mem_cons_self]
    exact ih fun y hy => h y (List.mem_cons_of_mem _ hy)

/-- A step that stops the loop gives its result. -/
theorem forIn_cons_of_done {x : α} {l : List α} {c : β} (h : f x b = .ok (.done c)) :
    forIn (x :: l) b f = .ok c := by
  rw [List.forIn_cons, h]
  rfl

end Loops

theorem measurementTimes_layout {pre : List String} {m t a b : String} {more : List String}
    {live real : Float} (rest : String) (hone : ∀ l ∈ pre ++ [m, t], OneLine l)
    (hm : (trim m).startsWith "$MEAS_TIM" = true) (hw : words t = a :: b :: more)
    (ha : readNumber? a = some live) (hb : readNumber? b = some real)
    (hpre : (pre ++ [m]).IsChain fun p q =>
      (trim p).startsWith "$MEAS_TIM" = true → (words q).length < 2) :
    measurementTimes (unlines (pre ++ [m, t]) ++ rest).toUTF8 = .ok (live, real) := by
  have hsplit : pre ++ [m, t] ++ lines rest = (pre ++ [m]) ++ t :: lines rest := by simp
  -- the trimmed lines up to the marker, and the line after it
  have hgetD : ∀ i (hi : i < (pre ++ [m]).length),
      ((((pre ++ [m]) ++ t :: lines rest).map trim).toArray.getD i "") = trim (pre ++ [m])[i] := by
    intro i hi
    rw [Array.getD_eq_getD_getElem?, List.getElem?_toArray, List.getElem?_map,
      List.getElem?_append_left hi, List.getElem?_eq_getElem hi]
    rfl
  have hnext : ((((pre ++ [m]) ++ t :: lines rest).map trim).toArray.getD (pre.length + 1) "") =
      trim t := by
    simp [Array.getD_eq_getD_getElem?]
  have hsize : (((pre ++ [m]) ++ t :: lines rest).map trim).toArray.size =
      pre.length + 2 + (lines rest).length := by
    simp
    omega
  have hrange : List.range' 0 (pre.length + 2 + (lines rest).length) =
      List.range' 0 pre.length ++ pre.length :: List.range' (pre.length + 1) ((lines rest).length + 1) := by
    have h := @List.range'_append 0 pre.length ((lines rest).length + 1 + 1) 1
    rw [Nat.zero_add, Nat.one_mul] at h
    rw [show pre.length + 2 + (lines rest).length = pre.length + ((lines rest).length + 1 + 1) by
      omega, ← h, List.range'_succ]
  rw [measurementTimes, textLines_toUTF8, lines_unlines_append hone, hsplit]
  simp only [bind, Except.bind, Std.Legacy.Range.forIn_eq_forIn_range', Std.Legacy.Range.size,
    hsize, Nat.sub_zero, Nat.add_sub_cancel, Nat.div_one]
  rw [hrange, forIn_append_of_yield, forIn_cons_of_done (c := (some (live, real), ()))]
  · rfl
  · -- at the marker, the next line's first two words are the times
    have hk : pre.length < (pre ++ [m]).length := by simp
    rw [hgetD _ hk, List.getElem_concat_length rfl, if_pos ⟨hm, by omega⟩, hnext, words_trim, hw]
    simp only [ha, hb]
    rfl
  · -- before the marker, every line is passed over
    intro x hx
    have hxk : x < pre.length := by simpa using List.mem_range'_1.mp hx
    have hx₁ : x < (pre ++ [m]).length := by simp; omega
    have hx₂ : x + 1 < (pre ++ [m]).length := by simp; omega
    have hline := hgetD x hx₁
    have hnextLine := hgetD (x + 1) hx₂
    rw [hline, hnextLine]
    by_cases hs : (trim (pre ++ [m])[x]).startsWith "$MEAS_TIM" = true
    · have hfew := List.isChain_iff_getElem.mp hpre x (by simp; omega) hs
      rw [if_pos ⟨hs, by omega⟩, words_trim]
      rcases hwx : words (pre ++ [m])[x + 1] with _ | ⟨w₁, _ | ⟨w₂, ws⟩⟩
      · rfl
      · rfl
      · rw [hwx] at hfew
        simp at hfew
    · rw [if_neg fun h => hs h.1]
      rfl

/-! ## The formats together -/

/-- Each spectrum file laid out as its format asks is read as its counts on bins `0 … n-1`,
and the times are read from the line after the first `$MEAS_TIM` line followed by two words;
a CHN file too short for its header or for the counts it announces is refused. -/
theorem spectrum_file_layouts :
    (∀ (header : List String) (dataLine range sec : String) (c : List Nat) (rest : String),
      (∀ l ∈ header ++ [dataLine, range, sec], OneLine l) →
      (∀ l ∈ header, (trim l).startsWith "$DATA" = false) →
      (trim dataLine).startsWith "$DATA" = true →
      (trim range).startsWith "$" = false ∧ (words range).length = 2 →
      (trim sec).startsWith "$" = true ∧ (trim sec).startsWith "$DATA" = false → c ≠ [] →
      readIaea (unlines (header ++ [dataLine, range] ++ c.map toString ++ [sec]) ++ rest).toUTF8 =
        .ok (channels c.length, (c.map Float.ofNat).toArray)) ∧
    (∀ (pre : List String) (m t a b : String) (more : List String) (live real : Float)
      (rest : String),
      (∀ l ∈ pre ++ [m, t], OneLine l) → (trim m).startsWith "$MEAS_TIM" = true →
      words t = a :: b :: more → readNumber? a = some live → readNumber? b = some real →
      (pre ++ [m]).IsChain (fun p q =>
        (trim p).startsWith "$MEAS_TIM" = true → (words q).length < 2) →
      measurementTimes (unlines (pre ++ [m, t]) ++ rest).toUTF8 = .ok (live, real)) ∧
    (∀ (header : List String) (dataLine endLine : String) (c : List Nat) (rest : String),
      (∀ l ∈ header ++ [dataLine, endLine], OneLine l) →
      (∀ l ∈ header, trim l ≠ "<<DATA>>" ∧ trim l ≠ "<<END>>") →
      trim dataLine = "<<DATA>>" → trim endLine = "<<END>>" → c ≠ [] →
      readMca (unlines (header ++ [dataLine] ++ c.map toString ++ [endLine]) ++ rest).toUTF8 =
        .ok (channels c.length, (c.map Float.ofNat).toArray)) ∧
    (∀ (header : List UInt8) (c : List Nat) (trailing : List UInt8),
      header.length = 30 → c.length < 2 ^ 16 → (∀ k ∈ c, k < 2 ^ 32) →
      readChn (header ++ leBytes 2 c.length ++ c.flatMap (leBytes 4) ++ trailing).toByteArray =
        .ok (channels c.length, (c.map Float.ofNat).toArray)) ∧
    (∀ bytes : ByteArray, bytes.size < 32 →
      readChn bytes = .error (.invalid "Error reading CHN file: truncated header")) ∧
    (∀ bytes : ByteArray, 32 ≤ bytes.size →
      bytes.size < 32 + 4 * ((bytes.get! 30).toNat + 256 * (bytes.get! 31).toNat) →
      readChn bytes = .error (.invalid "Error reading CHN file: truncated data")) :=
  ⟨fun _ _ _ _ _ rest hone hheader hdata hrange hsec hc =>
      readIaea_layout rest hone hheader hdata hrange hsec hc,
    fun _ _ _ _ _ _ _ _ rest hone hm hw ha hb hpre =>
      measurementTimes_layout rest hone hm hw ha hb hpre,
    fun _ _ _ _ rest hone hheader hdata hend hc => readMca_layout rest hone hheader hdata hend hc,
    fun header c trailing hh hn hc => readChn_layout header hh c hn hc trailing,
    fun _ h => readChn_short h,
    fun _ h32 h => readChn_truncated h32 h⟩

/-- The header lines of a detector's SPE file. -/
def detectorHeader : List String := ["$SPEC_ID:", "Ge detector"]

/-- The header lines of an MCA file. -/
def mcaHeader : List String := ["<<PMCA SPECTRUM>>", "TAG - live_data"]

/-- Thirty zero bytes, as a CHN header. -/
def zeroHeader : List UInt8 := List.replicate 30 0

/-- A CHN header announcing one channel, and nothing after it. -/
def oneChannelHeader : ByteArray := (zeroHeader ++ [1, 0]).toByteArray

theorem sample_files_read_back :
    readIaea (unlines (detectorHeader ++ ["$DATA:", "0 2"] ++ [5, 7, 9].map toString ++
        ["$ROI:"]) ++ "0\n").toUTF8 = .ok (channels 3, #[5.0, 7.0, 9.0]) ∧
      measurementTimes (unlines (detectorHeader ++ ["$MEAS_TIM:", "120 125"]) ++ "$DATA:\n").toUTF8 =
        .ok (120.0, 125.0) ∧
      readMca (unlines (mcaHeader ++ ["<<DATA>>"] ++ [5, 7, 9].map toString ++ ["<<END>>"]) ++
        "").toUTF8 = .ok (channels 3, #[5.0, 7.0, 9.0]) ∧
      readChn (zeroHeader ++ leBytes 2 3 ++ [5, 7, 9].flatMap (leBytes 4) ++ []).toByteArray =
        .ok (channels 3, #[5.0, 7.0, 9.0]) ∧
      readChn ByteArray.empty = .error (.invalid "Error reading CHN file: truncated header") ∧
      readChn oneChannelHeader = .error (.invalid "Error reading CHN file: truncated data") := by
  obtain ⟨hspe, htimes, hmca, hchn, hshort, htrunc⟩ := spectrum_file_layouts
  refine ⟨hspe detectorHeader "$DATA:" "0 2" "$ROI:" [5, 7, 9] "0\n" (by decide)
      (by decide +kernel) (by decide +kernel) (by decide +kernel) (by decide +kernel) (by decide),
    htimes detectorHeader "$MEAS_TIM:" "120 125" "120" "125" [] 120.0 125.0 "$DATA:\n" (by decide)
      (by decide +kernel) (by decide +kernel) (by decide +kernel) (by decide +kernel)
      (by decide +kernel),
    hmca mcaHeader "<<DATA>>" "<<END>>" [5, 7, 9] "" (by decide) (by decide +kernel)
      (by decide +kernel) (by decide +kernel) (by decide),
    hchn zeroHeader [5, 7, 9] [] (by decide) (by decide) (by decide),
    hshort _ (by decide),
    htrunc _ (by decide +kernel) (by decide +kernel)⟩

/-- The readers act on a marker wherever it stands: a second `$DATA` line opens a second data
block, a `<<DATA>>` line among the header lines of an MCA file opens its data early, blanks
around a line do not hide a marker in it, a range line that starts with `$` ends the block, and
the first `$MEAS_TIM` line followed by two words decides the times even when they are no
numbers. -/
theorem text_markers_read_anywhere :
    (readIaea "$DATA:\n0 0\n5\n$DATA:\n0 0\n7\n".toUTF8).toOption =
        some (channels 2, #[5.0, 7.0]) ∧
      (readMca "<<DATA>>\n7\n<<DATA>>\n1\n<<END>>\n".toUTF8).toOption =
        some (channels 2, #[7.0, 1.0]) ∧
      (measurementTimes "$MEAS_TIM:\nx y\n$MEAS_TIM:\n1 2\n$DATA:\n0 0\n5\n".toUTF8).toOption =
        some (0.0, 0.0) ∧
      (readIaea " $DATA:\n$SPEC_ID:\n$DATA:\n0 0\n5\n$END:\n".toUTF8).toOption = none ∧
      (readIaea "$DATA:\n$0 9\n5\n$END:\n".toUTF8).toOption = none ∧
      (readMca " <<END>>\n<<DATA>>\n1\n<<END>>\n".toUTF8).toOption = none := by
  refine ⟨?_, ?_, ?_, ?_, ?_, ?_⟩ <;> decide +kernel

end GammaFit.Spectrum
