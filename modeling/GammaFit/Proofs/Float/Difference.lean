import GammaFit.Proofs.Float.Order

/-!
# The sign of a difference

Rounding never gives a difference of the wrong sign: when `b ≤ a`, the double `b - a` is at
most zero (or NaN, for `∞ - ∞`). The exact difference of two finite doubles is formed at the
smaller exponent before it is rounded, and `normalize` keeps the sign of what it rounds.

The consequence used by the rest of the library is `Float.lt_of_sub_pos`: a positive gap
`b - a` between two samples puts them in order, which is how a spectrum's strictly increasing
axis is read off its check.

Conversely, when `a < b` the double `b - a` is above zero (`Float.sub_pos_of_lt`): the exact
difference is a positive number of least subnormals, and rounding keeps at least one of them,
so two edge windows in order leave a positive run between them.
-/

namespace Float.Model.UnpackedFloat

/-- Unpacked values at or below zero that are not NaN: the zeros, the negative finite values
and the negative infinity. -/
def NonPos : UnpackedFloat → Prop
  | .zero _ => True
  | .finite .negative .. => True
  | .infinity .negative => True
  | _ => False

theorem NonPos.units_nonpos {u : UnpackedFloat} (h : NonPos u) :
    u.units ≤ 0 ∧ u.isNaN = false := by
  match u, h with
  | .zero _, _ => simp [units, isNaN]
  | .finite .negative m e _, _ => simp [units, isNaN, Sign.apply]
  | .infinity .negative, _ => simp [units, isNaN, Sign.apply]

/-- A negative word whose exponent field is not all ones unpacks to a zero or a negative finite
value. -/
theorem nonPos_unpack_packComponents {e : BitVec 11} {m : BitVec 52} (he : e ≠ -1#11) :
    NonPos (unpack .binary64 (packComponents .binary64 .negative e m)) := by
  simp only [unpack, unpackSign_packComponents, unpackExponent_packComponents,
    unpackMantissa_packComponents, Sign.ofBitVec_toBitVec, he, if_false]
  split
  · split <;> trivial
  · trivial

theorem nonPos_unpack_packedInfinity :
    NonPos (unpack .binary64 (packedInfinity .binary64 .negative)) := by
  simp [unpack, packedInfinity, NonPos]

/-- Packing a value at or below zero and unpacking it again stays at or below zero: an overflow
becomes the negative infinity, everything else keeps its sign bit. -/
theorem nonPos_unpack_pack {u : UnpackedFloat} (hu : NonPos u) :
    NonPos (unpack .binary64 (pack .binary64 u)) := by
  match u, hu with
  | .zero s, _ => simp [pack, NonPos]
  | .infinity .negative, _ => exact nonPos_unpack_packedInfinity
  | .finite .negative m e hm, _ =>
    simp only [pack]
    split
    · exact nonPos_unpack_packedInfinity
    · rename_i hbig
      split
      · apply nonPos_unpack_packComponents
        intro h
        have := congrArg BitVec.toNat h
        simp at this hbig
        omega
      · exact nonPos_unpack_packComponents (by decide)

/-- Rounding an exact value at or below zero gives a value at or below zero. -/
theorem nonPos_normalize {M : Int} (hM : M ≤ 0) (e : Int) (z : Sign) :
    NonPos (normalize .binary64 M e z) := by
  unfold normalize
  split
  · simp only [round, roundWithAccuracy]
    split <;> trivial
  · trivial
  · rename_i h
    have := Int.compare_eq_gt.mp h
    omega

/-- Moving a mantissa down to a smaller exponent keeps the exact value. -/
theorem decreaseExponent_scaled (s : Sign) (m : Nat) {e t : Int} (ht : t ≤ e)
    (hl : -1074 ≤ t) :
    s.apply ((decreaseExponent m e t).1 : Int) * 2 ^ (t + 1074).toNat =
      s.apply (m * 2 ^ (e + 1074).toNat) := by
  have hsplit : (2 : Int) ^ (e + 1074).toNat = 2 ^ (e - t).toNat * 2 ^ (t + 1074).toNat := by
    rw [← pow_add]
    congr 1
    omega
  simp only [decreaseExponent, Nat.shiftLeft_eq, hsplit]
  cases s <;> simp [Sign.apply] <;> ring

/-- A difference `b - a` of unpacked doubles with `b ≤ a` is NaN or at most zero. Only two
finite operands need the arithmetic: their exact difference at the smaller exponent has the
sign of the difference of their values. -/
theorem sub_nonPos_or_nan {b a : UnpackedFloat} (hb : b.Shaped) (ha : a.Shaped)
    (hb' : b.isNaN = false) (ha' : a.isNaN = false) (hle : b.units ≤ a.units) :
    sub .binary64 b a = .notANumber ∨ NonPos (sub .binary64 b a) := by
  have hβ := beyond_pos
  cases b with
  | notANumber => cases hb'
  | infinity s₁ =>
    cases a with
    | notANumber => cases ha'
    | infinity s₂ =>
      cases s₁ <;> cases s₂ <;> simp +decide [sub, NonPos, units, Sign.apply] at hle ⊢
      all_goals omega
    | zero s₂ =>
      cases s₁ <;> simp [sub, NonPos, units, Sign.apply] at hle ⊢
      all_goals omega
    | finite s₂ m₂ e₂ h₂ =>
      have := Canonical.scaled_pos_lt ha h₂
      cases s₁ <;> cases s₂ <;> simp [sub, NonPos, units, Sign.apply] at hle ⊢
      all_goals omega
  | zero s₁ =>
    cases a with
    | notANumber => cases ha'
    | infinity s₂ =>
      cases s₂ <;> simp [sub, NonPos, units, Sign.apply] at hle ⊢
      all_goals omega
    | zero s₂ =>
      right
      simp only [sub]
      split <;> trivial
    | finite s₂ m₂ e₂ h₂ =>
      have := Canonical.scaled_pos_lt ha h₂
      cases s₂ <;> simp [sub, NonPos, units, Sign.apply] at hle ⊢
      all_goals omega
  | finite s₁ m₁ e₁ h₁ =>
    have := Canonical.scaled_pos_lt hb h₁
    cases a with
    | notANumber => cases ha'
    | infinity s₂ =>
      cases s₁ <;> cases s₂ <;> simp [sub, NonPos, units, Sign.apply] at hle ⊢
      all_goals omega
    | zero s₂ =>
      cases s₁ <;> simp [sub, NonPos, units, Sign.apply] at hle ⊢
      all_goals omega
    | finite s₂ m₂ e₂ h₂ =>
      right
      apply nonPos_normalize
      -- both mantissas are brought to the smaller exponent; scaling back by its power of two
      -- turns the sign of the exact difference into the sign of `units b - units a`
      have hP : (0 : Int) < 2 ^ (min e₁ e₂ + 1074).toNat := by positivity
      have hl₁ := hb.2.1
      have hl₂ := ha.2.1
      have h₁' := decreaseExponent_scaled s₁ m₁ (min_le_left e₁ e₂) (by omega)
      have h₂' := decreaseExponent_scaled s₂ m₂ (min_le_right e₁ e₂) (by omega)
      simp only [units] at hle
      simp only [decreaseExponent] at h₁' h₂'
      by_contra hpos
      have := mul_pos (lt_of_not_ge hpos) hP
      rw [sub_mul, h₁', h₂'] at this
      omega

/-! ## A positive difference -/

/-- Unpacked values above zero: the positive finite values and the positive infinity. -/
def Pos : UnpackedFloat → Prop
  | .finite .positive .. => True
  | .infinity .positive => True
  | _ => False

theorem Pos.units_pos {u : UnpackedFloat} (h : Pos u) : 0 < u.units := by
  match u, h with
  | .finite .positive m e hm, _ =>
    simp only [units, Sign.apply]
    positivity
  | .infinity .positive, _ => simpa [units, Sign.apply] using beyond_pos

/-- Shifting an extended mantissa right by `n` bits divides its mantissa by `2 ^ n`. -/
theorem mantissa_shiftRight (em : ExtendedMantissa) (n : Nat) :
    (em >>> n).mantissa = em.mantissa / 2 ^ n := by
  induction n with
  | zero => simp [HShiftRight.hShiftRight, Nat.repeat]
  | succ n ih =>
    change (ExtendedMantissa.shiftRightOne (em >>> n)).mantissa = _
    rw [ExtendedMantissa.shiftRightOne, ih, Nat.div_div_eq_div_mul, Nat.pow_succ]

theorem mantissa_ofMantissaAndAccuracy (m : Nat) (acc : Accuracy) :
    (ExtendedMantissa.ofMantissaAndAccuracy m acc).mantissa = m := by
  unfold ExtendedMantissa.ofMantissaAndAccuracy
  split <;> rfl

/-- Rounding to nearest, ties to even, never lowers the mantissa. -/
theorem mantissa_le_roundedMantissa (em : ExtendedMantissa) : em.mantissa ≤ em.roundedMantissa := by
  unfold ExtendedMantissa.roundedMantissa Accuracy.roundToNearestEven
  split <;> omega

/-- Moving a mantissa to the exponent its size calls for keeps at least one bit and at most
53, at an exponent in the double's range. -/
theorem shiftToTargetExponent_bounds {m : Nat} {e : Int} (hm : 0 < m) (he : -1074 ≤ e)
    (acc : Accuracy) :
    0 < (shiftToTargetExponent .binary64 m e acc).1.mantissa ∧
      (shiftToTargetExponent .binary64 m e acc).1.mantissa < 2 ^ 53 ∧
      -1074 ≤ (shiftToTargetExponent .binary64 m e acc).2 := by
  simp only [shiftToTargetExponent, shiftToExponent, mantissa_shiftRight,
    mantissa_ofMantissaAndAccuracy, Format.targetExponent, totalExponent]
  have hmb : Format.binary64.mantissaBits = 53 := rfl
  have hme : Format.binary64.minExponent = -1074 := rfl
  rw [hmb, hme]
  -- the shift drops the bits below the 53 leading ones, and none above the least exponent
  have hlow := Nat.log2_self_le (Nat.pos_iff_ne_zero.mp hm)
  have hhigh := Nat.lt_log2_self (n := m)
  set k := (max (↑m.log2 + 1 + e - ↑(53 : Nat)) (-1074) - e).toNat
  have hkle : k ≤ m.log2 := by omega
  have hkge : m.log2 + 1 ≤ 53 + k := by omega
  refine ⟨?_, ?_, by omega⟩
  · apply Nat.div_pos _ (Nat.two_pow_pos k)
    exact Nat.le_trans (Nat.pow_le_pow_right (by norm_num) hkle) hlow
  · rw [Nat.div_lt_iff_lt_mul (Nat.two_pow_pos k), ← Nat.pow_add]
    exact Nat.lt_of_lt_of_le hhigh (Nat.pow_le_pow_right (by norm_num) hkge)

/-- Rounding a positive mantissa at an exponent in the double's range gives a finite value of
the same sign, with at most 53 bits at an exponent in the range: rounding to nearest may carry
into a new bit, which the second shift drops again. -/
theorem roundWithAccuracy_finite {m : Nat} {e : Int} (hm : 0 < m) (he : -1074 ≤ e) (s : Sign)
    (acc : Accuracy) : ∃ m' e' h, roundWithAccuracy .binary64 s m e acc = .finite s m' e' h ∧
      m' < 2 ^ 53 ∧ -1074 ≤ e' := by
  obtain ⟨h₁, -, he₁⟩ := shiftToTargetExponent_bounds hm he acc
  have hr := Nat.lt_of_lt_of_le h₁
    (mantissa_le_roundedMantissa (shiftToTargetExponent .binary64 m e acc).1)
  obtain ⟨h₂, hlt, he₂⟩ := shiftToTargetExponent_bounds hr he₁ .exact
  unfold roundWithAccuracy
  dsimp only
  rw [dif_neg (Nat.pos_iff_ne_zero.mp h₂)]
  exact ⟨_, _, _, rfl, hlt, he₂⟩

/-- Rounding a positive mantissa at an exponent in the double's range: the mantissa is first
widened to the least exponent its size allows, which keeps it positive. -/
theorem round_finite {m : Nat} {e : Int} (hm : 0 < m) (he : -1074 ≤ e) (s : Sign) :
    ∃ m' e' h, round .binary64 s m e = .finite s m' e' h ∧ m' < 2 ^ 53 ∧ -1074 ≤ e' := by
  unfold round decreaseExponent
  dsimp only
  apply roundWithAccuracy_finite
  · rw [Nat.shiftLeft_eq]
    positivity
  · simp only [Format.targetExponent, totalExponent,
      show Format.binary64.minExponent = -1074 from rfl]
    omega

theorem pos_unpack_packedInfinity :
    Pos (unpack .binary64 (packedInfinity .binary64 .positive)) := by
  simp [unpack, packedInfinity, Pos]

/-- A positive word unpacks to a positive finite value unless its exponent field is all ones,
or it is zero. -/
theorem pos_unpack_packComponents {e : BitVec 11} {m : BitVec 52} (he : e ≠ -1#11)
    (hz : e ≠ 0#11 ∨ m ≠ 0#52) :
    Pos (unpack .binary64 (packComponents .binary64 .positive e m)) := by
  simp only [unpack, unpackSign_packComponents, unpackExponent_packComponents,
    unpackMantissa_packComponents, Sign.ofBitVec_toBitVec, he, if_false]
  split
  · rename_i h0
    rw [dif_neg (hz.resolve_left (not_not.mpr h0))]
    trivial
  · trivial

/-- Packing a positive finite value of at most 53 bits at an exponent in the double's range and
unpacking it again stays above zero: an overflow becomes the positive infinity. -/
theorem pos_unpack_pack {m : Nat} {e : Int} (hm : 0 < m) (hlt : m < 2 ^ 53) (he : -1074 ≤ e) :
    Pos (unpack .binary64 (pack .binary64 (.finite .positive m e hm))) := by
  have hbias : Format.binary64.exponentBias = 1023 := rfl
  have hbits : Format.binary64.mantissaBits = 53 := rfl
  simp only [pack, hbias, hbits]
  split
  · exact pos_unpack_packedInfinity
  · rename_i hbig
    split
    · -- a normal value: its biased exponent is neither zero nor all ones
      apply pos_unpack_packComponents
      · intro h
        have := congrArg BitVec.toNat h
        simp at this hbig
        omega
      · left
        intro h
        have := congrArg BitVec.toNat h
        simp at this hbig
        omega
    · -- a subnormal value: fewer than 53 bits, so its mantissa field holds all of them
      rename_i hsub
      have hlog : m.log2 < 53 := (Nat.log2_lt (Nat.pos_iff_ne_zero.mp hm)).mpr hlt
      have hsmall : m < 2 ^ 52 :=
        (Nat.log2_lt (Nat.pos_iff_ne_zero.mp hm)).mp (by omega)
      refine pos_unpack_packComponents (by decide) (.inr fun h => ?_)
      have := congrArg BitVec.toNat h
      simp only [BitVec.toNat_ofNat, Nat.mod_eq_of_lt hsmall] at this
      simp at this
      omega

/-- Rounding a positive exact value and packing it gives a value above zero. -/
theorem pos_unpack_pack_normalize {M : Int} (hM : 0 < M) {e : Int} (he : -1074 ≤ e) (z : Sign) :
    Pos (unpack .binary64 (pack .binary64 (normalize .binary64 M e z))) := by
  unfold normalize
  rw [show compare M 0 = .gt from Int.compare_eq_gt.mpr hM]
  obtain ⟨m', e', hm', hr, hlt, he'⟩ := round_finite (m := M.toNat) (by omega) he .positive
  rw [hr]
  exact pos_unpack_pack hm' hlt he'

/-- A difference `b - a` of unpacked doubles with `a` below `b` is above zero once packed. Only
two finite operands need the arithmetic: their exact difference at the smaller exponent is a
positive number of least subnormals, and rounding keeps at least one of them. -/
theorem pos_unpack_pack_sub {b a : UnpackedFloat} (hb : b.Shaped) (ha : a.Shaped)
    (hb' : b.isNaN = false) (ha' : a.isNaN = false) (hlt : a.units < b.units) :
    Pos (unpack .binary64 (pack .binary64 (sub .binary64 b a))) := by
  have hβ := beyond_pos
  cases b with
  | notANumber => cases hb'
  | infinity s₁ =>
    cases a with
    | notANumber => cases ha'
    | infinity s₂ =>
      cases s₁ <;> cases s₂ <;> simp +decide [sub, units, Sign.apply] at hlt ⊢
      all_goals first | omega | exact pos_unpack_packedInfinity
    | zero s₂ =>
      cases s₁ <;> simp [sub, units, Sign.apply] at hlt ⊢
      all_goals first | omega | exact pos_unpack_packedInfinity
    | finite s₂ m₂ e₂ h₂ =>
      have := Canonical.scaled_pos_lt ha h₂
      cases s₁ <;> cases s₂ <;> simp [sub, units, Sign.apply] at hlt ⊢
      all_goals first | omega | exact pos_unpack_packedInfinity
  | zero s₁ =>
    cases a with
    | notANumber => cases ha'
    | infinity s₂ =>
      cases s₂ <;> simp [sub, units, Sign.apply] at hlt ⊢
      all_goals first | omega | exact pos_unpack_packedInfinity
    | zero s₂ => simp [units] at hlt
    | finite s₂ m₂ e₂ h₂ =>
      have := Canonical.scaled_pos_lt ha h₂
      cases s₂ <;> simp [sub, units, Sign.apply] at hlt ⊢
      all_goals first | omega | exact pos_unpack_pack h₂ ha.1 ha.2.1
  | finite s₁ m₁ e₁ h₁ =>
    have := Canonical.scaled_pos_lt hb h₁
    cases a with
    | notANumber => cases ha'
    | infinity s₂ =>
      cases s₁ <;> cases s₂ <;> simp [sub, units, Sign.apply] at hlt ⊢
      all_goals first | omega | exact pos_unpack_packedInfinity
    | zero s₂ =>
      cases s₁ <;> simp [sub, units, Sign.apply] at hlt ⊢
      all_goals first | omega | exact pos_unpack_pack h₁ hb.1 hb.2.1
    | finite s₂ m₂ e₂ h₂ =>
      have hl₁ := hb.2.1
      have hl₂ := ha.2.1
      apply pos_unpack_pack_normalize _ (le_min hl₁ hl₂)
      -- both mantissas are brought to the smaller exponent; scaling back by its power of two
      -- turns the sign of the exact difference into the sign of `units b - units a`
      have hP : (0 : Int) < 2 ^ (min e₁ e₂ + 1074).toNat := by positivity
      have h₁' := decreaseExponent_scaled s₁ m₁ (min_le_left e₁ e₂) (by omega)
      have h₂' := decreaseExponent_scaled s₂ m₂ (min_le_right e₁ e₂) (by omega)
      simp only [units] at hlt
      simp only [decreaseExponent] at h₁' h₂'
      by_contra hpos
      have := Int.mul_le_mul_of_nonneg_right (le_of_not_gt hpos) hP.le
      rw [sub_mul, h₁', h₂', zero_mul] at this
      omega

end Float.Model.UnpackedFloat

namespace Float

open Float.Model Float.Model.UnpackedFloat

theorem units_zero : (0.0 : Float).units = 0 := by
  have h : (0.0 : Float).toModel.unpack = .zero .positive := by rfl
  simp [units, h, UnpackedFloat.units]

theorem unpack_sub (a b : Float) :
    (b - a).toModel.unpack =
      UnpackedFloat.unpack Format.binary64
        (UnpackedFloat.pack Format.binary64
          (UnpackedFloat.sub Format.binary64 b.toModel.unpack a.toModel.unpack)) :=
  rfl

theorem isNaN_sub_of_sub_notANumber {a b : Float}
    (h : UnpackedFloat.sub Format.binary64 b.toModel.unpack a.toModel.unpack = .notANumber) :
    (b - a).isNaN = true := by
  change (b - a).toModel.unpack.isNaN = true
  rw [unpack_sub, h]
  simp [UnpackedFloat.pack, UnpackedFloat.isNaN]

/-- A difference with a NaN operand is NaN. -/
theorem isNaN_sub {a b : Float} (h : a.isNaN = true ∨ b.isNaN = true) :
    (b - a).isNaN = true := by
  apply isNaN_sub_of_sub_notANumber
  rcases h with h | h
  · rw [unpack_eq_of_isNaN h]
    cases b.toModel.unpack <;> rfl
  · rw [unpack_eq_of_isNaN h]
    rfl

/-- A positive difference `b - a` puts `a` below `b`: rounding never gives a difference of the
wrong sign, and NaN is not positive. -/
theorem lt_of_sub_pos {a b : Float} (h : 0.0 < b - a) : a < b := by
  obtain ⟨-, hd, hpos⟩ := lt_iff_units.mp h
  rw [units_zero] at hpos
  by_contra hab
  cases ha : a.isNaN <;> cases hb : b.isNaN
  · have hle : b.units ≤ a.units := by
      by_contra hlt
      exact hab (lt_iff_units.mpr ⟨ha, hb, by omega⟩)
    rcases sub_nonPos_or_nan (shaped_unpack _) (shaped_unpack _) hb ha hle with hn | hn
    · rw [isNaN_sub_of_sub_notANumber hn] at hd
      cases hd
    · have := (nonPos_unpack_pack hn).units_nonpos.1
      rw [← unpack_sub] at this
      change (b - a).units ≤ 0 at this
      omega
  · rw [isNaN_sub (Or.inr hb)] at hd
    cases hd
  all_goals
    rw [isNaN_sub (Or.inl ha)] at hd
    cases hd

/-- A double below another leaves a positive gap: rounding never takes the difference of two
ordered doubles to zero. -/
theorem sub_pos_of_lt {a b : Float} (h : a < b) : 0.0 < b - a := by
  obtain ⟨ha, hb, hlt⟩ := lt_iff_units.mp h
  have hpos : 0 < (b - a).units := by
    have := (pos_unpack_pack_sub (shaped_unpack _) (shaped_unpack _) hb ha hlt).units_pos
    rw [← unpack_sub] at this
    exact this
  refine lt_iff_units.mpr ⟨rfl, ?_, by rw [units_zero]; exact hpos⟩
  -- a NaN counts as zero, so a positive count is not a NaN
  cases hd : (b - a).isNaN
  · rfl
  · rw [Float.units, unpack_eq_of_isNaN hd] at hpos
    cases hpos

end Float
