import Mathlib

/-!
# The order of doubles

Doubles are compared by `Float.Model`: a double is unpacked into a sign, a mantissa and an
exponent, and two unpacked values are compared by sign first, then exponent, then mantissa.
That comparison is the order of the real numbers only because `unpack` always gives the same
shape for a finite double: at most 53 bits of mantissa, a full 53 bits unless the exponent is the
least one (`Canonical`).

Here every double is given its exact value in units of the least subnormal `2^-1074`
(`Float.units`, the infinities beyond every finite double), and `<`, `≤` and `==` on doubles
are shown to be `<`, `≤` and `=` on these integers, away from NaN (`Float.lt_iff_units`,
`Float.le_iff_units`, `Float.beq_iff_units`). The usual laws of an order then follow from the
integers': transitivity everywhere, totality away from NaN.
-/

namespace Float.Model.UnpackedFloat

/-- The mantissa and exponent of a finite double as `unpack` gives them: at most 53 bits, an
exponent in the double's range, and a full 53 bits unless the exponent is the least one. -/
def Canonical (m : Nat) (e : Int) : Prop :=
  m < 2 ^ 53 ∧ -1074 ≤ e ∧ e ≤ 971 ∧ (2 ^ 52 ≤ m ∨ e = -1074)

/-- The values `unpack` gives: every finite one is canonical. -/
def Shaped : UnpackedFloat → Prop
  | .finite _ m e _ => Canonical m e
  | _ => True

/-- The largest exponent of a double, counted from the least subnormal's. -/
def topExponent : Nat := 2045

/-- A count of least subnormals beyond every finite double. -/
@[irreducible] def beyond : Nat := 2 ^ 53 * 2 ^ topExponent

/-- The exact value in units of the least subnormal `2^-1074`; the infinities lie beyond every
finite double, and NaN is put at zero. -/
def units : UnpackedFloat → Int
  | .finite s m e _ => s.apply (m * 2 ^ (e + 1074).toNat)
  | .zero _ => 0
  | .infinity s => s.apply beyond
  | .notANumber => 0

theorem beyond_pos : (0 : Int) < beyond := by
  unfold beyond
  positivity

/-- Every word unpacks to a shaped value: a normal double carries its hidden bit, a subnormal
one sits at the least exponent. -/
theorem shaped_unpack (v : Float.Model) : Shaped v.unpack := by
  have hmant := (@unpackMantissa Format.binary64 v.toBits.toBitVec).isLt
  have hexp := (@unpackExponent Format.binary64 v.toBits.toBitVec).isLt
  simp only [Float.Model.unpack, UnpackedFloat.unpack]
  split
  · split <;> trivial
  · rename_i hinf
    split
    · rename_i hzero
      split
      · trivial
      · simp only [Shaped, Canonical, hzero, BitVec.toNat_ofNat]
        simp only [Format.exponentBias, Format.binary64] at hmant ⊢
        omega
    · rename_i hnz
      have h0 : (@unpackExponent Format.binary64 v.toBits.toBitVec).toNat ≠ 0 :=
        fun h => hnz (BitVec.eq_of_toNat_eq h)
      have h1 : (@unpackExponent Format.binary64 v.toBits.toBitVec).toNat ≠ 2047 :=
        fun h => hinf (BitVec.eq_of_toNat_eq (by simpa using h))
      have hone : (1#1).toNat = 1 := rfl
      simp only [Shaped, Canonical]
      rw [BitVec.toNat_append, ← Nat.shiftLeft_add_eq_or_of_lt hmant]
      simp only [Format.exponentBias, Format.binary64, Nat.shiftLeft_eq, hone] at hmant hexp h0 h1 ⊢
      omega

/-! ## Canonical values compare by their exact values -/

/-- A smaller exponent means a smaller value: the larger exponent is not the least one, so its
mantissa has all 53 bits. -/
theorem Canonical.scaled_lt_scaled {m₁ m₂ : Nat} {e₁ e₂ : Int} (h₁ : Canonical m₁ e₁)
    (h₂ : Canonical m₂ e₂) (he : e₁ < e₂) :
    m₁ * 2 ^ (e₁ + 1074).toNat < m₂ * 2 ^ (e₂ + 1074).toNat := by
  have hl := h₁.2.1
  calc m₁ * 2 ^ (e₁ + 1074).toNat < 2 ^ 53 * 2 ^ (e₁ + 1074).toNat :=
        Nat.mul_lt_mul_of_pos_right h₁.1 (by positivity)
    _ = 2 ^ 52 * 2 ^ ((e₁ + 1074).toNat + 1) := by ring
    _ ≤ 2 ^ 52 * 2 ^ (e₂ + 1074).toNat :=
        Nat.mul_le_mul_left _ (Nat.pow_le_pow_right (by norm_num) (by omega))
    _ ≤ m₂ * 2 ^ (e₂ + 1074).toNat :=
        Nat.mul_le_mul_right _ (h₂.2.2.2.resolve_right (by omega))

/-- A finite double lies strictly between zero and `beyond`, in magnitude. -/
theorem Canonical.scaled_pos_lt {m : Nat} {e : Int} (hc : Canonical m e) (hm : 0 < m) :
    (0 : Int) < m * 2 ^ (e + 1074).toNat ∧ (m * 2 ^ (e + 1074).toNat : Int) < beyond := by
  have h : m * 2 ^ (e + 1074).toNat < beyond := by
    unfold beyond
    exact Nat.mul_lt_mul_of_lt_of_le hc.1
      (Nat.pow_le_pow_right (by norm_num) (by have := hc.2.2.1; unfold topExponent; omega))
      (by positivity)
  refine ⟨by positivity, ?_⟩
  calc (m * 2 ^ (e + 1074).toNat : Int) = ((m * 2 ^ (e + 1074).toNat : Nat) : Int) := by
        push_cast; rfl
    _ < beyond := Nat.cast_lt.mpr h

/-- On canonical finite doubles of one sign, comparing exponents first and mantissas next
compares the exact values. -/
theorem Canonical.then_compare {m₁ m₂ : Nat} {e₁ e₂ : Int} (h₁ : Canonical m₁ e₁)
    (h₂ : Canonical m₂ e₂) :
    (compare e₁ e₂).then (compare m₁ m₂) =
      compare (m₁ * 2 ^ (e₁ + 1074).toNat : Int) (m₂ * 2 ^ (e₂ + 1074).toNat) := by
  rcases lt_trichotomy e₁ e₂ with he | rfl | he
  · have hv : (m₁ * 2 ^ (e₁ + 1074).toNat : Int) < m₂ * 2 ^ (e₂ + 1074).toNat := by
      exact_mod_cast h₁.scaled_lt_scaled h₂ he
    rw [compare_lt_iff_lt.mpr he, compare_lt_iff_lt.mpr hv]
    rfl
  · rw [compare_eq_iff_eq.mpr rfl, Ordering.eq_then]
    have hp : (0 : Int) < 2 ^ (e₁ + 1074).toNat := by positivity
    rcases lt_trichotomy m₁ m₂ with hm | rfl | hm
    · rw [compare_lt_iff_lt.mpr hm, compare_lt_iff_lt.mpr (by gcongr)]
    · rw [compare_eq_iff_eq.mpr rfl, compare_eq_iff_eq.mpr rfl]
    · rw [compare_gt_iff_gt.mpr hm, compare_gt_iff_gt.mpr (by gcongr)]
  · have hv : (m₂ * 2 ^ (e₂ + 1074).toNat : Int) < m₁ * 2 ^ (e₁ + 1074).toNat := by
      exact_mod_cast h₂.scaled_lt_scaled h₁ he
    rw [compare_gt_iff_gt.mpr he, compare_gt_iff_gt.mpr hv]
    rfl

theorem compare_neg_neg (a b : Int) : compare (-a) (-b) = compare b a := by
  rcases lt_trichotomy a b with h | rfl | h
  · rw [compare_gt_iff_gt.mpr (neg_lt_neg h), compare_gt_iff_gt.mpr h]
  · rw [compare_eq_iff_eq.mpr rfl, compare_eq_iff_eq.mpr rfl]
  · rw [compare_lt_iff_lt.mpr (neg_lt_neg h), compare_lt_iff_lt.mpr h]

/-! The cases of `UnpackedFloat.compare` used below, read off by reduction: its equations
overlap, so they are costly to generate and `simp` is never asked to unfold it. -/

theorem compare_notANumber_left (b : UnpackedFloat) : UnpackedFloat.compare .notANumber b = none :=
  rfl

theorem compare_notANumber_right (a : UnpackedFloat) : a.compare .notANumber = none := by
  cases a <;> rfl

theorem compare_negative_finite {m₁ m₂ : Nat} {e₁ e₂ : Int} {h₁ : 0 < m₁} {h₂ : 0 < m₂} :
    (finite .negative m₁ e₁ h₁).compare (finite .negative m₂ e₂ h₂) =
      some ((compare e₁ e₂).then (compare m₁ m₂)).swap :=
  rfl

theorem compare_positive_finite {m₁ m₂ : Nat} {e₁ e₂ : Int} {h₁ : 0 < m₁} {h₂ : 0 < m₂} :
    (finite .positive m₁ e₁ h₁).compare (finite .positive m₂ e₂ h₂) =
      some ((compare e₁ e₂).then (compare m₁ m₂)) :=
  rfl

/-! Each case of `UnpackedFloat.compare` but two finite values of one sign answers a fixed
ordering; these say when that ordering is the one of the exact values. -/

theorem some_lt_eq {x y : Int} (h : x < y) : some Ordering.lt = some (compare x y) := by
  rw [compare_lt_iff_lt.mpr h]

theorem some_gt_eq {x y : Int} (h : y < x) : some Ordering.gt = some (compare x y) := by
  rw [compare_gt_iff_gt.mpr h]

theorem some_eq_eq {x y : Int} (h : x = y) : some Ordering.eq = some (compare x y) := by
  rw [compare_eq_iff_eq.mpr h]

/-- Shaped values other than NaN compare as their exact values do. The cases follow
`UnpackedFloat.compare`: an infinity or a sign decides at once, and only two finite values of
one sign compare their exponents and mantissas. -/
theorem compare_eq_units {a b : UnpackedFloat} (ha : a.Shaped) (hb : b.Shaped)
    (ha' : a.isNaN = false) (hb' : b.isNaN = false) :
    a.compare b = some (compare a.units b.units) := by
  have hβ := beyond_pos
  cases a with
  | notANumber => cases ha'
  | infinity s₁ =>
    cases b with
    | notANumber => cases hb'
    | infinity s₂ =>
      cases s₁ <;> cases s₂
      · exact some_eq_eq rfl
      · exact some_lt_eq (by simp only [units, Sign.apply]; omega)
      · exact some_gt_eq (by simp only [units, Sign.apply]; omega)
      · exact some_eq_eq rfl
    | zero s₂ =>
      cases s₁
      · exact some_lt_eq (by simp only [units, Sign.apply]; omega)
      · exact some_gt_eq (by simp only [units, Sign.apply]; omega)
    | finite s₂ m₂ e₂ h₂ =>
      have := Canonical.scaled_pos_lt hb h₂
      cases s₁ <;> cases s₂
      · exact some_lt_eq (by simp only [units, Sign.apply]; omega)
      · exact some_lt_eq (by simp only [units, Sign.apply]; omega)
      · exact some_gt_eq (by simp only [units, Sign.apply]; omega)
      · exact some_gt_eq (by simp only [units, Sign.apply]; omega)
  | zero s₁ =>
    cases b with
    | notANumber => cases hb'
    | infinity s₂ =>
      cases s₂
      · exact some_gt_eq (by simp only [units, Sign.apply]; omega)
      · exact some_lt_eq (by simp only [units, Sign.apply]; omega)
    | zero s₂ => exact some_eq_eq rfl
    | finite s₂ m₂ e₂ h₂ =>
      have := Canonical.scaled_pos_lt hb h₂
      cases s₂
      · exact some_gt_eq (by simp only [units, Sign.apply]; omega)
      · exact some_lt_eq (by simp only [units, Sign.apply]; omega)
  | finite s₁ m₁ e₁ h₁ =>
    have := Canonical.scaled_pos_lt ha h₁
    cases b with
    | notANumber => cases hb'
    | infinity s₂ =>
      cases s₁ <;> cases s₂
      · exact some_gt_eq (by simp only [units, Sign.apply]; omega)
      · exact some_lt_eq (by simp only [units, Sign.apply]; omega)
      · exact some_gt_eq (by simp only [units, Sign.apply]; omega)
      · exact some_lt_eq (by simp only [units, Sign.apply]; omega)
    | zero s₂ =>
      cases s₁
      · exact some_lt_eq (by simp only [units, Sign.apply]; omega)
      · exact some_gt_eq (by simp only [units, Sign.apply]; omega)
    | finite s₂ m₂ e₂ h₂ =>
      have := Canonical.scaled_pos_lt hb h₂
      cases s₁ <;> cases s₂
      · -- two negative values: the larger magnitude is the smaller value
        simp only [compare_negative_finite, units, Sign.apply, compare_neg_neg,
          Canonical.then_compare ha hb, Int.compare_swap]
      · exact some_lt_eq (by simp only [units, Sign.apply]; omega)
      · exact some_gt_eq (by simp only [units, Sign.apply]; omega)
      · simp only [compare_positive_finite, units, Sign.apply, Canonical.then_compare ha hb]

end Float.Model.UnpackedFloat

namespace Float

open Float.Model Float.Model.UnpackedFloat

/-- The exact value of a double in units of the least subnormal `2^-1074`, the infinities
beyond every finite double (NaN is put at zero). -/
def units (a : Float) : Int := a.toModel.unpack.units

theorem compare_toModel {a b : Float} (ha : a.isNaN = false) (hb : b.isNaN = false) :
    a.toModel.unpack.compare b.toModel.unpack = some (compare a.units b.units) :=
  compare_eq_units (shaped_unpack _) (shaped_unpack _) ha hb

theorem unpack_eq_of_isNaN {a : Float} (h : a.isNaN = true) :
    a.toModel.unpack = .notANumber := by
  change a.toModel.unpack.isNaN = true at h
  cases hu : a.toModel.unpack <;> simp_all [UnpackedFloat.isNaN]

/-- `a < b` on doubles is `<` on exact values, and never holds with NaN. -/
theorem lt_iff_units {a b : Float} :
    a < b ↔ a.isNaN = false ∧ b.isNaN = false ∧ a.units < b.units := by
  show Float.lt a b = true ↔ _
  simp only [Float.lt, decide_eq_true_eq]
  change a.toModel.unpack.lt b.toModel.unpack = true ↔ _
  cases ha : a.isNaN <;> cases hb : b.isNaN
  · simp [UnpackedFloat.lt, compare_toModel ha hb, Int.compare_eq_lt]
  · simp [UnpackedFloat.lt, unpack_eq_of_isNaN hb, compare_notANumber_right]
  · simp [UnpackedFloat.lt, unpack_eq_of_isNaN ha, compare_notANumber_left]
  · simp [UnpackedFloat.lt, unpack_eq_of_isNaN ha, compare_notANumber_left]

/-- `a ≤ b` on doubles is `≤` on exact values, and never holds with NaN. -/
theorem le_iff_units {a b : Float} :
    a ≤ b ↔ a.isNaN = false ∧ b.isNaN = false ∧ a.units ≤ b.units := by
  show Float.le a b = true ↔ _
  simp only [Float.le, decide_eq_true_eq]
  change a.toModel.unpack.le b.toModel.unpack = true ↔ _
  cases ha : a.isNaN <;> cases hb : b.isNaN
  · simp [UnpackedFloat.le, compare_toModel ha hb, Int.isLE_compare]
  · simp [UnpackedFloat.le, unpack_eq_of_isNaN hb, compare_notANumber_right]
  · simp [UnpackedFloat.le, unpack_eq_of_isNaN ha, compare_notANumber_left]
  · simp [UnpackedFloat.le, unpack_eq_of_isNaN ha, compare_notANumber_left]

/-- `a == b` on doubles is `=` on exact values (so `0.0 == -0.0`), and never holds with NaN. -/
theorem beq_iff_units {a b : Float} :
    (a == b) = true ↔ a.isNaN = false ∧ b.isNaN = false ∧ a.units = b.units := by
  show Float.beq a b = true ↔ _
  change a.toModel.unpack.beq b.toModel.unpack = true ↔ _
  cases ha : a.isNaN <;> cases hb : b.isNaN
  · simp [UnpackedFloat.beq, compare_toModel ha hb]
  · simp [UnpackedFloat.beq, unpack_eq_of_isNaN hb, compare_notANumber_right]
  · simp [UnpackedFloat.beq, unpack_eq_of_isNaN ha, compare_notANumber_left]
  · simp [UnpackedFloat.beq, unpack_eq_of_isNaN ha, compare_notANumber_left]

/-! ## The laws of the order -/

section Laws

variable {a b c : Float}

theorem lt_irrefl (a : Float) : ¬a < a := fun h => by
  have := lt_iff_units.mp h
  omega

theorem lt_trans (h₁ : a < b) (h₂ : b < c) : a < c := by
  obtain ⟨ha, -, h₁⟩ := lt_iff_units.mp h₁
  obtain ⟨-, hc, h₂⟩ := lt_iff_units.mp h₂
  exact lt_iff_units.mpr ⟨ha, hc, by omega⟩

theorem le_trans (h₁ : a ≤ b) (h₂ : b ≤ c) : a ≤ c := by
  obtain ⟨ha, -, h₁⟩ := le_iff_units.mp h₁
  obtain ⟨-, hc, h₂⟩ := le_iff_units.mp h₂
  exact le_iff_units.mpr ⟨ha, hc, by omega⟩

theorem lt_of_lt_of_le (h₁ : a < b) (h₂ : b ≤ c) : a < c := by
  obtain ⟨ha, -, h₁⟩ := lt_iff_units.mp h₁
  obtain ⟨-, hc, h₂⟩ := le_iff_units.mp h₂
  exact lt_iff_units.mpr ⟨ha, hc, by omega⟩

theorem lt_of_le_of_lt (h₁ : a ≤ b) (h₂ : b < c) : a < c := by
  obtain ⟨ha, -, h₁⟩ := le_iff_units.mp h₁
  obtain ⟨-, hc, h₂⟩ := lt_iff_units.mp h₂
  exact lt_iff_units.mpr ⟨ha, hc, by omega⟩

theorem le_of_lt (h : a < b) : a ≤ b := by
  obtain ⟨ha, hb, h⟩ := lt_iff_units.mp h
  exact le_iff_units.mpr ⟨ha, hb, by omega⟩

/-- Away from NaN the order is total. -/
theorem not_lt_iff_le (ha : a.isNaN = false) (hb : b.isNaN = false) : ¬a < b ↔ b ≤ a := by
  rw [lt_iff_units, le_iff_units]
  simp only [ha, hb, true_and, not_lt]

theorem le_refl (ha : a.isNaN = false) : a ≤ a :=
  le_iff_units.mpr ⟨ha, ha, Int.le_refl _⟩

/-- Away from NaN, `==` is an equivalence: a double equals itself, and equality is symmetric and
transitive everywhere, since it holds only between numbers. -/
theorem beq_self (ha : a.isNaN = false) : (a == a) = true :=
  beq_iff_units.mpr ⟨ha, ha, rfl⟩

theorem beq_symm (h : (a == b) = true) : (b == a) = true := by
  obtain ⟨ha, hb, h⟩ := beq_iff_units.mp h
  exact beq_iff_units.mpr ⟨hb, ha, h.symm⟩

theorem beq_trans (h₁ : (a == b) = true) (h₂ : (b == c) = true) : (a == c) = true := by
  obtain ⟨ha, -, h₁⟩ := beq_iff_units.mp h₁
  obtain ⟨-, hc, h₂⟩ := beq_iff_units.mp h₂
  exact beq_iff_units.mpr ⟨ha, hc, h₁.trans h₂⟩

end Laws

end Float
