import Mathlib
import GammaFit.Background
import GammaFit.Proofs.Moments

/-!
# The two-point background in exact arithmetic

Edge windows and two-point backgrounds are written for any numbers; read in the rationals, with
a window's extremes the least and the greatest of its samples (`Edge.exactWindow?`), they are
the backgrounds in exact arithmetic.

A window's average then lies between its extremes (`Edge.exactWindow?_average_between`), since
the sum of `n` samples lies between `n` times the least and `n` times the greatest. So the line
through two windows' averages starts inside its bounds: the intercept between the left window's
extremes, and the slope between the slopes joining opposite extremes of the two windows.

The regression and the summation background are one line, the second held where the first is
free (`summation_eq_map_held`). Both pass through the left window's average at its last bin and
through the right window's average at its first bin (`two_point_backgrounds`).
-/

namespace GammaFit

/-! ## Running extremes -/

section Fold

variable {α : Type} [LinearOrder α]

theorem foldl_min_le_init (a : α) (l : List α) : l.foldl min a ≤ a := by
  induction l generalizing a with
  | nil => exact le_rfl
  | cons v l ih => exact (ih (min a v)).trans (min_le_left a v)

/-- A running minimum ends at most every member it passed. -/
theorem foldl_min_le_mem (a : α) (l : List α) : ∀ v ∈ l, l.foldl min a ≤ v := by
  induction l generalizing a with
  | nil => simp
  | cons w l ih =>
    intro v hv
    rcases List.mem_cons.mp hv with rfl | hv
    · exact (foldl_min_le_init (min a v) l).trans (min_le_right a v)
    · exact ih (min a w) v hv

/-- A running maximum ends at least every member it passed: the minimum in the dual order. -/
theorem le_foldl_max_mem (a : α) (l : List α) : ∀ v ∈ l, v ≤ l.foldl max a :=
  foldl_min_le_mem (α := αᵒᵈ) a l

end Fold

/-- The mean of a nonempty list lies between any bounds of its members. -/
theorem mean_between {α : Type} [Field α] [LinearOrder α] [IsStrictOrderedRing α] {l : List α}
    {lo hi : α} (hn : l ≠ []) (hlo : ∀ v ∈ l, lo ≤ v) (hhi : ∀ v ∈ l, v ≤ hi) :
    lo ≤ l.sum / l.length ∧ l.sum / l.length ≤ hi := by
  have hpos : (0 : α) < l.length := by exact_mod_cast List.length_pos_iff.mpr hn
  have hsum_lo : l.length * lo ≤ l.sum := by simpa using List.card_nsmul_le_sum l lo hlo
  have hsum_hi : l.sum ≤ l.length * hi := by simpa using List.sum_le_card_nsmul l hi hhi
  exact ⟨(le_div_iff₀ hpos).2 (by linarith), (div_le_iff₀ hpos).2 (by linarith)⟩

/-! ## Windows of exact counts -/

namespace Edge

/-- The window of exact counts: a count is read as the number it is, and the extremes are the
running minimum and maximum from the first sample, as in doubles. -/
def exactWindow? (x y : Array ℚ) (first last : Int) : Option (Edge ℚ) :=
  window? (fun n => (n : ℚ)) (fun s => s.foldl Min.min (s.getD 0 0))
    (fun s => s.foldl Max.max (s.getD 0 0)) x y first last

theorem extremes_bound (s : Array ℚ) :
    ∀ v ∈ s.toList, s.foldl Min.min (s.getD 0 0) ≤ v ∧ v ≤ s.foldl Max.max (s.getD 0 0) := by
  intro v hv
  rw [← Array.foldl_toList, ← Array.foldl_toList]
  exact ⟨foldl_min_le_mem _ _ v hv, le_foldl_max_mem _ _ v hv⟩

/-- A window's average lies between its least and its greatest sample. -/
theorem exactWindow?_average_between {x y : Array ℚ} {i j : Int} {e : Edge ℚ}
    (h : exactWindow? x y i j = some e) : e.min ≤ e.average ∧ e.average ≤ e.max := by
  unfold exactWindow? window? at h
  split_ifs at h with hbad
  cases h
  simp only [not_or, not_lt, not_le] at hbad
  obtain ⟨-, hi, hj, hij⟩ := hbad
  set s := y.extract i.toNat (j.toNat + 1)
  -- the indices name a run inside the counts, so the samples are its `j - i + 1` entries
  have hsize : s.toList.length = j.toNat - i.toNat + 1 := by
    rw [Array.length_toList]
    exact Summation.size_extract y (by omega) (by omega)
  have hne : s.toList ≠ [] := List.ne_nil_of_length_pos (by omega)
  have hmean := mean_between hne (fun v hv => (extremes_bound s v hv).1)
    (fun v hv => (extremes_bound s v hv).2)
  rw [hsize] at hmean
  simpa [Numeric.sum_eq_list_sum] using hmean

end Edge

/-! ## The line between two windows -/

namespace Background

section Held

variable {α : Type} [OfScientific α] [Neg α] [Div α]

/-- The background with every coefficient held at its value. -/
def held (b : Background α) : Background α :=
  { b with coeffs := b.coeffs.map fun p => { p with fixed := true } }

@[simp] theorem coefficients_held (b : Background α) : (held b).coefficients = b.coefficients := by
  simp [held, coefficients, Param.effective]

/-- Holding the coefficients leaves their contributions, so the held line is the same line. -/
theorem evalWith_held [Add α] [Sub α] [Mul α] [Zero α] (pow : α → Nat → α) (b : Background α)
    (v : α) : (held b).evalWith pow v = b.evalWith pow v := by
  simp only [evalWith, coefficients_held]
  rfl

@[simp] theorem freeParams_held [Sub α] [LT α] [DecidableLT α] (b : Background α) :
    (held b).freeParams = [] := by
  simp [held, freeParams, Param.free]

/-- The summation background is the regression background held. -/
theorem summation_eq_map_held [Sub α] [LE α] [DecidableLE α] (lb rb : Edge α) :
    summation lb rb = (regression lb rb).map held := by
  unfold summation regression twoPoint
  dsimp only
  split <;> rfl

end Held

variable {lb rb : Edge ℚ} {fixed : Bool} {b : Background ℚ}

theorem twoPoint_eq_none_iff : twoPoint lb rb fixed = none ↔ rb.start ≤ lb.stop := by
  unfold twoPoint
  dsimp only
  split_ifs with h <;> norm_num at h ⊢ <;> linarith

theorem eq_of_twoPoint (h : twoPoint lb rb fixed = some b) :
    lb.stop < rb.start ∧
      b = ⟨[{ name := "a0", value := lb.average, lower := lb.min, upper := lb.max, fixed },
        { name := "a1", value := (rb.average - lb.average) / (rb.start - lb.stop),
          lower := (rb.min - lb.max) / (rb.start - lb.stop),
          upper := (rb.max - lb.min) / (rb.start - lb.stop), fixed }], lb.stop⟩ := by
  unfold twoPoint at h
  dsimp only at h
  split_ifs at h with hrun
  cases h
  norm_num at hrun
  exact ⟨by linarith, rfl⟩

/-- The two-point background is the line through the left window's average at its last bin,
rising by the difference of the averages over the run between the windows. -/
theorem twoPoint_evalWith (h : twoPoint lb rb fixed = some b) (v : ℚ) :
    b.evalWith (fun v k => v ^ k) v =
      lb.average + (rb.average - lb.average) / (rb.start - lb.stop) * (v - lb.stop) := by
  obtain ⟨-, rfl⟩ := eq_of_twoPoint h
  rw [evalWith, Summation.polyAt_line (by simp [coefficients])]
  simp [coefficients, Param.effective]

/-- The line meets both windows' averages. -/
theorem twoPoint_through_averages (h : twoPoint lb rb fixed = some b) :
    b.evalWith (fun v k => v ^ k) lb.stop = lb.average ∧
      b.evalWith (fun v k => v ^ k) rb.start = rb.average := by
  have hrun : rb.start - lb.stop ≠ 0 := sub_ne_zero.2 (eq_of_twoPoint h).1.ne'
  rw [twoPoint_evalWith h, twoPoint_evalWith h, div_mul_cancel₀ _ hrun]
  constructor <;> ring

/-- Where each window's average lies between its extremes, each coefficient of the line starts
inside its bounds: the slope between the slopes joining opposite extremes. -/
theorem twoPoint_within_bounds (hl : lb.min ≤ lb.average ∧ lb.average ≤ lb.max)
    (hr : rb.min ≤ rb.average ∧ rb.average ≤ rb.max) (h : twoPoint lb rb fixed = some b) :
    ∀ p ∈ b.coeffs, p.lower ≤ p.value ∧ p.value ≤ p.upper := by
  obtain ⟨hrun, rfl⟩ := eq_of_twoPoint h
  have hpos : 0 < rb.start - lb.stop := sub_pos.2 hrun
  simp only [List.mem_cons, List.not_mem_nil, or_false, forall_eq_or_imp, forall_eq]
  refine ⟨hl, (div_le_div_iff_of_pos_right hpos).2 ?_, (div_le_div_iff_of_pos_right hpos).2 ?_⟩
  · linarith
  · linarith

/-- A coefficient of the line is free when the line is not held and its bounds are apart. -/
theorem twoPoint_free (h : twoPoint lb rb fixed = some b) :
    ∀ p ∈ b.coeffs, p.fixed = fixed ∧
      (p.free = true ↔ fixed = false ∧ boundTolerance < p.upper - p.lower) := by
  obtain ⟨-, rfl⟩ := eq_of_twoPoint h
  simp [Param.free]

/-- Between two windows of exact counts, the regression and the summation background are
`none` exactly when the right window does not start after the left one ends. Otherwise the
summation background is the regression background held, and the regression background is
anchored at the left window's last bin, with the intercept at the left window's average
between its extremes and the slope at the slope between the averages, between the slopes
joining opposite extremes. Every coefficient starts inside its bounds; both backgrounds pass
through the left average at the left window's last bin and the right average at the right
window's first bin; the regression coefficients are free exactly when their bounds are further
apart than the tolerance, and the summation background has none free. -/
theorem two_point_backgrounds {x y x' y' : Array ℚ} {i j i' j' : Int}
    (hl : Edge.exactWindow? x y i j = some lb) (hr : Edge.exactWindow? x' y' i' j' = some rb) :
    (regression lb rb = none ↔ rb.start ≤ lb.stop) ∧
    (summation lb rb = none ↔ rb.start ≤ lb.stop) ∧
    summation lb rb = (regression lb rb).map held ∧
    ∀ b ∈ regression lb rb,
      b.xoffset = lb.stop ∧
      b.coeffs.map (fun p => (p.value, p.lower, p.upper)) =
        [(lb.average, lb.min, lb.max),
          ((rb.average - lb.average) / (rb.start - lb.stop),
            (rb.min - lb.max) / (rb.start - lb.stop), (rb.max - lb.min) / (rb.start - lb.stop))] ∧
      (∀ p ∈ b.coeffs, p.lower ≤ p.value ∧ p.value ≤ p.upper) ∧
      (∀ c ∈ [b, held b], c.evalWith (fun v k => v ^ k) lb.stop = lb.average ∧
        c.evalWith (fun v k => v ^ k) rb.start = rb.average) ∧
      (∀ p ∈ b.coeffs, p.fixed = false ∧ (p.free = true ↔ boundTolerance < p.upper - p.lower)) ∧
      (held b).freeParams = [] := by
  refine ⟨twoPoint_eq_none_iff, twoPoint_eq_none_iff, summation_eq_map_held lb rb, ?_⟩
  intro b hb
  have h : twoPoint lb rb false = some b := hb
  have hthrough := twoPoint_through_averages h
  have hbounds := twoPoint_within_bounds (Edge.exactWindow?_average_between hl)
    (Edge.exactWindow?_average_between hr) h
  have hfree := twoPoint_free h
  obtain ⟨-, rfl⟩ := eq_of_twoPoint h
  refine ⟨rfl, rfl, hbounds, ?_, fun p hp => by simpa using hfree p hp, freeParams_held _⟩
  simp only [List.mem_cons, List.not_mem_nil, or_false, forall_eq_or_imp, forall_eq,
    evalWith_held]
  exact ⟨hthrough, hthrough⟩

/-- Bins `0 … 5` with counts `1, 3, 2, 5, 7, 6`: the windows over the first two and the last two
bins. -/
theorem two_point_backgrounds_on_six_bins :
    ∃ lb rb : Edge ℚ,
      Edge.exactWindow? #[0, 1, 2, 3, 4, 5] #[1, 3, 2, 5, 7, 6] 0 1 = some lb ∧
      Edge.exactWindow? #[0, 1, 2, 3, 4, 5] #[1, 3, 2, 5, 7, 6] 4 5 = some rb ∧
      ((regression lb rb = none ↔ rb.start ≤ lb.stop) ∧
      (summation lb rb = none ↔ rb.start ≤ lb.stop) ∧
      summation lb rb = (regression lb rb).map held ∧
      ∀ b ∈ regression lb rb,
        b.xoffset = lb.stop ∧
        b.coeffs.map (fun p => (p.value, p.lower, p.upper)) =
          [(lb.average, lb.min, lb.max),
            ((rb.average - lb.average) / (rb.start - lb.stop),
              (rb.min - lb.max) / (rb.start - lb.stop),
              (rb.max - lb.min) / (rb.start - lb.stop))] ∧
        (∀ p ∈ b.coeffs, p.lower ≤ p.value ∧ p.value ≤ p.upper) ∧
        (∀ c ∈ [b, held b], c.evalWith (fun v k => v ^ k) lb.stop = lb.average ∧
          c.evalWith (fun v k => v ^ k) rb.start = rb.average) ∧
        (∀ p ∈ b.coeffs, p.fixed = false ∧ (p.free = true ↔ boundTolerance < p.upper - p.lower)) ∧
        (held b).freeParams = []) := by
  obtain ⟨lb, hl⟩ : ∃ lb, Edge.exactWindow? #[0, 1, 2, 3, 4, 5] #[1, 3, 2, 5, 7, 6] 0 1 = some lb :=
    ⟨_, rfl⟩
  obtain ⟨rb, hr⟩ : ∃ rb, Edge.exactWindow? #[0, 1, 2, 3, 4, 5] #[1, 3, 2, 5, 7, 6] 4 5 = some rb :=
    ⟨_, rfl⟩
  exact ⟨lb, rb, hl, hr, two_point_backgrounds hl hr⟩

end Background

end GammaFit
