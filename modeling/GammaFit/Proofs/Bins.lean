import GammaFit.Proofs.Float.Difference
import GammaFit.Proofs.Spectrum

/-!
# Ascending bins and the searches in them

The bins of a spectrum strictly increase and none of them is NaN (`Ascending`). A finder is
only ever given bins that passed the spectrum check, so the bins of every finder ascend; the
search for candidates, a new model and the cut of a range carry the bins over unchanged.

On ascending bins the binary searches of the library return insertion points: `searchLeft`
the first bin at or above a value (`searchLeft_spec`), `searchRight` the first bin above it
(`searchRight_spec`). Both rest on one fact about `firstWith`: on a range where a test, once
passed, stays passed, it returns the first index that passes (`firstWith_spec`).
-/

namespace GammaFit

open Search (Finder)

/-- Bins in strictly increasing order, none of them NaN. -/
structure Ascending (x : Array Float) : Prop where
  not_nan : ∀ i < x.size, (x.getD i 0.0).isNaN = false
  lt_succ : ∀ i, i + 1 < x.size → x.getD i 0.0 < x.getD (i + 1) 0.0

namespace Ascending

variable {x : Array Float}

theorem empty : Ascending #[] where
  not_nan _ h := absurd h (Nat.not_lt_zero _)
  lt_succ _ h := absurd h (Nat.not_lt_zero _)

/-- A bin further on is larger. -/
theorem lt (h : Ascending x) {i j : Nat} (hij : i < j) (hj : j < x.size) :
    x.getD i 0.0 < x.getD j 0.0 := by
  induction j with
  | zero => omega
  | succ j ih =>
    rcases Nat.lt_succ_iff_lt_or_eq.mp hij with hij | rfl
    · exact Float.lt_trans (ih hij (by omega)) (h.lt_succ j hj)
    · exact h.lt_succ i hj

theorem le (h : Ascending x) {i j : Nat} (hij : i ≤ j) (hj : j < x.size) :
    x.getD i 0.0 ≤ x.getD j 0.0 := by
  rcases Nat.lt_or_eq_of_le hij with hij | rfl
  · exact Float.le_of_lt (h.lt hij hj)
  · exact Float.le_refl (h.not_nan i hj)

/-- The order of two bins is the order of their indices. -/
theorem lt_iff (h : Ascending x) {i j : Nat} (hi : i < x.size) (hj : j < x.size) :
    x.getD i 0.0 < x.getD j 0.0 ↔ i < j := by
  refine ⟨fun hlt => ?_, fun hij => h.lt hij hj⟩
  by_contra hji
  exact Float.lt_irrefl _ (Float.lt_of_lt_of_le hlt (h.le (by omega) hi))

end Ascending

/-- The bins of a spectrum ascend: the check asks every bin to be finite and every step
between neighbours to be positive. -/
theorem Spectrum.ascending_of_valid {x y : Array Float} (h : Spectrum.valid x y = true) :
    Ascending x := by
  unfold Spectrum.valid at h
  simp only [Bool.and_eq_true, List.all_eq_true, List.mem_range, Array.all_eq_true,
    Bool.not_eq_eq_eq_not, Bool.not_true, Bool.or_eq_false_iff] at h
  obtain ⟨⟨⟨-, hx⟩, -⟩, hinc⟩ := h
  refine ⟨fun i hi => ?_, fun i hi => Float.lt_of_sub_pos (of_decide_eq_true (hinc i (by omega)))⟩
  simp only [Array.getD_eq_getD_getElem?, Array.getElem?_eq_getElem hi, Option.getD_some]
  exact (hx i hi).1


/-! ## Insertion points -/

namespace Numeric

/-- On a range where the test fails before `k` and passes from `k` on, the search returns `k`. -/
theorem firstWith_eq {xs : Array Float} {p : Float → Bool} {lo hi k : Nat} :
    lo ≤ k → k ≤ hi → (∀ j, lo ≤ j → j < k → p (xs.getD j 0.0) = false) →
      (∀ j, k ≤ j → j < hi → p (xs.getD j 0.0) = true) → firstWith xs p lo hi = k := by
  fun_induction firstWith xs p lo hi with
  | case1 lo hi hlt mid hmid ih =>
    intro hlo hhi below above
    -- the middle passes, so `k` lies at or before it
    have hk : k ≤ mid := Nat.le_of_not_lt fun h =>
      Bool.false_ne_true ((below mid (by omega) h).symm.trans hmid)
    exact ih hlo hk below fun j hj _ => above j hj (by omega)
  | case2 lo hi hlt mid hmid ih =>
    intro hlo hhi below above
    -- the middle fails, so `k` lies after it
    have hk : mid < k := Nat.lt_of_not_le fun h => hmid (above mid h (by omega))
    exact ih hk hhi (fun j _ hj => below j (by omega) hj) above
  | case3 lo hi hge =>
    intro hlo hhi _ _
    omega

/-- The search never returns past the end of its range. -/
theorem firstWith_le {xs : Array Float} {p : Float → Bool} {lo hi : Nat} (hle : lo ≤ hi) :
    firstWith xs p lo hi ≤ hi := by
  fun_induction firstWith xs p lo hi with
  | case1 lo hi hlt mid _ ih => exact Nat.le_trans (ih (by omega)) (by omega)
  | case2 lo hi hlt mid _ ih => exact ih (by omega)
  | case3 => exact hle

/-- On a range where a test, once passed, stays passed, the search returns the first index
that passes: every index before it fails and every index from it on passes. -/
theorem firstWith_spec {xs : Array Float} {p : Float → Bool} {lo hi : Nat} (hle : lo ≤ hi)
    (hmono : ∀ i j, lo ≤ i → i ≤ j → j < hi →
      p (xs.getD i 0.0) = true → p (xs.getD j 0.0) = true) :
    (∀ j, lo ≤ j → j < firstWith xs p lo hi → p (xs.getD j 0.0) = false) ∧
      (∀ j, firstWith xs p lo hi ≤ j → j < hi → p (xs.getD j 0.0) = true) := by
  fun_induction firstWith xs p lo hi with
  | case1 lo hi hlt mid hmid ih =>
    -- the middle passes: the indices from it on pass, the rest is searched on the left
    obtain ⟨below, above⟩ := ih (by omega) fun i j hi hij hj => hmono i j hi hij (by omega)
    refine ⟨below, fun j hj hjhi => ?_⟩
    by_cases hjm : j < mid
    · exact above j hj hjm
    · exact hmono mid j (by omega) (by omega) hjhi hmid
  | case2 lo hi hlt mid hmid ih =>
    -- the middle fails: so do the indices before it, the rest is searched on the right
    obtain ⟨below, above⟩ := ih (by omega) fun i j hi hij hj => hmono i j (by omega) hij hj
    refine ⟨fun j hj hjk => ?_, above⟩
    by_cases hjm : mid < j
    · exact below j hjm hjk
    · cases hpj : p (xs.getD j 0.0)
      · rfl
      · exact absurd (hmono j mid hj (by omega) (by omega) hpj) (by simpa using hmid)
  | case3 lo hi hge =>
    exact ⟨fun j hj hjk => absurd hjk (by omega), fun j hj hjhi => absurd hjhi (by omega)⟩

theorem searchLeft_le_size (xs : Array Float) (v : Float) : searchLeft xs v ≤ xs.size :=
  firstWith_le (Nat.zero_le _)

theorem searchRight_le_size (xs : Array Float) (v : Float) : searchRight xs v ≤ xs.size :=
  firstWith_le (Nat.zero_le _)

end Numeric

namespace Ascending

variable {x : Array Float}

/-- A bin is found before itself: the insertion point on the left of a bin is its index. -/
theorem searchLeft_getD (h : Ascending x) {i : Nat} (hi : i < x.size) :
    Numeric.searchLeft x (x.getD i 0.0) = i := by
  unfold Numeric.searchLeft Numeric.sortLt
  refine Numeric.firstWith_eq (Nat.zero_le i) (Nat.le_of_lt hi) (fun j _ hj => ?_)
    (fun j hj hjs => ?_)
  · rw [decide_eq_true (h.lt hj hi), Bool.true_or, Bool.not_true]
  · have hnot : ¬x.getD j 0.0 < x.getD i 0.0 :=
      fun hlt => Float.lt_irrefl _ (Float.lt_of_lt_of_le hlt (h.le hj hjs))
    rw [decide_eq_false hnot, h.not_nan i hi, Bool.false_and, Bool.false_or, Bool.not_false]

/-- A bin is found after itself: the insertion point on the right of a bin is the next index. -/
theorem searchRight_getD (h : Ascending x) {i : Nat} (hi : i < x.size) :
    Numeric.searchRight x (x.getD i 0.0) = i + 1 := by
  unfold Numeric.searchRight Numeric.sortLt
  refine Numeric.firstWith_eq (Nat.zero_le _) hi (fun j _ hj => ?_) (fun j hj hjs => ?_)
  · have hnot : ¬x.getD i 0.0 < x.getD j 0.0 :=
      fun hlt => Float.lt_irrefl _ (Float.lt_of_lt_of_le hlt (h.le (by omega) hi))
    rw [decide_eq_false hnot, h.not_nan j (by omega), Bool.false_and, Bool.false_or]
  · rw [decide_eq_true (h.lt (by omega : i < j) hjs), Bool.true_or]

/-- The insertion point on the left of `v` is the first bin at or above `v`: a bin lies at or
after it exactly when it is not below `v`. A NaN sorts above every bin, so no bin is at or
above it. -/
theorem searchLeft_spec (h : Ascending x) (v : Float) {i : Nat} (hi : i < x.size) :
    Numeric.searchLeft x v ≤ i ↔ v ≤ x.getD i 0.0 := by
  -- on bins that are not NaN, the test `¬ a < v` (and `v` not NaN) is `v ≤ a`
  have htest : ∀ j < x.size,
      (!Numeric.sortLt (x.getD j 0.0) v) = true ↔ v ≤ x.getD j 0.0 := by
    intro j hj
    cases hv : v.isNaN
    · simp only [Numeric.sortLt, hv, h.not_nan j hj, Bool.false_and, Bool.or_false,
        Bool.not_eq_eq_eq_not, Bool.not_true, decide_eq_false_iff_not]
      exact Float.not_lt_iff_le (h.not_nan j hj) hv
    · simp only [Numeric.sortLt, hv, h.not_nan j hj, Bool.not_false, Bool.and_self,
        Bool.or_true, Bool.not_true, Bool.false_eq_true, false_iff]
      exact fun hle => Bool.false_ne_true ((Float.le_iff_units.mp hle).1.symm.trans hv)
  obtain ⟨below, above⟩ := Numeric.firstWith_spec
    (p := fun a => !Numeric.sortLt a v) (Nat.zero_le x.size) fun i j _ hij hj hpi =>
      (htest j hj).mpr (Float.le_trans ((htest i (by omega)).mp hpi) (h.le hij hj))
  refine ⟨fun hle => (htest i hi).mp (above i hle hi), fun hvi => ?_⟩
  by_contra hlt
  have := below i (Nat.zero_le i) (Nat.lt_of_not_le hlt)
  rw [(htest i hi).mpr hvi] at this
  cases this

/-- The insertion point on the right of `v` is the first bin above `v`: a bin lies before it
exactly when it is not above `v`. Nothing is above a NaN, so every bin lies before it. -/
theorem searchRight_spec (h : Ascending x) (v : Float) {i : Nat} (hi : i < x.size) :
    i < Numeric.searchRight x v ↔ ¬v < x.getD i 0.0 := by
  -- on bins that are not NaN, the test is `v < a`
  have htest : ∀ j < x.size, Numeric.sortLt v (x.getD j 0.0) = true ↔ v < x.getD j 0.0 := by
    intro j hj
    simp only [Numeric.sortLt, h.not_nan j hj, Bool.false_and, Bool.or_false, decide_eq_true_eq]
  obtain ⟨below, above⟩ := Numeric.firstWith_spec
    (p := fun a => Numeric.sortLt v a) (Nat.zero_le x.size) fun i j _ hij hj hpi =>
      (htest j hj).mpr (Float.lt_of_lt_of_le ((htest i (by omega)).mp hpi) (h.le hij hj))
  refine ⟨fun hlt hvi => ?_, fun hvi => ?_⟩
  · have := below i (Nat.zero_le i) hlt
    rw [(htest i hi).mpr hvi] at this
    cases this
  · by_contra hle
    exact hvi ((htest i hi).mp (above i (Nat.le_of_not_lt hle) hi))

end Ascending

/-! ## Finders keep their bins -/

namespace Search.Finder

variable {s : Settings} {f g : Finder}

/-- A finder is built from a spectrum or is empty, so its bins ascend and match its counts. -/
theorem ofData_bins {x y : Array Float} :
    Outcome.Post (ofData s x y) fun r => Ascending r.2.x ∧ r.2.x.size = r.2.y.size := by
  unfold ofData
  split
  · exact .pure ⟨Ascending.empty, rfl⟩
  · rename_i hvalid
    have hxy : Spectrum.valid x y = true := by simpa using hvalid
    exact .bind_forall fun _ =>
      .pure ⟨Spectrum.ascending_of_valid hxy, Spectrum.size_eq_of_valid hxy⟩

@[simp] theorem setFit_x (fit background : Array Float) : (f.setFit fit background).2.x = f.x := by
  unfold setFit
  split <;> rfl

@[simp] theorem setFit_y (fit background : Array Float) : (f.setFit fit background).2.y = f.y := by
  unfold setFit
  split <;> rfl

/-- A search records candidates and leaves the bins and counts as they were. -/
theorem search_bins {width : Int} {sigma : Float} :
    Outcome.Post (search s f width sigma) fun r => r.2.x = f.x ∧ r.2.y = f.y := by
  unfold search
  dsimp only
  split
  · exact .pure ⟨rfl, rfl⟩
  · exact .bind_forall fun _ => .bind_forall fun _ => .bind_forall fun _ => .pure ⟨rfl, rfl⟩

/-- A search asked for reads its half width and then searches, so it keeps whatever every
search keeps. -/
theorem findPeaks_post {width : Json.Value} {sigma : Float} {P : Nat × Finder → Prop}
    (h : ∀ w, Outcome.Post (search s f w sigma) P) : Outcome.Post (findPeaks s f width sigma) P :=
  .bind_forall h

/-- A search asked for leaves the bins and counts as they were. -/
theorem findPeaks_bins {width : Json.Value} {sigma : Float} :
    Outcome.Post (findPeaks s f width sigma) fun r => r.2.x = f.x ∧ r.2.y = f.y :=
  findPeaks_post fun _ => search_bins

/-- The cut of a range is a finder of its own, so its bins ascend. -/
theorem cloneRange_bins {first last : Int} :
    Outcome.Post (cloneRange s f first last) fun g => Ascending g.x ∧ g.x.size = g.y.size := by
  unfold cloneRange
  split
  · exact .pure ⟨Ascending.empty, rfl⟩
  · refine .bind ofData_bins fun r hr => .pure ?_
    simpa using hr

end Search.Finder

end GammaFit
