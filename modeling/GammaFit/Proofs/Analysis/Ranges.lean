import GammaFit.Proofs.Analysis.Identities

/-!
# Ranges of the spectrum

A region is cut from the spectrum of its analysis: its bins are the spectrum's bins `i … j` for
some `i ≤ j`. Such a region covers every bin of the spectrum between two bounds when the cut
reaches past them (`Region.Covers`), and the cuts are made by binary searches, which on ascending
bins find the bins between two values exactly. Adding a peak to a region that does not reach
both bounds cuts the region again from the parent's bins, so a region that takes a peak covers
its bounds (`Region.addPeak_covers`).

All of it rests on the spectrum of every analysis a run reaches ascending
(`Analysis.Reached.ascending`): it is taken from data that is a spectrum, or dropped, and every
other step leaves the bins as they were.
-/

namespace Float

variable {a b : Float}

/-- Doubles equal as numbers are ordered as numbers. -/
theorem le_of_beq (h : (a == b) = true) : a ≤ b := by
  obtain ⟨ha, hb, h⟩ := beq_iff_units.mp h
  exact le_iff_units.mpr ⟨ha, hb, Int.le_of_eq h⟩

end Float

namespace GammaFit

open Search (Finder)
open Json

/-! ## Searches over ascending bins -/

namespace Ascending

variable {x : Array Float} {k : Nat} {v w : Float}

theorem searchLeft_le (h : Ascending x) (hk : k < x.size) (hv : v ≤ x.getD k 0.0) :
    Numeric.searchLeft x v ≤ k :=
  (h.searchLeft_spec v hk).mpr hv

theorem lt_searchRight (h : Ascending x) (hk : k < x.size) (hv : x.getD k 0.0 ≤ v) :
    k < Numeric.searchRight x v :=
  (h.searchRight_spec v hk).mpr fun hlt => Float.lt_irrefl v (Float.lt_of_lt_of_le hlt hv)

/-- A bin at or past the insertion point after the bins not above `v` lies above `v`. -/
theorem lt_of_searchRight_le (h : Ascending x) (hk : k < x.size)
    (hle : Numeric.searchRight x v ≤ k) : v < x.getD k 0.0 := by
  by_contra hnot
  have hlt := (h.searchRight_spec v hk).mpr hnot
  omega

/-- A bin before the insertion point before the bins not below a number `v` lies below `v`. -/
theorem lt_of_lt_searchLeft (h : Ascending x) (hk : k < x.size) (hv : v.isNaN = false)
    (hlt : k < Numeric.searchLeft x v) : x.getD k 0.0 < v := by
  by_contra hnot
  have hle := (Float.not_lt_iff_le (h.not_nan k hk) hv).mp hnot
  have hge := h.searchLeft_le hk hle
  omega

/-- The insertion point after the bins not above `v` comes no later than the insertion point
before the bins not below a greater `w`. -/
theorem searchRight_le_searchLeft (h : Ascending x) (hvw : v < w) :
    Numeric.searchRight x v ≤ Numeric.searchLeft x w := by
  by_contra hle
  have hlt : Numeric.searchLeft x w < Numeric.searchRight x v := Nat.lt_of_not_le hle
  have hk : Numeric.searchLeft x w < x.size :=
    Nat.lt_of_lt_of_le hlt (Numeric.searchRight_le_size x v)
  have hw : w ≤ x.getD (Numeric.searchLeft x w) 0.0 := (h.searchLeft_spec w hk).mp (Nat.le_refl _)
  exact (h.searchRight_spec v hk).mp hlt (Float.lt_of_lt_of_le hvw hw)

/-- The insertion point before the bins not below `v` comes no later than the insertion point
after the bins not above a `w` at least `v`. -/
theorem searchLeft_le_searchRight (h : Ascending x) (hvw : v ≤ w) :
    Numeric.searchLeft x v ≤ Numeric.searchRight x w := by
  by_cases hk : Numeric.searchRight x w < x.size
  · exact h.searchLeft_le hk
      (Float.le_trans hvw (Float.le_of_lt (h.lt_of_searchRight_le hk (Nat.le_refl _))))
  · exact Nat.le_trans (Numeric.searchLeft_le_size x v) (Nat.le_of_not_lt hk)

/-- On ascending bins, the bins between the bins `i` and `j` are those from `i` to `j`. -/
theorem filter_between (h : Ascending x) {i j : Nat} (hij : i ≤ j) (hj : j < x.size)
    {lo hi : Float} (hlo : lo = x.getD i 0.0) (hhi : hi = x.getD j 0.0) :
    (List.range x.size).filter (fun k => decide (x.getD k 0.0 ≥ lo) && decide (x.getD k 0.0 ≤ hi)) =
      List.range' i (j + 1 - i) := by
  refine (List.pairwise_lt_range.filter _).eq_of_mem_iff List.pairwise_lt_range' fun k => ?_
  have hend : i + (j + 1 - i) = j + 1 := by omega
  simp only [List.mem_filter, List.mem_range, List.mem_range'_1, Bool.and_eq_true,
    decide_eq_true_eq, hend, hlo, hhi]
  constructor
  · rintro ⟨hk, hik, hkj⟩
    refine ⟨Nat.le_of_not_lt fun hki => ?_, Nat.lt_succ_of_le (Nat.le_of_not_lt fun hjk => ?_)⟩
    · exact Float.lt_irrefl _ (Float.lt_of_lt_of_le (h.lt hki (by omega)) hik)
    · exact Float.lt_irrefl _ (Float.lt_of_lt_of_le (h.lt hjk hk) hkj)
  · rintro ⟨hik, hkj⟩
    exact ⟨by omega, h.le hik (by omega), h.le (by omega) hj⟩

end Ascending

/-! ## Regions cut from a spectrum -/

namespace Region

variable {r t : Region} {x : Array Float} {i j : Nat}

/-- Regions with the same bins have the same last bin. -/
theorem right_of_bins (h : t.finder.x = r.finder.x) : t.right = r.right := by
  unfold right
  rw [h]

/-- A region cut from the bins `i … j` of `x` starts at `x[i]` and ends at `x[j]`. -/
theorem ends_of_cut (hx : r.finder.x = x.extract i (j + 1)) (hij : i ≤ j) (hj : j < x.size) :
    r.left = x.getD i 0.0 ∧ r.right = x.getD j 0.0 := by
  have hsize : r.finder.x.size = j + 1 - i := by
    rw [hx, Array.size_extract]
    omega
  have hne : r.finder.x.isEmpty = false := by
    rw [Bool.eq_false_iff]
    intro hempty
    rw [Array.isEmpty_iff_size_eq_zero] at hempty
    omega
  unfold left right
  rw [hne, if_neg Bool.false_ne_true, if_neg Bool.false_ne_true, hsize, hx,
    Spectrum.getD_extract x (by omega), Spectrum.getD_extract x (by omega)]
  exact ⟨by rw [Nat.add_zero], by congr 1; omega⟩

/-- A region with ascending bins starts no later than it ends. -/
theorem left_le_right (hx : Ascending r.finder.x) (hne : r.finder.x ≠ #[]) : r.left ≤ r.right := by
  have hpos : 0 < r.finder.x.size := Array.size_pos_iff.mpr hne
  have hcut : r.finder.x = r.finder.x.extract 0 (r.finder.x.size - 1 + 1) := by
    rw [Nat.sub_add_cancel hpos, Array.extract_size]
  obtain ⟨hleft, hright⟩ := ends_of_cut hcut (Nat.zero_le _) (by omega)
  rw [hleft, hright]
  exact hx.le (Nat.zero_le _) (by omega)

/-- A bin a region overlaps lies between its ends. -/
theorem overlaps_none {v : Float} (h : r.overlaps v none = true) : r.left ≤ v ∧ v ≤ r.right := by
  unfold overlaps at h
  split at h
  · cases h
  · simpa using h

/-- Every bin of `x` between `leftBin` and `rightBin` lies between the first and the last bin of
the region. -/
def Covers (r : Region) (x : Array Float) (leftBin rightBin : Float) : Prop :=
  ∀ k < x.size, leftBin ≤ x.getD k 0.0 → x.getD k 0.0 ≤ rightBin →
    r.left ≤ x.getD k 0.0 ∧ x.getD k 0.0 ≤ r.right

variable {leftBin rightBin : Float}

/-- Covering passes to a region with the same bins. -/
theorem Covers.of_bins (h : r.Covers x leftBin rightBin) (hx : t.finder.x = r.finder.x) :
    t.Covers x leftBin rightBin := by
  intro k hk hlo hhi
  rw [left_of_bins hx, right_of_bins hx]
  exact h k hk hlo hhi

/-- A region whose ends lie outside the bounds covers them. -/
theorem covers_of_ends (hl : r.left ≤ leftBin) (hr : rightBin ≤ r.right) :
    r.Covers x leftBin rightBin :=
  fun _ _ hlo hhi => ⟨Float.le_trans hl hlo, Float.le_trans hhi hr⟩

/-- A region cut from ascending bins covers the bins whose indices the cut reaches. -/
theorem covers_of_cut (hasc : Ascending x) (hx : r.finder.x = x.extract i (j + 1)) (hij : i ≤ j)
    (hj : j < x.size)
    (hin : ∀ k < x.size, leftBin ≤ x.getD k 0.0 → x.getD k 0.0 ≤ rightBin → i ≤ k ∧ k ≤ j) :
    r.Covers x leftBin rightBin := by
  intro k hk hlo hhi
  obtain ⟨hik, hkj⟩ := hin k hk hlo hhi
  obtain ⟨hleft, hright⟩ := ends_of_cut hx hij hj
  rw [hleft, hright]
  exact ⟨hasc.le hik hk, hasc.le hkj hj⟩

end Region

/-! ## The bins the operations cut -/

namespace Search.Finder

variable {s : Settings}

/-- A finder built from data holds the data's bins, or none when the data is not a spectrum and
it answers `false`. -/
theorem ofData_x {x y : Array Float} :
    Outcome.Post (ofData s x y) fun res =>
      (res.1 = false ∧ res.2.x = #[]) ∨ (res.1 = true ∧ res.2.x = x) := by
  unfold ofData
  split
  · exact .pure (.inl ⟨rfl, rfl⟩)
  · exact .bind_forall fun _ => .pure (.inr ⟨rfl, rfl⟩)

/-- A cut of a finder holds its bins `first … last`, or none. -/
theorem cloneRange_cut {f : Finder} {first last : Int} :
    Outcome.Post (cloneRange s f first last) fun g => g.x = #[] ∨
      (0 ≤ first ∧ first ≤ last ∧ last < f.x.size ∧
        g.x = f.x.extract first.toNat (last.toNat + 1)) := by
  unfold cloneRange
  split
  · exact .pure (.inl rfl)
  · rename_i hrange
    simp only [Bool.or_eq_true, decide_eq_true_eq, not_or, Bool.not_eq_true] at hrange
    refine .bind ofData_x fun res hres => .pure ?_
    rw [setFit_x]
    rcases hres with ⟨-, hempty⟩ | ⟨-, hcut⟩
    · exact .inl hempty
    · exact .inr ⟨by omega, by omega, by omega, hcut⟩

end Search.Finder

namespace Region

variable {r : Region} {x : Array Float} {i j : Nat}

/-- A range cut again from a parent holds the parent's bins from the first not below `left` to
the last not above `right`. -/
theorem setRange_cut {parent : Finder} {left right : Float} :
    Outcome.Post (r.setRange parent left right) fun o => ∀ t, o = some t →
      ∃ i j, i ≤ j ∧ j < parent.x.size ∧ Numeric.searchLeft parent.x left = i ∧
        Numeric.searchRight parent.x right = j + 1 ∧ t.finder.x = parent.x.extract i (j + 1) := by
  unfold setRange
  dsimp only
  split
  · exact .pure fun _ h => by cases h
  split
  · exact .pure fun _ h => by cases h
  refine .bind Finder.cloneRange_cut fun f hf => ?_
  split
  · exact .pure fun _ h => by cases h
  rename_i hne
  refine .pure fun t ht => ?_
  cases ht
  rcases hf with hempty | ⟨h0, hfl, hl, hcut⟩
  · exact absurd (by rw [hempty]; rfl) hne
  · refine ⟨Numeric.searchLeft parent.x left, Numeric.searchRight parent.x right - 1, by omega,
      by omega, rfl, by omega, ?_⟩
    dsimp only
    rw [hcut]
    congr 1
    omega

/-- New data over the range between two of its ascending bins `i ≤ j` takes the bins `i … j`. -/
theorem setData_cut (hasc : Ascending x) (hij : i ≤ j) (hj : j < x.size) {y : Array Float} :
    Except.Post (r.setData x y (x.getD i 0.0) (x.getD j 0.0))
      (fun o => ∀ t, o = some t → t.finder.x = x.extract i (j + 1)) fun _ => True := by
  generalize hlo : x.getD i 0.0 = lo
  generalize hhi : x.getD j 0.0 = hi
  unfold setData
  dsimp only
  split
  · exact .pure fun _ h => by cases h
  rw [hasc.filter_between hij hj hlo.symm hhi.symm]
  have hfirst : (List.range' i (j + 1 - i)).headD 0 = i := by
    rw [show j + 1 - i = (j - i) + 1 by omega, List.range'_succ]
    rfl
  have hlast : (List.range' i (j + 1 - i)).getLastD 0 = j := by
    rw [List.getLastD_eq_getLast?, List.getLast?_range', if_neg (by omega)]
    simp only [Option.getD_some]
    omega
  rw [hfirst, hlast]
  split
  · exact .pure fun _ h => by cases h
  refine .bind (.mapError Finder.ofData_x fun _ => trivial) fun res hres => ?_
  split
  · exact .pure fun _ h => by cases h
  rename_i hok
  -- the data is a spectrum, so the finder holds its bins
  have hf : res.2.x = x.extract i (j + 1) := by
    rcases hres with ⟨hfalse, -⟩ | ⟨-, hcut⟩
    · simp [hfalse] at hok
    · exact hcut
  refine .bind (.mapError defaultEdges_spec fun _ => trivial) fun r₂ hr₂ => ?_
  obtain ⟨l, rt, rfl⟩ := hr₂
  refine .bind (.mapError (search_bins (x := res.2.x) (by simp)) fun _ => trivial)
    fun r₃ h₃ => ?_
  refine .bind (.mapError (render_bins (x := res.2.x) h₃) fun _ => trivial) fun u hu => ?_
  exact .pure fun t ht => by
    cases ht
    rw [hu]
    exact hf

/-- A region built over the range between two ascending bins `i ≤ j` takes the bins `i … j`. -/
theorem ofRange_cut {s : Settings} (hasc : Ascending x) (hij : i ≤ j) (hj : j < x.size)
    {y : Array Float} :
    Outcome.Post (ofRange s x y (x.getD i 0.0) (x.getD j 0.0)) fun o => ∀ t, o = some t →
      t.finder.x = x.extract i (j + 1) := by
  intro o ho
  unfold ofRange at ho
  rcases hset : (Region.new s).setData x y (x.getD i 0.0) (x.getD j 0.0) with e | o'
  · rw [hset] at ho
    cases ho
  · rw [hset] at ho
    cases ho
    exact (setData_cut hasc hij hj).ok_of_eq hset

variable {parent : Finder} {leftBin rightBin : Float}

/-- A peak added between two bins of ascending parent bins leaves the region, when it answers
`true`, covering every parent bin between them: either the bounds lay inside the region, which
keeps its bins, or the region is cut again from the parent to reach both bounds. -/
theorem addPeak_covers (hasc : Ascending parent.x) {i : Bool} :
    RegionM.Post (r.addPeak parent leftBin rightBin i) fun res =>
      res.1 = true → res.2.Covers parent.x leftBin rightBin := by
  unfold Region.addPeak
  dsimp only
  split
  · exact .pure fun h => by cases h
  split
  · exact .pure fun h => by cases h
  split
  · -- inside the range: the bounds lie between the region's ends
    rename_i hin
    simp only [Bool.and_eq_true] at hin
    have hcov : r.Covers parent.x leftBin rightBin :=
      covers_of_ends (overlaps_none hin.1).1 (overlaps_none hin.2).2
    refine .bind (addFromResid_bins rfl) fun o ho => ?_
    rcases o with _ | t
    · exact (addSum4Peak_bins rfl).mono fun res hres _ => hcov.of_bins hres
    · exact .pure fun _ => hcov.of_bins (ho t rfl)
  -- beyond the range: the range is cut again from the lower bound to the higher
  refine .bind (.liftOutcome setRange_cut) fun o ho => ?_
  rcases o with _ | t
  · exact .pure fun h => by cases h
  obtain ⟨first, last, hfl, hlast, hsl, hsr, hcut⟩ := ho t rfl
  have hcov : t.Covers parent.x leftBin rightBin := by
    refine covers_of_cut hasc hcut hfl hlast fun k hk hlo hhi => ⟨?_, ?_⟩
    · rw [← hsl]
      refine hasc.searchLeft_le hk ?_
      by_cases hc : r.left < leftBin
      · rw [if_pos hc]
        exact Float.le_of_lt (Float.lt_of_lt_of_le hc hlo)
      · rw [if_neg hc]
        exact hlo
    · have hhi' : parent.x.getD k 0.0 ≤ if r.right > rightBin then r.right else rightBin := by
        by_cases hc : r.right > rightBin
        · rw [if_pos hc]
          exact Float.le_of_lt (Float.lt_of_le_of_lt hhi hc)
        · rw [if_neg hc]
          exact hhi
      have hk' := hasc.lt_searchRight hk hhi'
      omega
  refine .bind (.liftOutcome defaultEdges_spec) fun t₁ ht₁ => ?_
  obtain ⟨l, rt, rfl⟩ := ht₁
  refine .bind (.liftOutcome (cullPeaks_bins (x := t.finder.x) (by simp))) fun res hres => ?_
  refine .bind (.liftOutcome (recompute_bins hres)) fun t₂ h₂ => ?_
  refine .bind (.liftOutcome (render_bins h₂)) fun t₃ h₃ => ?_
  refine .bind (addFromResid_bins h₃) fun o ho' => ?_
  rcases o with _ | u
  · refine .bind (autoFit_bins h₃) fun res hres => .bind_forall fun ok => ?_
    split
    · exact .pure fun _ => hcov.of_bins hres
    · exact .pure fun h => by cases h
  · exact .pure fun _ => hcov.of_bins (ho' u rfl)

end Region

/-! ## The spectrum of an analysis

Every operation on the regions of an analysis leaves its finder as it was; a search for regions
and new settings search the spectrum again, which keeps its bins; new data and documents take a
finder built from a spectrum. -/

namespace Analysis

variable {a : Analysis}

@[simp] theorem replaceRegion_finder (key : Option Float) (t : Region) :
    (a.replaceRegion key t).finder = a.finder := rfl

theorem addPeak_finder {l rt : Float} {i : Bool} :
    RegionM.Post (a.addPeak l rt i) fun res => res.2.finder = a.finder := by
  unfold addPeak
  split
  · exact .pure rfl
  split
  · refine .bind_forall fun res => ?_
    dsimp only
    split
    · exact .pure rfl
    · exact .pure rfl
  · dsimp only
    split
    · exact .pure rfl
    refine .bind_forall fun o => ?_
    split
    · refine .bind_forall fun res => ?_
      refine .bind_forall fun b => ?_
      split
      · exact .bind_forall fun _ => .pure rfl
      · exact .bind_forall fun _ => .bind_forall fun _ => .pure rfl
    · exact .pure rfl

theorem removePeaks_finder {ids : List Nat} :
    Outcome.Post (a.removePeaks ids) fun res => res.2.finder = a.finder := by
  unfold removePeaks
  dsimp only
  refine .bind (.forIn (fun s : Analysis × Bool => s.1.finder = a.finder) rfl
    fun r s hs => ?_) fun s hs => .pure hs
  split
  · refine .bind_forall fun res => ?_
    split
    · exact .pure hs
    · exact .pure hs
  · exact .pure hs

theorem replacePeak_finder {p : Peak} :
    Outcome.Post (a.replacePeak p) fun res => res.2.finder = a.finder := by
  unfold replacePeak
  split
  · refine .bind_forall fun res => ?_
    dsimp only
    split
    · exact .pure rfl
    · exact .pure rfl
  · exact .pure rfl

theorem adjust_finder {key l rt : Float} {edit : RangeEdit} :
    Outcome.Post (a.adjust key edit l rt) fun res => res.2.finder = a.finder := by
  unfold adjust
  split
  · dsimp only
    -- whichever edge moves, the region goes back or the analysis stays
    cases edit <;> exact .bind_forall fun _ => by split <;> exact .pure rfl
  · exact .pure rfl

theorem deleteRegion_finder (key : Float) : (a.deleteRegion key).2.finder = a.finder := by
  unfold deleteRegion
  split <;> rfl

theorem insertRegion_finder {t : Region} : (a.insertRegion t).2.finder = a.finder := by
  unfold insertRegion
  split <;> rfl

theorem autoFitRegions_finder {i : Bool} :
    RegionM.Post (a.autoFitRegions i) fun res => res.2.finder = a.finder := by
  unfold autoFitRegions
  dsimp only
  refine .bind (.forIn (fun s : Analysis × Nat => s.1.finder = a.finder) rfl
    fun r s hs => ?_) fun s hs => .pure hs
  split
  · rw [pure_bind]
    split <;> exact .pure hs
  · refine .bind_forall fun _ => .bind_forall fun _ => ?_
    rw [pure_bind]
    split <;> exact .pure hs

theorem applySettings_x {s : Settings} :
    Outcome.Post (a.applySettings s) fun t => t.finder.x = a.finder.x := by
  unfold applySettings
  refine .bind_forall fun _ => ?_
  dsimp only
  split
  · exact .bind Finder.findPeaks_bins fun res hres => .pure hres.1
  · exact .pure rfl

/-- A search for regions keeps the bins, also when it fails part way. -/
theorem findRegions_x :
    Except.Post a.findRegions (fun res => res.2.finder.x = a.finder.x)
      fun failed => failed.2.finder.x = a.finder.x := by
  unfold findRegions
  dsimp only
  split
  · exact .pure rfl
  refine .bind (.mapError Finder.findPeaks_bins fun _ => rfl) fun f hf => ?_
  split
  · exact .pure hf.1
  refine .bind (.mapError (fun _ _ => trivial) fun _ => hf.1) fun windows _ => ?_
  refine .bind (.forIn (fun b : Analysis => b.finder.x = a.finder.x) hf.1
    fun w b hb => ?_) fun b hb => .pure hb
  split
  · exact .pure hb
  · exact .pure hb
  · exact .bind (P := fun _ => False) hb fun _ h => h.elim

/-- New data is taken as a spectrum, or the analysis keeps its finder. -/
theorem setData_ascending {x y : Array Float} {bits live real name : Value} :
    Outcome.Post (a.setData x y bits live real name) fun res =>
      res.2.finder = a.finder ∨ Ascending res.2.finder.x := by
  unfold setData
  split
  · exact .pure (.inl rfl)
  dsimp only
  split
  · exact .bind Finder.ofData_bins fun res hres => .pure (.inr hres.1)
  · exact .pure (.inl rfl)

/-- A document read holds a spectrum. -/
theorem ofDocument_ascending {doc : Value} :
    RegionM.Post (ofDocument doc) fun a => Ascending a.finder.x := by
  unfold ofDocument
  dsimp only
  split
  rotate_left
  · exact .bind (P := fun _ => False) .throw fun _ h => h.elim
  refine .bind_forall fun s => .bind_forall fun _ => .bind_forall fun _ => .bind_forall fun _ => ?_
  split
  rotate_left
  · exact .throw
  refine .bind (.liftOutcome setData_ascending) fun res hres => ?_
  have hx : Ascending res.2.finder.x := hres.elim (fun h => h ▸ Ascending.empty) id
  split
  · exact .bind (P := fun _ => False) .throw fun _ h => h.elim
  split
  all_goals first
    | exact .bind (P := fun _ => False) .throw fun _ h => h.elim
    | rw [pure_bind]
      refine .bind (.forIn (fun cur : Analysis => Ascending cur.finder.x) hx
        fun e cur hcur => ?_) fun cur hcur => .pure hcur
      refine .bind_forall fun o => ?_
      split
      · exact .pure (by unfold insertRegion; split <;> exact hcur)
      · exact .pure hcur

/-- An analysis with the finder of one whose bins ascend has ascending bins. -/
theorem ascending_of_finder {t : Analysis} (hf : t.finder = a.finder) (h : Ascending a.finder.x) :
    Ascending t.finder.x :=
  hf ▸ h

end Analysis

namespace Request

open Analysis (ascending_of_finder)

/-- Every step of an analysis's request leaves a spectrum whose bins ascend. -/
theorem analysisStep_ascending {a : Analysis} (h : Ascending a.finder.x) (step : Value) :
    RegionM.Post (analysisStep a step) fun res => Ascending res.2.finder.x := by
  unfold analysisStep
  dsimp only
  split
  next => -- set_data
    refine .bind_forall fun _ => .bind_forall fun _ => ?_
    split
    · exact .bind (.liftOutcome Analysis.setData_ascending) fun res hres =>
        .pure (hres.elim (fun hf => ascending_of_finder hf h) id)
    · exact .pure h
  next => -- find_regions
    have hpost : Except.Post a.findRegions (fun res => res.2.finder.x = a.finder.x)
        fun failed => failed.2.finder.x = a.finder.x := Analysis.findRegions_x
    split
    all_goals
      rename_i hfind
      rw [hfind] at hpost
      refine .pure ?_
      rw [show _ = a.finder.x from hpost]
      exact h
  next => -- auto_fit_regions
    refine .bind Analysis.autoFitRegions_finder fun res hres => ?_
    obtain ⟨n, t⟩ := res
    exact .pure (ascending_of_finder hres h)
  next => -- add_peak
    exact .bind_forall fun _ => .bind_forall fun _ =>
      .bind Analysis.addPeak_finder fun _ hres => .pure (ascending_of_finder hres h)
  next => -- remove_peaks
    exact .bind_forall fun _ => .bind (.liftOutcome Analysis.removePeaks_finder) fun _ hres =>
      .pure (ascending_of_finder hres h)
  next => -- replace_peak
    exact .bind_forall fun _ => .bind (.liftOutcome Analysis.replacePeak_finder) fun _ hres =>
      .pure (ascending_of_finder hres h)
  next => -- adjust_LB
    exact .bind_forall fun _ => .bind_forall fun _ => .bind_forall fun _ =>
      .bind (.liftOutcome Analysis.adjust_finder) fun _ hres => .pure (ascending_of_finder hres h)
  next => -- adjust_RB
    exact .bind_forall fun _ => .bind_forall fun _ => .bind_forall fun _ =>
      .bind (.liftOutcome Analysis.adjust_finder) fun _ hres => .pure (ascending_of_finder hres h)
  next => -- adjust_bounds
    exact .bind_forall fun _ => .bind_forall fun _ => .bind_forall fun _ =>
      .bind (.liftOutcome Analysis.adjust_finder) fun _ hres => .pure (ascending_of_finder hres h)
  next => -- delete_roi
    exact .bind_forall fun _ => .pure (ascending_of_finder (Analysis.deleteRegion_finder _) h)
  next => -- parent_of
    exact .bind_forall fun _ => .pure h
  next => -- apply_settings
    refine .bind_forall fun _ => .bind (.liftOutcome Analysis.applySettings_x) fun t ht => ?_
    refine .pure ?_
    rw [show t.finder.x = a.finder.x from ht]
    exact h
  next => -- clear
    exact .pure Ascending.empty
  next => -- table
    exact .pure h
  next => -- report
    exact .bind_forall fun _ => .pure h
  next => -- export
    exact .bind_forall fun _ => .pure h
  next => -- to_dict
    exact .bind_forall fun _ => .pure h
  next => -- reload: whichever document is read
    have hread : ∀ doc : RegionM Value, RegionM.Post (do
        let d ← doc
        let t ← Analysis.ofDocument d
        pure ((.ok (.bool true) : Outcome Value), t)) fun res => Ascending res.2.finder.x :=
      fun _ => .bind_forall fun _ => .bind Analysis.ofDocument_ascending fun _ ht => .pure ht
    split
    · split
      · exact hread _
      · exact hread _
    · exact hread _
  next => -- save_load
    exact .bind_forall fun _ => .bind Analysis.ofDocument_ascending fun _ ht => .pure ht
  next => exact .throw

end Request

namespace Analysis

variable {a : Analysis} {lo n : Nat}

/-- The bins of the spectrum of every analysis a run reaches ascend. -/
theorem Reached.ascending (h : Reached lo a n) : Ascending a.finder.x := by
  induction h with
  | new s => exact Ascending.empty
  | load hrun => exact ofDocument_ascending _ _ _ hrun
  | step _ hrun ih =>
    rename_i res _
    cases res with
    | ok r => exact Request.analysisStep_ascending ih _ _ _ _ hrun
    | error e => exact ih -- a step that fails leaves the analysis it was given
  | insert _ _ _ _ ih => rw [insertRegion_finder]; exact ih

end Analysis

end GammaFit
