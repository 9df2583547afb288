import GammaFit.Proofs.Region.Upkeep

/-!
# Peak identities and the order by center

A region keeps its peaks under their identities, each identity once (`PeakIds`). Putting a
peak in, filtering, bringing the peaks up to date, and building a map by putting peaks in one
after another all keep that; a list of peaks with distinct identities is put in as it stands
(`foldl_insertPeak_of_nodup`).

Peaks are listed by center with a stable merge sort whose comparison, `¬(b < a)`, is no total
order on doubles: NaN compares with nothing. On centers that are not NaN the comparison is the
order of their exact values (`byCenter_eq_units`), so listing a listed list changes nothing
(`byCenter_byCenter`), and a list recorded by center and put back in comes out as it was
recorded (`byCenter_restore`). The peaks a region keeps lie between its edges, so their centers
are never NaN.
-/

namespace GammaFit

/-- The peaks of a map stand under their own identities, each identity once. -/
structure PeakIds (m : List (Nat × Peak)) : Prop where
  nodup : (m.map Prod.fst).Nodup
  key : ∀ e ∈ m, e.2.id = e.1

section Insert

variable {m : List (Nat × Peak)} {p : Peak}

theorem any_key_iff {i : Nat} : m.any (·.1 == i) = true ↔ i ∈ m.map Prod.fst := by
  simp [List.any_eq_true, List.mem_map]

/-- A peak under a new identity goes last. -/
theorem insertPeak_of_not_mem (h : p.id ∉ m.map Prod.fst) : insertPeak m p = m ++ [(p.id, p)] := by
  unfold insertPeak
  rw [if_neg (mt any_key_iff.mp h)]

/-- Putting a peak in keeps the identities in place and adds its own when it is new. -/
theorem insertPeak_keys : (insertPeak m p).map Prod.fst =
    if p.id ∈ m.map Prod.fst then m.map Prod.fst else m.map Prod.fst ++ [p.id] := by
  by_cases h : p.id ∈ m.map Prod.fst
  · rw [if_pos h]
    unfold insertPeak
    rw [if_pos (any_key_iff.mpr h), List.map_map]
    refine List.map_congr_left fun e _ => ?_
    obtain ⟨i, q⟩ := e
    simp only [Function.comp_apply]
    split <;> rfl
  · rw [if_neg h, insertPeak_of_not_mem h, List.map_append]
    rfl

/-- The peak put in stands under its identity. -/
theorem mem_insertPeak_self : (p.id, p) ∈ insertPeak m p := by
  unfold insertPeak
  split
  · rename_i hany
    obtain ⟨⟨i, q⟩, hq, hi⟩ := List.any_eq_true.mp hany
    obtain rfl : i = p.id := beq_iff_eq.mp hi
    exact List.mem_map.mpr ⟨(p.id, q), hq, by simp⟩
  · exact List.mem_append_right _ (List.mem_singleton_self _)

/-- An identity after putting a peak in is an old one or the peak's own. -/
theorem mem_insertPeak_keys {i : Nat} (h : i ∈ (insertPeak m p).map Prod.fst) :
    i ∈ m.map Prod.fst ∨ i = p.id := by
  rw [insertPeak_keys] at h
  split at h
  · exact .inl h
  · exact (List.mem_append.mp h).imp id List.mem_singleton.mp

/-- An entry after putting a peak in is the new one, or an old one under another identity. -/
theorem mem_insertPeak {e : Nat × Peak} (he : e ∈ insertPeak m p) :
    e = (p.id, p) ∨ e ∈ m ∧ e.1 ≠ p.id := by
  unfold insertPeak at he
  split at he
  · obtain ⟨⟨i, q⟩, hq, rfl⟩ := List.mem_map.mp he
    by_cases hi : i = p.id
    · left
      simp only [hi, beq_self_eq_true, if_true]
    · right
      simp only [beq_iff_eq, hi, if_false]
      exact ⟨hq, hi⟩
  · rename_i hnew
    rcases List.mem_append.mp he with he | he
    · refine .inr ⟨he, fun hi => hnew ?_⟩
      exact List.any_eq_true.mpr ⟨e, he, beq_iff_eq.mpr hi⟩
    · exact .inl (List.mem_singleton.mp he)

theorem mem_insertPeak_of_ne {e : Nat × Peak} (he : e ∈ m) (hne : e.1 ≠ p.id) :
    e ∈ insertPeak m p := by
  unfold insertPeak
  split
  · obtain ⟨i, q⟩ := e
    refine List.mem_map.mpr ⟨(i, q), he, ?_⟩
    simp only [beq_iff_eq]
    rw [if_neg hne]
  · exact List.mem_append_left _ he

end Insert

namespace PeakIds

variable {m : List (Nat × Peak)} {p : Peak}

theorem nil : PeakIds [] := ⟨List.nodup_nil, fun _ h => nomatch h⟩

theorem filter (h : PeakIds m) (f : Nat × Peak → Bool) : PeakIds (m.filter f) :=
  ⟨h.nodup.sublist (List.filter_sublist.map _), fun e he => h.key e (List.mem_of_mem_filter he)⟩

theorem insertPeak (h : PeakIds m) (p : Peak) : PeakIds (GammaFit.insertPeak m p) where
  nodup := by
    rw [insertPeak_keys]
    split
    · exact h.nodup
    · rename_i hnew
      exact h.nodup.append (List.nodup_singleton _)
        (List.disjoint_singleton.mpr hnew)
  key e he := by
    rcases mem_insertPeak he with rfl | ⟨he, -⟩
    · rfl
    · exact h.key e he

/-- Two entries under one identity are one entry. -/
theorem eq_of_key (h : PeakIds m) {e e' : Nat × Peak} (he : e ∈ m) (he' : e' ∈ m)
    (hk : e.1 = e'.1) : e = e' :=
  List.inj_on_of_nodup_map h.nodup he he' hk

theorem foldl_insertPeak (h : PeakIds m) (ps : List Peak) :
    PeakIds (ps.foldl GammaFit.insertPeak m) := by
  induction ps generalizing m with
  | nil => exact h
  | cons p ps ih => exact ih (h.insertPeak p)

/-- Bringing peaks up to date keeps them under their identities. -/
theorem upToDate {r : Region} {k : List (Nat × Peak)} (h : PeakIds m)
    (hk : r.upToDate m = .ok k) : PeakIds k where
  nodup := h.nodup.sublist (Region.upToDate_keys hk)
  key e he := by
    obtain ⟨p, hp, hq, -⟩ := Region.mem_upToDate hk he
    rw [Region.recomputePeak_id hq]
    exact h.key _ hp

end PeakIds

section Fold

variable {α : Type} {f : List (Nat × Peak) → α → List (Nat × Peak)} {P : α → Peak → Prop}

/-- A fold that at each element keeps the map or puts in a peak that `P` allows for that element
keeps the identities, and ends with entries that were there at the start or are allowed. -/
theorem foldl_insert_spec (hf : ∀ m x, f m x = m ∨ ∃ p, P x p ∧ f m x = insertPeak m p)
    {xs : List α} {m : List (Nat × Peak)} (hm : PeakIds m) :
    PeakIds (xs.foldl f m) ∧ ∀ e ∈ xs.foldl f m, e ∈ m ∨ ∃ x ∈ xs, P x e.2 := by
  induction xs generalizing m with
  | nil => exact ⟨hm, fun e he => .inl he⟩
  | cons x xs ih =>
    rw [List.foldl_cons]
    rcases hf m x with hkeep | ⟨p, hp, hput⟩
    · rw [hkeep]
      obtain ⟨hids, hmem⟩ := ih hm
      refine ⟨hids, fun e he => ?_⟩
      rcases hmem e he with he | ⟨y, hy, hPy⟩
      · exact .inl he
      · exact .inr ⟨y, List.mem_cons_of_mem _ hy, hPy⟩
    · rw [hput]
      obtain ⟨hids, hmem⟩ := ih (hm.insertPeak p)
      refine ⟨hids, fun e he => ?_⟩
      rcases hmem e he with he | ⟨y, hy, hPy⟩
      · rcases mem_insertPeak he with rfl | ⟨he, -⟩
        · exact .inr ⟨x, List.mem_cons_self, hp⟩
        · exact .inl he
      · exact .inr ⟨y, List.mem_cons_of_mem _ hy, hPy⟩

/-- The same for a fold that may fail: what it returns keeps the identities, and its entries
were there at the start or are allowed. -/
theorem foldlM_insert_spec {g : List (Nat × Peak) → α → Outcome (List (Nat × Peak))}
    (hg : ∀ m x, Outcome.Post (g m x) fun m' => m' = m ∨ ∃ p, P x p ∧ m' = insertPeak m p)
    {xs : List α} {m : List (Nat × Peak)} (hm : PeakIds m) :
    Outcome.Post (xs.foldlM g m) fun R => PeakIds R ∧ ∀ e ∈ R, e ∈ m ∨ ∃ x ∈ xs, P x e.2 := by
  induction xs generalizing m with
  | nil => exact .pure ⟨hm, fun e he => .inl he⟩
  | cons x xs ih =>
    rw [List.foldlM_cons]
    refine .bind (hg m x) fun m' hm' => ?_
    -- the entries of the rest of the fold come from `m'`, which is `m` or `m` with one peak more
    have hlater : ∀ {e : Nat × Peak}, (∃ y ∈ xs, P y e.2) → ∃ y ∈ x :: xs, P y e.2 :=
      fun ⟨y, hy, hPy⟩ => ⟨y, List.mem_cons_of_mem _ hy, hPy⟩
    rcases hm' with rfl | ⟨p, hp, rfl⟩
    · exact (ih hm).mono fun R hR => ⟨hR.1, fun e he => (hR.2 e he).imp id hlater⟩
    · refine (ih (hm.insertPeak p)).mono fun R hR => ⟨hR.1, fun e he => ?_⟩
      rcases hR.2 e he with he | h
      · rcases mem_insertPeak he with rfl | ⟨he, -⟩
        · exact .inr ⟨x, List.mem_cons_self, hp⟩
        · exact .inl he
      · exact .inr (hlater h)

/-- Such a fold keeps every entry whose identity no allowed peak takes. -/
theorem mem_foldl_insert_of_ne (hf : ∀ m x, f m x = m ∨ ∃ p, P x p ∧ f m x = insertPeak m p)
    {xs : List α} {m : List (Nat × Peak)} {e : Nat × Peak} (he : e ∈ m)
    (hne : ∀ x ∈ xs, ∀ p, P x p → p.id ≠ e.1) : e ∈ xs.foldl f m := by
  induction xs generalizing m with
  | nil => exact he
  | cons x xs ih =>
    rw [List.foldl_cons]
    have htail : ∀ y ∈ xs, ∀ p, P y p → p.id ≠ e.1 := fun y hy => hne y (List.mem_cons_of_mem _ hy)
    rcases hf m x with hkeep | ⟨p, hp, hput⟩
    · rw [hkeep]
      exact ih he htail
    · rw [hput]
      exact ih (mem_insertPeak_of_ne he (hne x List.mem_cons_self p hp).symm) htail

/-- The identities after putting in peaks one after another: old ones, or those of the peaks. -/
theorem foldl_insertPeak_keys {ps : List Peak} {m : List (Nat × Peak)} {i : Nat}
    (h : i ∈ (ps.foldl insertPeak m).map Prod.fst) : i ∈ m.map Prod.fst ∨ ∃ p ∈ ps, i = p.id := by
  induction ps generalizing m with
  | nil => exact .inl h
  | cons p ps ih =>
    rcases ih h with hm | ⟨q, hq, rfl⟩
    · rcases mem_insertPeak_keys hm with hm | rfl
      · exact .inl hm
      · exact .inr ⟨p, List.mem_cons_self, rfl⟩
    · exact .inr ⟨q, List.mem_cons_of_mem p hq, rfl⟩

end Fold

/-- Peaks with distinct identities, none of them in the map yet, are put in as they stand. -/
theorem foldl_insertPeak_of_nodup {m : List (Nat × Peak)} {ps : List Peak}
    (hps : (ps.map Peak.id).Nodup) (hm : ∀ p ∈ ps, p.id ∉ m.map Prod.fst) :
    ps.foldl insertPeak m = m ++ ps.map fun p => (p.id, p) := by
  induction ps generalizing m with
  | nil => simp
  | cons p ps ih =>
    rw [List.map_cons, List.nodup_cons] at hps
    have hfresh : ∀ q ∈ ps, q.id ∉ (m ++ [(p.id, p)]).map Prod.fst := by
      intro q hq hmem
      rw [List.map_append, List.mem_append] at hmem
      rcases hmem with hmem | hmem
      · exact hm q (List.mem_cons_of_mem _ hq) hmem
      · have hqp : q.id = p.id := List.mem_singleton.mp hmem
        exact hps.1 (hqp ▸ List.mem_map_of_mem hq)
    rw [List.foldl_cons, insertPeak_of_not_mem (hm p List.mem_cons_self), ih hps.2 hfresh]
    simp

/-! ## The order by center -/

theorem byCenter_perm (ps : List Peak) : (byCenter ps).Perm ps := List.mergeSort_perm _ _

/-- On centers that are not NaN the sort's comparison is the order of the exact values. -/
theorem byCenter_le_iff {a b : Peak} (ha : a.center.isNaN = false) (hb : b.center.isNaN = false) :
    (!decide (b.center < a.center)) = decide (a.center.units ≤ b.center.units) := by
  simp only [Float.lt_iff_units, ha, hb, true_and]
  exact Bool.eq_iff_iff.mpr (by
    simp only [Bool.not_eq_true', decide_eq_false_iff_not, decide_eq_true_eq, Int.not_lt])

/-- On peaks whose centers are not NaN, listing by center is sorting by the exact values of the
centers. -/
theorem byCenter_eq_units {ps : List Peak} (h : ∀ p ∈ ps, p.center.isNaN = false) :
    byCenter ps = ps.mergeSort fun a b => decide (a.center.units ≤ b.center.units) := by
  have hmap := List.map_mergeSort (f := id) (l := ps) (r := fun a b => !decide (b.center < a.center))
    (s := fun a b => decide (a.center.units ≤ b.center.units))
    fun a ha b hb => byCenter_le_iff (h a ha) (h b hb)
  unfold byCenter
  simpa using hmap

/-- Listing peaks by center twice is listing them once, when no center is NaN. -/
theorem byCenter_byCenter {ps : List Peak} (h : ∀ p ∈ ps, p.center.isNaN = false) :
    byCenter (byCenter ps) = byCenter ps := by
  have h' : ∀ p ∈ byCenter ps, p.center.isNaN = false :=
    fun p hp => h p ((byCenter_perm ps).mem_iff.mp hp)
  rw [byCenter_eq_units h', byCenter_eq_units h]
  -- the order of exact values is total and transitive, so a sorted list is left as it is
  refine List.mergeSort_of_pairwise (List.pairwise_mergeSort (fun a b c hab hbc => ?_)
    (fun a b => ?_) ps)
  · simp only [decide_eq_true_eq] at hab hbc ⊢
    omega
  · simp only [Bool.or_eq_true, decide_eq_true_eq]
    omega

/-- Peaks recorded by center, with distinct identities, are listed as recorded after being put
back into an empty map. -/
theorem byCenter_restore {ps : List Peak} (hid : (ps.map Peak.id).Nodup) (hs : byCenter ps = ps) :
    byCenter ((ps.foldl insertPeak []).map Prod.snd) = ps := by
  rw [foldl_insertPeak_of_nodup hid (by simp), List.nil_append, List.map_map]
  simpa [Function.comp_def] using hs

/-- The peaks of a map with distinct identities, listed by center, have distinct identities. -/
theorem PeakIds.byCenter_nodup {m : List (Nat × Peak)} (h : PeakIds m) :
    ((byCenter (m.map Prod.snd)).map Peak.id).Nodup := by
  rw [((byCenter_perm _).map Peak.id).nodup_iff, List.map_map]
  have hkeys : m.map (Peak.id ∘ Prod.snd) = m.map Prod.fst :=
    List.map_congr_left fun e he => h.key e he
  rw [hkeys]
  exact h.nodup

namespace Region

variable {r : Region} {c : Float}

/-- A position strictly between the edges is not NaN. -/
theorem not_nan_of_insideEdges (h : r.insideEdges c = .ok true) : c.isNaN = false := by
  obtain ⟨l, rt, -, -, hin⟩ := insideEdges_eq_ok_true.mp h
  rw [encloses, Bool.and_eq_true, decide_eq_true_eq] at hin
  exact (Float.lt_iff_units.mp hin.1).2.1

theorem insideEdges_of_dropped {p : Peak} (h : r.dropped p = .ok false) :
    r.insideEdges p.center = .ok true :=
  (dropped_eq_ok_false.mp h).2

/-- The peaks of a region whose peaks are all kept are listed by center once and for all. -/
theorem byCenter_peaks (h : Fresh r) : byCenter r.peaks = r.peaks := by
  unfold peaks
  refine byCenter_byCenter fun p hp => ?_
  obtain ⟨e, he, rfl⟩ := List.mem_map.mp hp
  exact not_nan_of_insideEdges (insideEdges_of_dropped (h e he).kept)

end Region

end GammaFit
