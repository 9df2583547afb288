import GammaFit.Proofs.Region.Fitting

/-!
# Editing keeps the invariant

Every manual change to a region is a step of the invariant (`Step`): peaks put in or taken
out keep their identities, all below the counter; a change that moves the edges either leaves
no peak, marks the region stale, or is followed by a refit that records a settled state; and
rolling back restores a sound snapshot. Taking a new range of data is the one change that
starts the history again (`setData_spec`).

The changes are built from a few frames, each changing some fields of the region and keeping
the rest: a new finder cut from the whole spectrum (`setRange_spec`), new edge windows
(`setEdges_spec`), and culling the peaks outside the edges (`Sound.cullPeaks`).
-/

namespace GammaFit

open Search (Finder)

namespace Region

variable {s : Settings} {n : Nat} {r t u : Region}

/-! ## Frames -/

/-- The frame of the invariant reads only the settings, the bins and the peaks. -/
theorem Wf.of_eq (h : Wf s n r) (hs : t.settings = r.settings) (hx : t.finder.x = r.finder.x)
    (hm : t.peakMap = r.peakMap) : Wf s n t where
  settings := hs.trans h.settings
  bins := hx ▸ h.bins
  ids := hm ▸ h.ids
  below := hm ▸ h.below

theorem Wf.filter (h : Wf s n r) (f : Nat × Peak → Bool) :
    Wf s n { r with peakMap := r.peakMap.filter f } where
  settings := h.settings
  bins := h.bins
  ids := h.ids.filter f
  below i hi := h.below i ((List.filter_sublist.map Prod.fst).subset hi)

theorem Fresh.filter (hf : Fresh r) (f : Nat × Peak → Bool) :
    Fresh { r with peakMap := r.peakMap.filter f } :=
  fun e he => PeakFresh.of_sameFrame (r := r) ⟨rfl, rfl, rfl, rfl, rfl, rfl⟩
    (hf e (List.mem_of_mem_filter he))

/-- Keeping the peaks between the edges keeps, in order, those whose centers pass the test;
when it returns, every test it made returned. -/
theorem insidePeaks_eq_ok {m k : List (Nat × Peak)} (h : r.insidePeaks m = .ok k) :
    k = m.filter fun e => r.between e.2.center := by
  induction m generalizing k with
  | nil => exact (Outcome.pure_eq_ok.mp h).symm
  | cons e rest ih =>
    obtain ⟨i, p⟩ := e
    unfold insidePeaks at h
    obtain ⟨b, hb, h⟩ := Outcome.bind_eq_ok.mp h
    obtain ⟨kept, hkept, h⟩ := Outcome.bind_eq_ok.mp h
    rw [← Outcome.pure_eq_ok.mp h, ih hkept, List.filter_cons, between_of_insideEdges hb]

/-- Culling, when it returns, keeps the peaks between the edges. -/
theorem cullPeaks_eq_ok {res : Region × Nat} (h : r.cullPeaks = .ok res) :
    res.1 = { r with peakMap := r.peakMap.filter fun e => r.between e.2.center } := by
  unfold cullPeaks at h
  obtain ⟨kept, hkept, h⟩ := Outcome.bind_eq_ok.mp h
  rw [← Outcome.pure_eq_ok.mp h, insidePeaks_eq_ok hkept]

/-- What holds of the region with any filter of its peaks holds of it culled. -/
theorem cullPeaks_filter {P : Region → Prop}
    (hP : ∀ f : Nat × Peak → Bool, P { r with peakMap := r.peakMap.filter f }) :
    Outcome.Post r.cullPeaks fun res => P res.1 := by
  intro res h
  show P res.1
  rw [cullPeaks_eq_ok h]
  exact hP _

/-- A peak culling keeps was there, and lies between the edges. -/
theorem mem_cullPeaks {res : Region × Nat} (h : r.cullPeaks = .ok res) {e : Nat × Peak}
    (he : e ∈ res.1.peakMap) : e ∈ r.peakMap ∧ r.insideEdges e.2.center = .ok true := by
  rw [cullPeaks_eq_ok h] at he
  obtain ⟨hmem, hin⟩ := List.mem_filter.mp he
  exact ⟨hmem, insideEdges_eq_ok_true_iff.mpr hin⟩

/-- With both edge windows there, culling returns: it keeps the peaks they enclose. -/
theorem cullPeaks_of_edges {l rt : Edge} (hl : r.lb = some l) (hr : r.rb = some rt) :
    r.cullPeaks = .ok (r.cullWithin l rt) := by
  have hkeep : ∀ m, r.insidePeaks m = .ok (m.filter fun e => encloses l rt e.2.center) := by
    intro m
    induction m with
    | nil => rfl
    | cons e rest ih =>
      obtain ⟨i, p⟩ := e
      simp only [insidePeaks, insideEdges_of_edges hl hr, ih, bind, Except.bind, pure,
        Except.pure, List.filter_cons]
  simp only [cullPeaks, hkeep, bind, Except.bind, pure, Except.pure, cullWithin]

/-- Culling keeps some of the identities. -/
theorem cullPeaks_keys :
    Outcome.Post r.cullPeaks fun res => res.1.peakMap.map Prod.fst ⊆ r.peakMap.map Prod.fst :=
  cullPeaks_filter (P := fun t => t.peakMap.map Prod.fst ⊆ r.peakMap.map Prod.fst)
    fun _ => (List.filter_sublist.map Prod.fst).subset

theorem Sound.filter (h : Sound s n r) (f : Nat × Peak → Bool) :
    Sound s n { r with peakMap := r.peakMap.filter f } :=
  { h.toWf.filter f, h.toHistorySound with fresh := fun hph => (h.fresh hph).filter f }

/-- Culling the peaks outside the edges keeps the invariant: the peaks kept are up to date
whenever they were. -/
theorem Sound.cullPeaks (h : Sound s n r) : Outcome.Post r.cullPeaks fun res => Sound s n res.1 :=
  cullPeaks_filter h.filter

/-- A new range cut from the whole spectrum changes only the finder, whose bins ascend. -/
theorem setRange_spec {parent : Finder} {left right : Float} :
    Outcome.Post (r.setRange parent left right) fun o =>
      ∀ t, o = some t → ∃ f : Finder, t = { r with finder := f } ∧ Ascending f.x := by
  unfold setRange
  dsimp only
  split
  · exact .pure fun _ h => nomatch h
  · split
    · exact .pure fun _ h => nomatch h
    · refine .bind Finder.cloneRange_bins fun f ⟨hf, _⟩ => ?_
      split
      · exact .pure fun _ h => nomatch h
      · exact .pure fun t ht => ⟨f, (Option.some.inj ht).symm, hf⟩

/-- Placing the edge windows at the ends of the range sets only the edges. -/
theorem defaultEdges_spec :
    Outcome.Post r.defaultEdges fun t => ∃ l rt, t = { r with lb := l, rb := rt } := by
  unfold defaultEdges
  dsimp only
  split
  · split
    · exact .pure ⟨_, _, rfl⟩
    · exact fun _ h => nomatch h
  · exact .pure ⟨_, _, rfl⟩

/-- A region over new ascending bins with new edges, its backgrounds started again and the
peaks outside the edges culled, keeps the frame of the invariant, the history and the current
fit, and some of the identities. -/
theorem Wf.reframe (h : Wf s n r) {f : Finder} (hf : Ascending f.x) (l rt : Option Edge) :
    Outcome.Post ({ r with finder := f, lb := l, rb := rt }.initBackground).cullPeaks fun res =>
      Wf s n res.1 ∧ res.1.history = r.history ∧ res.1.currentFit = r.currentFit ∧
        res.1.peakMap.map Prod.fst ⊆ r.peakMap.map Prod.fst :=
  cullPeaks_filter (P := fun t => Wf s n t ∧ t.history = r.history ∧
      t.currentFit = r.currentFit ∧ t.peakMap.map Prod.fst ⊆ r.peakMap.map Prod.fst)
    fun g => ⟨(Wf.initBackground (r := { r with finder := f, lb := l, rb := rt })
    ⟨h.settings, hf, h.ids, h.below⟩).filter g, by simp, by simp,
    fun _ hi => by simpa using (List.filter_sublist.map Prod.fst).subset hi⟩

/-- Placing the edge windows keeps the frame of the invariant and the history; it leaves the
region as it was, or with no peak, or marks it stale, and keeps some of the identities. -/
theorem setEdges_spec (h : Wf s n r) (lbBins rbBins : Float × Float) :
    Wf s n (r.setEdges lbBins rbBins).2 ∧ (r.setEdges lbBins rbBins).2.history = r.history ∧
      (r.setEdges lbBins rbBins).2.currentFit = r.currentFit ∧
      ((r.setEdges lbBins rbBins).2.phase ≠ .stale →
        (r.setEdges lbBins rbBins).2 = r ∨ (r.setEdges lbBins rbBins).2.peakMap = []) ∧
      (r.setEdges lbBins rbBins).2.peakMap.map Prod.fst ⊆ r.peakMap.map Prod.fst := by
  unfold setEdges
  split
  · rename_i l rt _ _
    split
    · exact ⟨h, rfl, rfl, fun _ => .inl rfl, List.Subset.refl _⟩
    · -- the culled region with new edges and backgrounds
      have hwf : Wf s n ({ r with lb := some l, rb := some rt }.initBackground.cullWithin l rt).1 :=
        (Wf.initBackground (h.of_eq (t := { r with lb := some l, rb := some rt }) rfl rfl rfl)).filter _
      have hsub : ({ r with lb := some l, rb := some rt }.initBackground.cullWithin l rt).1.peakMap.map
          Prod.fst ⊆ r.peakMap.map Prod.fst := fun _ hi => by
        simpa using (List.filter_sublist.map Prod.fst).subset hi
      dsimp only
      split
      · rename_i hempty
        exact ⟨hwf, by simp [cullWithin], by simp [cullWithin],
          fun _ => .inr (List.isEmpty_iff.mp hempty), hsub⟩
      · exact ⟨hwf.of_eq rfl rfl rfl, by simp [cullWithin], by simp [cullWithin],
          fun hph => absurd rfl hph, hsub⟩
  · exact ⟨h, rfl, rfl, fun _ => .inl rfl, List.Subset.refl _⟩

theorem Sound.setEdges (h : Sound s n r) (lbBins rbBins : Float × Float) :
    Sound s n (r.setEdges lbBins rbBins).2 := by
  obtain ⟨hwf, hh, hc, hph, -⟩ := setEdges_spec h.toWf lbBins rbBins
  refine { hwf, h.toHistorySound.of_eq hh hc with fresh := fun hne => ?_ }
  rcases hph hne with heq | hnil
  · rw [heq] at hne ⊢
    exact h.fresh hne
  · intro e he
    rw [hnil] at he
    cases he

/-! ## Peaks put in, taken out or replaced -/

/-- A new summation peak takes the identity the counter hands out, and bringing it up to date
keeps it. -/
theorem summationPeak_spec {leftBin rightBin : Float} (hx : Ascending r.finder.x) :
    RegionM.Runs (r.summationPeak leftBin rightBin) n fun o k => ∀ p, o = some p →
      p.id = n ∧ k = n + 1 ∧ ∀ q, r.recomputePeak p = .ok q → r.dropped q = .ok false := by
  unfold summationPeak
  split
  · exact .pure fun _ h => nomatch h
  · exact summationPeakAt_spec hx

/-- A summation peak put in is a step of the invariant. It takes the identity the counter hands
out at the call, the only new one, and it is kept; in a region that is not stale every other
peak is kept too, being up to date. -/
theorem addSum4Peak_spec {leftBin rightBin : Float} (h : Wf s n r) :
    RegionM.Runs (r.addSum4Peak leftBin rightBin) n fun res k => Step s r k res.2 ∧
      (∀ i ∈ res.2.peakMap.map Prod.fst, i ∈ r.peakMap.map Prod.fst ∨ i = n) ∧
      (res.1 = true → n ∈ res.2.peakMap.map Prod.fst ∧
        (Fresh r → r.peakMap.map Prod.fst ⊆ res.2.peakMap.map Prod.fst)) := by
  unfold addSum4Peak
  refine .bind (summationPeak_spec h.bins) fun o k hk ho => ?_
  rcases o with _ | p
  · exact .pure ⟨.refl (h.mono hk), fun i hi => .inl hi, fun h => absurd h Bool.false_ne_true⟩
  obtain ⟨hid, rfl, hkept⟩ := ho p rfl
  refine .liftOutcome_bind fun t ht => ?_
  obtain ⟨hsaves, hsub⟩ := refresh_spec ((h.mono hk).insertPeak (by omega)) _ t ht
  -- the region with the peak put in brings peaks up to date as `r` does
  have hframe : SameFrame r { r with peakMap := insertPeak r.peakMap p } :=
    ⟨rfl, rfl, rfl, rfl, rfl, rfl⟩
  refine .pure ⟨(hsaves.of_history (r := r) rfl).step.1,
    fun i hi => hid ▸ mem_insertPeak_keys (hsub hi), fun _ => ⟨?_, fun hfr i hi => ?_⟩⟩
  · obtain ⟨q, hq, hmem⟩ := refresh_keeps ht mem_insertPeak_self
    rw [hframe.recomputePeak] at hq
    refine hid ▸ hmem ?_
    rw [hframe.dropped]
    exact hkept q hq
  · -- an old peak is up to date, so it is kept as it is
    obtain ⟨e, he, rfl⟩ := List.mem_map.mp hi
    have hne : e.1 ≠ p.id := fun heq => by
      have := h.below _ hi
      omega
    obtain ⟨q, hq, hmem⟩ := refresh_keeps ht (mem_insertPeak_of_ne he hne)
    have hfresh := hfr e he
    rw [hframe.recomputePeak, hfresh.current] at hq
    cases hq
    refine hmem ?_
    rw [hframe.dropped]
    exact hfresh.kept

/-- Taking peaks out is a step of the invariant that keeps only identities it did not take out. -/
theorem removePeaks_spec {ids : List Nat} (h : Wf s n r) :
    Outcome.Post (r.removePeaks ids) fun res => Step s r n res.2 ∧
      (res.1 = true → ∀ i ∈ res.2.peakMap.map Prod.fst,
        i ∈ r.peakMap.map Prod.fst ∧ ids.contains i = false) := by
  unfold removePeaks
  split
  · exact .pure ⟨.refl h, fun h => absurd h Bool.false_ne_true⟩
  · refine .bind (refitOrRefresh_spec (h.filter _) _) fun t ⟨ht, hsub⟩ =>
      .pure ⟨(ht.of_history (r := r) rfl).step.1, fun _ i hi => ?_⟩
    obtain ⟨e, he, rfl⟩ := List.mem_map.mp (hsub hi)
    obtain ⟨he, hkeep⟩ := List.mem_filter.mp he
    exact ⟨List.mem_map_of_mem he, by simpa using hkeep⟩

/-- A replaced peak keeps an identity already in use, so the counter stays above every one, and
the replacement introduces none. The replaced identity stays when the new peak has a Hypermet
shape, whose center was checked between the edges, and when, in a region that is not stale, it
is the region's own peak, up to date. -/
theorem replacePeak_spec {p : Peak} (h : Wf s n r) :
    Outcome.Post (r.replacePeak p) fun res => Step s r n res.2 ∧
      res.2.peakMap.map Prod.fst ⊆ r.peakMap.map Prod.fst ∧
      (res.1 = true → (p.hypermet.isSome ∨ Fresh r ∧ p ∈ r.peaks) →
        p.id ∈ res.2.peakMap.map Prod.fst) := by
  unfold replacePeak
  split
  · exact .pure ⟨.refl h, List.Subset.refl _, fun h => absurd h Bool.false_ne_true⟩
  rename_i hcontains
  have hcont : r.contains p.id = true := by simpa using hcontains
  have hid : p.id ∈ r.peakMap.map Prod.fst := any_key_iff.mp hcont
  refine .bind_of_ok fun inside hinside => ?_
  split
  · exact .pure ⟨.refl h, List.Subset.refl _, fun h => absurd h Bool.false_ne_true⟩
  rename_i hin
  -- the new center passed the test of the edges
  have hc : r.insideEdges p.center = .ok true := by
    rw [hinside]
    simpa using hin
  have hframe : SameFrame r { r with peakMap := insertPeak r.peakMap p } :=
    ⟨rfl, rfl, rfl, rfl, rfl, rfl⟩
  refine .bind (P := fun t => ({ r with peakMap := insertPeak r.peakMap p } : Region).refresh
    "Peak replaced" = .ok t) (fun _ ht => ht) fun t ht => ?_
  obtain ⟨hsaves, hsub⟩ := refresh_spec (h.insertPeak (h.below _ hid)) _ t ht
  refine .pure ⟨(hsaves.of_history (r := r) rfl).step.1,
    fun i hi => (mem_insertPeak_keys (hsub hi)).elim id fun he => he ▸ hid, fun _ hkeep => ?_⟩
  obtain ⟨q, hq, hmem⟩ := refresh_keeps ht mem_insertPeak_self
  rw [hframe.recomputePeak] at hq
  refine hmem ?_
  rw [hframe.dropped]
  rcases hkeep with hhyp | ⟨hfr, hp⟩
  · -- a Hypermet shape centered between the edges is kept
    obtain ⟨hy, hhy⟩ := Option.isSome_iff_exists.mp hhyp
    have hcenter : p.center = hy.center.value := by simp only [Peak.center, hhy]
    exact dropped_of_hypermet ((recomputePeak_hypermet hq).trans hhy) (hcenter ▸ hc)
  · -- the region's own peak is up to date, so it is kept as it is
    have hfresh := hfr _ (mem_peakMap_of_mem_peaks h.ids hp)
    rw [hfresh.current] at hq
    cases hq
    exact hfresh.kept

/-! ## Edges and range -/

/-- Moving the edges and the range is a step of the invariant that introduces no identity. -/
theorem applyEdges_spec {parent : Finder} {lbBins rbBins : Float × Float} {d : String}
    (h : Wf s n r) :
    Outcome.Post (r.applyEdges parent lbBins rbBins d) fun res => Step s r n res.2 ∧
      res.2.peakMap.map Prod.fst ⊆ r.peakMap.map Prod.fst := by
  unfold applyEdges
  refine .bind setRange_spec fun o ho => ?_
  rcases o with _ | t
  · exact .pure ⟨.refl h, List.Subset.refl _⟩
  · obtain ⟨f, rfl, hf⟩ := ho _ rfl
    obtain ⟨hwf, hh, -, -, hsub⟩ := setEdges_spec (r := { r with finder := f })
      ⟨h.settings, hf, h.ids, h.below⟩ lbBins rbBins
    dsimp only
    split
    · exact .pure ⟨.refl h, List.Subset.refl _⟩
    · exact .bind (refitOrRefresh_spec hwf d) fun u ⟨hu, husub⟩ =>
        .pure ⟨(hu.of_history (r := r) hh).step.1, List.Subset.trans husub hsub⟩

theorem adjustLB_spec {parent : Finder} {left right : Float} (h : Wf s n r) :
    Outcome.Post (r.adjustLB parent left right) fun res => Step s r n res.2 ∧
      res.2.peakMap.map Prod.fst ⊆ r.peakMap.map Prod.fst := by
  unfold adjustLB
  split
  · exact .pure ⟨.refl h, List.Subset.refl _⟩
  · split
    · split
      · exact .pure ⟨.refl h, List.Subset.refl _⟩
      · exact applyEdges_spec h
    · exact .pure ⟨.refl h, List.Subset.refl _⟩

theorem adjustRB_spec {parent : Finder} {left right : Float} (h : Wf s n r) :
    Outcome.Post (r.adjustRB parent left right) fun res => Step s r n res.2 ∧
      res.2.peakMap.map Prod.fst ⊆ r.peakMap.map Prod.fst := by
  unfold adjustRB
  split
  · exact .pure ⟨.refl h, List.Subset.refl _⟩
  · split
    · split
      · exact .pure ⟨.refl h, List.Subset.refl _⟩
      · exact applyEdges_spec h
    · exact .pure ⟨.refl h, List.Subset.refl _⟩

theorem adjustBounds_spec {parent : Finder} {left right : Float} (h : Wf s n r) :
    Outcome.Post (r.adjustBounds parent left right) fun res => Step s r n res.2 ∧
      res.2.peakMap.map Prod.fst ⊆ r.peakMap.map Prod.fst := by
  unfold adjustBounds
  split
  · exact .pure ⟨.refl h, List.Subset.refl _⟩
  · refine .bind setRange_spec fun o ho => ?_
    rcases o with _ | t
    · exact .pure ⟨.refl h, List.Subset.refl _⟩
    · obtain ⟨f, rfl, hf⟩ := ho _ rfl
      refine .bind defaultEdges_spec fun t ⟨l, rt, ht⟩ => ?_
      subst ht
      -- the new range with edges at its ends, the peaks outside them culled, marked stale
      refine .bind (h.reframe hf l rt) fun res ⟨hwf, hh, _, hsub⟩ => ?_
      obtain ⟨t, k⟩ := res
      dsimp only at hwf hh hsub ⊢
      refine .bind (refitOrRefresh_spec ?_ _) fun u ⟨hu, husub⟩ =>
        .pure ⟨(hu.of_history (r := r) hh).step.1, List.Subset.trans husub hsub⟩
      exact hwf.of_eq rfl rfl rfl

/-! ## Drawing, rolling back and new data -/

/-- Drawing the model keeps the invariant: it reads the peaks and bins and sets only the
finder's model and the rendering. -/
theorem render_spec (h : Wf s n r) : Outcome.Post r.render fun t => Step s r n t := by
  intro t ht
  obtain ⟨g, rnd, rfl, hgx, -, -⟩ := render_eq_ok ht
  refine .of_history (h.of_eq (t := { r with finder := g, rendering := rnd }) rfl hgx rfl) rfl
    fun m _ hs => ?_
  exact { hs.toWf.of_eq (t := { r with finder := g, rendering := rnd }) rfl hgx rfl,
    hs.toHistorySound with
    fresh := fun hph => Fresh.of_sameFrame (SameFrame.of_render ht) rfl (hs.fresh hph) }

/-- A region set back to a snapshot of its sound history, made current, is sound whatever it
renders. -/
theorem HistorySound.restore (h : HistorySound s n r) (hs : r.settings = s) {k : Nat}
    (hk : k < r.history.size) (rnd : Rendering) :
    Sound s n { r.restore (r.history.getD k default) k with rendering := rnd } := by
  obtain ⟨hsnap, hbelow⟩ := h.snapshots _ (history_getD_mem hk)
  refine {
    settings := hs
    bins := hsnap.bins
    ids := PeakIds.foldl_insertPeak PeakIds.nil _
    below := ?_
    current := .inr ⟨Int.natCast_nonneg k, by simpa using hk⟩
    snapshots := h.snapshots
    fresh := fun _ => ?_ }
  · intro i hi
    rw [show ({ r.restore (r.history.getD k default) k with rendering := rnd } : Region).peakMap =
      (r.restore (r.history.getD k default) k).peakMap from rfl, restore_peakMap hsnap.ids,
      List.map_map] at hi
    obtain ⟨p, hp, rfl⟩ := List.mem_map.mp hi
    exact hbelow p hp
  · exact Fresh.of_sameFrame (r := r.restore (r.history.getD k default) k)
      ⟨rfl, rfl, rfl, rfl, rfl, rfl⟩ rfl (restore_fresh hsnap hs k)

theorem rollback_spec {i : Int} (h : Sound s n r) :
    Outcome.Post (r.rollback i) fun res => Step s r n res.2 := by
  by_cases hin : 0 ≤ i ∧ i < r.history.size
  · obtain ⟨k, rfl⟩ := Int.eq_ofNat_of_zero_le hin.1
    have hk : k < r.history.size := by omega
    obtain ⟨hsnap, -⟩ := h.snapshots _ (history_getD_mem hk)
    obtain ⟨rnd, hr⟩ := rollback_of_sound hk h.settings hsnap
    rw [hr]
    exact .pure (.of_history (h.toHistorySound.restore h.settings hk rnd).toWf rfl
      fun m _ hs => hs.toHistorySound.restore hs.settings hk rnd)
  · unfold rollback
    simp only [hin, decide_false, Bool.not_false, if_true]
    exact .pure (.refl h.toWf)

/-- Rolling back to an index of a sound history succeeds, keeps the history, makes that index
current, sets the region to what its snapshot records with the phase its peaks call for, and
rolling back to it again changes nothing. -/
theorem rollback_restores (h : Sound s n r) {k : Nat} (hk : k < r.history.size) :
    ∃ t, r.rollback k = .ok (true, t) ∧ t.history = r.history ∧ t.currentFit = k ∧
      (r.history.getD k default).Records t ∧
      t.phase = (if (r.history.getD k default).peaks.isEmpty then .searched else .fitted) ∧
      t.rollback k = .ok (true, t) := by
  obtain ⟨hsnap, -⟩ := h.snapshots _ (history_getD_mem hk)
  obtain ⟨rnd, hr⟩ := rollback_of_sound hk h.settings hsnap
  exact ⟨_, hr, rfl, rfl, ⟨rfl, rfl, rfl, rfl, (restore_peaks (r := r) hsnap k).symm, rfl⟩, rfl,
    rollback_rollback hr⟩

theorem peaks_isEmpty : r.peaks.isEmpty = r.peakMap.isEmpty := by
  rw [peaks, Bool.eq_iff_iff, List.isEmpty_iff, List.isEmpty_iff,
    ← List.length_eq_zero_iff, (byCenter_perm _).length_eq, List.length_map,
    List.length_eq_zero_iff]

/-- A region drawn as it is draws again any region that agrees with it on what drawing reads,
with its rendering. -/
theorem render_of_drawn (h : t.render = .ok t) (hs : u.settings = t.settings)
    (hb : u.background = t.background) (hf : u.finder = t.finder) (hp : u.peaks = t.peaks) :
    u.render = .ok { u with rendering := t.rendering } := by
  obtain ⟨g, rnd, hd, ht⟩ := render_eq_ok_iff.mp h
  have hg : t.finder = g := congrArg Region.finder ht
  have hrnd : t.rendering = rnd := congrArg Region.rendering ht
  refine render_eq_ok_iff.mpr ⟨g, rnd, by rw [hs, hb, hf, hp]; exact hd, ?_⟩
  rw [hrnd, ← hg, ← hf]

/-- Rolling back to the current fit of a region in the state it recorded changes nothing but
the order in which the peak map lists the peaks: the peaks by center, the edges, backgrounds,
finder, rendering, history, current fit and phase are all as they were. -/
theorem rollback_current (h : Sound s n r) (hrec : Recorded r) :
    ∃ m, r.rollback r.currentFit = .ok (true, { r with peakMap := m }) ∧
      ({ r with peakMap := m } : Region).peaks = r.peaks := by
  obtain ⟨snap, hback, hsnap⟩ := hrec.last
  -- the current fit is the last index of the history, whose snapshot records the region
  have hpos : 0 < r.history.size := by
    rcases hsz : r.history.size with _ | k
    · rw [Array.back?_eq_none_iff.mpr (Array.size_eq_zero_iff.mp hsz)] at hback
      cases hback
    · exact Nat.succ_pos k
  obtain ⟨k, hk⟩ : ∃ k : Nat, r.currentFit = k ∧ k + 1 = r.history.size :=
    ⟨r.history.size - 1, by have := hrec.current; omega, by omega⟩
  have hget : r.history.getD k default = snap := by
    rw [Array.back?_eq_getElem?] at hback
    rw [Array.getD, dif_pos (by omega)]
    rw [show r.history.size - 1 = k by omega] at hback
    exact Option.some.inj ((Array.getElem?_eq_getElem (by omega)).symm.trans hback)
  subst hget
  obtain ⟨hsnd, -⟩ := h.snapshots _ (history_getD_mem (show k < r.history.size by omega))
  -- the restored region draws as the region did, and is the region with its peaks reordered
  have hrender : (r.restore (r.history.getD k default) k).render =
      .ok { r.restore (r.history.getD k default) k with rendering := r.rendering } :=
    render_of_drawn hrec.drawn rfl hsnap.background hsnap.finder
      ((restore_peaks hsnd k).trans hsnap.peaks)
  have hphase : (if (r.history.getD k default).peaks.isEmpty then Phase.searched else .fitted) =
      r.phase := by
    rw [hsnap.peaks, peaks_isEmpty, hrec.phase]
  have hreg : { r.restore (r.history.getD k default) k with rendering := r.rendering } =
      { r with peakMap := (r.history.getD k default).peaks.foldl insertPeak [] } := by
    unfold restore
    rw [hsnap.lb, hsnap.rb, hsnap.background, hsnap.sum4Background, hsnap.finder, hphase, ← hk.1]
  have hin : 0 ≤ (k : Int) ∧ (k : Int) < r.history.size := ⟨Int.natCast_nonneg k, by omega⟩
  refine ⟨(r.history.getD k default).peaks.foldl insertPeak [], ?_,
    (restore_peaks (r := r) hsnd k).trans hsnap.peaks⟩
  rw [← hreg, hk.1]
  simp only [rollback, hin, Int.toNat_natCast, hrender]
  rfl

/-- A region with no history and no current fit has a sound history. -/
theorem HistorySound.empty (hh : r.history = #[]) (hc : r.currentFit = -1) : HistorySound s n r :=
  ⟨.inl ⟨hc, by rw [hh]; rfl⟩, fun snap hsnap => by rw [hh] at hsnap; simp at hsnap⟩

/-- A region that has taken new data: settings `s`, ascending bins, and no peak, no history and
no current fit. -/
structure Restarted (s : Settings) (t : Region) : Prop where
  settings : t.settings = s
  bins : Ascending t.finder.x
  peaks : t.peakMap = []
  history : t.history = #[]
  current : t.currentFit = -1

/-- A region that has taken new data is sound: it has no peak to keep up to date and no
history. -/
theorem Restarted.sound (h : Restarted s t) : Sound s n t where
  settings := h.settings
  bins := h.bins
  ids := h.peaks ▸ PeakIds.nil
  below i hi := by
    rw [h.peaks] at hi
    cases hi
  toHistorySound := .empty h.history h.current
  fresh _ e he := by
    rw [h.peaks] at he
    cases he

theorem Restarted.of_eq (h : Restarted s t) (hs : u.settings = t.settings)
    (hx : u.finder.x = t.finder.x) (hm : u.peakMap = t.peakMap) (hh : u.history = t.history)
    (hc : u.currentFit = t.currentFit) : Restarted s u :=
  ⟨hs.trans h.settings, hx ▸ h.bins, hm.trans h.peaks, hh.trans h.history, hc.trans h.current⟩

/-- Taking a new range of data starts the region again. A success leaves a region with no peak
and no history; a failure comes with the region as it was, when it comes before the data is
taken, and otherwise as far as it got, again with no peak and no history. -/
theorem setData_spec {x y : Array Float} {minBin maxBin : Float} (h : Wf s n r) :
    Except.Post (r.setData x y minBin maxBin) (fun o => ∀ t, o = some t → Restarted s t)
      fun failed => failed.2 = r ∨ Restarted s failed.2 := by
  unfold setData
  dsimp only
  split
  · exact .pure fun _ h => nomatch h
  split
  · exact .pure fun _ h => nomatch h
  refine .bind (.mapError Finder.ofData_bins fun _ => .inl rfl) fun ⟨ok, f⟩ ⟨hf, _⟩ => ?_
  split
  · exact .pure fun _ h => nomatch h
  -- from here on the region holds the new data, and each stage keeps what `Restarted` reads
  have h₁ : Restarted s { r with finder := f, peakMap := [], history := #[], currentFit := -1 } :=
    ⟨h.settings, hf, rfl, rfl, rfl⟩
  refine .bind (.mapError defaultEdges_spec fun _ => .inr h₁) fun r₂ ⟨l, rt, hr₂⟩ => ?_
  subst hr₂
  have h₂ := h₁.of_eq (u := Region.initBackground
    { r with finder := f, lb := l, rb := rt, peakMap := [], history := #[], currentFit := -1 })
    (by simp) (by simp) (by simp) (by simp) (by simp)
  refine .bind (.mapError search_spec fun _ => .inr h₂) fun r₃ ⟨f', hr₃, hx, _⟩ => ?_
  have h₃ : Restarted s { r₃ with phase := .searched } :=
    h₂.of_eq (by rw [hr₃]) (by rw [hr₃]; exact hx) (by rw [hr₃]) (by rw [hr₃]) (by rw [hr₃])
  refine .bind (P := Restarted s) (.mapError (fun u hu => ?_) fun _ => .inr h₃)
    fun u hu => .pure fun t ht => ?_
  · obtain ⟨g, rnd, rfl, hgx, -, -⟩ := render_eq_ok hu
    exact h₃.of_eq rfl hgx rfl rfl rfl
  · cases ht
    exact hu

/-! ## Adding a peak -/

/-- Adding a peak between two bins is a step of the invariant. Inside the range it is a peak
from the residual or a summation peak; beyond it the range is widened, the peaks outside the
new edges culled and the rest brought up to date and drawn, before a peak from the residual or
a full automatic fit. Every new identity is one the counter handed out during the call. -/
theorem addPeak_spec {parent : Finder} {leftBin rightBin : Float} {i : Bool} (h : Wf s n r) :
    RegionM.Runs (r.addPeak parent leftBin rightBin i) n fun res k => Step s r k res.2 ∧
      IdsFrom r n res.2 := by
  unfold addPeak
  dsimp only
  split
  · exact .pure ⟨.refl h, .refl r n⟩
  split
  · exact .pure ⟨.refl h, .refl r n⟩
  split
  · -- inside the range
    refine .bind (addFromResid_spec h) fun o k hk ho => ?_
    rcases o with _ | t
    · exact .mono (addSum4Peak_spec (h.mono hk)) fun res k' _ ⟨hstep, hfrom, _⟩ =>
        ⟨hstep, (IdsFrom.of_eq_or hfrom).mono hk⟩
    · obtain ⟨hsaves, hfrom, -⟩ := ho t rfl
      exact .pure ⟨hsaves.step.1, .of_eq_or hfrom⟩
  -- beyond the range: the range widened from the spectrum first
  refine .bind (P := fun o _ => ∀ t, o = some t →
      ∃ f : Finder, t = { r with finder := f } ∧ Ascending f.x)
    (.liftOutcome setRange_spec) fun o k hk ho => ?_
  rcases o with _ | t
  · exact .pure ⟨.refl (h.mono hk), .refl r n⟩
  obtain ⟨f, rfl, hf⟩ := ho _ rfl
  -- the edges at the new ends, the peaks outside them culled and the rest brought up to date
  refine .liftOutcome_bind fun t₁ ht₁ => ?_
  obtain ⟨l, rt, rfl⟩ := defaultEdges_spec t₁ ht₁
  refine .liftOutcome_bind fun res hres => ?_
  obtain ⟨hwf, hh, hc, hsub⟩ := h.reframe hf l rt res hres
  obtain ⟨t₁, k₁⟩ := res
  dsimp only at hwf hh hc hsub ⊢
  refine .liftOutcome_bind fun t₂ ht₂ => ?_
  obtain ⟨hwf₂, hf₂, -⟩ := (hwf.mono hk).recompute t₂ ht₂
  obtain ⟨m, rfl, -, hmsub, -⟩ := recompute_spec hwf.bins hwf.ids t₂ ht₂
  have hsub₂ : m.map Prod.fst ⊆ r.peakMap.map Prod.fst := fun _ hi => hsub (hmsub.subset hi)
  refine .liftOutcome_bind fun t₃ ht₃ => ?_
  obtain ⟨hstep, hh₃, hpm₃, -⟩ :=
    render_step hwf₂ hf₂ hh hc rfl t₃ ht₃
  have hids₃ : IdsFrom r n t₃ := .of_subset (fun _ hi => hsub₂ (by rwa [hpm₃] at hi)) n
  -- then a peak from the residual, or a full automatic fit
  refine .bind (addFromResid_spec hstep.wf) fun o k₄ hk₄ ho => ?_
  rcases o with _ | u
  · refine .bind (autoFit_spec (hstep.wf.mono hk₄)) fun ⟨o, u⟩ k₅ hk₅ ⟨hstep', _, hids'⟩ => ?_
    refine .liftOutcome_bind fun ok _ => ?_
    split
    · exact .pure ⟨hstep.after_history hh₃ hstep' (by omega), hids₃.trans hids' (by omega)⟩
    · exact .pure ⟨.refl (h.mono (by omega)), .refl r n⟩
  · obtain ⟨hsaves, hfrom, -⟩ := ho u rfl
    exact .pure ⟨hstep.after_history hh₃ hsaves.step.1 hk₄,
      hids₃.trans (.of_eq_or hfrom) (by omega)⟩

end Region

end GammaFit
