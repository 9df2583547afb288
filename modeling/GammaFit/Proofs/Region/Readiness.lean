import GammaFit.Proofs.Analysis.Ranges
import GammaFit.Proofs.Region.Refit

/-!
# Regions ready for a fit

A region gets its data from a spectrum, and its edge windows from the ends of its range or from
the bins the user names. Once it has data it has both edge windows, the left one ending before
the right one starts, and one count per bin; and it has data once it left the empty phase or
holds a peak. So every region a fit is asked of can draw a model over its data with the
regression background through its edge windows (`Region.Ready`).

Edge windows in order need two facts that the steps do not check by themselves: the default
windows at the ends of a range are apart only because the range holds at least `2k + 1` bins for
windows of `k` samples, and only when `k` is a whole number, since a count of samples given as a
double makes the windows fail (`Settings.WholeEdgeSamples`). Every range is checked for that
many bins before it is cut.

The invariant is kept by every step of a region's request but `reload` (`regionStep_ready`), so
every reachable region is ready (`Reachable.ready`). With it, an automatic fit of a reachable
region that holds a fit depends only on its settings, data and edges
(`autoFit_forgets_earlier_fits`): the fit clears everything else before it reads it.
-/

namespace GammaFit

open Search (Finder)

/-- Edge windows in order: both are placed, the left one ending before the right one starts. -/
def EdgesApart (lb rb : Option Edge) : Prop :=
  ∃ l rt, lb = some l ∧ rb = some rt ∧ l.stop < rt.start

/-- Settings whose edge windows take a whole number of samples, at least one. -/
def Settings.WholeEdgeSamples (s : Settings) : Prop :=
  (∀ v, s.edgeSamples ≠ .num v) ∧ 1 ≤ Settings.count s.edgeSamples

/-- A snapshot with data, one count per bin, and edge windows in order. -/
structure Snapshot.Ready (snap : Snapshot) : Prop where
  bins : snap.finder.x ≠ #[]
  counts : snap.finder.x.size = snap.finder.y.size
  edges : EdgesApart snap.lb snap.rb

/-- Every value of an outcome satisfies two properties that each of its values satisfies. -/
theorem Outcome.Post.and {α : Type} {o : Outcome α} {P Q : α → Prop} (hp : Outcome.Post o P)
    (hq : Outcome.Post o Q) : Outcome.Post o fun a => P a ∧ Q a :=
  fun a ha => ⟨hp a ha, hq a ha⟩

/-- A strictly increasing list of indices holds at most as many as it spans. -/
theorem length_le_span {l : List Nat} (h : l.Pairwise (· < ·)) :
    l.length ≤ l.getLastD 0 + 1 - l.headD 0 := by
  induction l with
  | nil => simp
  | cons a t ih =>
    cases t with
    | nil => simp
    | cons b t =>
      have hab : a < b := List.rel_of_pairwise_cons h List.mem_cons_self
      have hspan := ih h.of_cons
      simp only [List.length_cons, List.headD_cons, List.getLastD_cons] at hspan ⊢
      omega

/-- The cut of `x` from the first to the last of the indices that pass a test holds at least as
many bins as pass it. -/
theorem length_le_extract_size {x : Array Float} {p : Nat → Bool} :
    ((List.range x.size).filter p).length ≤
      (x.extract (((List.range x.size).filter p).headD 0)
        (((List.range x.size).filter p).getLastD 0 + 1)).size := by
  rcases eq_or_ne ((List.range x.size).filter p) [] with hnil | hne
  · simp [hnil]
  have hspan := length_le_span ((List.pairwise_lt_range (n := x.size)).filter p)
  -- the last index passing the test is one of the bins
  have hlast : ((List.range x.size).filter p).getLastD 0 < x.size := by
    rw [List.getLastD_eq_getLast?, List.getLast?_eq_some_getLast hne, Option.getD_some]
    simpa using (List.mem_filter.mp (List.getLast_mem hne)).1
  rw [Array.size_extract]
  omega

namespace Edge

/-- A window over samples in range is placed, from the bin of its first sample to the bin of its
last. -/
theorem ofSamples?_bounds {x y : Array Float} {first last : Int} (hxy : x.size = y.size)
    (h0 : 0 ≤ first) (hfl : first ≤ last) (hl : last < y.size) :
    ∃ e, ofSamples? x y first last = some e ∧ e.start = x.getD first.toNat 0.0 ∧
      e.stop = x.getD last.toNat 0.0 := by
  unfold ofSamples? window?
  rw [if_neg (by omega)]
  exact ⟨_, rfl, rfl, rfl⟩

end Edge

namespace Region

variable {r t : Region}

/-- A region that has been given something to fit: it left the empty phase, or holds a peak. -/
def Occupied (r : Region) : Prop := r.phase ≠ .empty ∨ r.peakMap ≠ []

/-- A region ready for a fit: one count per bin; with bins, edge windows in order; bins once it
is occupied; and every snapshot of its history ready. -/
structure Ready (r : Region) : Prop where
  counts : r.finder.x.size = r.finder.y.size
  edges : r.finder.x ≠ #[] → EdgesApart r.lb r.rb
  occupied : r.Occupied → r.finder.x ≠ #[]
  history : ∀ snap ∈ r.history, snap.Ready

/-- A ready region with bins, whose edge windows are therefore in order. -/
structure Loaded (r : Region) : Prop extends Ready r where
  bins : r.finder.x ≠ #[]

theorem Loaded.apart (h : r.Loaded) : EdgesApart r.lb r.rb := h.edges h.bins

theorem Ready.loaded (h : r.Ready) (ho : r.Occupied) : r.Loaded := ⟨h, h.occupied ho⟩

theorem occupied_of_phase (h : (r.phase == .empty) = false) : r.Occupied :=
  .inl fun he => by simp [he] at h

theorem occupied_of_contains {i : Nat} (h : r.contains i = true) : r.Occupied :=
  .inr fun hnil => by simp [contains, hnil] at h

theorem occupied_of_parametric (h : r.parametric ≠ []) : r.Occupied :=
  .inr fun hnil => h (by simp [parametric, peaks, hnil, byCenter])

/-! ## The invariant under the primitives -/

/-- A region with the data, the edges and the history of a ready one is ready, as long as it is
occupied only when the ready one has bins. -/
theorem Ready.of_frame (h : r.Ready) (hx : t.finder.x = r.finder.x) (hy : t.finder.y = r.finder.y)
    (hlb : t.lb = r.lb) (hrb : t.rb = r.rb) (hhist : t.history = r.history)
    (hocc : t.Occupied → r.finder.x ≠ #[]) : t.Ready where
  counts := by rw [hx, hy]; exact h.counts
  edges hne := by rw [hlb, hrb]; exact h.edges (hx ▸ hne)
  occupied ho := hx ▸ hocc ho
  history := hhist ▸ h.history

/-- A region with the data, the edges and the history of a loaded one is loaded, whatever its
phase and peaks. -/
theorem Loaded.of_frame (h : r.Loaded) (hx : t.finder.x = r.finder.x)
    (hy : t.finder.y = r.finder.y) (hlb : t.lb = r.lb) (hrb : t.rb = r.rb)
    (hhist : t.history = r.history) : t.Loaded :=
  ⟨h.toReady.of_frame hx hy hlb hrb hhist fun _ => h.bins, by rw [hx]; exact h.bins⟩

theorem Loaded.withPhase (h : r.Loaded) (ph : Phase) : ({ r with phase := ph } : Region).Loaded :=
  h.of_frame rfl rfl rfl rfl rfl

theorem Loaded.withPeaks (h : r.Loaded) (m : List (Nat × Peak)) :
    ({ r with peakMap := m } : Region).Loaded :=
  h.of_frame rfl rfl rfl rfl rfl

/-- New bins, one count each, under the edges of a loaded region. -/
theorem Loaded.reframe (h : r.Loaded) {f : Finder} (hc : f.x.size = f.y.size) (hne : f.x ≠ #[]) :
    ({ r with finder := f } : Region).Loaded :=
  ⟨⟨hc, fun _ => h.apart, fun _ => hne, h.history⟩, hne⟩

theorem Loaded.snapshot (h : r.Loaded) (d : String) : (r.snapshot d).Ready :=
  ⟨h.bins, h.counts, h.apart⟩

theorem Loaded.saveCurrentFit (h : r.Loaded) (d : String) : (r.saveCurrentFit d).Loaded := by
  refine ⟨⟨h.counts, h.edges, h.occupied, fun snap hs => ?_⟩, h.bins⟩
  rw [saveCurrentFit_history, Array.mem_push] at hs
  rcases hs with hs | rfl
  · exact h.history snap hs
  · exact h.snapshot d

/-- Restoring a snapshot of the history takes its data and edges, which are ready. -/
theorem Ready.restore (h : r.Ready) {snap : Snapshot} (hs : snap ∈ r.history) (i : Int) :
    (r.restore snap i).Loaded := by
  have hsnap := h.history snap hs
  exact ⟨⟨hsnap.counts, fun _ => hsnap.edges, fun _ => hsnap.bins, h.history⟩, hsnap.bins⟩

@[simp] theorem initBackground_phase : r.initBackground.phase = r.phase := by
  unfold initBackground
  split <;> rfl

theorem Ready.initBackground (h : r.Ready) : r.initBackground.Ready :=
  h.of_frame (by simp) (by simp) initBackground_lb initBackground_rb initBackground_history
    fun ho => h.occupied (by simpa [Occupied] using ho)

theorem Loaded.initBackground (h : r.Loaded) : r.initBackground.Loaded :=
  ⟨h.toReady.initBackground, by simpa using h.bins⟩

theorem Ready.filter (h : r.Ready) (f : Nat × Peak → Bool) :
    ({ r with peakMap := r.peakMap.filter f } : Region).Ready := by
  refine h.of_frame rfl rfl rfl rfl rfl fun ho => h.occupied ?_
  rcases ho with hph | hpm
  · exact .inl hph
  · exact .inr fun hnil => hpm (by simp [hnil])

theorem Ready.cullPeaks (h : r.Ready) : Outcome.Post r.cullPeaks fun res => res.1.Ready :=
  cullPeaks_filter h.filter

theorem Loaded.filter (h : r.Loaded) (f : Nat × Peak → Bool) :
    ({ r with peakMap := r.peakMap.filter f } : Region).Loaded :=
  h.of_frame rfl rfl rfl rfl rfl

theorem Loaded.cullPeaks (h : r.Loaded) : Outcome.Post r.cullPeaks fun res => res.1.Loaded :=
  cullPeaks_filter h.filter

theorem Loaded.recompute (h : r.Loaded) : Outcome.Post r.recompute Loaded := by
  intro t ht
  obtain ⟨k, -, rfl⟩ := recompute_eq_ok.mp ht
  exact h.of_frame rfl rfl rfl rfl rfl

theorem Ready.render (h : r.Ready) : Outcome.Post r.render Ready := by
  intro t ht
  obtain ⟨g, rnd, rfl, hx, hy, -⟩ := render_eq_ok ht
  exact h.of_frame hx hy rfl rfl rfl fun ho => h.occupied ho

theorem Loaded.render (h : r.Loaded) : Outcome.Post r.render Loaded := by
  intro t ht
  obtain ⟨g, rnd, rfl, hx, hy, -⟩ := render_eq_ok ht
  exact h.of_frame hx hy rfl rfl rfl

theorem Loaded.search (h : r.Loaded) {sigma : Float} : Outcome.Post (r.search sigma) Loaded := by
  intro t ht
  obtain ⟨f, rfl, hx, hy⟩ := search_spec t ht
  exact h.of_frame hx hy rfl rfl rfl

/-! ## Edge windows at the ends of a range -/

/-- With a whole number of samples, a count of bins is too few exactly below `2k + 1`. -/
theorem tooFewBins_eq_false (hs : r.settings.WholeEdgeSamples) {n : Int} :
    r.tooFewBins n = false ↔ 2 * r.edgeSamples + 1 ≤ n := by
  unfold tooFewBins
  split
  · rename_i v hv
    exact absurd hv (hs.1 v)
  · simp

/-- With a whole number `k ≥ 1` of samples, the edge windows at the ends of `2k + 1` or more
ascending bins are both placed, and apart: the last sample of the left one comes before the
first of the right one. -/
theorem defaultEdges_apart (hs : r.settings.WholeEdgeSamples) (hasc : Ascending r.finder.x)
    (hcounts : r.finder.x.size = r.finder.y.size)
    (hwide : 2 * r.edgeSamples + 1 ≤ r.finder.x.size) :
    ∃ l rt, r.defaultEdges = .ok { r with lb := some l, rb := some rt } ∧ l.stop < rt.start := by
  have hk : 1 ≤ r.edgeSamples := hs.2
  obtain ⟨l, hl, -, hstop⟩ := @Edge.ofSamples?_bounds r.finder.x r.finder.y 0
    (r.edgeSamples - 1) hcounts le_rfl (by omega) (by omega)
  obtain ⟨rt, hr, hstart, -⟩ := @Edge.ofSamples?_bounds r.finder.x r.finder.y
    (r.finder.x.size - r.edgeSamples) (r.finder.x.size - 1) hcounts (by omega) (by omega)
    (by omega)
  refine ⟨l, rt, ?_, ?_⟩
  · unfold defaultEdges
    split
    · rename_i v hv
      exact absurd hv (hs.1 v)
    · dsimp only
      rw [hl, hr]
      rfl
  · rw [hstop, hstart]
    exact hasc.lt (by omega) (by omega)

/-- The edge windows placed at the ends of new ascending bins, wide enough for them, leave a
region with bins and edges in order. -/
theorem defaultEdges_loaded (hs : r.settings.WholeEdgeSamples)
    (hh : ∀ snap ∈ r.history, snap.Ready) {f : Finder} (hasc : Ascending f.x)
    (hsize : f.x.size = f.y.size) (hne : f.x ≠ #[]) (hfew : r.tooFewBins f.x.size = false) :
    Outcome.Post ({ r with finder := f } : Region).defaultEdges Loaded := by
  obtain ⟨l, rt, hdef, hlt⟩ := defaultEdges_apart (r := { r with finder := f }) hs hasc hsize
    ((tooFewBins_eq_false hs).mp hfew)
  intro t ht
  rw [hdef] at ht
  cases ht
  exact ⟨⟨hsize, fun _ => ⟨l, rt, rfl, rfl, hlt⟩, fun _ => hne, hh⟩, hne⟩

/-- A new range is a cut of the parent into ascending bins, one count each, holding a bin and at
least as many as two edge windows and a bin between them take. -/
theorem setRange_wide {parent : Finder} {left right : Float} :
    Outcome.Post (r.setRange parent left right) fun o => ∀ t, o = some t →
      ∃ f : Finder, t = { r with finder := f } ∧ Ascending f.x ∧ f.x.size = f.y.size ∧
        f.x ≠ #[] ∧ r.tooFewBins f.x.size = false := by
  unfold setRange
  dsimp only
  split
  · exact .pure fun _ h => nomatch h
  split
  · exact .pure fun _ h => nomatch h
  rename_i hfew
  refine .bind (Finder.cloneRange_bins.and Finder.cloneRange_cut) fun f ⟨⟨hasc, hsize⟩, hcut⟩ => ?_
  split
  · exact .pure fun _ h => nomatch h
  rename_i hempty
  have hne : f.x ≠ #[] := fun h => hempty (by rw [h]; rfl)
  refine .pure fun t ht => ⟨f, (Option.some.inj ht).symm, hasc, hsize, hne, ?_⟩
  rcases hcut with hnil | ⟨h0, hfl, hl, hx⟩
  · exact absurd hnil hne
  · have hcount : (f.x.size : Int) =
        (Numeric.searchRight parent.x right : Int) - 1 - Numeric.searchLeft parent.x left + 1 := by
      rw [hx, Array.size_extract]
      omega
    rw [hcount]
    simpa using hfew

/-! ## The operations that may fail -/

theorem Loaded.refresh (h : r.Loaded) (d : String) : Outcome.Post (r.refresh d) Loaded := by
  unfold Region.refresh
  exact .bind h.recompute fun r₁ h₁ =>
    .bind (h₁.withPhase _).render fun u hu => .pure (hu.saveCurrentFit d)

/-- A regression sets the background and the peaks, and draws the model over the same data. -/
theorem Loaded.regress (h : r.Loaded) {seeds : List (Nat × Hypermet)} {g : Bool} :
    Outcome.Post (r.regress seeds g) fun o => ∀ t, o = some t → t.Loaded := by
  unfold Region.regress
  split
  · split
    · exact .pure fun _ h => by cases h
    · dsimp only
      split
      · refine .bind_forall fun regressed => ?_
        split
        · exact .pure fun _ h => by cases h
        · refine .bind (Loaded.recompute (h.of_frame rfl rfl rfl rfl rfl)) fun r₁ h₁ =>
            .bind (h₁.withPhase _).render fun u hu => .pure fun t ht => ?_
          cases ht
          exact hu
      · exact .pure fun _ h => by cases h
  · exact .pure fun _ h => by cases h

/-- A region regressed again had Hypermet peaks, so it has bins. -/
theorem Ready.rebuild (h : r.Ready) (d : String) :
    Outcome.Post (r.rebuild d) fun o => ∀ t, o = some t → t.Loaded := by
  unfold Region.rebuild
  dsimp only
  split
  · exact .pure fun _ h => by cases h
  · rename_i hfit
    have hl : r.Loaded := h.loaded (occupied_of_parametric fun hnil => hfit (by simp [hnil]))
    refine .bind hl.initBackground.regress fun o ho => ?_
    rcases o with _ | u
    · exact .pure fun _ h => by cases h
    · exact .pure fun t ht => by
        cases ht
        exact (ho u rfl).saveCurrentFit d

theorem Loaded.refitOrRefresh (h : r.Loaded) (d : String) :
    Outcome.Post (r.refitOrRefresh d) Loaded := by
  unfold Region.refitOrRefresh
  refine .bind (h.toReady.rebuild d) fun o ho => ?_
  rcases o with _ | t
  · exact h.refresh d
  · exact .pure (ho t rfl)

/-- Peaks are removed only from a region that holds one, which has bins. -/
theorem Ready.removePeaks (h : r.Ready) (ids : List Nat) :
    Outcome.Post (r.removePeaks ids) fun res => res.2.Ready := by
  unfold Region.removePeaks
  split
  · exact .pure h
  · rename_i hany
    have hin : ∃ i ∈ ids, r.contains i = true := by simpa using hany
    obtain ⟨i, -, hi⟩ := hin
    have hl : r.Loaded := h.loaded (occupied_of_contains hi)
    exact .bind ((hl.withPeaks _).refitOrRefresh _) fun t ht => .pure ht.toReady

theorem Ready.replacePeak (h : r.Ready) (p : Peak) :
    Outcome.Post (r.replacePeak p) fun res => res.2.Ready := by
  unfold Region.replacePeak
  split
  · exact .pure h
  rename_i hin
  have hc : r.contains p.id = true := by simpa using hin
  have hl : r.Loaded := h.loaded (occupied_of_contains hc)
  refine .bind_forall fun _ => ?_
  split
  · exact .pure h
  · exact .bind ((hl.withPeaks _).refresh _) fun t ht => .pure ht.toReady

/-- Placing the edge windows checks that they are apart; peaks kept await a regression, which
only a region with peaks, and so with bins, is marked for. -/
theorem Ready.setEdges (h : r.Ready) (lbBins rbBins : Float × Float) :
    (r.setEdges lbBins rbBins).2.Ready := by
  unfold Region.setEdges
  split
  · rename_i l rt _ _
    split
    · exact h
    · rename_i hlt
      have hu : ({ r with lb := some l, rb := some rt } : Region).Ready :=
        ⟨h.counts, fun _ => ⟨l, rt, rfl, rfl, by simpa using hlt⟩, h.occupied, h.history⟩
      have ht : ({ r with lb := some l, rb := some rt }.initBackground.cullWithin l rt).1.Ready :=
        hu.initBackground.filter _
      dsimp only
      split
      · exact ht
      · rename_i hpeaks
        exact ((ht.loaded (.inr fun hnil => hpeaks (by simp [hnil]))).withPhase _).toReady
  · exact h

theorem Loaded.setEdges (h : r.Loaded) (lbBins rbBins : Float × Float) :
    (r.setEdges lbBins rbBins).2.Loaded :=
  ⟨h.toReady.setEdges lbBins rbBins, by rw [setEdges_bins]; exact h.bins⟩

/-- A region with bins cut again to the outer ends of two edge windows keeps bins. -/
theorem Loaded.applyEdges (h : r.Loaded) {parent : Finder} {lbBins rbBins : Float × Float}
    {d : String} : Outcome.Post (r.applyEdges parent lbBins rbBins d) fun res => res.2.Ready := by
  unfold Region.applyEdges
  refine .bind setRange_wide fun o ho => ?_
  rcases o with _ | t
  · exact .pure h.toReady
  · obtain ⟨f, rfl, -, hsize, hne, -⟩ := ho _ rfl
    have ht := (h.reframe hsize hne).setEdges lbBins rbBins
    dsimp only
    split
    · exact .pure h.toReady
    · exact .bind (ht.refitOrRefresh d) fun u hu => .pure hu.toReady

theorem Ready.adjustLB (h : r.Ready) {parent : Finder} {left right : Float} :
    Outcome.Post (r.adjustLB parent left right) fun res => res.2.Ready := by
  unfold Region.adjustLB
  split
  · exact .pure h
  · rename_i hph
    have hl : r.Loaded := h.loaded (occupied_of_phase (by simp_all))
    split
    · split
      · exact .pure h
      · exact hl.applyEdges
    · exact .pure h

theorem Ready.adjustRB (h : r.Ready) {parent : Finder} {left right : Float} :
    Outcome.Post (r.adjustRB parent left right) fun res => res.2.Ready := by
  unfold Region.adjustRB
  split
  · exact .pure h
  · rename_i hph
    have hl : r.Loaded := h.loaded (occupied_of_phase (by simp_all))
    split
    · split
      · exact .pure h
      · exact hl.applyEdges
    · exact .pure h

/-- A new range takes its edge windows at its ends, which it is wide enough for. -/
theorem Ready.adjustBounds (hs : r.settings.WholeEdgeSamples) (h : r.Ready) {parent : Finder}
    {left right : Float} :
    Outcome.Post (r.adjustBounds parent left right) fun res => res.2.Ready := by
  unfold Region.adjustBounds
  split
  · exact .pure h
  · refine .bind setRange_wide fun o ho => ?_
    rcases o with _ | t
    · exact .pure h
    · obtain ⟨f, rfl, hasc, hsize, hne, hfew⟩ := ho _ rfl
      refine .bind (defaultEdges_loaded hs h.history hasc hsize hne hfew) fun t₁ h₁ => ?_
      exact .bind h₁.initBackground.cullPeaks fun _ h₂ =>
        .bind ((h₂.withPhase _).refitOrRefresh _) fun u hu => .pure hu.toReady

/-- Rolling back restores a snapshot of the history, which is ready. -/
theorem Ready.rollback (h : r.Ready) (index : Int) :
    Outcome.Post (r.rollback index) fun res => res.2.Ready := by
  unfold Region.rollback
  split
  · exact .pure h
  · rename_i hin
    have hin : 0 ≤ index ∧ index < r.history.size := by simpa using hin
    have hmem : r.history.getD index.toNat default ∈ r.history := history_getD_mem (by omega)
    exact .bind (h.restore hmem index).render fun t ht => .pure ht.toReady

/-! ## The operations that hand out identities -/

/-- A summation peak is found only over bins. -/
theorem summationPeakAt_bins {left right : Int} :
    RegionM.Post (r.summationPeakAt left right) fun o => o.isSome → r.finder.x ≠ #[] := by
  unfold summationPeakAt
  refine .bind_forall fun l => .bind_forall fun rt => ?_
  split
  · dsimp only
    split
    · rename_i sm hw
      obtain ⟨h0, hlr, hsize, -⟩ := Summation.ofCounts?_window hw
      exact .of_forall fun _ _ hx => by simp [hx] at hsize; omega
    · exact .pure fun h => by cases h
  · exact .pure fun h => by cases h

theorem summationPeak_bins {leftBin rightBin : Float} :
    RegionM.Post (r.summationPeak leftBin rightBin) fun o => o.isSome → r.finder.x ≠ #[] := by
  unfold summationPeak
  split
  · exact .pure fun h => by cases h
  · exact summationPeakAt_bins

theorem Loaded.summationPeaks (h : r.Loaded) {f : Finder} :
    RegionM.Post (r.summationPeaks f) Loaded := by
  unfold Region.summationPeaks
  dsimp only
  rw [Std.Legacy.Range.forIn_eq_forIn_range']
  -- each pass puts in at most one peak, over the same data
  refine .bind (.forIn Loaded h fun k t ht => .bind_forall fun o => ?_) fun t ht =>
    .liftOutcome ht.recompute
  split
  · exact .pure (ht.withPeaks _)
  · exact .pure ht

/-- A peak from the residual is looked for only in a region with bins. -/
theorem Ready.addFromResid (h : r.Ready) {hint : Option Float} :
    RegionM.Post (r.addFromResid hint) fun o => ∀ t, o = some t → t.Loaded := by
  unfold Region.addFromResid
  dsimp only
  split
  · exact .pure fun _ h => by cases h
  · rename_i hdata
    have hl : r.Loaded := ⟨h, fun hx => hdata (by simp [hx])⟩
    refine .bind (.liftOutcome hl.search) fun trial htrial => .bind_forall fun cands => ?_
    split
    · refine .bind_forall fun id => .bind (.liftOutcome htrial.regress) fun o ho => ?_
      rcases o with _ | u
      · exact .pure fun _ h => by cases h
      · exact .pure fun t ht => by
          cases ht
          exact (ho u rfl).saveCurrentFit _
    · exact .pure fun _ h => by cases h

theorem Ready.refineResid (h : r.Ready) {i : Bool} {q : Float} (rounds : Nat) :
    RegionM.Post (r.refineResid i q rounds) fun res => res.2.Ready := by
  induction rounds generalizing r q with
  | zero => exact .pure h
  | succ rounds ih =>
    rw [Region.refineResid]
    split
    · exact .pure h
    refine .bind (.attempt h.addFromResid) fun o ho => ?_
    rcases o with e | _ | trial
    · exact .pure h
    · exact .pure h
    dsimp only
    split
    · exact .bind (ih (ho _ rfl trial rfl).toReady) fun res hres => .pure hres
    · exact .pure h

theorem Ready.iterativeFit (h : r.Ready) {i : Bool} :
    RegionM.Post (r.iterativeFit i) fun res => res.2.Ready := by
  unfold Region.iterativeFit
  dsimp only
  split
  · exact .pure h
  split
  · exact .pure h
  split
  · exact .pure h
  · exact h.refineResid _

theorem Loaded.finishAutoFit (h : r.Loaded) {s : Settings} {i : Bool} :
    RegionM.Post (r.finishAutoFit s i) fun res => res.2.Ready := by
  unfold Region.finishAutoFit
  dsimp only
  split
  · exact .bind (.liftOutcome (h.withPhase _).render) fun t ht => .pure ht.toReady
  · refine .bind (.liftOutcome (h.withPhase _).render) fun t ht => ?_
    split
    · exact .bind (ht.saveCurrentFit _).toReady.iterativeFit fun res hres => .pure hres
    · exact .pure (ht.saveCurrentFit _).toReady

/-- An automatic fit runs only on a region out of the empty phase, which has bins; every stage
after it keeps them. -/
theorem Ready.autoFit (h : r.Ready) {i : Bool} :
    RegionM.Post (r.autoFit i) fun res => res.2.Ready := by
  unfold Region.autoFit
  dsimp only
  split
  · exact .pure h
  rename_i hph
  have hl : r.Loaded := h.loaded (occupied_of_phase (by simpa using hph))
  have h₀ : ({ r with peakMap := [] } : Region).initBackground.Loaded :=
    (hl.withPeaks []).initBackground
  refine .bind (.liftOutcome (Loaded.search ?_)) fun trial htrial => ?_
  · exact h₀.of_frame rfl rfl rfl rfl rfl
  split
  · exact .bind (.liftOutcome (htrial.withPhase _).render) fun t ht => .pure ht.toReady
  refine .bind_forall fun seeds => ?_
  -- the fallback to summation peaks over the candidate windows
  have hsum : RegionM.Post (do
      let t ← trial.summationPeaks trial.finder
      t.finishAutoFit r.settings i) fun res => res.2.Ready :=
    .bind htrial.summationPeaks fun t ht => ht.finishAutoFit
  split
  · refine .bind (.liftOutcome htrial.regress) fun o ho => ?_
    rcases o with _ | t
    · exact hsum
    · exact .bind (.pure (ho t rfl)) fun u hu => hu.finishAutoFit
  · exact hsum

theorem Ready.addSum4Peak (h : r.Ready) {leftBin rightBin : Float} :
    RegionM.Post (r.addSum4Peak leftBin rightBin) fun res => res.2.Ready := by
  unfold Region.addSum4Peak
  refine .bind summationPeak_bins fun o ho => ?_
  split
  · have hl : r.Loaded := ⟨h, ho rfl⟩
    exact .bind (.liftOutcome ((hl.withPeaks _).refresh _)) fun t ht => .pure ht.toReady
  · exact .pure h

/-- Adding a peak beyond the range cuts a wider one and places its edge windows at its ends. -/
theorem Ready.addPeak (hs : r.settings.WholeEdgeSamples) (h : r.Ready) {parent : Finder}
    {leftBin rightBin : Float} {i : Bool} :
    RegionM.Post (r.addPeak parent leftBin rightBin i) fun res => res.2.Ready := by
  unfold Region.addPeak
  dsimp only
  split
  · exact .pure h
  split
  · exact .pure h
  split
  · refine .bind h.addFromResid fun o ho => ?_
    rcases o with _ | t
    · exact h.addSum4Peak
    · exact .pure (ho t rfl).toReady
  refine .bind (.liftOutcome setRange_wide) fun o ho => ?_
  rcases o with _ | t
  · exact .pure h
  obtain ⟨f, rfl, hasc, hsize, hne, hfew⟩ := ho _ rfl
  refine .bind (.liftOutcome (defaultEdges_loaded hs h.history hasc hsize hne hfew))
    fun t₁ h₁ => ?_
  refine .bind (.liftOutcome h₁.initBackground.cullPeaks) fun _ hc =>
    .bind (.liftOutcome hc.recompute) fun t₂ h₂ => ?_
  refine .bind (.liftOutcome (h₂.withPhase _).render) fun t₃ h₃ => ?_
  refine .bind h₃.toReady.addFromResid fun o ho => ?_
  rcases o with _ | u
  · refine .bind h₃.toReady.autoFit fun res hres => .bind_forall fun ok => ?_
    split
    · exact .pure hres
    · exact .pure h
  · exact .pure (ho u rfl).toReady

/-- New data is cut to the bins of its range, which are at least as many as the bins the range
picks, and takes its edge windows at the ends. A failure before the data is taken leaves the
region as it was; one after the edges are placed leaves a region with data and edges. -/
theorem Ready.setData (hs : r.settings.WholeEdgeSamples) (h : r.Ready) {x y : Array Float}
    {minBin maxBin : Float} :
    Except.Post (r.setData x y minBin maxBin) (fun o => ∀ t, o = some t → t.Ready)
      fun failed => failed.2.Ready := by
  unfold Region.setData
  dsimp only
  split
  · exact .pure fun _ h => by cases h
  split
  · exact .pure fun _ h => by cases h
  rename_i hfew
  refine .bind (.mapError ((Finder.ofData_bins.and Finder.ofData_bins_ne).and Finder.ofData_x)
    fun _ => h) fun res hres => ?_
  obtain ⟨ok, f⟩ := res
  obtain ⟨⟨⟨hasc, hsize⟩, hne⟩, hcut⟩ := hres
  dsimp only
  split
  · exact .pure fun _ h => by cases h
  rename_i hok
  have hok : ok = true := by simpa using hok
  have hne := hne hok
  have hx := hcut.resolve_left fun hfalse => absurd (hfalse.1.symm.trans hok) (by decide)
  -- the cut holds at least as many bins as the range picked, which are enough for the edges
  have hwide : 2 * r.edgeSamples + 1 ≤ (f.x.size : Int) := by
    have hpicked := (tooFewBins_eq_false hs).mp (Bool.eq_false_iff.mpr hfew)
    rw [hx.2]
    exact Int.le_trans hpicked (Int.ofNat_le.mpr length_le_extract_size)
  obtain ⟨l, rt, hdef, hlt⟩ := defaultEdges_apart
    (r := { r with finder := f, peakMap := [], history := #[], currentFit := -1 }) hs hasc hsize
    hwide
  have h₂ : ({ ({ r with finder := f, peakMap := [], history := #[], currentFit := -1 } :
      Region) with lb := some l, rb := some rt } : Region).initBackground.Loaded :=
    Loaded.initBackground
      ⟨⟨hsize, fun _ => ⟨l, rt, rfl, rfl, hlt⟩, fun _ => hne, fun _ hs => by simp at hs⟩, hne⟩
  -- the windows are placed, so a failure from here on leaves a region with data and edges
  rw [hdef]
  refine .bind (P := (· = _)) rfl fun r₂ hr₂ => ?_
  subst hr₂
  refine .bind (.mapError h₂.search fun _ => h₂.toReady) fun r₃ h₃ => ?_
  refine .bind (.mapError (h₃.withPhase .searched).render fun _ => (h₃.withPhase _).toReady)
    fun u hu => ?_
  exact .pure fun t ht => by
    cases ht
    exact hu.toReady

/-- Loading stored peaks into a region with data keeps the data, the edges and the history,
and records a region ready for a fit. -/
theorem Loaded.loadFit (h : r.Loaded) (peaks : List Peak) (bg : Option Background) (d : String) :
    Outcome.Post (r.loadFit peaks bg d) Loaded := by
  rw [loadFit_eq]
  refine Loaded.refresh ?_ d
  exact h.of_frame rfl rfl rfl rfl rfl

end Region

namespace Request

open Json Region

variable {s : Settings} {parent : Finder} {r : Region} {n : Nat}

/-- Every step of a region's request but `reload` keeps a region ready, failing or not, when its
edge windows take a whole number of samples. The cases follow the steps in the order the request
lists them. -/
theorem regionStep_ready (parent : Finder) (step : Value) {op : String}
    (hs : r.settings.WholeEdgeSamples) (h : r.Ready) (hdo : step.get? "do" = some (.str op))
    (hop : op ≠ "reload") :
    RegionM.Post (regionStep parent r step) fun res => res.2.Ready := by
  unfold regionStep
  simp only [hdo]
  split
  next => -- set_data
    refine .bind_forall fun _ => .bind_forall fun _ => ?_
    split
    next t ht => exact .pure ((h.setData hs).ok_of_eq ht t rfl)
    next => exact .pure h
    next e t ht => exact .pure ((h.setData hs).error_of_eq ht)
  next => exact .bind h.autoFit fun _ hres => .pure hres
  next => exact .bind h.iterativeFit fun _ hres => .pure hres
  next => -- add_from_resid, with a hint or without
    split
    all_goals
      refine .bind_forall fun _ => .bind h.addFromResid fun o ho => ?_
      rcases o with _ | t
      · exact .pure h
      · exact .pure (ho t rfl).toReady
  next =>
    exact .bind_forall fun _ => .bind_forall fun _ => .bind (h.addPeak hs) fun _ hres =>
      .pure hres
  next =>
    exact .bind_forall fun _ => .bind_forall fun _ => .bind h.addSum4Peak fun _ hres => .pure hres
  next => exact .bind_forall fun _ => .bind_forall fun _ => .bind_forall fun _ => .pure h
  next =>
    exact .bind_forall fun _ => .bind (.liftOutcome (h.removePeaks _)) fun _ hres => .pure hres
  next =>
    exact .bind_forall fun _ => .bind (.liftOutcome (h.replacePeak _)) fun _ hres => .pure hres
  next => -- rebuild
    refine .bind (.liftOutcome (h.rebuild _)) fun o ho => ?_
    rcases o with _ | t
    · exact .pure h
    · exact .pure (ho t rfl).toReady
  next =>
    exact .bind_forall fun _ => .bind (.liftOutcome (h.rollback _)) fun _ hres => .pure hres
  next => exact .bind (.liftOutcome h.cullPeaks) fun _ hres => .pure hres
  next => exact .bind_forall fun lb => .bind_forall fun rb => .pure (h.setEdges lb rb)
  next =>
    exact .bind_forall fun _ => .bind_forall fun _ => .bind (.liftOutcome h.adjustLB) fun _ hres =>
      .pure hres
  next =>
    exact .bind_forall fun _ => .bind_forall fun _ => .bind (.liftOutcome h.adjustRB) fun _ hres =>
      .pure hres
  next =>
    exact .bind_forall fun _ => .bind_forall fun _ =>
      .bind (.liftOutcome (h.adjustBounds hs)) fun _ hres => .pure hres
  next => -- overlaps
    refine .bind_forall fun _ => ?_
    split <;> exact .bind_forall fun _ => .pure h
  next => exact .bind (.liftOutcome h.render) fun _ ht => .pure ht
  next => exact .bind_forall fun _ => .pure h
  next hreload => exact absurd hreload hop
  next => exact .throw

/-- The empty region has no data, no peaks and no history. -/
theorem ready_new : (Region.new s).Ready where
  counts := rfl
  edges h := absurd rfl h
  occupied h := by rcases h with h | h <;> exact absurd rfl h
  history _ hs := by simp [Region.new] at hs

/-- Every reachable region is ready, when its edge windows take a whole number of samples. -/
theorem Reachable.ready (hs : s.WholeEdgeSamples) (h : Reachable s parent r n) : r.Ready := by
  induction h with
  | new n => exact ready_new
  | @step r n step op res n' hr hdo hop hrun ih =>
    -- a step that fails leaves the region as it was
    rcases res with e | ⟨v, t⟩
    · exact ih
    · have hsr : r.settings.WholeEdgeSamples := by rw [hr.sound.settings]; exact hs
      exact regionStep_ready parent step hsr ih hdo hop n (v, t) n' hrun
  | loadFit _ hx _ hload ih => exact (Loaded.loadFit ⟨ih, hx⟩ _ _ _ _ hload).toReady
  | shared _ _ ih => exact ih

/-! ## An automatic fit starts afresh -/

/-- An automatic fit of a reachable region that holds a fit depends only on its settings, data
and edge windows. Two such regions over the same bins, counts and edges, whatever their peaks,
backgrounds, models, search results and histories, fit alike from every value of the counter:
they return the same value, hand out the same identities, and end alike but for the widths
their last searches expect (`Region.settled`), each history the old one with the same snapshots
added. -/
theorem autoFit_forgets_earlier_fits (hs : s.WholeEdgeSamples) {A B : Region} {nA nB : Nat}
    {parentA parentB : Finder} (hA : Reachable s parentA A nA) (hB : Reachable s parentB B nB)
    (hpA : A.phase ≠ .empty) (hpB : B.phase ≠ .empty) (hx : B.finder.x = A.finder.x)
    (hy : B.finder.y = A.finder.y) (hlb : B.lb = A.lb) (hrb : B.rb = A.rb) (i : Bool) :
    RegionM.Rel (fun a b => a.1 = b.1 ∧ Agree settled A.history B.history a.2 b.2)
      (A.autoFit i) (B.autoFit i) := by
  have hsettings : B.settings = A.settings := hB.sound.settings.trans hA.sound.settings.symm
  -- the first region holds a fit, so it has data and edge windows in order
  have hl : A.Loaded := (hA.ready hs).loaded (.inl hpA)
  obtain ⟨l, rt, hlA, hrA, hlt⟩ := hl.apart
  have hbins : A.finder.x.isEmpty = false := by simpa using hl.bins
  exact Agree.autoFit hpA hpB hsettings hx hy hlb hrb (fresh_drawable hlA hrA hlt hbins hl.counts) i

/-- The five peaked bins before and after a summation peak is put in hold the same bins, counts
and edges but histories of different lengths, and an automatic fit of one is alike with one of
the other. -/
theorem peakedData_autoFit_alike_peakedSum :
    Settings.WholeEdgeSamples oneSampleEdges ∧ peakedData.1.phase ≠ .empty ∧
      peakedSum.1.phase ≠ .empty ∧ peakedData.1.history.size = 0 ∧
      peakedSum.1.history.size = 1 ∧
      RegionM.Rel (fun a b => a.1 = b.1 ∧
          Agree settled peakedData.1.history peakedSum.1.history a.2 b.2)
        (peakedData.1.autoFit false) (peakedSum.1.autoFit false) := by
  have hs : Settings.WholeEdgeSamples oneSampleEdges := by
    unfold Settings.WholeEdgeSamples
    exact ⟨fun _ => nofun, by decide⟩
  have hpA : peakedData.1.phase ≠ .empty := by decide +kernel
  have hpB : peakedSum.1.phase ≠ .empty := by decide +kernel
  exact ⟨hs, hpA, hpB, by decide +kernel, by decide +kernel,
    autoFit_forgets_earlier_fits hs peakedData_reachable peakedSum_reachable hpA hpB
      (by decide +kernel) (by decide +kernel) (by decide +kernel) (by decide +kernel) false⟩

end Request

end GammaFit
