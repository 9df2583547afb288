import GammaFit.Proofs.Region.Readiness

/-!
# Regions cut from their parent

A region request works over one spectrum, its parent's. A region's bins and counts are always a
run of the parent's bins and counts (`Search.Finder.CutOf`), and each of its edge windows is a
window of the parent's spectrum over some run of its bins (`Edge.Of`), now and in every snapshot
of its history (`Region.Framed`). New data and every change of range cut the bins from the
parent again; edge windows are only ever taken over the bins the region holds, and a window
over a run of a cut is the window over the same run of the whole, with its indices moved
(`Edge.ofSamples?_extract`). A window of the parent stays one whatever the region is cut to next,
so edges survive a new cut.

The invariant is kept by every step of a region's request but `reload`, failing or not
(`regionStep_framed`), so every reachable region is framed by its parent (`Reachable.framed`).
-/

namespace GammaFit

open Search (Finder)

namespace Search.Finder

/-- The bins and counts of `f` are a run of the bins and counts of `parent`, from some bin on. -/
def CutOf (f parent : Finder) : Prop :=
  ∃ i, f.x = parent.x.extract i (i + f.x.size) ∧ f.y = parent.y.extract i (i + f.x.size)

variable {f g parent : Finder}

/-- Being a cut depends only on the bins and the counts. -/
theorem CutOf.of_data (h : f.CutOf parent) (hx : g.x = f.x) (hy : g.y = f.y) :
    g.CutOf parent := by
  obtain ⟨i, hix, hiy⟩ := h
  exact ⟨i, by rw [hx]; exact hix, by rw [hx, hy]; exact hiy⟩

/-- The bins and counts `i … j - 1` of a spectrum, as far as it has them, are a cut of it. -/
theorem cutOf_extract (hsize : parent.x.size = parent.y.size) {i j : Nat}
    (hx : f.x = parent.x.extract i j) (hy : f.y = parent.y.extract i j) : f.CutOf parent := by
  have hf : f.x.size = min j parent.x.size - i := by rw [hx, Array.size_extract]
  -- a cut past its end stops where the spectrum does
  have hend : ∀ (a : Array Float), a.size = parent.x.size →
      a.extract i (i + (min j parent.x.size - i)) = a.extract i j := by
    intro a ha
    apply Array.ext
    · simp only [Array.size_extract]
      omega
    · intro k hk₁ hk₂
      simp only [Array.getElem_extract]
  refine ⟨i, ?_, ?_⟩
  · rw [hf, hend _ rfl, hx]
  · rw [hf, hend _ hsize.symm, hy]

/-- A finder built from data holds the data, or, when the data is not a spectrum, nothing. -/
theorem ofData_data {s : Settings} {x y : Array Float} :
    Outcome.Post (ofData s x y) fun res =>
      (res.2.x = #[] ∧ res.2.y = #[]) ∨ (res.2.x = x ∧ res.2.y = y) := by
  unfold ofData
  split
  · exact .pure (.inl ⟨rfl, rfl⟩)
  · exact .bind_forall fun _ => .pure (.inr ⟨rfl, rfl⟩)

/-- A clone of a range of a finder is a cut of it. -/
theorem cloneRange_cutOf (hsize : f.x.size = f.y.size) {s : Settings} {first last : Int} :
    Outcome.Post (cloneRange s f first last) fun g => g.CutOf f := by
  unfold cloneRange
  split
  · exact .pure (cutOf_extract (i := 0) (j := 0) hsize (by simp) (by simp))
  · refine .bind ofData_data fun res hres => .pure ?_
    rcases hres with ⟨hx, hy⟩ | ⟨hx, hy⟩
    · exact cutOf_extract (i := 0) (j := 0) hsize (by simp [hx]) (by simp [hy])
    · exact cutOf_extract hsize (by rw [setFit_x, hx]) (by rw [setFit_y, hy])

end Search.Finder

namespace Edge

/-- The window `e` is the window of the spectrum of `parent` over some run of its bins: the same
bins and statistics, whatever indices a region counts them from. -/
def Of (parent : Finder) (e : Edge) : Prop :=
  ∃ i j : Nat, ofSamples? parent.x parent.y i j = some { e with first := i, last := j }

/-- The window over the samples `a … b` of the cut `i … i + n - 1` of a spectrum is its window
over the samples `i + a … i + b`, counted from the spectrum's first bin. -/
theorem ofSamples?_extract {x y : Array Float} (hxy : x.size = y.size) {i n : Nat}
    (hn : i + n ≤ x.size) {a b : Int} {e : Edge}
    (h : ofSamples? (x.extract i (i + n)) (y.extract i (i + n)) a b = some e) :
    ofSamples? x y ((i + a.toNat : Nat) : Int) ((i + b.toNat : Nat) : Int) =
      some { e with first := i + a.toNat, last := i + b.toNat } := by
  have hxn : (x.extract i (i + n)).size = n := by rw [Array.size_extract]; omega
  have hyn : (y.extract i (i + n)).size = n := by rw [Array.size_extract]; omega
  unfold ofSamples? window? at h ⊢
  split_ifs at h with hbad
  cases h
  rw [hxn, hyn] at hbad
  simp only [not_or, not_lt, not_le, ne_eq, not_not] at hbad
  obtain ⟨-, ha, hb, hab⟩ := hbad
  split_ifs with hbad'
  · omega
  simp only [Int.toNat_natCast, Option.some.injEq]
  have hsamples : (y.extract i (i + n)).extract a.toNat (b.toNat + 1) =
      y.extract (i + a.toNat) (i + b.toNat + 1) := by
    rw [Array.extract_extract]
    congr 1
    omega
  have hstart : (x.extract i (i + n)).getD a.toNat 0.0 = x.getD (i + a.toNat) 0.0 :=
    Spectrum.getD_extract x (by omega)
  have hstop : (x.extract i (i + n)).getD b.toNat 0.0 = x.getD (i + b.toNat) 0.0 :=
    Spectrum.getD_extract x (by omega)
  rw [hsamples, hstart, hstop, show i + b.toNat - (i + a.toNat) = b.toNat - a.toNat by omega]

/-- A window over the bins of a cut of a spectrum is a window of the spectrum. -/
theorem Of.of_cut {parent f : Finder} (hsize : parent.x.size = parent.y.size)
    (hcut : f.CutOf parent) {a b : Int} {e : Edge} (h : ofSamples? f.x f.y a b = some e) :
    e.Of parent := by
  obtain ⟨i, hx, hy⟩ := hcut
  -- the window has a sample, so the cut does, and it lies inside the spectrum
  have hne : f.x.size ≠ 0 := by
    intro h0
    unfold ofSamples? window? at h
    split_ifs at h with hbad
    simp only [not_or, not_lt, not_le, ne_eq, not_not] at hbad
    have hsz := congrArg Array.size hx
    rw [Array.size_extract] at hsz
    omega
  have hn : i + f.x.size ≤ parent.x.size := by
    have hsz := congrArg Array.size hx
    rw [Array.size_extract] at hsz
    omega
  rw [hx, hy] at h
  exact ⟨_, _, ofSamples?_extract hsize hn h⟩

end Edge

/-- A frame cut from `parent`: bins and counts that are a run of its spectrum's, and edge
windows that are windows of its spectrum. -/
structure FramedBy (parent f : Finder) (lb rb : Option Edge) : Prop where
  cut : f.CutOf parent
  lb : ∀ e, lb = some e → e.Of parent
  rb : ∀ e, rb = some e → e.Of parent

/-- Bins cut from `parent` with no edge windows are a frame cut from it. -/
theorem FramedBy.noEdges {parent f : Finder} (hcut : f.CutOf parent) :
    FramedBy parent f none none :=
  ⟨hcut, fun _ he => (Option.some_ne_none _ he.symm).elim,
    fun _ he => (Option.some_ne_none _ he.symm).elim⟩

namespace Region

/-- A region cut from `parent`, and every snapshot of its history too. -/
structure Framed (parent : Finder) (r : Region) : Prop where
  current : FramedBy parent r.finder r.lb r.rb
  history : ∀ snap ∈ r.history, FramedBy parent snap.finder snap.lb snap.rb

variable {parent : Finder} {r t : Region}

/-! ## The invariant under the primitives -/

/-- A region with the data, the edges and the history of a framed one is framed. -/
theorem Framed.of_frame (h : r.Framed parent) (hx : t.finder.x = r.finder.x)
    (hy : t.finder.y = r.finder.y) (hlb : t.lb = r.lb) (hrb : t.rb = r.rb)
    (hhist : t.history = r.history) : t.Framed parent :=
  ⟨⟨h.current.cut.of_data hx hy, hlb ▸ h.current.lb, hrb ▸ h.current.rb⟩, hhist ▸ h.history⟩

theorem Framed.withPhase (h : r.Framed parent) (ph : Phase) :
    ({ r with phase := ph } : Region).Framed parent :=
  h.of_frame rfl rfl rfl rfl rfl

theorem Framed.withPeaks (h : r.Framed parent) (m : List (Nat × Peak)) :
    ({ r with peakMap := m } : Region).Framed parent :=
  h.of_frame rfl rfl rfl rfl rfl

/-- An edge window taken over the bins of a region cut from `parent` is a window of `parent`. -/
theorem edgeAt_of (hsize : parent.x.size = parent.y.size) (hcut : r.finder.CutOf parent)
    {start stop : Float} {e : Edge} (h : r.edgeAt start stop = some e) : e.Of parent :=
  Edge.Of.of_cut hsize hcut h

theorem Framed.saveCurrentFit (h : r.Framed parent) (d : String) :
    (r.saveCurrentFit d).Framed parent := by
  refine ⟨h.current, fun snap hs => ?_⟩
  rw [saveCurrentFit_history, Array.mem_push] at hs
  rcases hs with hs | rfl
  · exact h.history snap hs
  · exact h.current

/-- Restoring a snapshot of the history takes its frame, which is cut from the parent. -/
theorem Framed.restore (h : r.Framed parent) {snap : Snapshot} (hs : snap ∈ r.history) (i : Int) :
    (r.restore snap i).Framed parent :=
  ⟨h.history snap hs, by rw [restore_history]; exact h.history⟩

theorem Framed.initBackground (h : r.Framed parent) : r.initBackground.Framed parent :=
  h.of_frame (by simp) (by simp) initBackground_lb initBackground_rb initBackground_history

theorem Framed.filter (h : r.Framed parent) (f : Nat × Peak → Bool) :
    ({ r with peakMap := r.peakMap.filter f } : Region).Framed parent :=
  h.of_frame rfl rfl rfl rfl rfl

theorem Framed.cullPeaks (h : r.Framed parent) :
    Outcome.Post r.cullPeaks fun res => res.1.Framed parent :=
  cullPeaks_filter h.filter

theorem Framed.recompute (h : r.Framed parent) : Outcome.Post r.recompute (Framed parent) := by
  intro t ht
  obtain ⟨k, -, rfl⟩ := recompute_eq_ok.mp ht
  exact h.of_frame rfl rfl rfl rfl rfl

theorem Framed.render (h : r.Framed parent) : Outcome.Post r.render (Framed parent) := by
  intro t ht
  obtain ⟨g, rnd, rfl, hx, hy, -⟩ := render_eq_ok ht
  exact h.of_frame hx hy rfl rfl rfl

theorem Framed.search (h : r.Framed parent) {sigma : Float} :
    Outcome.Post (r.search sigma) (Framed parent) := by
  intro t ht
  obtain ⟨f, rfl, hx, hy⟩ := search_spec t ht
  exact h.of_frame hx hy rfl rfl rfl

/-- Edge windows placed at the two ends of the bins of a region cut from `parent` are windows
of `parent`. -/
theorem Framed.defaultEdges (hsize : parent.x.size = parent.y.size)
    (hcut : r.finder.CutOf parent)
    (hh : ∀ snap ∈ r.history, FramedBy parent snap.finder snap.lb snap.rb) :
    Outcome.Post r.defaultEdges (Framed parent) := by
  unfold Region.defaultEdges
  dsimp only
  split
  · split
    · exact .pure ⟨.noEdges hcut, hh⟩
    · exact fun _ h => nomatch h
  · exact .pure ⟨⟨hcut, fun _ he => Edge.Of.of_cut hsize hcut he,
      fun _ he => Edge.Of.of_cut hsize hcut he⟩, hh⟩

/-- A new range is cut from the parent the region is cut from. -/
theorem setRange_cutOf (hsize : parent.x.size = parent.y.size) {left right : Float} :
    Outcome.Post (r.setRange parent left right) fun o => ∀ t, o = some t →
      ∃ f : Finder, t = { r with finder := f } ∧ f.CutOf parent := by
  unfold setRange
  dsimp only
  split
  · exact .pure fun _ h => nomatch h
  split
  · exact .pure fun _ h => nomatch h
  refine .bind (Finder.cloneRange_cutOf hsize) fun f hf => ?_
  split
  · exact .pure fun _ h => nomatch h
  · exact .pure fun t ht => ⟨f, (Option.some.inj ht).symm, hf⟩

/-! ## The operations that may fail -/

theorem Framed.refresh (h : r.Framed parent) (d : String) :
    Outcome.Post (r.refresh d) (Framed parent) := by
  unfold Region.refresh
  exact .bind h.recompute fun r₁ h₁ =>
    .bind (Framed.render (h₁.of_frame rfl rfl rfl rfl rfl)) fun u hu => .pure (hu.saveCurrentFit d)

/-- A regression sets the background and the peaks, and draws the model over the same data. -/
theorem Framed.regress (h : r.Framed parent) {seeds : List (Nat × Hypermet)} {g : Bool} :
    Outcome.Post (r.regress seeds g) fun o => ∀ t, o = some t → t.Framed parent := by
  unfold Region.regress
  split
  · split
    · exact .pure fun _ h => by cases h
    · dsimp only
      split
      · refine .bind_forall fun regressed => ?_
        split
        · exact .pure fun _ h => by cases h
        · refine .bind (Framed.recompute (h.of_frame rfl rfl rfl rfl rfl)) fun r₁ h₁ =>
            .bind (Framed.render (h₁.of_frame rfl rfl rfl rfl rfl)) fun u hu => .pure fun t ht => ?_
          cases ht
          exact hu
      · exact .pure fun _ h => by cases h
  · exact .pure fun _ h => by cases h

theorem Framed.rebuild (h : r.Framed parent) (d : String) :
    Outcome.Post (r.rebuild d) fun o => ∀ t, o = some t → t.Framed parent := by
  unfold Region.rebuild
  dsimp only
  split
  · exact .pure fun _ h => by cases h
  · refine .bind h.initBackground.regress fun o ho => ?_
    rcases o with _ | u
    · exact .pure fun _ h => by cases h
    · exact .pure fun t ht => by
        cases ht
        exact (ho u rfl).saveCurrentFit d

theorem Framed.refitOrRefresh (h : r.Framed parent) (d : String) :
    Outcome.Post (r.refitOrRefresh d) (Framed parent) := by
  unfold Region.refitOrRefresh
  refine .bind (h.rebuild d) fun o ho => ?_
  rcases o with _ | t
  · exact h.refresh d
  · exact .pure (ho t rfl)

theorem Framed.removePeaks (h : r.Framed parent) (ids : List Nat) :
    Outcome.Post (r.removePeaks ids) fun res => res.2.Framed parent := by
  unfold Region.removePeaks
  split
  · exact .pure h
  · refine .bind (Framed.refitOrRefresh ?_ _) fun t ht => .pure ht
    exact h.of_frame rfl rfl rfl rfl rfl

theorem Framed.replacePeak (h : r.Framed parent) (p : Peak) :
    Outcome.Post (r.replacePeak p) fun res => res.2.Framed parent := by
  unfold Region.replacePeak
  split
  · exact .pure h
  refine .bind_forall fun _ => ?_
  split
  · exact .pure h
  · refine .bind (Framed.refresh ?_ _) fun t ht => .pure ht
    exact h.of_frame rfl rfl rfl rfl rfl

/-- Edge windows placed over the bins of a region cut from `parent` are windows of `parent`. -/
theorem Framed.setEdges (hsize : parent.x.size = parent.y.size) (h : r.Framed parent)
    (lbBins rbBins : Float × Float) : (r.setEdges lbBins rbBins).2.Framed parent := by
  unfold Region.setEdges
  split
  · rename_i l rt hl hr
    split
    · exact h
    · have hu : ({ r with lb := some l, rb := some rt } : Region).Framed parent :=
        ⟨⟨h.current.cut, fun e he => Option.some.inj he ▸ edgeAt_of hsize h.current.cut hl,
          fun e he => Option.some.inj he ▸ edgeAt_of hsize h.current.cut hr⟩, h.history⟩
      have ht := hu.initBackground.filter fun e => encloses l rt e.2.center
      dsimp only
      split
      · exact ht
      · exact ht.of_frame rfl rfl rfl rfl rfl
  · exact h

/-- Cutting the range again from `parent` and placing the edge windows over the new bins keeps a
region framed by `parent`. -/
theorem Framed.applyEdges (hsize : parent.x.size = parent.y.size) (h : r.Framed parent)
    {lbBins rbBins : Float × Float} {d : String} :
    Outcome.Post (r.applyEdges parent lbBins rbBins d) fun res => res.2.Framed parent := by
  unfold Region.applyEdges
  refine .bind (setRange_cutOf hsize) fun o ho => ?_
  rcases o with _ | t
  · exact .pure h
  · obtain ⟨f, rfl, hf⟩ := ho _ rfl
    have hu : ({ r with finder := f } : Region).Framed parent :=
      ⟨⟨hf, h.current.lb, h.current.rb⟩, h.history⟩
    have ht := hu.setEdges hsize lbBins rbBins
    dsimp only
    split
    · exact .pure h
    · exact .bind (ht.refitOrRefresh d) fun u hu => .pure hu

theorem Framed.adjustLB (hsize : parent.x.size = parent.y.size) (h : r.Framed parent)
    {left right : Float} :
    Outcome.Post (r.adjustLB parent left right) fun res => res.2.Framed parent := by
  unfold Region.adjustLB
  split
  · exact .pure h
  · split
    · split
      · exact .pure h
      · exact h.applyEdges hsize
    · exact .pure h

theorem Framed.adjustRB (hsize : parent.x.size = parent.y.size) (h : r.Framed parent)
    {left right : Float} :
    Outcome.Post (r.adjustRB parent left right) fun res => res.2.Framed parent := by
  unfold Region.adjustRB
  split
  · exact .pure h
  · split
    · split
      · exact .pure h
      · exact h.applyEdges hsize
    · exact .pure h

/-- Changing the range cuts it from `parent` and takes the edge windows at the new ends. -/
theorem Framed.adjustBounds (hsize : parent.x.size = parent.y.size) (h : r.Framed parent)
    {left right : Float} :
    Outcome.Post (r.adjustBounds parent left right) fun res => res.2.Framed parent := by
  unfold Region.adjustBounds
  split
  · exact .pure h
  · refine .bind (setRange_cutOf hsize) fun o ho => ?_
    rcases o with _ | t
    · exact .pure h
    · obtain ⟨f, rfl, hf⟩ := ho _ rfl
      refine .bind (Framed.defaultEdges hsize hf h.history) fun t₁ h₁ => ?_
      refine .bind h₁.initBackground.cullPeaks fun _ h₂ => ?_
      refine .bind (Framed.refitOrRefresh ?_ _) fun u hu => .pure hu
      exact h₂.of_frame rfl rfl rfl rfl rfl

/-- Rolling back restores a snapshot of the history, which is framed. -/
theorem Framed.rollback (h : r.Framed parent) (index : Int) :
    Outcome.Post (r.rollback index) fun res => res.2.Framed parent := by
  unfold Region.rollback
  split
  · exact .pure h
  · rename_i hin
    have hin : 0 ≤ index ∧ index < r.history.size := by simpa using hin
    have hmem : r.history.getD index.toNat default ∈ r.history := history_getD_mem (by omega)
    exact .bind (h.restore hmem index).render fun t ht => .pure ht

/-! ## The operations that hand out identities -/

theorem Framed.summationPeaks (h : r.Framed parent) {f : Finder} :
    RegionM.Post (r.summationPeaks f) (Framed parent) := by
  unfold Region.summationPeaks
  dsimp only
  rw [Std.Legacy.Range.forIn_eq_forIn_range']
  -- each pass puts in at most one peak and touches nothing else
  refine .bind (.forIn (Framed parent) h fun k t ht => .bind_forall fun o => ?_) fun t ht =>
    .liftOutcome ht.recompute
  split
  · exact .pure (ht.of_frame rfl rfl rfl rfl rfl)
  · exact .pure ht

theorem Framed.addFromResid (h : r.Framed parent) {hint : Option Float} :
    RegionM.Post (r.addFromResid hint) fun o => ∀ t, o = some t → t.Framed parent := by
  unfold Region.addFromResid
  dsimp only
  split
  · exact .pure fun _ h => by cases h
  · refine .bind (.liftOutcome h.search) fun trial htrial => .bind_forall fun cands => ?_
    split
    · refine .bind_forall fun id => .bind (.liftOutcome htrial.regress) fun o ho => ?_
      rcases o with _ | u
      · exact .pure fun _ h => by cases h
      · exact .pure fun t ht => by
          cases ht
          exact (ho u rfl).saveCurrentFit _
    · exact .pure fun _ h => by cases h

theorem Framed.refineResid (h : r.Framed parent) {i : Bool} {q : Float} (rounds : Nat) :
    RegionM.Post (r.refineResid i q rounds) fun res => res.2.Framed parent := by
  induction rounds generalizing r q with
  | zero => exact .pure h
  | succ rounds ih =>
    rw [Region.refineResid]
    split
    · exact .pure h
    refine .bind (.attempt h.addFromResid) fun o ho => ?_
    rcases o with e | _ | trial
    · exact .pure h
    · exact .pure h
    dsimp only
    split
    · exact .bind (ih (ho _ rfl trial rfl)) fun res hres => .pure hres
    · exact .pure h

theorem Framed.iterativeFit (h : r.Framed parent) {i : Bool} :
    RegionM.Post (r.iterativeFit i) fun res => res.2.Framed parent := by
  unfold Region.iterativeFit
  dsimp only
  split
  · exact .pure h
  split
  · exact .pure h
  split
  · exact .pure h
  · exact h.refineResid _

theorem Framed.finishAutoFit (h : r.Framed parent) {s : Settings} {i : Bool} :
    RegionM.Post (r.finishAutoFit s i) fun res => res.2.Framed parent := by
  unfold Region.finishAutoFit
  dsimp only
  split
  · exact .bind (.liftOutcome (h.withPhase _).render) fun t ht => .pure ht
  · refine .bind (.liftOutcome (h.withPhase _).render) fun t ht => ?_
    split
    · exact .bind (ht.saveCurrentFit _).iterativeFit fun res hres => .pure hres
    · exact .pure (ht.saveCurrentFit _)

/-- An automatic fit searches and regresses over the bins and edges the region has. -/
theorem Framed.autoFit (h : r.Framed parent) {i : Bool} :
    RegionM.Post (r.autoFit i) fun res => res.2.Framed parent := by
  unfold Region.autoFit
  dsimp only
  split
  · exact .pure h
  have h₀ : ({ r with peakMap := [] } : Region).initBackground.Framed parent :=
    (h.withPeaks []).initBackground
  refine .bind (.liftOutcome (Framed.search ?_ : Outcome.Post _ (Framed parent)))
    fun trial htrial => ?_
  · exact h₀.of_frame rfl rfl rfl rfl rfl
  split
  · exact .bind (.liftOutcome (htrial.withPhase _).render) fun t ht => .pure ht
  refine .bind_forall fun seeds => ?_
  -- the fallback to summation peaks over the candidate windows
  have hsum : RegionM.Post (do
      let t ← trial.summationPeaks trial.finder
      t.finishAutoFit r.settings i) fun res => res.2.Framed parent :=
    .bind htrial.summationPeaks fun t ht => ht.finishAutoFit
  split
  · refine .bind (.liftOutcome htrial.regress) fun o ho => ?_
    rcases o with _ | t
    · exact hsum
    · exact .bind (.pure (ho t rfl)) fun u hu => hu.finishAutoFit
  · exact hsum

theorem Framed.addSum4Peak (h : r.Framed parent) {leftBin rightBin : Float} :
    RegionM.Post (r.addSum4Peak leftBin rightBin) fun res => res.2.Framed parent := by
  unfold Region.addSum4Peak
  refine .bind_forall fun o => ?_
  split
  · refine .bind (.liftOutcome (Framed.refresh ?_ _)) fun t ht => .pure ht
    exact h.of_frame rfl rfl rfl rfl rfl
  · exact .pure h

/-- Adding a peak beyond the range cuts a wider one from `parent` and takes the edge windows at
its new ends. -/
theorem Framed.addPeak (hsize : parent.x.size = parent.y.size) (h : r.Framed parent)
    {leftBin rightBin : Float} {i : Bool} :
    RegionM.Post (r.addPeak parent leftBin rightBin i) fun res => res.2.Framed parent := by
  unfold Region.addPeak
  dsimp only
  split
  · exact .pure h
  split
  · exact .pure h
  split
  · refine .bind h.addFromResid fun o ho => ?_
    rcases o with _ | t
    · exact h.addSum4Peak
    · exact .pure (ho t rfl)
  refine .bind (.liftOutcome (setRange_cutOf hsize)) fun o ho => ?_
  rcases o with _ | t
  · exact .pure h
  obtain ⟨f, rfl, hf⟩ := ho _ rfl
  refine .bind (.liftOutcome (Framed.defaultEdges hsize hf h.history)) fun t₁ h₁ => ?_
  refine .bind (.liftOutcome h₁.initBackground.cullPeaks) fun _ hc =>
    .bind (.liftOutcome hc.recompute) fun t₂ h₂ => ?_
  refine .bind (.liftOutcome (h₂.withPhase _).render) fun t₃ h₃ => ?_
  refine .bind h₃.addFromResid fun o ho => ?_
  rcases o with _ | u
  · refine .bind h₃.autoFit fun res hres => .bind_forall fun ok => ?_
    split
    · exact .pure hres
    · exact .pure h
  · exact .pure (ho u rfl)

/-- New data from the parent's spectrum is a cut of it, with its edge windows at its ends. A
failure before the edges are placed leaves the old ones, which are windows of the parent, over
the new bins and an empty history. -/
theorem Framed.setData (hsize : parent.x.size = parent.y.size) (h : r.Framed parent)
    {minBin maxBin : Float} :
    Except.Post (r.setData parent.x parent.y minBin maxBin)
      (fun o => ∀ t, o = some t → t.Framed parent) fun failed => failed.2.Framed parent := by
  unfold Region.setData
  dsimp only
  split
  · exact .pure fun _ h => by cases h
  split
  · exact .pure fun _ h => by cases h
  refine .bind (.mapError Finder.ofData_data fun _ => h) fun res hres => ?_
  obtain ⟨ok, f⟩ := res
  dsimp only
  split
  · exact .pure fun _ h => by cases h
  -- the finder holds a cut of the parent's spectrum, or nothing
  have hf : f.CutOf parent := by
    rcases hres with ⟨hx, hy⟩ | ⟨hx, hy⟩
    · exact Finder.cutOf_extract (i := 0) (j := 0) hsize (by simpa using hx) (by simpa using hy)
    · exact Finder.cutOf_extract hsize hx hy
  have h₁ : ({ r with finder := f, peakMap := [], history := #[], currentFit := -1 } :
      Region).Framed parent := ⟨⟨hf, h.current.lb, h.current.rb⟩, fun _ hs => by simp at hs⟩
  refine .bind (.mapError (Framed.defaultEdges hsize hf fun _ hs => by simp at hs) fun _ => h₁)
    fun r₂ hr₂ => ?_
  have h₂ := hr₂.initBackground
  refine .bind (.mapError h₂.search fun _ => h₂) fun r₃ h₃ => ?_
  have h₄ : ({ r₃ with phase := .searched } : Region).Framed parent :=
    h₃.of_frame rfl rfl rfl rfl rfl
  exact .bind (.mapError h₄.render fun _ => h₄) fun u hu => .pure fun t ht => by
    cases ht
    exact hu

/-- Loading stored peaks keeps the data and the edges. -/
theorem Framed.loadFit (h : r.Framed parent) (peaks : List Peak) (bg : Option Background)
    (d : String) : Outcome.Post (r.loadFit peaks bg d) (Framed parent) := by
  rw [loadFit_eq]
  refine Framed.refresh ?_ d
  exact h.of_frame rfl rfl rfl rfl rfl

end Region

namespace Request

open Json Region

variable {s : Settings} {parent : Finder} {r : Region} {n : Nat}

/-- Every step of a region's request but `reload` keeps a region framed by its parent, failing
or not. The cases follow the steps in the order the request lists them. -/
theorem regionStep_framed (hsize : parent.x.size = parent.y.size) (step : Value) {op : String}
    (h : r.Framed parent) (hdo : step.get? "do" = some (.str op)) (hop : op ≠ "reload") :
    RegionM.Post (regionStep parent r step) fun res => res.2.Framed parent := by
  unfold regionStep
  simp only [hdo]
  split
  next => -- set_data
    refine .bind_forall fun _ => .bind_forall fun _ => ?_
    split
    next t ht => exact .pure ((h.setData hsize).ok_of_eq ht t rfl)
    next => exact .pure h
    next e t ht => exact .pure ((h.setData hsize).error_of_eq ht)
  next => exact .bind h.autoFit fun _ hres => .pure hres
  next => exact .bind h.iterativeFit fun _ hres => .pure hres
  next => -- add_from_resid, with a hint or without
    split
    all_goals
      refine .bind_forall fun _ => .bind h.addFromResid fun o ho => ?_
      rcases o with _ | t
      · exact .pure h
      · exact .pure (ho t rfl)
  next =>
    exact .bind_forall fun _ => .bind_forall fun _ => .bind (h.addPeak hsize) fun _ hres =>
      .pure hres
  next =>
    exact .bind_forall fun _ => .bind_forall fun _ => .bind h.addSum4Peak fun _ hres => .pure hres
  next => exact .bind_forall fun _ => .bind_forall fun _ => .bind_forall fun _ => .pure h
  next =>
    exact .bind_forall fun _ => .bind (.liftOutcome (h.removePeaks _)) fun _ hres => .pure hres
  next =>
    exact .bind_forall fun _ => .bind (.liftOutcome (h.replacePeak _)) fun _ hres => .pure hres
  next => -- rebuild
    refine .bind (.liftOutcome (h.rebuild _)) fun o ho => ?_
    rcases o with _ | t
    · exact .pure h
    · exact .pure (ho t rfl)
  next =>
    exact .bind_forall fun _ => .bind (.liftOutcome (h.rollback _)) fun _ hres => .pure hres
  next => exact .bind (.liftOutcome h.cullPeaks) fun _ hres => .pure hres
  next => exact .bind_forall fun lb => .bind_forall fun rb => .pure (h.setEdges hsize lb rb)
  next =>
    exact .bind_forall fun _ => .bind_forall fun _ =>
      .bind (.liftOutcome (h.adjustLB hsize)) fun _ hres => .pure hres
  next =>
    exact .bind_forall fun _ => .bind_forall fun _ =>
      .bind (.liftOutcome (h.adjustRB hsize)) fun _ hres => .pure hres
  next =>
    exact .bind_forall fun _ => .bind_forall fun _ =>
      .bind (.liftOutcome (h.adjustBounds hsize)) fun _ hres => .pure hres
  next => -- overlaps
    refine .bind_forall fun _ => ?_
    split <;> exact .bind_forall fun _ => .pure h
  next => exact .bind (.liftOutcome h.render) fun _ ht => .pure ht
  next => exact .bind_forall fun _ => .pure h
  next hreload => exact absurd hreload hop
  next => exact .throw

/-- The empty region has no bins, no edges and no history. -/
theorem framed_new : (Region.new s).Framed parent :=
  ⟨.noEdges ⟨0, by simp [Region.new], by simp [Region.new]⟩, fun _ hs => by simp [Region.new] at hs⟩

/-- Every reachable region, and every snapshot of its history, is cut from its parent: its bins
and counts are a run of the parent's, and its edge windows are windows of the parent's
spectrum. -/
theorem Reachable.framed (hsize : parent.x.size = parent.y.size) (h : Reachable s parent r n) :
    r.Framed parent := by
  induction h with
  | new n => exact framed_new
  | @step r n step op res n' _ hdo hop hrun ih =>
    -- a step that fails leaves the region as it was
    rcases res with e | ⟨v, t⟩
    · exact ih
    · exact regionStep_framed hsize step ih hdo hop n (v, t) n' hrun
  | loadFit _ _ _ hload ih => exact ih.loadFit _ _ _ _ hload
  | shared _ _ ih => exact ih

end Request

end GammaFit
