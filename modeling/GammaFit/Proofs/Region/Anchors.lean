import GammaFit.Proofs.Region.Adjust

/-!
# Edge windows of a region's own data

An edge window records the indices of its first and last samples. In every region a request
reaches, each edge window is the window of the region's own bins and counts at those indices
(`Region.Anchored`), and so is each edge window of every snapshot of its history with the
snapshot's data. Windows are only ever taken over the data the region holds when they are
taken (`Edge.Spans.of_ofSamples?`): placing them over bins, or at the two ends of the range.
The data changes under the windows only by new data or a new cut, and each of these places the
windows again before the region is kept: a new cut whose windows cannot be placed is dropped,
and new data takes its windows at its ends, which with a whole number of samples never fails
(`Region.defaultEdges_eq`).

The invariant is kept by every step of a region's request but `reload` (`regionStep_anchored`),
so every reachable region is anchored (`Reachable.anchored`).
-/

namespace GammaFit

open Search (Finder)

/-- Edge windows that are windows of the data of `f` at their own indices. -/
structure SpannedBy (f : Finder) (lb rb : Option Edge) : Prop where
  lb : ∀ e, lb = some e → ∃ bins, e.Spans f bins
  rb : ∀ e, rb = some e → ∃ bins, e.Spans f bins

/-- Which windows a finder's data spans depends only on its bins and counts. -/
theorem SpannedBy.of_data {f g : Finder} {lb rb : Option Edge} (h : SpannedBy f lb rb)
    (hx : g.x = f.x) (hy : g.y = f.y) : SpannedBy g lb rb :=
  ⟨fun e he => (h.lb e he).imp fun _ hs => hs.of_data hx hy,
    fun e he => (h.rb e he).imp fun _ hs => hs.of_data hx hy⟩

/-- Windows taken at any indices of the data of `f` are spanned by it. -/
theorem SpannedBy.of_ofSamples? {f : Finder} {a b c d : Int} :
    SpannedBy f (Edge.ofSamples? f.x f.y a b) (Edge.ofSamples? f.x f.y c d) :=
  ⟨fun _ he => ⟨_, Edge.Spans.of_ofSamples? he⟩,
    fun _ he => ⟨_, Edge.Spans.of_ofSamples? he⟩⟩

namespace Region

variable {r t : Region}

/-- A region whose edge windows are windows of its own data, and so in every snapshot of its
history. -/
structure Anchored (r : Region) : Prop where
  current : SpannedBy r.finder r.lb r.rb
  history : ∀ snap ∈ r.history, SpannedBy snap.finder snap.lb snap.rb

/-! ## The invariant under the primitives -/

/-- A region with the data, the edges and the history of an anchored one is anchored. -/
theorem Anchored.of_frame (h : r.Anchored) (hx : t.finder.x = r.finder.x)
    (hy : t.finder.y = r.finder.y) (hlb : t.lb = r.lb) (hrb : t.rb = r.rb)
    (hhist : t.history = r.history) : t.Anchored :=
  ⟨hlb ▸ hrb ▸ h.current.of_data hx hy, hhist ▸ h.history⟩

theorem Anchored.withPhase (h : r.Anchored) (ph : Phase) :
    ({ r with phase := ph } : Region).Anchored :=
  h.of_frame rfl rfl rfl rfl rfl

theorem Anchored.withPeaks (h : r.Anchored) (m : List (Nat × Peak)) :
    ({ r with peakMap := m } : Region).Anchored :=
  h.of_frame rfl rfl rfl rfl rfl

theorem Anchored.saveCurrentFit (h : r.Anchored) (d : String) : (r.saveCurrentFit d).Anchored := by
  refine ⟨h.current, fun snap hs => ?_⟩
  rw [saveCurrentFit_history, Array.mem_push] at hs
  rcases hs with hs | rfl
  · exact h.history snap hs
  · exact h.current

/-- Restoring a snapshot of the history takes its data and its windows, which it spans. -/
theorem Anchored.restore (h : r.Anchored) {snap : Snapshot} (hs : snap ∈ r.history) (i : Int) :
    (r.restore snap i).Anchored :=
  ⟨h.history snap hs, by rw [restore_history]; exact h.history⟩

theorem Anchored.initBackground (h : r.Anchored) : r.initBackground.Anchored :=
  h.of_frame (by simp) (by simp) initBackground_lb initBackground_rb initBackground_history

theorem Anchored.filter (h : r.Anchored) (f : Nat × Peak → Bool) :
    ({ r with peakMap := r.peakMap.filter f } : Region).Anchored :=
  h.of_frame rfl rfl rfl rfl rfl

theorem Anchored.cullPeaks (h : r.Anchored) : Outcome.Post r.cullPeaks fun res => res.1.Anchored :=
  cullPeaks_filter h.filter

theorem Anchored.recompute (h : r.Anchored) : Outcome.Post r.recompute Anchored := by
  intro t ht
  obtain ⟨k, -, rfl⟩ := recompute_eq_ok.mp ht
  exact h.of_frame rfl rfl rfl rfl rfl

theorem Anchored.render (h : r.Anchored) : Outcome.Post r.render Anchored := by
  intro t ht
  obtain ⟨g, rnd, rfl, hx, hy, -⟩ := render_eq_ok ht
  exact h.of_frame hx hy rfl rfl rfl

theorem Anchored.search (h : r.Anchored) {sigma : Float} :
    Outcome.Post (r.search sigma) Anchored := by
  intro t ht
  obtain ⟨f, rfl, hx, hy⟩ := search_spec t ht
  exact h.of_frame hx hy rfl rfl rfl

/-- With a whole number `k` of samples the edge windows at the ends of the range are its first
and its last `k` samples. -/
theorem defaultEdges_eq (hs : r.settings.WholeEdgeSamples) :
    r.defaultEdges = .ok { r with
      lb := Edge.ofSamples? r.finder.x r.finder.y 0 (r.edgeSamples - 1),
      rb := Edge.ofSamples? r.finder.x r.finder.y (r.finder.x.size - r.edgeSamples)
        (r.finder.x.size - 1) } := by
  unfold defaultEdges
  split
  · rename_i v hv
    exact absurd hv (hs.1 v)
  · rfl

/-- The edge windows at the ends of the range are windows of the data, whatever windows the
region had before. -/
theorem anchored_defaultEdges (hs : r.settings.WholeEdgeSamples)
    (hh : ∀ snap ∈ r.history, SpannedBy snap.finder snap.lb snap.rb) :
    Outcome.Post r.defaultEdges Anchored := by
  rw [defaultEdges_eq hs]
  exact .pure ⟨.of_ofSamples?, hh⟩

/-! ## The operations that may fail -/

theorem Anchored.refresh (h : r.Anchored) (d : String) : Outcome.Post (r.refresh d) Anchored := by
  unfold Region.refresh
  exact .bind h.recompute fun r₁ h₁ =>
    .bind (Anchored.render (h₁.of_frame rfl rfl rfl rfl rfl)) fun u hu =>
      .pure (hu.saveCurrentFit d)

/-- A regression sets the background and the peaks, and draws the model over the same data. -/
theorem Anchored.regress (h : r.Anchored) {seeds : List (Nat × Hypermet)} {g : Bool} :
    Outcome.Post (r.regress seeds g) fun o => ∀ t, o = some t → t.Anchored := by
  unfold Region.regress
  split
  · split
    · exact .pure fun _ h => by cases h
    · dsimp only
      split
      · refine .bind_forall fun regressed => ?_
        split
        · exact .pure fun _ h => by cases h
        · refine .bind (Anchored.recompute (h.of_frame rfl rfl rfl rfl rfl)) fun r₁ h₁ =>
            .bind (Anchored.render (h₁.of_frame rfl rfl rfl rfl rfl)) fun u hu =>
              .pure fun t ht => ?_
          cases ht
          exact hu
      · exact .pure fun _ h => by cases h
  · exact .pure fun _ h => by cases h

theorem Anchored.rebuild (h : r.Anchored) (d : String) :
    Outcome.Post (r.rebuild d) fun o => ∀ t, o = some t → t.Anchored := by
  unfold Region.rebuild
  dsimp only
  split
  · exact .pure fun _ h => by cases h
  · refine .bind h.initBackground.regress fun o ho => ?_
    rcases o with _ | u
    · exact .pure fun _ h => by cases h
    · exact .pure fun t ht => by
        cases ht
        exact (ho u rfl).saveCurrentFit d

theorem Anchored.refitOrRefresh (h : r.Anchored) (d : String) :
    Outcome.Post (r.refitOrRefresh d) Anchored := by
  unfold Region.refitOrRefresh
  refine .bind (h.rebuild d) fun o ho => ?_
  rcases o with _ | t
  · exact h.refresh d
  · exact .pure (ho t rfl)

theorem Anchored.removePeaks (h : r.Anchored) (ids : List Nat) :
    Outcome.Post (r.removePeaks ids) fun res => res.2.Anchored := by
  unfold Region.removePeaks
  split
  · exact .pure h
  · refine .bind (Anchored.refitOrRefresh ?_ _) fun t ht => .pure ht
    exact h.of_frame rfl rfl rfl rfl rfl

theorem Anchored.replacePeak (h : r.Anchored) (p : Peak) :
    Outcome.Post (r.replacePeak p) fun res => res.2.Anchored := by
  unfold Region.replacePeak
  split
  · exact .pure h
  refine .bind_forall fun _ => ?_
  split
  · exact .pure h
  · refine .bind (Anchored.refresh ?_ _) fun t ht => .pure ht
    exact h.of_frame rfl rfl rfl rfl rfl

/-! ## Placing the edge windows -/

/-- Placing the edge windows over bins refuses and keeps the region, or places windows of the
data, whatever windows the region had before. -/
theorem setEdges_anchored (hh : ∀ snap ∈ r.history, SpannedBy snap.finder snap.lb snap.rb)
    (lbBins rbBins : Float × Float) :
    r.setEdges lbBins rbBins = (false, r) ∨ (r.setEdges lbBins rbBins).2.Anchored := by
  unfold Region.setEdges
  split
  · rename_i l rt hl hr
    split
    · exact .inl rfl
    · have hu : ({ r with lb := some l, rb := some rt } : Region).Anchored :=
        ⟨⟨fun e he => Option.some.inj he ▸ ⟨_, Edge.Spans.of_ofSamples? hl⟩,
          fun e he => Option.some.inj he ▸ ⟨_, Edge.Spans.of_ofSamples? hr⟩⟩, hh⟩
      have ht := hu.initBackground.filter fun e => encloses l rt e.2.center
      refine .inr ?_
      dsimp only
      split
      · exact ht
      · exact ht.of_frame rfl rfl rfl rfl rfl
  · exact .inl rfl

theorem Anchored.setEdges (h : r.Anchored) (lbBins rbBins : Float × Float) :
    (r.setEdges lbBins rbBins).2.Anchored := by
  rcases setEdges_anchored h.history lbBins rbBins with he | ht
  · rw [he]
    exact h
  · exact ht

/-- Cutting the range again and placing the edge windows over the new bins keeps a region
anchored: a cut whose windows cannot be placed is dropped with the windows of the old data. -/
theorem Anchored.applyEdges (h : r.Anchored) {parent : Finder} {lbBins rbBins : Float × Float}
    {d : String} :
    Outcome.Post (r.applyEdges parent lbBins rbBins d) fun res => res.2.Anchored := by
  unfold Region.applyEdges
  refine .bind setRange_spec fun o ho => ?_
  rcases o with _ | t
  · exact .pure h
  · obtain ⟨f, rfl, -⟩ := ho _ rfl
    dsimp only
    split
    · exact .pure h
    · rename_i hok
      rcases setEdges_anchored (r := { r with finder := f }) h.history lbBins rbBins with he | ht
      · simp [he] at hok
      · exact .bind (ht.refitOrRefresh d) fun u hu => .pure hu

theorem Anchored.adjustLB (h : r.Anchored) {parent : Finder} {left right : Float} :
    Outcome.Post (r.adjustLB parent left right) fun res => res.2.Anchored := by
  unfold Region.adjustLB
  split
  · exact .pure h
  · split
    · split
      · exact .pure h
      · exact h.applyEdges
    · exact .pure h

theorem Anchored.adjustRB (h : r.Anchored) {parent : Finder} {left right : Float} :
    Outcome.Post (r.adjustRB parent left right) fun res => res.2.Anchored := by
  unfold Region.adjustRB
  split
  · exact .pure h
  · split
    · split
      · exact .pure h
      · exact h.applyEdges
    · exact .pure h

/-- A new range takes its edge windows at its new ends. -/
theorem Anchored.adjustBounds (hs : r.settings.WholeEdgeSamples) (h : r.Anchored)
    {parent : Finder} {left right : Float} :
    Outcome.Post (r.adjustBounds parent left right) fun res => res.2.Anchored := by
  unfold Region.adjustBounds
  split
  · exact .pure h
  · refine .bind setRange_spec fun o ho => ?_
    rcases o with _ | t
    · exact .pure h
    · obtain ⟨f, rfl, -⟩ := ho _ rfl
      refine .bind (anchored_defaultEdges (r := { r with finder := f }) hs h.history)
        fun t₁ h₁ => ?_
      exact .bind h₁.initBackground.cullPeaks fun _ h₂ =>
        .bind ((h₂.withPhase _).refitOrRefresh _) fun u hu => .pure hu

/-- Rolling back restores a snapshot of the history, with its data and its windows. -/
theorem Anchored.rollback (h : r.Anchored) (index : Int) :
    Outcome.Post (r.rollback index) fun res => res.2.Anchored := by
  unfold Region.rollback
  split
  · exact .pure h
  · rename_i hin
    have hin : 0 ≤ index ∧ index < r.history.size := by simpa using hin
    have hmem : r.history.getD index.toNat default ∈ r.history := history_getD_mem (by omega)
    exact .bind (h.restore hmem index).render fun t ht => .pure ht

/-! ## The operations that hand out identities -/

theorem Anchored.summationPeaks (h : r.Anchored) {f : Finder} :
    RegionM.Post (r.summationPeaks f) Anchored := by
  unfold Region.summationPeaks
  dsimp only
  rw [Std.Legacy.Range.forIn_eq_forIn_range']
  -- each pass puts in at most one peak and touches nothing else
  refine .bind (.forIn Anchored h fun k t ht => .bind_forall fun o => ?_) fun t ht =>
    .liftOutcome ht.recompute
  split
  · exact .pure (ht.of_frame rfl rfl rfl rfl rfl)
  · exact .pure ht

theorem Anchored.addFromResid (h : r.Anchored) {hint : Option Float} :
    RegionM.Post (r.addFromResid hint) fun o => ∀ t, o = some t → t.Anchored := by
  unfold Region.addFromResid
  dsimp only
  split
  · exact .pure fun _ h => by cases h
  · refine .bind (.liftOutcome h.search) fun trial htrial => .bind_forall fun cands => ?_
    split
    · refine .bind_forall fun id => .bind (.liftOutcome htrial.regress) fun o ho => ?_
      rcases o with _ | u
      · exact .pure fun _ h => by cases h
      · exact .pure fun t ht => by
          cases ht
          exact (ho u rfl).saveCurrentFit _
    · exact .pure fun _ h => by cases h

theorem Anchored.refineResid (h : r.Anchored) {i : Bool} {q : Float} (rounds : Nat) :
    RegionM.Post (r.refineResid i q rounds) fun res => res.2.Anchored := by
  induction rounds generalizing r q with
  | zero => exact .pure h
  | succ rounds ih =>
    rw [Region.refineResid]
    split
    · exact .pure h
    refine .bind (.attempt h.addFromResid) fun o ho => ?_
    rcases o with e | _ | trial
    · exact .pure h
    · exact .pure h
    dsimp only
    split
    · exact .bind (ih (ho _ rfl trial rfl)) fun res hres => .pure hres
    · exact .pure h

theorem Anchored.iterativeFit (h : r.Anchored) {i : Bool} :
    RegionM.Post (r.iterativeFit i) fun res => res.2.Anchored := by
  unfold Region.iterativeFit
  dsimp only
  split
  · exact .pure h
  split
  · exact .pure h
  split
  · exact .pure h
  · exact h.refineResid _

theorem Anchored.finishAutoFit (h : r.Anchored) {s : Settings} {i : Bool} :
    RegionM.Post (r.finishAutoFit s i) fun res => res.2.Anchored := by
  unfold Region.finishAutoFit
  dsimp only
  split
  · exact .bind (.liftOutcome (h.withPhase _).render) fun t ht => .pure ht
  · refine .bind (.liftOutcome (h.withPhase _).render) fun t ht => ?_
    split
    · exact .bind (ht.saveCurrentFit _).iterativeFit fun res hres => .pure hres
    · exact .pure (ht.saveCurrentFit _)

/-- An automatic fit searches and regresses over the bins and edges the region has. -/
theorem Anchored.autoFit (h : r.Anchored) {i : Bool} :
    RegionM.Post (r.autoFit i) fun res => res.2.Anchored := by
  unfold Region.autoFit
  dsimp only
  split
  · exact .pure h
  have h₀ : ({ r with peakMap := [] } : Region).initBackground.Anchored :=
    (h.withPeaks []).initBackground
  refine .bind (.liftOutcome (Anchored.search ?_ : Outcome.Post _ Anchored)) fun trial htrial => ?_
  · exact h₀.of_frame rfl rfl rfl rfl rfl
  split
  · exact .bind (.liftOutcome (htrial.withPhase _).render) fun t ht => .pure ht
  refine .bind_forall fun seeds => ?_
  -- the fallback to summation peaks over the candidate windows
  have hsum : RegionM.Post (do
      let t ← trial.summationPeaks trial.finder
      t.finishAutoFit r.settings i) fun res => res.2.Anchored :=
    .bind htrial.summationPeaks fun t ht => ht.finishAutoFit
  split
  · refine .bind (.liftOutcome htrial.regress) fun o ho => ?_
    rcases o with _ | t
    · exact hsum
    · exact .bind (.pure (ho t rfl)) fun u hu => hu.finishAutoFit
  · exact hsum

theorem Anchored.addSum4Peak (h : r.Anchored) {leftBin rightBin : Float} :
    RegionM.Post (r.addSum4Peak leftBin rightBin) fun res => res.2.Anchored := by
  unfold Region.addSum4Peak
  refine .bind_forall fun o => ?_
  split
  · refine .bind (.liftOutcome (Anchored.refresh ?_ _)) fun t ht => .pure ht
    exact h.of_frame rfl rfl rfl rfl rfl
  · exact .pure h

/-- Adding a peak beyond the range cuts a wider one and takes the edge windows at its new
ends. -/
theorem Anchored.addPeak (hs : r.settings.WholeEdgeSamples) (h : r.Anchored) {parent : Finder}
    {leftBin rightBin : Float} {i : Bool} :
    RegionM.Post (r.addPeak parent leftBin rightBin i) fun res => res.2.Anchored := by
  unfold Region.addPeak
  dsimp only
  split
  · exact .pure h
  split
  · exact .pure h
  split
  · refine .bind h.addFromResid fun o ho => ?_
    rcases o with _ | t
    · exact h.addSum4Peak
    · exact .pure (ho t rfl)
  refine .bind (.liftOutcome setRange_spec) fun o ho => ?_
  rcases o with _ | t
  · exact .pure h
  obtain ⟨f, rfl, -⟩ := ho _ rfl
  refine .bind (.liftOutcome (anchored_defaultEdges (r := { r with finder := f }) hs h.history))
    fun t₁ h₁ => ?_
  refine .bind (.liftOutcome h₁.initBackground.cullPeaks) fun _ hc =>
    .bind (.liftOutcome hc.recompute) fun t₂ h₂ => ?_
  refine .bind (.liftOutcome (h₂.withPhase _).render) fun t₃ h₃ => ?_
  refine .bind h₃.addFromResid fun o ho => ?_
  rcases o with _ | u
  · refine .bind h₃.autoFit fun res hres => .bind_forall fun ok => ?_
    split
    · exact .pure hres
    · exact .pure h
  · exact .pure (ho u rfl)

/-- New data takes its edge windows at its ends, which with a whole number of samples cannot
fail; so a failure after the data is taken leaves a region with windows of the new data. A
failure before that leaves the region as it was. -/
theorem Anchored.setData (hs : r.settings.WholeEdgeSamples) (h : r.Anchored) {x y : Array Float}
    {minBin maxBin : Float} :
    Except.Post (r.setData x y minBin maxBin) (fun o => ∀ t, o = some t → t.Anchored)
      fun failed => failed.2.Anchored := by
  unfold Region.setData
  dsimp only
  split
  · exact .pure fun _ h => by cases h
  split
  · exact .pure fun _ h => by cases h
  refine .bind (.mapError (Q := fun _ => True) (fun _ _ => trivial) fun _ => h) fun res _ => ?_
  obtain ⟨ok, f⟩ := res
  dsimp only
  split
  · exact .pure fun _ h => by cases h
  rw [defaultEdges_eq (r := { r with finder := f, peakMap := [], history := #[], currentFit := -1 })
    hs]
  refine .bind (P := (· = _)) rfl fun r₂ hr₂ => ?_
  subst hr₂
  -- the windows are placed over the new data, so a failure from here on leaves them with it
  have h₁ : Anchored
      { ({ r with finder := f, peakMap := [], history := #[], currentFit := -1 } : Region) with
        lb := Edge.ofSamples? f.x f.y 0 (r.edgeSamples - 1),
        rb := Edge.ofSamples? f.x f.y (f.x.size - r.edgeSamples) (f.x.size - 1) } :=
    ⟨.of_ofSamples?, fun _ hs => by simp at hs⟩
  have h₂ := h₁.initBackground
  refine .bind (.mapError h₂.search fun _ => h₂) fun r₃ h₃ => ?_
  refine .bind (.mapError (h₃.withPhase .searched).render fun _ => h₃.withPhase _)
    fun u hu => ?_
  exact .pure fun t ht => by
    cases ht
    exact hu

/-- Loading stored peaks keeps the data and the edge windows over it. -/
theorem Anchored.loadFit (h : r.Anchored) (peaks : List Peak) (bg : Option Background)
    (d : String) : Outcome.Post (r.loadFit peaks bg d) Anchored := by
  rw [loadFit_eq]
  refine Anchored.refresh ?_ d
  exact h.of_frame rfl rfl rfl rfl rfl

end Region

namespace Request

open Json Region

variable {s : Settings} {parent : Finder} {r : Region} {n : Nat}

/-- Every step of a region's request but `reload` keeps a region anchored, failing or not, when
its edge windows take a whole number of samples. The cases follow the steps in the order the
request lists them. -/
theorem regionStep_anchored (parent : Finder) (step : Value) {op : String}
    (hs : r.settings.WholeEdgeSamples) (h : r.Anchored) (hdo : step.get? "do" = some (.str op))
    (hop : op ≠ "reload") :
    RegionM.Post (regionStep parent r step) fun res => res.2.Anchored := by
  unfold regionStep
  simp only [hdo]
  split
  next => -- set_data
    refine .bind_forall fun _ => .bind_forall fun _ => ?_
    split
    next t ht => exact .pure ((h.setData hs).ok_of_eq ht t rfl)
    next => exact .pure h
    next e t ht => exact .pure ((h.setData hs).error_of_eq ht)
  next => exact .bind h.autoFit fun _ hres => .pure hres
  next => exact .bind h.iterativeFit fun _ hres => .pure hres
  next => -- add_from_resid, with a hint or without
    split
    all_goals
      refine .bind_forall fun _ => .bind h.addFromResid fun o ho => ?_
      rcases o with _ | t
      · exact .pure h
      · exact .pure (ho t rfl)
  next =>
    exact .bind_forall fun _ => .bind_forall fun _ => .bind (h.addPeak hs) fun _ hres =>
      .pure hres
  next =>
    exact .bind_forall fun _ => .bind_forall fun _ => .bind h.addSum4Peak fun _ hres => .pure hres
  next => exact .bind_forall fun _ => .bind_forall fun _ => .bind_forall fun _ => .pure h
  next =>
    exact .bind_forall fun _ => .bind (.liftOutcome (h.removePeaks _)) fun _ hres => .pure hres
  next =>
    exact .bind_forall fun _ => .bind (.liftOutcome (h.replacePeak _)) fun _ hres => .pure hres
  next => -- rebuild
    refine .bind (.liftOutcome (h.rebuild _)) fun o ho => ?_
    rcases o with _ | t
    · exact .pure h
    · exact .pure (ho t rfl)
  next =>
    exact .bind_forall fun _ => .bind (.liftOutcome (h.rollback _)) fun _ hres => .pure hres
  next => exact .bind (.liftOutcome h.cullPeaks) fun _ hres => .pure hres
  next => exact .bind_forall fun lb => .bind_forall fun rb => .pure (h.setEdges lb rb)
  next =>
    exact .bind_forall fun _ => .bind_forall fun _ => .bind (.liftOutcome h.adjustLB) fun _ hres =>
      .pure hres
  next =>
    exact .bind_forall fun _ => .bind_forall fun _ => .bind (.liftOutcome h.adjustRB) fun _ hres =>
      .pure hres
  next =>
    exact .bind_forall fun _ => .bind_forall fun _ =>
      .bind (.liftOutcome (h.adjustBounds hs)) fun _ hres => .pure hres
  next => -- overlaps
    refine .bind_forall fun _ => ?_
    split <;> exact .bind_forall fun _ => .pure h
  next => exact .bind (.liftOutcome h.render) fun _ ht => .pure ht
  next => exact .bind_forall fun _ => .pure h
  next hreload => exact absurd hreload hop
  next => exact .throw

/-- The empty region has no edge windows and no history. -/
theorem anchored_new : (Region.new s).Anchored :=
  ⟨⟨fun _ he => (by cases he), fun _ he => (by cases he)⟩,
    fun _ hs => by simp [Region.new] at hs⟩

/-- Every edge window of a reachable region is a window of its own data at its own indices, and
so is every edge window of a snapshot of its history, when the windows take a whole number of
samples. -/
theorem Reachable.anchored (hs : s.WholeEdgeSamples) (h : Reachable s parent r n) :
    r.Anchored := by
  induction h with
  | new n => exact anchored_new
  | @step r n step op res n' hr hdo hop hrun ih =>
    -- a step that fails leaves the region as it was
    rcases res with e | ⟨v, t⟩
    · exact ih
    · have hsr : r.settings.WholeEdgeSamples := by rw [hr.sound.settings]; exact hs
      exact regionStep_anchored parent step hsr ih hdo hop n (v, t) n' hrun
  | loadFit _ _ _ hload ih => exact ih.loadFit _ _ _ _ hload
  | shared _ _ ih => exact ih

end Request

end GammaFit
