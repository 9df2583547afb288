import GammaFit.Proofs.Region.Reachable

/-!
# The summation background follows the edges

A region's summation background is the one its two edge windows give, `none` when a window is
missing (`Region.Tied`), and so is the one of every snapshot of its history. Only
`initBackground` sets the summation background, always from the edge windows it finds; every
step that moves an edge window calls it afterwards (new data, edges placed or moved, the range
changed or widened), a rollback restores edges and background from one snapshot, and the other
steps touch neither. So the invariant holds of every reachable region (`Reachable.tied`), and
taking the backgrounds again from the edges leaves the summation background as it is
(`Tied.initBackground_sum4Background`).

The steps are taken as the invariant's proofs elsewhere take them: one lemma per operation, each
built from the lemmas of the operations it calls.
-/

namespace GammaFit

open Search (Finder)

/-- The summation background that the edge windows `lb` and `rb` give: none unless both are
there. -/
def summationOf (lb rb : Option Edge) : Option Background :=
  match lb, rb with
  | some l, some rt => Background.summation l rt
  | _, _ => none

/-- A snapshot whose summation background is the one its edge windows give. -/
def Snapshot.Tied (snap : Snapshot) : Prop :=
  snap.sum4Background = summationOf snap.lb snap.rb

namespace Region

/-- A region whose summation background is the one its edge windows give, now and in every
snapshot of its history. -/
structure Tied (r : Region) : Prop where
  current : r.sum4Background = summationOf r.lb r.rb
  history : ∀ snap ∈ r.history, snap.Tied

variable {r t u : Region}

/-! ## The invariant under the primitives -/

/-- A region with the edges, the summation background and the history of a tied one is tied. -/
theorem Tied.of_frame (h : r.Tied) (hlb : t.lb = r.lb) (hrb : t.rb = r.rb)
    (hsum : t.sum4Background = r.sum4Background) (hhist : t.history = r.history) : t.Tied :=
  ⟨by rw [hsum, hlb, hrb]; exact h.current, hhist ▸ h.history⟩

@[simp] theorem initBackground_lb : r.initBackground.lb = r.lb := by
  unfold initBackground; split <;> rfl

@[simp] theorem initBackground_rb : r.initBackground.rb = r.rb := by
  unfold initBackground; split <;> rfl

theorem initBackground_sum4Background :
    r.initBackground.sum4Background = summationOf r.lb r.rb := by
  rcases hl : r.lb with _ | l <;> rcases hr : r.rb with _ | rt <;>
    simp [initBackground, summationOf, hl, hr]

/-- Taking the backgrounds from the edges ties the region, whatever it held before, as long as
its history is tied. -/
theorem Tied.initBackground (h : ∀ snap ∈ r.history, snap.Tied) : r.initBackground.Tied :=
  ⟨by rw [initBackground_sum4Background, initBackground_lb, initBackground_rb],
    by rw [initBackground_history]; exact h⟩

/-- In a tied region, taking the backgrounds from the edges again gives the summation
background it has. -/
theorem Tied.initBackground_sum4Background (h : r.Tied) :
    r.initBackground.sum4Background = r.sum4Background := by
  rw [Region.initBackground_sum4Background, h.current]

theorem Tied.saveCurrentFit (h : r.Tied) (d : String) : (r.saveCurrentFit d).Tied := by
  refine ⟨h.current, fun snap hs => ?_⟩
  rw [saveCurrentFit_history, Array.mem_push] at hs
  rcases hs with hs | rfl
  · exact h.history snap hs
  · exact h.current

/-- Restoring a snapshot of the history ties the region to it. -/
theorem Tied.restore (h : r.Tied) {snap : Snapshot} (hs : snap ∈ r.history) (i : Int) :
    (r.restore snap i).Tied :=
  ⟨h.history snap hs, by rw [restore_history]; exact h.history⟩

theorem Tied.recompute (h : r.Tied) : Outcome.Post r.recompute Tied := by
  intro t ht
  obtain ⟨k, -, rfl⟩ := recompute_eq_ok.mp ht
  exact h.of_frame rfl rfl rfl rfl

theorem Tied.render (h : r.Tied) : Outcome.Post r.render Tied := by
  intro t ht
  obtain ⟨g, rnd, rfl, -⟩ := render_eq_ok ht
  exact h.of_frame rfl rfl rfl rfl

theorem Tied.search (h : r.Tied) {sigma : Float} : Outcome.Post (r.search sigma) Tied := by
  intro t ht
  obtain ⟨f, rfl, -⟩ := search_spec t ht
  exact h.of_frame rfl rfl rfl rfl

/-! ## The operations that may fail -/

theorem Tied.refresh (h : r.Tied) (d : String) : Outcome.Post (r.refresh d) Tied := by
  unfold Region.refresh
  exact .bind h.recompute fun r₁ h₁ =>
    .bind (Tied.render (h₁.of_frame rfl rfl rfl rfl)) fun u hu => .pure (hu.saveCurrentFit d)

/-- A regression sets the regression background and the peaks, and draws the model. -/
theorem Tied.regress (h : r.Tied) {seeds : List (Nat × Hypermet)} {g : Bool} :
    Outcome.Post (r.regress seeds g) fun o => ∀ t, o = some t → t.Tied := by
  unfold Region.regress
  split
  · split
    · exact .pure fun _ h => by cases h
    · dsimp only
      split
      · refine .bind_forall fun regressed => ?_
        split
        · exact .pure fun _ h => by cases h
        · refine .bind (Tied.recompute (h.of_frame rfl rfl rfl rfl)) fun r₁ h₁ =>
            .bind (Tied.render (h₁.of_frame rfl rfl rfl rfl)) fun u hu => .pure fun t ht => ?_
          cases ht
          exact hu
      · exact .pure fun _ h => by cases h
  · exact .pure fun _ h => by cases h

theorem Tied.rebuild (h : r.Tied) (d : String) :
    Outcome.Post (r.rebuild d) fun o => ∀ t, o = some t → t.Tied := by
  unfold Region.rebuild
  dsimp only
  split
  · exact .pure fun _ h => by cases h
  · refine .bind (Tied.initBackground h.history).regress fun o ho => ?_
    rcases o with _ | u
    · exact .pure fun _ h => by cases h
    · exact .pure fun t ht => by
        cases ht
        exact (ho u rfl).saveCurrentFit d

theorem Tied.refitOrRefresh (h : r.Tied) (d : String) :
    Outcome.Post (r.refitOrRefresh d) Tied := by
  unfold Region.refitOrRefresh
  refine .bind (h.rebuild d) fun o ho => ?_
  rcases o with _ | t
  · exact h.refresh d
  · exact .pure (ho t rfl)

theorem Tied.removePeaks (h : r.Tied) (ids : List Nat) :
    Outcome.Post (r.removePeaks ids) fun res => res.2.Tied := by
  unfold Region.removePeaks
  split
  · exact .pure h
  · refine .bind (Tied.refitOrRefresh ?_ _) fun t ht => .pure ht
    exact h.of_frame rfl rfl rfl rfl

theorem Tied.cullPeaks (h : r.Tied) : Outcome.Post r.cullPeaks fun res => res.1.Tied :=
  cullPeaks_filter fun _ => h.of_frame rfl rfl rfl rfl

theorem Tied.replacePeak (h : r.Tied) (p : Peak) :
    Outcome.Post (r.replacePeak p) fun res => res.2.Tied := by
  unfold Region.replacePeak
  split
  · exact .pure h
  refine .bind_forall fun _ => ?_
  split
  · exact .pure h
  · refine .bind (Tied.refresh ?_ _) fun t ht => .pure ht
    exact h.of_frame rfl rfl rfl rfl

/-- Placing the edge windows takes the backgrounds from them. -/
theorem Tied.setEdges (h : r.Tied) (lbBins rbBins : Float × Float) :
    (r.setEdges lbBins rbBins).2.Tied := by
  unfold Region.setEdges
  split
  · rename_i l rt _ _
    split
    · exact h
    · have ht : ({ r with lb := some l, rb := some rt } : Region).initBackground.Tied :=
        Tied.initBackground h.history
      dsimp only
      split
      · exact ht.of_frame rfl rfl rfl rfl
      · exact ht.of_frame rfl rfl rfl rfl
  · exact h

theorem Tied.applyEdges (h : r.Tied) {parent : Finder} {lbBins rbBins : Float × Float}
    {d : String} : Outcome.Post (r.applyEdges parent lbBins rbBins d) fun res => res.2.Tied := by
  unfold Region.applyEdges
  refine .bind setRange_spec fun o ho => ?_
  rcases o with _ | t
  · exact .pure h
  · obtain ⟨f, rfl, -⟩ := ho _ rfl
    have ht := (h.of_frame (t := { r with finder := f }) rfl rfl rfl rfl).setEdges lbBins rbBins
    dsimp only
    split
    · exact .pure h
    · exact .bind (ht.refitOrRefresh d) fun u hu => .pure hu

theorem Tied.adjustLB (h : r.Tied) {parent : Finder} {left right : Float} :
    Outcome.Post (r.adjustLB parent left right) fun res => res.2.Tied := by
  unfold Region.adjustLB
  split
  · exact .pure h
  · split
    · split
      · exact .pure h
      · exact h.applyEdges
    · exact .pure h

theorem Tied.adjustRB (h : r.Tied) {parent : Finder} {left right : Float} :
    Outcome.Post (r.adjustRB parent left right) fun res => res.2.Tied := by
  unfold Region.adjustRB
  split
  · exact .pure h
  · split
    · split
      · exact .pure h
      · exact h.applyEdges
    · exact .pure h

/-- Changing the range takes the edge windows again at its ends, and the backgrounds from them. -/
theorem Tied.adjustBounds (h : r.Tied) {parent : Finder} {left right : Float} :
    Outcome.Post (r.adjustBounds parent left right) fun res => res.2.Tied := by
  unfold Region.adjustBounds
  split
  · exact .pure h
  · refine .bind setRange_spec fun o ho => ?_
    rcases o with _ | t
    · exact .pure h
    · obtain ⟨f, rfl, -⟩ := ho _ rfl
      refine .bind defaultEdges_spec fun t₁ ht₁ => ?_
      obtain ⟨l, rt, rfl⟩ := ht₁
      have ht : ({ ({ r with finder := f } : Region) with lb := l, rb := rt } :
          Region).initBackground.Tied := Tied.initBackground h.history
      refine .bind ht.cullPeaks fun res hres => ?_
      refine .bind (Tied.refitOrRefresh ?_ _) fun u hu => .pure hu
      exact hres.of_frame rfl rfl rfl rfl

/-- Rolling back restores a snapshot of the history, which is tied. -/
theorem Tied.rollback (h : r.Tied) (index : Int) :
    Outcome.Post (r.rollback index) fun res => res.2.Tied := by
  unfold Region.rollback
  split
  · exact .pure h
  · rename_i hin
    have hin : 0 ≤ index ∧ index < r.history.size := by simpa using hin
    have hmem : r.history.getD index.toNat default ∈ r.history := history_getD_mem (by omega)
    exact .bind (h.restore hmem index).render fun t ht => .pure ht

/-! ## The operations that hand out identities

What these return does not depend on the counter, so they are taken as `RegionM.Post`. -/

theorem Tied.summationPeaks (h : r.Tied) {f : Finder} :
    RegionM.Post (r.summationPeaks f) Tied := by
  unfold Region.summationPeaks
  dsimp only
  rw [Std.Legacy.Range.forIn_eq_forIn_range']
  -- each pass puts in at most one peak and touches nothing else
  refine .bind (.forIn Tied h fun k t ht => .bind_forall fun o => ?_) fun t ht =>
    .liftOutcome ht.recompute
  split
  · exact .pure (ht.of_frame rfl rfl rfl rfl)
  · exact .pure ht

theorem Tied.addFromResid (h : r.Tied) {hint : Option Float} :
    RegionM.Post (r.addFromResid hint) fun o => ∀ t, o = some t → t.Tied := by
  unfold Region.addFromResid
  dsimp only
  split
  · exact .pure fun _ h => by cases h
  · refine .bind (.liftOutcome h.search) fun trial htrial => .bind_forall fun cands => ?_
    split
    · refine .bind_forall fun id => .bind (.liftOutcome htrial.regress) fun o ho => ?_
      rcases o with _ | u
      · exact .pure fun _ h => by cases h
      · exact .pure fun t ht => by
          cases ht
          exact (ho u rfl).saveCurrentFit _
    · exact .pure fun _ h => by cases h

/-- Peaks added from the residual one after another; a refused one is dropped with its copy. -/
theorem Tied.refineResid (h : r.Tied) {i : Bool} {q : Float} (rounds : Nat) :
    RegionM.Post (r.refineResid i q rounds) fun res => res.2.Tied := by
  induction rounds generalizing r q with
  | zero => exact .pure h
  | succ rounds ih =>
    rw [Region.refineResid]
    split
    · exact .pure h
    refine .bind (.attempt h.addFromResid) fun o ho => ?_
    rcases o with e | _ | trial
    · exact .pure h
    · exact .pure h
    dsimp only
    split
    · exact .bind (ih (ho _ rfl trial rfl)) fun res hres => .pure hres
    · exact .pure h

theorem Tied.iterativeFit (h : r.Tied) {i : Bool} :
    RegionM.Post (r.iterativeFit i) fun res => res.2.Tied := by
  unfold Region.iterativeFit
  dsimp only
  split
  · exact .pure h
  split
  · exact .pure h
  split
  · exact .pure h
  · exact h.refineResid _

theorem Tied.finishAutoFit (h : r.Tied) {s : Settings} {i : Bool} :
    RegionM.Post (r.finishAutoFit s i) fun res => res.2.Tied := by
  unfold Region.finishAutoFit
  dsimp only
  split
  · refine .bind (.liftOutcome (Tied.render ?_)) fun t ht => .pure ht
    exact h.of_frame rfl rfl rfl rfl
  · refine .bind (.liftOutcome (Tied.render ?_)) fun t ht => ?_
    · exact h.of_frame rfl rfl rfl rfl
    split
    · exact .bind (ht.saveCurrentFit _).iterativeFit fun res hres => .pure hres
    · exact .pure (ht.saveCurrentFit _)

/-- An automatic fit takes the backgrounds from the edges again before it searches; whatever it
ends with, regression, summation peaks or nothing, keeps the edges and that background. -/
theorem Tied.autoFit (h : r.Tied) {i : Bool} :
    RegionM.Post (r.autoFit i) fun res => res.2.Tied := by
  unfold Region.autoFit
  dsimp only
  split
  · exact .pure h
  have h₀ : ({ r with peakMap := [] } : Region).initBackground.Tied := Tied.initBackground h.history
  refine .bind (.liftOutcome (Tied.search ?_)) fun trial htrial => ?_
  · exact h₀.of_frame rfl rfl rfl rfl
  split
  · refine .bind (.liftOutcome (Tied.render ?_)) fun t ht => .pure ht
    exact htrial.of_frame rfl rfl rfl rfl
  refine .bind_forall fun seeds => ?_
  -- the fallback to summation peaks over the candidate windows
  have hsum : RegionM.Post (do
      let t ← trial.summationPeaks trial.finder
      t.finishAutoFit r.settings i) fun res => res.2.Tied :=
    .bind htrial.summationPeaks fun t ht => ht.finishAutoFit
  split
  · refine .bind (.liftOutcome htrial.regress) fun o ho => ?_
    rcases o with _ | t
    · exact hsum
    · exact .bind (.pure (ho t rfl)) fun u hu => hu.finishAutoFit
  · exact hsum

theorem Tied.addSum4Peak (h : r.Tied) {leftBin rightBin : Float} :
    RegionM.Post (r.addSum4Peak leftBin rightBin) fun res => res.2.Tied := by
  unfold Region.addSum4Peak
  refine .bind_forall fun o => ?_
  split
  · refine .bind (.liftOutcome (Tied.refresh ?_ _)) fun t ht => .pure ht
    exact h.of_frame rfl rfl rfl rfl
  · exact .pure h

/-- Adding a peak beyond the range widens it and takes the edges and backgrounds again at its
new ends. -/
theorem Tied.addPeak (h : r.Tied) {parent : Finder} {leftBin rightBin : Float} {i : Bool} :
    RegionM.Post (r.addPeak parent leftBin rightBin i) fun res => res.2.Tied := by
  unfold Region.addPeak
  dsimp only
  split
  · exact .pure h
  split
  · exact .pure h
  split
  · refine .bind h.addFromResid fun o ho => ?_
    rcases o with _ | t
    · exact h.addSum4Peak
    · exact .pure (ho t rfl)
  refine .bind (.liftOutcome setRange_spec) fun o ho => ?_
  rcases o with _ | t
  · exact .pure h
  obtain ⟨f, rfl, -⟩ := ho _ rfl
  refine .bind (.liftOutcome defaultEdges_spec) fun t₁ ht₁ => ?_
  obtain ⟨l, rt, rfl⟩ := ht₁
  have ht : ({ ({ r with finder := f } : Region) with lb := l, rb := rt } :
      Region).initBackground.Tied := Tied.initBackground h.history
  refine .bind (.liftOutcome ht.cullPeaks) fun res hres => ?_
  refine .bind (.liftOutcome hres.recompute) fun t₂ ht₂ => ?_
  refine .bind (.liftOutcome (Tied.render ?_)) fun t₃ ht₃ => ?_
  · exact ht₂.of_frame rfl rfl rfl rfl
  refine .bind ht₃.addFromResid fun o ho => ?_
  rcases o with _ | u
  · refine .bind ht₃.autoFit fun res hres => .bind_forall fun ok => ?_
    split
    · exact .pure hres
    · exact .pure h
  · exact .pure (ho u rfl)

/-- New data: the edges are placed at the ends of the new range and the backgrounds taken from
them. A failure before that leaves the old edges and backgrounds, over an empty history. -/
theorem Tied.setData (h : r.Tied) {x y : Array Float} {minBin maxBin : Float} :
    Except.Post (r.setData x y minBin maxBin) (fun o => ∀ t, o = some t → t.Tied)
      fun failed => failed.2.Tied := by
  unfold Region.setData
  dsimp only
  split
  · exact .pure fun _ h => by cases h
  split
  · exact .pure fun _ h => by cases h
  refine .bind (.mapError (Q := fun _ => True) (fun _ _ => trivial) fun _ => h) fun res _ => ?_
  obtain ⟨ok, f⟩ := res
  dsimp only
  split
  · exact .pure fun _ h => by cases h
  -- from here on the history is empty, so only the current state has to be tied
  have h₁ : ({ r with finder := f, peakMap := [], history := #[], currentFit := -1 } :
      Region).Tied := ⟨h.current, fun _ hs => by simp at hs⟩
  refine .bind (.mapError defaultEdges_spec fun _ => h₁) fun r₂ hr₂ => ?_
  obtain ⟨l, rt, rfl⟩ := hr₂
  have h₂ : ({ ({ r with finder := f, peakMap := [], history := #[], currentFit := -1 } :
      Region) with lb := l, rb := rt } : Region).initBackground.Tied :=
    Tied.initBackground fun _ hs => by simp at hs
  refine .bind (.mapError h₂.search fun _ => h₂) fun r₃ h₃ => ?_
  have h₄ : ({ r₃ with phase := .searched } : Region).Tied := h₃.of_frame rfl rfl rfl rfl
  exact .bind (.mapError h₄.render fun _ => h₄) fun u hu => .pure fun t ht => by
    cases ht
    exact hu

/-- Loading stored peaks keeps the edges and the summation background. -/
theorem Tied.loadFit (h : r.Tied) (peaks : List Peak) (bg : Option Background) (d : String) :
    Outcome.Post (r.loadFit peaks bg d) Tied := by
  rw [loadFit_eq]
  refine Tied.refresh ?_ d
  exact h.of_frame rfl rfl rfl rfl

end Region

namespace Request

open Json Region

variable {s : Settings} {parent : Finder} {n : Nat}

/-- Every step of a region's request but `reload` keeps the summation background tied to the
edges, failing or not. The cases follow the steps in the order the request lists them. -/
theorem regionStep_tied (parent : Finder) (step : Value) {op : String} (h : r.Tied)
    (hdo : step.get? "do" = some (.str op)) (hop : op ≠ "reload") :
    RegionM.Post (regionStep parent r step) fun res => res.2.Tied := by
  unfold regionStep
  simp only [hdo]
  split
  next => -- set_data
    refine .bind_forall fun _ => .bind_forall fun _ => ?_
    split
    next t ht => exact .pure (h.setData.ok_of_eq ht t rfl)
    next => exact .pure h
    next e t ht => exact .pure (h.setData.error_of_eq ht)
  next => exact .bind h.autoFit fun _ hres => .pure hres
  next => exact .bind h.iterativeFit fun _ hres => .pure hres
  next => -- add_from_resid, with a hint or without
    split
    all_goals
      refine .bind_forall fun _ => .bind h.addFromResid fun o ho => ?_
      rcases o with _ | t
      · exact .pure h
      · exact .pure (ho t rfl)
  next => exact .bind_forall fun _ => .bind_forall fun _ => .bind h.addPeak fun _ hres => .pure hres
  next =>
    exact .bind_forall fun _ => .bind_forall fun _ => .bind h.addSum4Peak fun _ hres => .pure hres
  next => exact .bind_forall fun _ => .bind_forall fun _ => .bind_forall fun _ => .pure h
  next => exact .bind_forall fun _ => .bind (.liftOutcome (h.removePeaks _)) fun _ hres => .pure hres
  next => exact .bind_forall fun _ => .bind (.liftOutcome (h.replacePeak _)) fun _ hres => .pure hres
  next => -- rebuild
    refine .bind (.liftOutcome (h.rebuild _)) fun o ho => ?_
    rcases o with _ | t
    · exact .pure h
    · exact .pure (ho t rfl)
  next => exact .bind_forall fun _ => .bind (.liftOutcome (h.rollback _)) fun _ hres => .pure hres
  next => exact .bind (.liftOutcome h.cullPeaks) fun _ hres => .pure hres
  next => exact .bind_forall fun lb => .bind_forall fun rb => .pure (h.setEdges lb rb)
  next =>
    exact .bind_forall fun _ => .bind_forall fun _ => .bind (.liftOutcome h.adjustLB) fun _ hres =>
      .pure hres
  next =>
    exact .bind_forall fun _ => .bind_forall fun _ => .bind (.liftOutcome h.adjustRB) fun _ hres =>
      .pure hres
  next =>
    exact .bind_forall fun _ => .bind_forall fun _ =>
      .bind (.liftOutcome h.adjustBounds) fun _ hres => .pure hres
  next => -- overlaps
    refine .bind_forall fun _ => ?_
    split <;> exact .bind_forall fun _ => .pure h
  next => exact .bind (.liftOutcome h.render) fun _ ht => .pure ht
  next => exact .bind_forall fun _ => .pure h
  next hreload => exact absurd hreload hop
  next => exact .throw

/-- The empty region has no edges, no summation background and no history. -/
theorem tied_new : (Region.new s).Tied := ⟨rfl, fun _ hs => by simp [Region.new] at hs⟩

/-- In every reachable region, and every snapshot of its history, the summation background is
the one the edge windows give. -/
theorem Reachable.tied (h : Reachable s parent r n) : r.Tied := by
  induction h with
  | new n => exact tied_new
  | @step r n step op res n' _ hdo hop hrun ih =>
    -- a step that fails leaves the region as it was
    rcases res with e | ⟨v, t⟩
    · exact ih
    · exact regionStep_tied parent step ih hdo hop n (v, t) n' hrun
  | loadFit _ _ _ hload ih => exact ih.loadFit _ _ _ _ hload
  | shared _ _ ih => exact ih

end Request

end GammaFit
