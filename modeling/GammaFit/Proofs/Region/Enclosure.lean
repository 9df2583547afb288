import GammaFit.Proofs.Region.Anchors

/-!
# Every peak between the edges

A region keeps a peak only when it has a result, a Hypermet shape or a summation integral, and
its center lies strictly between the two edge windows (`Region.dropped`). Every peak of a region
a request reaches is such a peak (`Region.Enclosed`), in every phase, awaiting a regression or
not:

* `recompute` leaves out every other peak (`enclosed_recompute`), and it runs at the end of
  every operation that brings peaks in or brings them up to date: a refresh, a regression, the
  summation peaks of an automatic fit;
* placing the edge windows without a fit culls the peaks outside the new windows, and the peaks
  it keeps had a result already (`Enclosed.setEdges`);
* a rollback restores a snapshot, whose peaks were kept when it was saved (`restore_fresh`);
* new data starts with no peak.

The invariant is kept by every step of a region's request but `reload`
(`regionStep_enclosed`), so every reachable region is enclosed (`Reachable.enclosed`).
-/

namespace GammaFit

open Search (Finder)

namespace Region

variable {r t : Region}

/-- A region that keeps every peak it holds: each has a result and lies between the edges. -/
def Enclosed (r : Region) : Prop := ∀ e ∈ r.peakMap, r.dropped e.2 = .ok false

/-- Which peaks a region keeps depends only on its edge windows. -/
theorem dropped_congr (hlb : t.lb = r.lb) (hrb : t.rb = r.rb) : t.dropped = r.dropped := by
  funext q
  simp only [dropped, insideEdges, leftEdge, rightEdge, hlb, hrb]

/-- A peak has a result exactly when it is not dropped for the want of one. -/
theorem hasResult_of_dropped {p : Peak} (h : r.dropped p = .ok false) :
    (p.hypermet.isNone && p.sum4.isNone) = false :=
  (dropped_eq_ok_false.mp h).1

/-! ## The invariant under the primitives -/

/-- A region with the edges and the peaks of an enclosed one is enclosed. -/
theorem Enclosed.of_frame (h : r.Enclosed) (hlb : t.lb = r.lb) (hrb : t.rb = r.rb)
    (hm : t.peakMap = r.peakMap) : t.Enclosed := by
  intro e he
  rw [dropped_congr hlb hrb]
  exact h e (hm ▸ he)

theorem Enclosed.of_nil (hm : r.peakMap = []) : r.Enclosed := by
  intro e he
  rw [hm] at he
  cases he

theorem Fresh.enclosed (h : Fresh r) : r.Enclosed := fun e he => (h e he).kept

theorem Enclosed.withPhase (h : r.Enclosed) (ph : Phase) :
    ({ r with phase := ph } : Region).Enclosed :=
  h.of_frame rfl rfl rfl

theorem Enclosed.saveCurrentFit (h : r.Enclosed) (d : String) : (r.saveCurrentFit d).Enclosed :=
  h.of_frame rfl rfl rfl

theorem Enclosed.initBackground (h : r.Enclosed) : r.initBackground.Enclosed :=
  h.of_frame initBackground_lb initBackground_rb initBackground_peakMap

/-- Culling keeps the peaks between the edges; when each peak has a result, it keeps them all. -/
theorem enclosed_cullPeaks
    (h : ∀ e ∈ r.peakMap, (e.2.hypermet.isNone && e.2.sum4.isNone) = false) :
    Outcome.Post r.cullPeaks fun res => res.1.Enclosed := by
  intro res hres e he
  obtain ⟨hmem, hin⟩ := mem_cullPeaks hres he
  rw [cullPeaks_eq_ok hres]
  exact dropped_eq_ok_false.mpr ⟨h e hmem, hin⟩

/-- Bringing the peaks up to date leaves out every peak it would not keep. -/
theorem enclosed_recompute : Outcome.Post r.recompute Enclosed := by
  intro t ht
  obtain ⟨k, hk, rfl⟩ := recompute_eq_ok.mp ht
  intro e he
  obtain ⟨p, -, -, hkept⟩ := mem_upToDate hk he
  exact hkept

theorem Enclosed.render (h : r.Enclosed) : Outcome.Post r.render Enclosed := by
  intro t ht
  obtain ⟨g, rnd, rfl, -⟩ := render_eq_ok ht
  exact h.of_frame rfl rfl rfl

theorem Enclosed.search (h : r.Enclosed) {sigma : Float} :
    Outcome.Post (r.search sigma) Enclosed := by
  intro t ht
  obtain ⟨f, rfl, -⟩ := search_spec t ht
  exact h.of_frame rfl rfl rfl

/-! ## The operations that bring peaks up to date -/

theorem enclosed_refresh (d : String) : Outcome.Post (r.refresh d) Enclosed := by
  unfold Region.refresh
  exact .bind enclosed_recompute fun r₁ h₁ =>
    .bind (h₁.withPhase _).render fun u hu => .pure (hu.saveCurrentFit d)

/-- A regression brings the peaks it sets up to date. -/
theorem enclosed_regress {seeds : List (Nat × Hypermet)} {g : Bool} :
    Outcome.Post (r.regress seeds g) fun o => ∀ t, o = some t → t.Enclosed := by
  unfold Region.regress
  split
  · split
    · exact .pure fun _ h => by cases h
    · dsimp only
      split
      · refine .bind_forall fun regressed => ?_
        split
        · exact .pure fun _ h => by cases h
        · refine .bind enclosed_recompute fun r₁ h₁ =>
            .bind (h₁.withPhase _).render fun u hu => .pure fun t ht => ?_
          cases ht
          exact hu
      · exact .pure fun _ h => by cases h
  · exact .pure fun _ h => by cases h

theorem enclosed_rebuild (d : String) :
    Outcome.Post (r.rebuild d) fun o => ∀ t, o = some t → t.Enclosed := by
  unfold Region.rebuild
  dsimp only
  split
  · exact .pure fun _ h => by cases h
  · refine .bind enclosed_regress fun o ho => ?_
    rcases o with _ | u
    · exact .pure fun _ h => by cases h
    · exact .pure fun t ht => by
        cases ht
        exact (ho u rfl).saveCurrentFit d

theorem enclosed_refitOrRefresh (d : String) : Outcome.Post (r.refitOrRefresh d) Enclosed := by
  unfold Region.refitOrRefresh
  refine .bind (enclosed_rebuild d) fun o ho => ?_
  rcases o with _ | t
  · exact enclosed_refresh d
  · exact .pure (ho t rfl)

theorem Enclosed.removePeaks (h : r.Enclosed) (ids : List Nat) :
    Outcome.Post (r.removePeaks ids) fun res => res.2.Enclosed := by
  unfold Region.removePeaks
  split
  · exact .pure h
  · exact .bind (enclosed_refitOrRefresh _) fun t ht => .pure ht

theorem Enclosed.replacePeak (h : r.Enclosed) (p : Peak) :
    Outcome.Post (r.replacePeak p) fun res => res.2.Enclosed := by
  unfold Region.replacePeak
  split
  · exact .pure h
  refine .bind_forall fun _ => ?_
  split
  · exact .pure h
  · exact .bind (enclosed_refresh _) fun t ht => .pure ht

/-! ## Moving the edge windows -/

/-- Placing the edge windows culls the peaks outside them and keeps the others, which have a
result. -/
theorem Enclosed.setEdges (h : r.Enclosed) (lbBins rbBins : Float × Float) :
    (r.setEdges lbBins rbBins).2.Enclosed := by
  unfold Region.setEdges
  split
  · rename_i l rt _ _
    split
    · exact h
    · -- with both windows there, culling returns the peaks they enclose
      have ht : ({ r with lb := some l, rb := some rt } : Region).initBackground.cullWithin l rt
          |>.1.Enclosed := by
        refine enclosed_cullPeaks (fun e he => ?_) _ (cullPeaks_of_edges (by simp) (by simp))
        rw [initBackground_peakMap] at he
        exact hasResult_of_dropped (h e he)
      dsimp only
      split
      · exact ht
      · exact ht.withPhase _
  · exact h

/-- A new cut is kept only with its edge windows placed and its peaks brought up to date. -/
theorem Enclosed.applyEdges (h : r.Enclosed) {parent : Finder} {lbBins rbBins : Float × Float}
    {d : String} :
    Outcome.Post (r.applyEdges parent lbBins rbBins d) fun res => res.2.Enclosed := by
  unfold Region.applyEdges
  refine .bind_forall fun o => ?_
  rcases o with _ | t
  · exact .pure h
  · dsimp only
    split
    · exact .pure h
    · exact .bind (enclosed_refitOrRefresh d) fun u hu => .pure hu

theorem Enclosed.adjustLB (h : r.Enclosed) {parent : Finder} {left right : Float} :
    Outcome.Post (r.adjustLB parent left right) fun res => res.2.Enclosed := by
  unfold Region.adjustLB
  split
  · exact .pure h
  · split
    · split
      · exact .pure h
      · exact h.applyEdges
    · exact .pure h

theorem Enclosed.adjustRB (h : r.Enclosed) {parent : Finder} {left right : Float} :
    Outcome.Post (r.adjustRB parent left right) fun res => res.2.Enclosed := by
  unfold Region.adjustRB
  split
  · exact .pure h
  · split
    · split
      · exact .pure h
      · exact h.applyEdges
    · exact .pure h

theorem Enclosed.adjustBounds (h : r.Enclosed) {parent : Finder} {left right : Float} :
    Outcome.Post (r.adjustBounds parent left right) fun res => res.2.Enclosed := by
  unfold Region.adjustBounds
  split
  · exact .pure h
  · refine .bind_forall fun o => ?_
    rcases o with _ | t
    · exact .pure h
    · exact .bind_forall fun _ => .bind_forall fun _ =>
        .bind (enclosed_refitOrRefresh _) fun u hu => .pure hu

/-- Rolling back restores a snapshot whose peaks were all kept when it was saved. -/
theorem Enclosed.rollback (h : r.Enclosed) (hsnap : ∀ snap ∈ r.history, snap.Sound r.settings)
    (index : Int) : Outcome.Post (r.rollback index) fun res => res.2.Enclosed := by
  unfold Region.rollback
  split
  · exact .pure h
  · rename_i hin
    have hin : 0 ≤ index ∧ index < r.history.size := by simpa using hin
    have hmem : r.history.getD index.toNat default ∈ r.history := history_getD_mem (by omega)
    exact .bind (restore_fresh (hsnap _ hmem) rfl index).enclosed.render fun t ht => .pure ht

/-! ## The operations that hand out identities -/

/-- The summation peaks of an automatic fit are brought up to date once they are all in. -/
theorem enclosed_summationPeaks {f : Finder} : RegionM.Post (r.summationPeaks f) Enclosed := by
  unfold Region.summationPeaks
  exact .bind_forall fun t => .liftOutcome enclosed_recompute

theorem enclosed_addFromResid {hint : Option Float} :
    RegionM.Post (r.addFromResid hint) fun o => ∀ t, o = some t → t.Enclosed := by
  unfold Region.addFromResid
  dsimp only
  split
  · exact .pure fun _ h => by cases h
  · refine .bind_forall fun trial => .bind_forall fun cands => ?_
    split
    · refine .bind_forall fun id => .bind (.liftOutcome enclosed_regress) fun o ho => ?_
      rcases o with _ | u
      · exact .pure fun _ h => by cases h
      · exact .pure fun t ht => by
          cases ht
          exact (ho u rfl).saveCurrentFit _
    · exact .pure fun _ h => by cases h

theorem Enclosed.refineResid (h : r.Enclosed) {i : Bool} {q : Float} (rounds : Nat) :
    RegionM.Post (r.refineResid i q rounds) fun res => res.2.Enclosed := by
  induction rounds generalizing r q with
  | zero => exact .pure h
  | succ rounds ih =>
    rw [Region.refineResid]
    split
    · exact .pure h
    refine .bind (.attempt enclosed_addFromResid) fun o ho => ?_
    rcases o with e | _ | trial
    · exact .pure h
    · exact .pure h
    dsimp only
    split
    · exact .bind (ih (ho _ rfl trial rfl)) fun res hres => .pure hres
    · exact .pure h

theorem Enclosed.iterativeFit (h : r.Enclosed) {i : Bool} :
    RegionM.Post (r.iterativeFit i) fun res => res.2.Enclosed := by
  unfold Region.iterativeFit
  dsimp only
  split
  · exact .pure h
  split
  · exact .pure h
  split
  · exact .pure h
  · exact h.refineResid _

theorem Enclosed.finishAutoFit (h : r.Enclosed) {s : Settings} {i : Bool} :
    RegionM.Post (r.finishAutoFit s i) fun res => res.2.Enclosed := by
  unfold Region.finishAutoFit
  dsimp only
  split
  · exact .bind (.liftOutcome (h.withPhase _).render) fun t ht => .pure ht
  · refine .bind (.liftOutcome (h.withPhase _).render) fun t ht => ?_
    split
    · exact .bind (ht.saveCurrentFit _).iterativeFit fun res hres => .pure hres
    · exact .pure (ht.saveCurrentFit _)

/-- An automatic fit starts again from no peak, and keeps those of a regression or the
summation peaks, both brought up to date. -/
theorem Enclosed.autoFit (h : r.Enclosed) {i : Bool} :
    RegionM.Post (r.autoFit i) fun res => res.2.Enclosed := by
  unfold Region.autoFit
  dsimp only
  split
  · exact .pure h
  refine .bind (.liftOutcome (Enclosed.search (.of_nil (by simp)))) fun trial htrial => ?_
  split
  · exact .bind (.liftOutcome (htrial.withPhase _).render) fun t ht => .pure ht
  refine .bind_forall fun seeds => ?_
  -- the fallback to summation peaks over the candidate windows
  have hsum : RegionM.Post (do
      let t ← trial.summationPeaks trial.finder
      t.finishAutoFit r.settings i) fun res => res.2.Enclosed :=
    .bind enclosed_summationPeaks fun t ht => ht.finishAutoFit
  split
  · refine .bind (.liftOutcome enclosed_regress) fun o ho => ?_
    rcases o with _ | t
    · exact hsum
    · exact .bind (.pure (ho t rfl)) fun u hu => hu.finishAutoFit
  · exact hsum

theorem Enclosed.addSum4Peak (h : r.Enclosed) {leftBin rightBin : Float} :
    RegionM.Post (r.addSum4Peak leftBin rightBin) fun res => res.2.Enclosed := by
  unfold Region.addSum4Peak
  refine .bind_forall fun o => ?_
  split
  · exact .bind (.liftOutcome (enclosed_refresh _)) fun t ht => .pure ht
  · exact .pure h

/-- Adding a peak beyond the range brings the peaks of the wider cut up to date before the
residual or an automatic fit adds one. -/
theorem Enclosed.addPeak (h : r.Enclosed) {parent : Finder} {leftBin rightBin : Float} {i : Bool} :
    RegionM.Post (r.addPeak parent leftBin rightBin i) fun res => res.2.Enclosed := by
  unfold Region.addPeak
  dsimp only
  split
  · exact .pure h
  split
  · exact .pure h
  split
  · refine .bind enclosed_addFromResid fun o ho => ?_
    rcases o with _ | t
    · exact h.addSum4Peak
    · exact .pure (ho t rfl)
  refine .bind_forall fun o => ?_
  rcases o with _ | t
  · exact .pure h
  refine .bind_forall fun t₁ => .bind_forall fun _ =>
    .bind (.liftOutcome enclosed_recompute) fun t₂ h₂ => ?_
  refine .bind (.liftOutcome (h₂.withPhase _).render) fun t₃ h₃ => ?_
  refine .bind enclosed_addFromResid fun o ho => ?_
  rcases o with _ | u
  · refine .bind h₃.autoFit fun res hres => .bind_forall fun ok => ?_
    split
    · exact .pure hres
    · exact .pure h
  · exact .pure (ho u rfl)

/-- New data starts with no peak; a failure before it is taken leaves the region as it was. -/
theorem Enclosed.setData (h : r.Enclosed) {x y : Array Float} {minBin maxBin : Float} :
    Except.Post (r.setData x y minBin maxBin) (fun o => ∀ t, o = some t → t.Enclosed)
      fun failed => failed.2.Enclosed := by
  unfold Region.setData
  dsimp only
  split
  · exact .pure fun _ h => by cases h
  split
  · exact .pure fun _ h => by cases h
  refine .bind (.mapError (Q := fun _ => True) (fun _ _ => trivial) fun _ => h) fun res _ => ?_
  obtain ⟨ok, f⟩ := res
  dsimp only
  split
  · exact .pure fun _ h => by cases h
  -- every stage from here on leaves no peak
  refine .bind (.mapError (Q := fun t => t.peakMap = []) (fun t ht => ?_)
    fun _ => .of_nil rfl) fun r₁ h₁ => ?_
  · obtain ⟨l, rt, rfl⟩ := defaultEdges_spec t ht
    rfl
  have h₂ : r₁.initBackground.Enclosed := .of_nil (by rw [initBackground_peakMap, h₁])
  refine .bind (.mapError h₂.search fun _ => h₂) fun r₃ h₃ => ?_
  refine .bind (.mapError (h₃.withPhase .searched).render fun _ => h₃.withPhase _)
    fun u hu => ?_
  exact .pure fun t ht => by
    cases ht
    exact hu

/-- Loading stored peaks brings every one of them up to date, dropping those outside the
edges. -/
theorem enclosed_loadFit (peaks : List Peak) (bg : Option Background) (d : String) :
    Outcome.Post (r.loadFit peaks bg d) Enclosed := by
  rw [loadFit_eq]
  exact enclosed_refresh d

end Region

namespace Request

open Json Region

variable {s : Settings} {parent : Finder} {r : Region} {n : Nat}

/-- Every step of a region's request but `reload` keeps a region enclosed, failing or not, when
every snapshot of its history is sound. The cases follow the steps in the order the request
lists them. -/
theorem regionStep_enclosed (parent : Finder) (step : Value) {op : String}
    (hsnap : ∀ snap ∈ r.history, snap.Sound r.settings) (h : r.Enclosed)
    (hdo : step.get? "do" = some (.str op)) (hop : op ≠ "reload") :
    RegionM.Post (regionStep parent r step) fun res => res.2.Enclosed := by
  unfold regionStep
  simp only [hdo]
  split
  next => -- set_data
    refine .bind_forall fun _ => .bind_forall fun _ => ?_
    split
    next t ht => exact .pure (h.setData.ok_of_eq ht t rfl)
    next => exact .pure h
    next e t ht => exact .pure (h.setData.error_of_eq ht)
  next => exact .bind h.autoFit fun _ hres => .pure hres
  next => exact .bind h.iterativeFit fun _ hres => .pure hres
  next => -- add_from_resid, with a hint or without
    split
    all_goals
      refine .bind_forall fun _ => .bind enclosed_addFromResid fun o ho => ?_
      rcases o with _ | t
      · exact .pure h
      · exact .pure (ho t rfl)
  next => exact .bind_forall fun _ => .bind_forall fun _ => .bind h.addPeak fun _ hres => .pure hres
  next =>
    exact .bind_forall fun _ => .bind_forall fun _ => .bind h.addSum4Peak fun _ hres => .pure hres
  next => exact .bind_forall fun _ => .bind_forall fun _ => .bind_forall fun _ => .pure h
  next =>
    exact .bind_forall fun _ => .bind (.liftOutcome (h.removePeaks _)) fun _ hres => .pure hres
  next =>
    exact .bind_forall fun _ => .bind (.liftOutcome (h.replacePeak _)) fun _ hres => .pure hres
  next => -- rebuild
    refine .bind (.liftOutcome (enclosed_rebuild _)) fun o ho => ?_
    rcases o with _ | t
    · exact .pure h
    · exact .pure (ho t rfl)
  next =>
    exact .bind_forall fun _ => .bind (.liftOutcome (h.rollback hsnap _)) fun _ hres => .pure hres
  next =>
    exact .bind (.liftOutcome (enclosed_cullPeaks fun e he => hasResult_of_dropped (h e he)))
      fun _ hres => .pure hres
  next => exact .bind_forall fun lb => .bind_forall fun rb => .pure (h.setEdges lb rb)
  next =>
    exact .bind_forall fun _ => .bind_forall fun _ => .bind (.liftOutcome h.adjustLB) fun _ hres =>
      .pure hres
  next =>
    exact .bind_forall fun _ => .bind_forall fun _ => .bind (.liftOutcome h.adjustRB) fun _ hres =>
      .pure hres
  next =>
    exact .bind_forall fun _ => .bind_forall fun _ =>
      .bind (.liftOutcome h.adjustBounds) fun _ hres => .pure hres
  next => -- overlaps
    refine .bind_forall fun _ => ?_
    split <;> exact .bind_forall fun _ => .pure h
  next => exact .bind (.liftOutcome h.render) fun _ ht => .pure ht
  next => exact .bind_forall fun _ => .pure h
  next hreload => exact absurd hreload hop
  next => exact .throw

/-- Every peak of a reachable region has a result and lies strictly between its edge windows,
in every phase. -/
theorem Reachable.enclosed (h : Reachable s parent r n) : r.Enclosed := by
  induction h with
  | new n => exact .of_nil rfl
  | @step r n step op res n' hr hdo hop hrun ih =>
    -- a step that fails leaves the region as it was
    rcases res with e | ⟨v, t⟩
    · exact ih
    · have hsnap : ∀ snap ∈ r.history, snap.Sound r.settings := fun snap hs => by
        rw [hr.sound.settings]
        exact (hr.sound.snapshots snap hs).1
      exact regionStep_enclosed parent step hsnap ih hdo hop n (v, t) n' hrun
  | loadFit _ _ _ hload => exact enclosed_loadFit _ _ _ _ hload
  | shared _ _ ih => exact ih

end Request

end GammaFit
