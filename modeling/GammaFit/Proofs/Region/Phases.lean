import GammaFit.Proofs.Region.Readiness

/-!
# What the phase of a region says

A region is `empty` until it takes data, `searched` while it holds no peak, `fitted` once it
holds some, and `stale` while its peaks await a regression after its edges moved. Two of these
labels keep their word in every region a request reaches (`Region.Labelled`): an empty region
holds no peak and no history, and a searched one holds no peak.

Every step that sets the phase reads it off the peaks it leaves (accepting the peaks as they
are, rolling back, the end of an automatic fit), or sets `fitted` after a regression, or `stale`
after placing edges under peaks that remain; new data empties the peaks and the history before
anything can fail. The other steps keep the phase and the history and never add a peak to a
region without one. So every step of a region's request but `reload` keeps the invariant
(`regionStep_labelled`), and every reachable region is labelled (`Reachable.labelled`).

The other two labels do not keep their word: placing the edges culls the peaks outside them and
leaves the phase as it was when none remains, so a fitted or stale region may hold no peak. What
holds is the converse, a region holding a peak is fitted or stale, and, with a whole number of
edge samples, a region without bins is empty (`phase_labels`).
-/

namespace GammaFit

open Search (Finder)

namespace Region

variable {r t : Region}

/-- A region whose phase keeps its word on what it holds: an empty region holds no peak and no
history, and a searched one holds no peak. -/
structure Labelled (r : Region) : Prop where
  empty : r.phase = .empty → r.peakMap = [] ∧ r.history = #[]
  searched : r.phase = .searched → r.peakMap = []

/-! ## Four ways to be labelled -/

/-- A region in neither of the two phases that promise something is labelled. -/
theorem Labelled.of_phase (he : t.phase ≠ .empty) (hs : t.phase ≠ .searched) : t.Labelled :=
  ⟨fun h => absurd h he, fun h => absurd h hs⟩

theorem Labelled.fitted (h : t.phase = .fitted) : t.Labelled :=
  .of_phase (by rw [h]; decide) (by rw [h]; decide)

theorem Labelled.stale (h : t.phase = .stale) : t.Labelled :=
  .of_phase (by rw [h]; decide) (by rw [h]; decide)

/-- A region whose phase is read off its peaks is labelled. -/
theorem Labelled.of_peaks (h : t.phase = if t.peakMap.isEmpty then .searched else .fitted) :
    t.Labelled := by
  refine ⟨fun he => ?_, fun hs => ?_⟩
  · rw [he] at h
    split at h <;> cases h
  · rw [hs] at h
    split at h
    · rename_i hnil
      exact List.isEmpty_iff.mp hnil
    · cases h

/-- A region without peaks and history is labelled, whatever its phase. -/
theorem Labelled.of_nil (hp : t.peakMap = []) (hh : t.history = #[]) : t.Labelled :=
  ⟨fun _ => ⟨hp, hh⟩, fun _ => hp⟩

/-- A region with the phase and the history of a labelled one, holding no peak where that one
holds none, is labelled. -/
theorem Labelled.of_frame (h : r.Labelled) (hph : t.phase = r.phase)
    (hp : r.peakMap = [] → t.peakMap = []) (hh : t.history = r.history) : t.Labelled := by
  refine ⟨fun he => ?_, fun hs => hp (h.searched (hph ▸ hs))⟩
  obtain ⟨hnil, hhist⟩ := h.empty (hph ▸ he)
  exact ⟨hp hnil, hh.trans hhist⟩

/-! ## The primitives -/

theorem Labelled.withPeaks (h : r.Labelled) {m : List (Nat × Peak)}
    (hm : r.peakMap = [] → m = []) : ({ r with peakMap := m } : Region).Labelled :=
  h.of_frame rfl hm rfl

theorem Labelled.render (h : r.Labelled) : Outcome.Post r.render Labelled := by
  intro t ht
  obtain ⟨g, rnd, rfl, -, -, -⟩ := render_eq_ok ht
  exact h.of_frame rfl id rfl

/-- Bringing no peak up to date leaves none. -/
theorem upToDate_nil {k : List (Nat × Peak)} (h : r.upToDate [] = .ok k) : k = [] := by
  simp only [upToDate] at h
  exact (Outcome.pure_eq_ok.mp h).symm

theorem Labelled.recompute (h : r.Labelled) : Outcome.Post r.recompute Labelled := by
  intro t ht
  obtain ⟨k, hk, rfl⟩ := recompute_eq_ok.mp ht
  exact h.withPeaks fun hnil => upToDate_nil (hnil ▸ hk)

theorem Labelled.filter (h : r.Labelled) (f : Nat × Peak → Bool) :
    ({ r with peakMap := r.peakMap.filter f } : Region).Labelled :=
  h.withPeaks fun hnil => by rw [hnil, List.filter_nil]

theorem Labelled.cullPeaks (h : r.Labelled) : Outcome.Post r.cullPeaks fun res => res.1.Labelled :=
  cullPeaks_filter h.filter

theorem Labelled.initBackground (h : r.Labelled) : r.initBackground.Labelled :=
  h.of_frame initBackground_phase (fun hnil => by rw [initBackground_peakMap, hnil])
    initBackground_history

/-- Accepting the peaks as they are reads the phase off the peaks that remain. -/
theorem refresh_labelled (d : String) : Outcome.Post (r.refresh d) Labelled := by
  unfold Region.refresh
  refine .bind_forall fun r₁ => .bind (P := fun u => u.phase = if u.peakMap.isEmpty then
    .searched else .fitted) (fun u hu => ?_) fun u hu => .pure (.of_peaks hu)
  obtain ⟨hph, hpm, -⟩ := render_phase hu
  rw [hph, hpm]

/-- Regressing all Hypermet peaks again records a fitted region. -/
theorem rebuild_labelled (d : String) :
    Outcome.Post (r.rebuild d) fun o => ∀ t, o = some t → t.Labelled := by
  unfold Region.rebuild
  dsimp only
  split
  · exact .pure fun _ h => by cases h
  · refine .bind regress_frame fun o ho => ?_
    rcases o with _ | u
    · exact .pure fun _ h => by cases h
    · exact .pure fun t ht => by
        cases ht
        exact .fitted (ho u rfl).2

theorem refitOrRefresh_labelled (d : String) : Outcome.Post (r.refitOrRefresh d) Labelled := by
  unfold Region.refitOrRefresh
  refine .bind (rebuild_labelled d) fun o ho => ?_
  rcases o with _ | t
  · exact refresh_labelled d
  · exact .pure (ho t rfl)

/-- Putting peaks into a map that holds one leaves one. -/
theorem foldl_insertPeak_ne_nil {m : List (Nat × Peak)} (h : m ≠ []) (ps : List Peak) :
    ps.foldl insertPeak m ≠ [] := by
  induction ps generalizing m with
  | nil => exact h
  | cons p ps ih => exact ih (List.ne_nil_of_mem mem_insertPeak_self)

/-- Restoring a snapshot reads the phase off its peaks, which the region then holds. -/
theorem restore_labelled (snap : Snapshot) (i : Int) : (r.restore snap i).Labelled := by
  refine .of_peaks ?_
  cases hp : snap.peaks with
  | nil => simp [restore, hp]
  | cons p ps =>
    have hne : ps.foldl insertPeak (insertPeak [] p) ≠ [] :=
      foldl_insertPeak_ne_nil (List.ne_nil_of_mem mem_insertPeak_self) ps
    simp [restore, hp, hne]

/-! ## The operations -/

/-- A peak from the residual is kept only through a regression, which leaves a fitted region. -/
theorem addFromResid_labelled {hint : Option Float} :
    RegionM.Post (r.addFromResid hint) fun o => ∀ t, o = some t → t.Labelled := by
  unfold Region.addFromResid
  dsimp only
  split
  · exact .pure fun _ h => by cases h
  · refine .bind_forall fun trial => .bind_forall fun cands => ?_
    split
    · refine .bind_forall fun id => .bind (.liftOutcome regress_frame) fun o ho => ?_
      rcases o with _ | u
      · exact .pure fun _ h => by cases h
      · exact .pure fun t ht => by
          cases ht
          exact .fitted (ho u rfl).2
    · exact .pure fun _ h => by cases h

theorem Labelled.refineResid (h : r.Labelled) {i : Bool} {q : Float} (rounds : Nat) :
    RegionM.Post (r.refineResid i q rounds) fun res => res.2.Labelled := by
  induction rounds generalizing r q with
  | zero => exact .pure h
  | succ rounds ih =>
    rw [Region.refineResid]
    split
    · exact .pure h
    refine .bind (.attempt addFromResid_labelled) fun o ho => ?_
    rcases o with e | _ | trial
    · exact .pure h
    · exact .pure h
    dsimp only
    split
    · exact .bind (ih (ho _ rfl trial rfl)) fun res hres => .pure hres
    · exact .pure h

theorem Labelled.iterativeFit (h : r.Labelled) {i : Bool} :
    RegionM.Post (r.iterativeFit i) fun res => res.2.Labelled := by
  unfold Region.iterativeFit
  dsimp only
  split
  · exact .pure h
  split
  · exact .pure h
  split
  · exact .pure h
  · exact h.refineResid _

/-- The end of an automatic fit reads the phase off the peaks it found. -/
theorem finishAutoFit_labelled {s : Settings} {i : Bool} :
    RegionM.Post (r.finishAutoFit s i) fun res => res.2.Labelled := by
  unfold Region.finishAutoFit
  dsimp only
  split
  · rename_i hnil
    refine .bind (.liftOutcome (Q := Labelled) fun u hu => ?_) fun t ht => .pure ht
    obtain ⟨hph, hpm, -⟩ := render_phase hu
    exact .of_peaks (by simp [hph, hpm, hnil])
  · refine .bind (.liftOutcome (Q := fun u => u.phase = .fitted)
      fun u hu => (render_phase hu).1) fun t ht => ?_
    have hsaved : (t.saveCurrentFit "Autofit").Labelled := .fitted ht
    split
    · exact .bind hsaved.iterativeFit fun res hres => .pure hres
    · exact .pure hsaved

/-- An automatic fit starts again from no peaks: a search without candidates leaves the region
searched, and otherwise its end reads the phase off the peaks it found. -/
theorem Labelled.autoFit (h : r.Labelled) {i : Bool} :
    RegionM.Post (r.autoFit i) fun res => res.2.Labelled := by
  unfold Region.autoFit
  dsimp only
  split
  · exact .pure h
  refine .bind (.liftOutcome search_spec) fun trial htrial => ?_
  obtain ⟨f, rfl, -, -⟩ := htrial
  split
  · refine .bind (.liftOutcome (Q := Labelled) fun u hu => ?_) fun t ht => .pure ht
    obtain ⟨hph, hpm, -⟩ := render_phase hu
    exact .of_peaks (by simp [hph, hpm])
  refine .bind_forall fun seeds => ?_
  split
  · refine .bind_forall fun _ => ?_
    split <;> exact .bind_forall fun _ => finishAutoFit_labelled
  · exact .bind_forall fun _ => finishAutoFit_labelled

theorem Labelled.addSum4Peak (h : r.Labelled) {leftBin rightBin : Float} :
    RegionM.Post (r.addSum4Peak leftBin rightBin) fun res => res.2.Labelled := by
  unfold Region.addSum4Peak
  refine .bind_forall fun o => ?_
  split
  · exact .bind (.liftOutcome (refresh_labelled _)) fun t ht => .pure ht
  · exact .pure h

/-- Adding a peak keeps the region, or ends in a peak from the residual, a summation peak or an
automatic fit; a region cut wider first reads its phase off the peaks it keeps. -/
theorem Labelled.addPeak (h : r.Labelled) {parent : Finder} {leftBin rightBin : Float}
    {i : Bool} : RegionM.Post (r.addPeak parent leftBin rightBin i) fun res => res.2.Labelled := by
  unfold Region.addPeak
  dsimp only
  split
  · exact .pure h
  split
  · exact .pure h
  split
  · refine .bind addFromResid_labelled fun o ho => ?_
    rcases o with _ | t
    · exact h.addSum4Peak
    · exact .pure (ho t rfl)
  refine .bind_forall fun o => ?_
  rcases o with _ | t
  · exact .pure h
  refine .bind_forall fun t₁ => .bind_forall fun _ => .bind_forall fun t₂ => ?_
  refine .bind (.liftOutcome (Q := Labelled) fun t₃ h₃ => ?_) fun t₃ h₃ => ?_
  · obtain ⟨hph, hpm, -⟩ := render_phase h₃
    exact .of_peaks (by rw [hph, hpm])
  refine .bind addFromResid_labelled fun o ho => ?_
  rcases o with _ | u
  · refine .bind h₃.autoFit fun res hres => .bind_forall fun ok => ?_
    split
    · exact .pure hres
    · exact .pure h
  · exact .pure (ho u rfl)

theorem Labelled.removePeaks (h : r.Labelled) (ids : List Nat) :
    Outcome.Post (r.removePeaks ids) fun res => res.2.Labelled := by
  unfold Region.removePeaks
  split
  · exact .pure h
  · exact .bind (refitOrRefresh_labelled _) fun t ht => .pure ht

theorem Labelled.replacePeak (h : r.Labelled) (p : Peak) :
    Outcome.Post (r.replacePeak p) fun res => res.2.Labelled := by
  unfold Region.replacePeak
  split
  · exact .pure h
  refine .bind_forall fun _ => ?_
  split
  · exact .pure h
  · exact .bind (refresh_labelled _) fun t ht => .pure ht

/-- Placing the edges keeps the phase, the history and some of the peaks, or marks the peaks
that remain as awaiting a regression. -/
theorem Labelled.setEdges (h : r.Labelled) (lbBins rbBins : Float × Float) :
    (r.setEdges lbBins rbBins).2.Labelled := by
  unfold Region.setEdges
  split
  · rename_i l rt _ _
    split
    · exact h
    · have ht := (h.of_frame (t := { r with lb := some l, rb := some rt }) rfl id
        rfl).initBackground.filter fun e => encloses l rt e.2.center
      dsimp only
      split
      · exact ht
      · exact .stale rfl
  · exact h

theorem Labelled.applyEdges (h : r.Labelled) {parent : Finder} {lbBins rbBins : Float × Float}
    {d : String} : Outcome.Post (r.applyEdges parent lbBins rbBins d) fun res => res.2.Labelled := by
  unfold Region.applyEdges
  refine .bind_forall fun o => ?_
  rcases o with _ | t
  · exact .pure h
  · dsimp only
    split
    · exact .pure h
    · exact .bind (refitOrRefresh_labelled d) fun u hu => .pure hu

theorem Labelled.adjustLB (h : r.Labelled) {parent : Finder} {left right : Float} :
    Outcome.Post (r.adjustLB parent left right) fun res => res.2.Labelled := by
  unfold Region.adjustLB
  split
  · exact .pure h
  · split
    · split
      · exact .pure h
      · exact h.applyEdges
    · exact .pure h

theorem Labelled.adjustRB (h : r.Labelled) {parent : Finder} {left right : Float} :
    Outcome.Post (r.adjustRB parent left right) fun res => res.2.Labelled := by
  unfold Region.adjustRB
  split
  · exact .pure h
  · split
    · split
      · exact .pure h
      · exact h.applyEdges
    · exact .pure h

theorem Labelled.adjustBounds (h : r.Labelled) {parent : Finder} {left right : Float} :
    Outcome.Post (r.adjustBounds parent left right) fun res => res.2.Labelled := by
  unfold Region.adjustBounds
  split
  · exact .pure h
  · refine .bind_forall fun o => ?_
    rcases o with _ | t
    · exact .pure h
    · exact .bind_forall fun _ => .bind_forall fun _ =>
        .bind (refitOrRefresh_labelled _) fun u hu => .pure hu

theorem Labelled.rollback (h : r.Labelled) (index : Int) :
    Outcome.Post (r.rollback index) fun res => res.2.Labelled := by
  unfold Region.rollback
  split
  · exact .pure h
  · exact .bind (restore_labelled _ _).render fun t ht => .pure ht

/-- New data empties the peaks and the history before anything can fail, so a failure after
that leaves a region without either; a success leaves it searched. -/
theorem Labelled.setData (h : r.Labelled) {x y : Array Float} {minBin maxBin : Float} :
    Except.Post (r.setData x y minBin maxBin) (fun o => ∀ t, o = some t → t.Labelled)
      fun failed => failed.2.Labelled := by
  unfold Region.setData
  dsimp only
  split
  · exact .pure fun _ h => by cases h
  split
  · exact .pure fun _ h => by cases h
  refine .bind (.mapError (Q := fun _ => True) (fun _ _ => trivial) fun _ => h) fun res _ => ?_
  obtain ⟨ok, f⟩ := res
  dsimp only
  split
  · exact .pure fun _ h => by cases h
  -- every stage from here on leaves no peak and no history
  refine .bind (.mapError (Q := fun t => t.peakMap = [] ∧ t.history = #[]) (fun t ht => ?_)
    fun _ => .of_nil rfl rfl) fun r₁ h₁ => ?_
  · obtain ⟨l, rt, rfl⟩ := defaultEdges_spec t ht
    exact ⟨rfl, rfl⟩
  refine .bind (.mapError (Q := fun t => t.peakMap = [] ∧ t.history = #[]) (fun t ht => ?_)
    fun _ => .of_nil (by simp [h₁.1]) (by simp [h₁.2])) fun r₂ h₂ => ?_
  · obtain ⟨f', rfl, -, -⟩ := search_spec t ht
    simpa using h₁
  refine .bind (.mapError (Q := fun t => t.peakMap = [] ∧ t.history = #[]) (fun t ht => ?_)
    fun _ => .of_nil h₂.1 h₂.2) fun u hu => .pure fun t ht => ?_
  · obtain ⟨-, hpm, -, hhist, -⟩ := render_phase ht
    exact ⟨hpm.trans h₂.1, hhist.trans h₂.2⟩
  · cases ht
    exact .of_nil hu.1 hu.2

theorem labelled_new (s : Settings) : (Region.new s).Labelled := .of_nil rfl rfl

/-- Loading stored peaks records a region labelled by the peaks it keeps. -/
theorem loadFit_labelled (peaks : List Peak) (bg : Option Background) (d : String) :
    Outcome.Post (r.loadFit peaks bg d) Labelled := by
  rw [loadFit_eq]
  exact refresh_labelled d

end Region

namespace Request

open Json Region

variable {s : Settings} {parent : Finder} {r : Region} {n : Nat}

/-- Every step of a region's request but `reload` keeps a region labelled, failing or not. The
cases follow the steps in the order the request lists them. -/
theorem regionStep_labelled (parent : Finder) (step : Value) {op : String} (h : r.Labelled)
    (hdo : step.get? "do" = some (.str op)) (hop : op ≠ "reload") :
    RegionM.Post (regionStep parent r step) fun res => res.2.Labelled := by
  unfold regionStep
  simp only [hdo]
  split
  next => -- set_data
    refine .bind_forall fun _ => .bind_forall fun _ => ?_
    split
    next t ht => exact .pure (h.setData.ok_of_eq ht t rfl)
    next => exact .pure h
    next e t ht => exact .pure (h.setData.error_of_eq ht)
  next => exact .bind h.autoFit fun _ hres => .pure hres
  next => exact .bind h.iterativeFit fun _ hres => .pure hres
  next => -- add_from_resid, with a hint or without
    split
    all_goals
      refine .bind_forall fun _ => .bind addFromResid_labelled fun o ho => ?_
      rcases o with _ | t
      · exact .pure h
      · exact .pure (ho t rfl)
  next => exact .bind_forall fun _ => .bind_forall fun _ => .bind h.addPeak fun _ hres => .pure hres
  next =>
    exact .bind_forall fun _ => .bind_forall fun _ => .bind h.addSum4Peak fun _ hres => .pure hres
  next => exact .bind_forall fun _ => .bind_forall fun _ => .bind_forall fun _ => .pure h
  next =>
    exact .bind_forall fun _ => .bind (.liftOutcome (h.removePeaks _)) fun _ hres => .pure hres
  next =>
    exact .bind_forall fun _ => .bind (.liftOutcome (h.replacePeak _)) fun _ hres => .pure hres
  next => -- rebuild
    refine .bind (.liftOutcome (rebuild_labelled _)) fun o ho => ?_
    rcases o with _ | t
    · exact .pure h
    · exact .pure (ho t rfl)
  next =>
    exact .bind_forall fun _ => .bind (.liftOutcome (h.rollback _)) fun _ hres => .pure hres
  next => exact .bind (.liftOutcome h.cullPeaks) fun _ hres => .pure hres
  next => exact .bind_forall fun lb => .bind_forall fun rb => .pure (h.setEdges lb rb)
  next =>
    exact .bind_forall fun _ => .bind_forall fun _ => .bind (.liftOutcome h.adjustLB) fun _ hres =>
      .pure hres
  next =>
    exact .bind_forall fun _ => .bind_forall fun _ => .bind (.liftOutcome h.adjustRB) fun _ hres =>
      .pure hres
  next =>
    exact .bind_forall fun _ => .bind_forall fun _ =>
      .bind (.liftOutcome h.adjustBounds) fun _ hres => .pure hres
  next => -- overlaps
    refine .bind_forall fun _ => ?_
    split <;> exact .bind_forall fun _ => .pure h
  next => exact .bind (.liftOutcome h.render) fun _ ht => .pure ht
  next => exact .bind_forall fun _ => .pure h
  next hreload => exact absurd hreload hop
  next => exact .throw

/-- Every reachable region is labelled. -/
theorem Reachable.labelled (h : Reachable s parent r n) : r.Labelled := by
  induction h with
  | new n => exact labelled_new s
  | @step r n step op res n' hr hdo hop hrun ih =>
    -- a step that fails leaves the region as it was
    rcases res with e | ⟨v, t⟩
    · exact ih
    · exact regionStep_labelled parent step ih hdo hop n (v, t) n' hrun
  | loadFit _ _ _ hload => exact loadFit_labelled _ _ _ _ hload
  | shared _ _ ih => exact ih

/-- What the phase of a reachable region says of it: an empty region holds no peak and no
history, a searched one holds no peak, so a region holding a peak is fitted or stale; and, with
a whole number of edge samples, a region without bins is empty. -/
theorem phase_labels (h : Reachable s parent r n) :
    (r.phase = .empty → r.peaks = [] ∧ r.history = #[]) ∧
    (r.phase = .searched → r.peaks = []) ∧
    (r.peaks ≠ [] → r.phase = .fitted ∨ r.phase = .stale) ∧
    (s.WholeEdgeSamples → r.finder.x = #[] → r.phase = .empty) := by
  have hl := h.labelled
  have hpeaks : r.peakMap = [] → r.peaks = [] := fun hnil => by simp [peaks, hnil, byCenter]
  refine ⟨fun he => ?_, fun hs => hpeaks (hl.searched hs), fun hne => ?_, fun hs hx => ?_⟩
  · obtain ⟨hnil, hhist⟩ := hl.empty he
    exact ⟨hpeaks hnil, hhist⟩
  · cases hph : r.phase with
    | empty => exact absurd (hpeaks (hl.empty hph).1) hne
    | searched => exact absurd (hpeaks (hl.searched hph)) hne
    | fitted => exact .inl rfl
    | stale => exact .inr rfl
  · -- a region out of the empty phase is occupied, so it has bins
    by_contra hne
    exact (h.ready hs).occupied (.inl hne) hx

/-- The region of five peaked bins with its summation peak is reached and fitted, and its phase
says what it holds. -/
theorem peakedSum_phase_labels :
    Reachable oneSampleEdges fivePeakedBins peakedSum.1 peakedSum.2 ∧
    peakedSum.1.peaks ≠ [] ∧ peakedSum.1.phase = .fitted ∧
    (peakedSum.1.phase = .empty → peakedSum.1.peaks = [] ∧ peakedSum.1.history = #[]) ∧
    (peakedSum.1.phase = .searched → peakedSum.1.peaks = []) ∧
    (peakedSum.1.peaks ≠ [] → peakedSum.1.phase = .fitted ∨ peakedSum.1.phase = .stale) ∧
    (Settings.WholeEdgeSamples oneSampleEdges → peakedSum.1.finder.x = #[] →
      peakedSum.1.phase = .empty) :=
  ⟨peakedSum_reachable, by decide +kernel, by decide +kernel, phase_labels peakedSum_reachable⟩

/-- Loading no peaks into the empty region labels it searched though it holds no bins. This is
why loading stored peaks is a step only of a region that holds data: a region read from a
document is given its data before its peaks are loaded. -/
theorem loadFit_new_searched (s : Settings) (d : String) :
    ∃ t, (Region.new s).loadFit [] none d = .ok t ∧ t.phase = .searched ∧ t.finder.x = #[] :=
  ⟨_, rfl, rfl, rfl⟩

end Request

end GammaFit
