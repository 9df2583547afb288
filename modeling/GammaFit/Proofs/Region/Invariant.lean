import GammaFit.Proofs.Region.History

/-!
# What every region keeps

A region run by its operations keeps one invariant, `Sound s n r`, with `s` its settings and `n`
the identity counter:

* the settings are `s` and the bins ascend;
* the peaks stand under their own identities, each once, all below the counter, so an identity
  the counter hands out is new;
* unless the edges moved under the peaks (the phase is `stale`), every peak is up to date;
* the current fit is `-1` with an empty history and an index into it otherwise, and every
  snapshot of the history is sound, with its identities below the counter.

An operation takes a sound region to a sound region whose history extends the old one, in the
state its last snapshot records if it recorded one (`Step`). This module proves that for the
steps the operations are built from: bringing the peaks up to date, drawing the model,
accepting the peaks as they are (`refresh`), and the joint regression (`regress`, `rebuild`).
A regression never leaves a fitted region without peaks: each seed it keeps is a Hypermet peak
between the edges, which bringing it up to date keeps, and no kept seed is displaced by a
summation peak, whose identities differ from the seeds'.
-/

namespace GammaFit

namespace Region

variable {s : Settings} {n k : Nat} {r r' t u : Region}

/-! ## The invariant -/

/-- A region with settings `s` on ascending bins, its peaks under their identities, all below
the counter `n`. -/
structure Wf (s : Settings) (n : Nat) (r : Region) : Prop where
  settings : r.settings = s
  bins : Ascending r.finder.x
  ids : PeakIds r.peakMap
  below : ∀ i ∈ r.peakMap.map Prod.fst, i < n

/-- Every snapshot of the history is sound for the settings `s`, with identities below `n`. -/
def SnapshotsSound (s : Settings) (n : Nat) (h : Array Snapshot) : Prop :=
  ∀ snap ∈ h, snap.Sound s ∧ ∀ p ∈ snap.peaks, p.id < n

/-- The history of a region: the current fit is `-1` with no history and an index into it
otherwise, and every snapshot is sound, its identities below the counter `n`. -/
structure HistorySound (s : Settings) (n : Nat) (r : Region) : Prop where
  current : r.currentFit = -1 ∧ r.history.size = 0 ∨
    0 ≤ r.currentFit ∧ r.currentFit < r.history.size
  snapshots : SnapshotsSound s n r.history

/-- What every region run with settings `s` satisfies while the counter stands at `n`. -/
structure Sound (s : Settings) (n : Nat) (r : Region) : Prop extends Wf s n r, HistorySound s n r where
  fresh : r.phase ≠ .stale → Fresh r

/-- What an operation on `r` leaves when the counter ends at `n`: a region of the frame of the
invariant whose history extends the one of `r`, in the state its last snapshot records if it
recorded one, and sound at every later counter at which `r` is sound. An operation needs only
the frame to do what its specification says; soundness is carried along when it holds. -/
structure Step (s : Settings) (r : Region) (n : Nat) (r' : Region) : Prop where
  wf : Wf s n r'
  grows : r.history.toList <+: r'.history.toList
  recorded : r.history.size < r'.history.size → Recorded r'
  sound : ∀ m, n ≤ m → Sound s m r → Sound s m r'

/-- Where the identities of `t` come from: each is an identity of `r` or one the counter handed
out from `n` on. An operation on `r` that starts with the counter at `n` leaves such a `t`. -/
def IdsFrom (r : Region) (n : Nat) (t : Region) : Prop :=
  ∀ i ∈ t.peakMap.map Prod.fst, i ∈ r.peakMap.map Prod.fst ∨ n ≤ i

theorem IdsFrom.refl (r : Region) (n : Nat) : IdsFrom r n r := fun _ hi => .inl hi

theorem IdsFrom.of_subset (h : t.peakMap.map Prod.fst ⊆ r.peakMap.map Prod.fst) (n : Nat) :
    IdsFrom r n t :=
  fun _ hi => .inl (h hi)

/-- Identities handed out from a later counter were handed out from an earlier one. -/
theorem IdsFrom.trans (h₁ : IdsFrom r n t) (h₂ : IdsFrom t k u) (hle : n ≤ k) : IdsFrom r n u :=
  fun i hi => (h₂ i hi).elim (h₁ i) fun hk => .inr (Nat.le_trans hle hk)

theorem IdsFrom.mono (h : IdsFrom r k t) (hle : n ≤ k) : IdsFrom r n t :=
  (IdsFrom.refl r n).trans h hle

/-- An operation that adds at most the identity the counter hands out first. -/
theorem IdsFrom.of_eq_or
    (h : ∀ i ∈ t.peakMap.map Prod.fst, i ∈ r.peakMap.map Prod.fst ∨ i = n) : IdsFrom r n t :=
  fun i hi => (h i hi).imp id fun he => Nat.le_of_eq he.symm

/-- A region that started without peaks holds only identities handed out since. -/
theorem IdsFrom.of_empty (hm : t.peakMap = []) (h : IdsFrom t n u) : IdsFrom r n u :=
  fun i hi => (h i hi).elim (fun ht => by rw [hm] at ht; cases ht) .inr

/-- Putting in a peak under an identity handed out from `n` on. -/
theorem IdsFrom.insertPeak (h : IdsFrom r n t) {p : Peak} (hp : n ≤ p.id) :
    IdsFrom r n { t with peakMap := GammaFit.insertPeak t.peakMap p } :=
  fun i hi => (mem_insertPeak_keys hi).elim (h i) fun he => .inr (he ▸ hp)

theorem Wf.mono (h : Wf s n r) (hle : n ≤ k) : Wf s k r :=
  { h with below := fun i hi => Nat.lt_of_lt_of_le (h.below i hi) hle }

theorem SnapshotsSound.mono {hist : Array Snapshot} (h : SnapshotsSound s n hist) (hle : n ≤ k) :
    SnapshotsSound s k hist :=
  fun snap hs => ⟨(h snap hs).1, fun p hp => Nat.lt_of_lt_of_le ((h snap hs).2 p hp) hle⟩

theorem HistorySound.mono (h : HistorySound s n r) (hle : n ≤ k) : HistorySound s k r :=
  ⟨h.current, h.snapshots.mono hle⟩

theorem Sound.mono (h : Sound s n r) (hle : n ≤ k) : Sound s k r :=
  { h.toWf.mono hle, h.toHistorySound.mono hle with fresh := h.fresh }

theorem Step.refl (h : Wf s n r) : Step s r n r :=
  ⟨h, ⟨[], List.append_nil _⟩, fun hlt => absurd hlt (Nat.lt_irrefl _), fun _ _ hs => hs⟩

theorem Step.mono (h : Step s r n r') (hle : n ≤ k) : Step s r k r' :=
  ⟨h.wf.mono hle, h.grows, h.recorded, fun m hm hs => h.sound m (Nat.le_trans hle hm) hs⟩

/-- A step from a sound region ends in a sound region. -/
theorem Step.toSound (h : Step s r n r') (hr : Sound s n r) : Sound s n r' :=
  h.sound n (Nat.le_refl n) hr

/-- A step followed by a step into a recorded state is a step into that state. -/
theorem Step.then_recorded {k : Nat} (h₁ : Step s r n t) (h₂ : Step s t k u) (hle : n ≤ k)
    (hu : Recorded u) : Step s r k u :=
  ⟨h₂.wf, h₁.grows.trans h₂.grows, fun _ => hu,
    fun m hm hs => h₂.sound m hm (h₁.sound m (Nat.le_trans hle hm) hs)⟩

/-- A step after a stage that kept the history is a step from where the stage started. -/
theorem Step.after_history {k : Nat} (h₁ : Step s r n t) (hh : t.history = r.history)
    (h₂ : Step s t k u) (hle : n ≤ k) : Step s r k u :=
  ⟨h₂.wf, hh ▸ h₂.grows, hh ▸ h₂.recorded,
    fun m hm hs => h₂.sound m hm (h₁.sound m (Nat.le_trans hle hm) hs)⟩

/-- A step never shortens the history. -/
theorem Step.size_le (h : Step s r n r') : r.history.size ≤ r'.history.size := by
  simpa only [Array.length_toList] using h.grows.length_le

/-- The history part of the invariant reads only the history and the current fit. -/
theorem HistorySound.of_eq (h : HistorySound s n r) (hh : t.history = r.history)
    (hc : t.currentFit = r.currentFit) : HistorySound s n t := by
  refine ⟨?_, ?_⟩
  · rw [hh, hc]
    exact h.current
  · rw [hh]
    exact h.snapshots

/-- An operation that leaves the history as it was, in the frame of the invariant and sound
whenever `r` is, is a step. -/
theorem Step.of_history (h : Wf s n t) (hh : t.history = r.history)
    (hs : ∀ m, n ≤ m → Sound s m r → Sound s m t) : Step s r n t :=
  ⟨h, hh ▸ List.prefix_refl _, fun hlt => absurd (hh ▸ hlt) (Nat.lt_irrefl _), hs⟩

/-- Putting in a peak whose identity lies below the counter keeps the peaks under their
identities. -/
theorem Wf.insertPeak (h : Wf s n r) {p : Peak} (hp : p.id < n) :
    Wf s n { r with peakMap := GammaFit.insertPeak r.peakMap p } where
  settings := h.settings
  bins := h.bins
  ids := h.ids.insertPeak p
  below i hi := (mem_insertPeak_keys hi).elim (h.below i) fun he => he ▸ hp

/-- Every fresh peak stays fresh in a region with the same frame and the same peaks. -/
theorem Fresh.of_sameFrame (h : SameFrame r t) (hm : t.peakMap = r.peakMap) (hf : Fresh r) :
    Fresh t := by
  intro e he
  rw [hm] at he
  exact (hf e he).of_sameFrame h

/-- A listed peak stands in the map under its identity. -/
theorem mem_peakMap_of_mem_peaks (h : PeakIds r.peakMap) {p : Peak} (hp : p ∈ r.peaks) :
    (p.id, p) ∈ r.peakMap := by
  obtain ⟨e, he, rfl⟩ := List.mem_map.mp ((byCenter_perm _).mem_iff.mp hp)
  rw [h.key e he]
  exact he

/-- The identity of a listed peak is one of the map's. -/
theorem id_mem_of_mem_peaks (h : PeakIds r.peakMap) {p : Peak} (hp : p ∈ r.peaks) :
    p.id ∈ r.peakMap.map Prod.fst :=
  List.mem_map.mpr ⟨_, mem_peakMap_of_mem_peaks h hp, rfl⟩

/-! ## Recording a fit -/

/-- Recording a settled region whose identities lie below the counter keeps the invariant and
leaves the region in the state it recorded. -/
theorem Settled.save (h : Settled s t) (hbelow : ∀ i ∈ t.peakMap.map Prod.fst, i < n)
    (hsnaps : SnapshotsSound s n t.history) (d : String) :
    Sound s n (t.saveCurrentFit d) ∧ Recorded (t.saveCurrentFit d) := by
  have hsnap : SnapshotsSound s n (t.saveCurrentFit d).history := by
    intro snap hs
    rw [saveCurrentFit_history, Array.mem_push] at hs
    rcases hs with hs | rfl
    · exact hsnaps snap hs
    · exact ⟨h.snapshot_sound d, fun p hp => hbelow p.id (id_mem_of_mem_peaks h.ids hp)⟩
  refine ⟨{ settings := h.settings, bins := h.bins, ids := h.ids, below := hbelow,
             current := .inr ⟨?_, ?_⟩, snapshots := hsnap, fresh := fun _ => ?_ },
    recorded_saveCurrentFit h.phase h.drawn d⟩
  · simp
  · simp
  · exact Fresh.of_sameFrame (r := t) (t := t.saveCurrentFit d) ⟨rfl, rfl, rfl, rfl, rfl, rfl⟩ rfl
      h.fresh

/-- A settled region with a sound history, its identities below the counter, is sound. -/
theorem Settled.sound (h : Settled s t) (hbelow : ∀ i ∈ t.peakMap.map Prod.fst, i < n)
    (hhist : HistorySound s n t) : Sound s n t :=
  { settings := h.settings, bins := h.bins, ids := h.ids, below := hbelow,
    toHistorySound := hhist, fresh := fun _ => h.fresh }

/-- A settled region with the history and current fit of `r`, its identities below the counter,
is a step from `r`. -/
theorem Settled.step (h : Settled s t) (hbelow : ∀ i ∈ t.peakMap.map Prod.fst, i < n)
    (hh : t.history = r.history) (hc : t.currentFit = r.currentFit) : Step s r n t :=
  .of_history ⟨h.settings, h.bins, h.ids, hbelow⟩ hh fun _ hm hs =>
    h.sound (fun i hi => Nat.lt_of_lt_of_le (hbelow i hi) hm) (hs.toHistorySound.of_eq hh hc)

/-- A recorded result: the region `r'` records, as the last step of an operation on `r`, a
settled state that kept the history of `r` and uses only identities below `n`. -/
def Saves (s : Settings) (n : Nat) (r r' : Region) : Prop :=
  ∃ t d, Settled s t ∧ (∀ i ∈ t.peakMap.map Prod.fst, i < n) ∧ t.history = r.history ∧
    r' = t.saveCurrentFit d

theorem Saves.mono (h : Saves s n r r') (hle : n ≤ k) : Saves s k r r' := by
  obtain ⟨t, d, ht, hbelow, hhist, rfl⟩ := h
  exact ⟨t, d, ht, fun i hi => Nat.lt_of_lt_of_le (hbelow i hi) hle, hhist, rfl⟩

/-- A recorded result has one snapshot more than the history it started from. -/
theorem Saves.size_lt (h : Saves s n r r') : r.history.size < r'.history.size := by
  obtain ⟨t, d, -, -, hhist, rfl⟩ := h
  simp [hhist]

/-- A recorded result reads only the history of the region it started from. -/
theorem Saves.of_history (h : Saves s n t r') (hh : t.history = r.history) : Saves s n r r' := by
  obtain ⟨u, d, hu, hbelow, hhist, rfl⟩ := h
  exact ⟨u, d, hu, hbelow, hhist.trans hh, rfl⟩

/-- A recorded result is a step, and in the state it recorded. -/
theorem Saves.step (h : Saves s n r r') : Step s r n r' ∧ Recorded r' := by
  obtain ⟨t, d, ht, hbelow, hhist, rfl⟩ := h
  have hrec := recorded_saveCurrentFit ht.phase ht.drawn d
  refine ⟨⟨⟨ht.settings, ht.bins, ht.ids, hbelow⟩, ?_, fun _ => hrec, fun m hm hs => ?_⟩, hrec⟩
  · rw [saveCurrentFit_history, hhist, Array.toList_push]
    exact ⟨_, rfl⟩
  · exact (ht.save (fun i hi => Nat.lt_of_lt_of_le (hbelow i hi) hm) (hhist ▸ hs.snapshots) d).1

/-! ## Bringing the peaks up to date and drawing the model -/

/-- Bringing the peaks of a region up to date changes only its peaks: it keeps their identities
in order, and on ascending bins leaves every peak up to date. -/
theorem recompute_spec (hx : Ascending r.finder.x) (hid : PeakIds r.peakMap) :
    Outcome.Post r.recompute fun r' => ∃ m, r' = { r with peakMap := m } ∧ PeakIds m ∧
      (m.map Prod.fst).Sublist (r.peakMap.map Prod.fst) ∧ Fresh r' := by
  intro r' h
  obtain ⟨m, hm, rfl⟩ := recompute_eq_ok.mp h
  exact ⟨m, rfl, hid.upToDate hm, upToDate_keys hm, fresh_of_recompute hx h⟩

/-- Bringing the peaks up to date keeps the frame of the invariant and changes only the
peaks, which end up to date. -/
theorem Wf.recompute (h : Wf s n r) :
    Outcome.Post r.recompute fun r' => Wf s n r' ∧ Fresh r' ∧ ∃ m, r' = { r with peakMap := m } := by
  intro r' hr'
  obtain ⟨m, rfl, hm, hsub, hfresh⟩ := recompute_spec h.bins h.ids r' hr'
  exact ⟨⟨h.settings, h.bins, hm, fun i hi => h.below i (hsub.subset hi)⟩, hfresh, m, rfl⟩

/-- Drawing the model of a region whose peaks are up to date, with the phase its peaks call
for, settles it. -/
theorem settled_of_render {ph : Phase} (hwf : Wf s n t) (hf : Fresh t)
    (hph : ph = if t.peakMap.isEmpty then .searched else .fitted)
    (h : { t with phase := ph }.render = .ok u) :
    Settled s u ∧ u.peakMap = t.peakMap ∧ u.history = t.history ∧ u.currentFit = t.currentFit := by
  have hdrawn := render_render h
  obtain ⟨g, rnd, rfl, hgx, -, hrendered⟩ := render_eq_ok h
  have hframe : SameFrame t { t with phase := ph, finder := g, rendering := rnd } :=
    (⟨rfl, rfl, rfl, rfl, rfl, rfl⟩ : SameFrame t { t with phase := ph }).trans (SameFrame.of_render h)
  refine ⟨⟨hwf.settings, ?_, hwf.ids, hf.of_sameFrame hframe rfl, ?_, hph, hdrawn⟩, rfl, rfl, rfl⟩
  · exact hgx ▸ hwf.bins
  · rw [← hwf.settings]
    exact hrendered

/-- Drawing the model of a region whose peaks are up to date, with the history of `r` and the
phase its peaks call for, is a step from `r` into a settled region, which may be recorded. -/
theorem render_step {ph : Phase} (hwf : Wf s n t) (hf : Fresh t)
    (hh : t.history = r.history) (hc : t.currentFit = r.currentFit)
    (hph : ph = if t.peakMap.isEmpty then .searched else .fitted) :
    Outcome.Post { t with phase := ph }.render fun u =>
      Step s r n u ∧ u.history = r.history ∧ u.peakMap = t.peakMap ∧
        ∀ d, Saves s n r (u.saveCurrentFit d) := by
  intro u hu
  obtain ⟨hu, hpm, huh, huc⟩ := settled_of_render hwf hf hph hu
  have hbelow : ∀ i ∈ u.peakMap.map Prod.fst, i < n := hpm ▸ hwf.below
  exact ⟨hu.step hbelow (huh.trans hh) (huc.trans hc), huh.trans hh, hpm,
    fun d => ⟨u, d, hu, hbelow, huh.trans hh, rfl⟩⟩

/-! ## Accepting the peaks -/

/-- Accepting the peaks as they are brings them up to date, draws the model and records the
result, which keeps some of the peaks and introduces no identity. -/
theorem refresh_spec (hwf : Wf s n r) (d : String) :
    Outcome.Post (r.refresh d) fun r' => Saves s n r r' ∧
      r'.peakMap.map Prod.fst ⊆ r.peakMap.map Prod.fst := by
  unfold refresh
  refine .bind (recompute_spec hwf.bins hwf.ids) fun r₁ ⟨m, hr₁, hm, hsub, hfresh⟩ => ?_
  subst hr₁
  have hwf₁ : Wf s n { r with peakMap := m } :=
    ⟨hwf.settings, hwf.bins, hm, fun i hi => hwf.below i (hsub.subset hi)⟩
  refine .bind (fun u hu => settled_of_render hwf₁ hfresh rfl hu) fun u ⟨hu, hpm, hhist, _⟩ => ?_
  refine .pure ⟨⟨u, d, hu, hpm ▸ hwf₁.below, hhist, rfl⟩, ?_⟩
  rw [saveCurrentFit_peakMap, hpm]
  exact hsub.subset

/-- Accepting the peaks keeps every peak that bringing it up to date keeps. -/
theorem refresh_keeps {d : String} (h : r.refresh d = .ok t) {e : Nat × Peak} (he : e ∈ r.peakMap) :
    ∃ q, r.recomputePeak e.2 = .ok q ∧ (r.dropped q = .ok false → e.1 ∈ t.peakMap.map Prod.fst) := by
  unfold refresh at h
  obtain ⟨r₁, h₁, h⟩ := Outcome.bind_eq_ok.mp h
  obtain ⟨u, hu, h⟩ := Outcome.bind_eq_ok.mp h
  cases Outcome.pure_eq_ok.mp h
  obtain ⟨k, hk, rfl⟩ := recompute_eq_ok.mp h₁
  obtain ⟨g, rnd, rfl, -, -, -⟩ := render_eq_ok hu
  obtain ⟨q, hq, hmem⟩ := mem_upToDate_of_mem hk he
  exact ⟨q, hq, fun hkept => List.mem_map.mpr ⟨(e.1, q), hmem hkept, rfl⟩⟩

/-- Accepting the peaks leaves the region fitted, or searched when it keeps no peak. -/
theorem refresh_phase {d : String} (h : r.refresh d = .ok t) :
    t.phase = if t.peakMap.isEmpty then .searched else .fitted := by
  unfold refresh at h
  obtain ⟨r₁, -, h⟩ := Outcome.bind_eq_ok.mp h
  obtain ⟨u, hu, h⟩ := Outcome.bind_eq_ok.mp h
  cases Outcome.pure_eq_ok.mp h
  obtain ⟨g, rnd, rfl, -, -, -⟩ := render_eq_ok hu
  rfl

/-! ## The joint regression -/

/-- What a regression leaves, from `r`: a settled region with peaks, every identity below `n`,
and the history as it was. -/
def Regressed (s : Settings) (n : Nat) (r t : Region) : Prop :=
  Settled s t ∧ t.peakMap ≠ [] ∧ (∀ i ∈ t.peakMap.map Prod.fst, i < n) ∧ t.history = r.history ∧
    t.currentFit = r.currentFit

theorem SameFrame.keepRegressed (h : SameFrame r t) : t.keepRegressed = r.keepRegressed := by
  funext m e
  simp only [Region.keepRegressed, h.insideEdges]

/-- Each step of gathering the regression results keeps the peaks, or puts in a Hypermet peak
between the edges under its seed's identity. -/
theorem keepRegressed_post (m : List (Nat × Peak)) (e : (Nat × Hypermet) × Option Hypermet) :
    Outcome.Post (r.keepRegressed m e) fun m' => m' = m ∨ ∃ p, (∃ h, e.2 = some h ∧
      p = { id := e.1.1, hypermet := some h } ∧ r.insideEdges h.center.value = .ok true) ∧
        m' = insertPeak m p := by
  unfold keepRegressed
  rcases e with ⟨⟨i, sd⟩, _ | h⟩
  · exact .pure (.inl rfl)
  · refine Outcome.Post.bind_of_ok fun b hb => ?_
    cases b
    · exact .pure (.inl rfl)
    · exact .pure (.inr ⟨_, ⟨h, rfl, rfl, hb⟩, rfl⟩)

/-- The joint regression, when it succeeds, settles the region with peaks, each under a seed's
identity or one of the region's. The seeds' identities must lie below the counter and differ from
the identities of the region's summation peaks: then every seed the regression keeps is a
Hypermet peak between the edges that no summation peak displaces, and bringing the peaks up to
date keeps it. -/
theorem regress_spec {seeds : List (Nat × Hypermet)} {g : Bool} (hwf : Wf s n r)
    (hseeds : ∀ e ∈ seeds, e.1 < n)
    (hdisj : ∀ e ∈ seeds, ∀ q ∈ r.peakMap, q.2.sum4Only = true → e.1 ≠ q.1) :
    Outcome.Post (r.regress seeds g) fun o => ∀ t, o = some t → Regressed s n r t ∧
      ∀ i ∈ t.peakMap.map Prod.fst, i ∈ seeds.map Prod.fst ∨ i ∈ r.peakMap.map Prod.fst := by
  unfold regress
  split
  · rename_i bg _
    split
    · exact .pure fun _ h => nomatch h
    · dsimp only
      split
      · rename_i fitted bg' _
        generalize hord : List.mergeSort seeds _ = ordered
        -- the regressed seeds: Hypermet peaks between the edges under seed identities
        refine .bind (foldlM_insert_spec keepRegressed_post PeakIds.nil) fun R hRspec => ?_
        split
        · exact .pure fun _ h => nomatch h
        · rename_i hRne
          generalize hM : List.foldl _ R (List.filter _ r.peakMap) = M
          have hRseed : ∀ e ∈ R, (∃ sd ∈ seeds, sd.1 = e.1) ∧
              ∃ h, e.2.hypermet = some h ∧ r.insideEdges h.center.value = .ok true := by
            intro e he
            rcases hRspec.2 e he with he | ⟨⟨⟨i, sd⟩, h?⟩, hx, h, -, he2, hin⟩
            · cases he
            · have hi : e.1 = i := by rw [← hRspec.1.key e he, he2]
              have hsd : (i, sd) ∈ seeds := by
                rw [← hord] at hx
                exact (List.mergeSort_perm _ _).mem_iff.mp (List.of_mem_zip hx).1
              exact ⟨⟨(i, sd), hsd, hi.symm⟩, h, by rw [he2], hin⟩
          -- the summation peaks carried over, put in after them
          have hMspec : PeakIds M ∧ ∀ e ∈ M, e ∈ R ∨
              ∃ x ∈ r.peakMap.filter (fun x => x.2.sum4Only), x.2 = e.2 := by
            subst hM
            exact foldl_insert_spec (P := fun (x : Nat × Peak) p => x.2 = p)
              (fun m x => .inr ⟨x.2, rfl, rfl⟩) hRspec.1
          have hMfrom : ∀ i ∈ M.map Prod.fst, i ∈ seeds.map Prod.fst ∨ i ∈ r.peakMap.map Prod.fst := by
            intro i hi
            obtain ⟨e, he, rfl⟩ := List.mem_map.mp hi
            rcases hMspec.2 e he with he | ⟨x, hx, hxe⟩
            · obtain ⟨⟨sd, hsd, hsde⟩, -⟩ := hRseed e he
              exact .inl (List.mem_map.mpr ⟨sd, hsd, hsde⟩)
            · have hx' := (List.mem_filter.mp hx).1
              rw [← hMspec.1.key e he, ← hxe, hwf.ids.key x hx']
              exact .inr (List.mem_map_of_mem hx')
          have hMbelow : ∀ i ∈ M.map Prod.fst, i < n := by
            intro i hi
            rcases hMfrom i hi with hs | hr
            · obtain ⟨sd, hsd, rfl⟩ := List.mem_map.mp hs
              exact hseeds sd hsd
            · exact hwf.below i hr
          -- a regressed seed that no summation peak displaces
          obtain ⟨e₀, he₀⟩ := List.exists_mem_of_ne_nil R (by simpa using hRne)
          obtain ⟨⟨sd, hsd, hsde⟩, h₀, hh₀, hin₀⟩ := hRseed e₀ he₀
          have he₀M : e₀ ∈ M := by
            subst hM
            refine mem_foldl_insert_of_ne (P := fun (x : Nat × Peak) p => x.2 = p)
              (fun m x => .inr ⟨x.2, rfl, rfl⟩) he₀ fun x hx p hxp => ?_
            obtain ⟨hx, hsum⟩ := List.mem_filter.mp hx
            rw [← hxp, hwf.ids.key x hx, ← hsde]
            exact (hdisj sd hsd x hx hsum).symm
          -- the peaks brought up to date under the regression background
          refine .bind (P := fun r₁ =>
              ({ r with background := some bg', peakMap := M } : Region).recompute = .ok r₁)
            (fun _ h => h) fun r₁ h₁ => ?_
          obtain ⟨k, hk, rfl⟩ := recompute_eq_ok.mp h₁
          have hkne : k ≠ [] := upToDate_ne_nil hk he₀M hh₀ hin₀
          have hwf₁ : Wf s n { ({ r with background := some bg', peakMap := M } : Region) with
              peakMap := k } :=
            ⟨hwf.settings, hwf.bins, hMspec.1.upToDate hk,
              fun i hi => hMbelow i ((upToDate_keys hk).subset hi)⟩
          have hph : Phase.fitted = if k.isEmpty then .searched else .fitted := by
            rw [if_neg (by simpa using hkne)]
          have hfresh : Fresh { ({ r with background := some bg', peakMap := M } : Region) with
              peakMap := k } :=
            fresh_of_recompute (r := { r with background := some bg', peakMap := M }) hwf.bins h₁
          refine .bind (fun u hu => settled_of_render hwf₁ hfresh hph hu)
            fun u ⟨hu, hpm, hhist, hcur⟩ => .pure fun t ht => ?_
          cases ht
          refine ⟨⟨hu, hpm ▸ hkne, hpm ▸ hwf₁.below, hhist, hcur⟩, fun i hi => ?_⟩
          rw [hpm] at hi
          exact hMfrom i ((upToDate_keys hk).subset hi)
      · exact .pure fun _ h => nomatch h
  · exact .pure fun _ h => nomatch h

/-! ## Regressing again -/

@[simp] theorem initBackground_peakMap : r.initBackground.peakMap = r.peakMap := by
  unfold initBackground; split <;> rfl

@[simp] theorem initBackground_finder : r.initBackground.finder = r.finder := by
  unfold initBackground; split <;> rfl

@[simp] theorem initBackground_settings : r.initBackground.settings = r.settings := by
  unfold initBackground; split <;> rfl

@[simp] theorem initBackground_history : r.initBackground.history = r.history := by
  unfold initBackground; split <;> rfl

@[simp] theorem initBackground_currentFit : r.initBackground.currentFit = r.currentFit := by
  unfold initBackground; split <;> rfl

theorem Wf.initBackground (h : Wf s n r) : Wf s n r.initBackground := by
  refine ⟨?_, ?_, ?_, ?_⟩ <;> simp only [initBackground_settings, initBackground_finder,
    initBackground_peakMap]
  exacts [h.settings, h.bins, h.ids, h.below]

/-- The seeds of the region's Hypermet peaks: their identities are the region's, and none is the
identity of a summation peak. -/
theorem parametric_seeds (hwf : Wf s n r) :
    (∀ e ∈ r.parametric.filterMap (fun p => p.hypermet.map (p.id, ·)),
      e.1 ∈ r.peakMap.map Prod.fst) ∧
    ∀ e ∈ r.parametric.filterMap (fun p => p.hypermet.map (p.id, ·)),
      ∀ q ∈ r.peakMap, q.2.sum4Only = true → e.1 ≠ q.1 := by
  have hseed : ∀ e ∈ r.parametric.filterMap (fun p => p.hypermet.map (p.id, ·)),
      ∃ p ∈ r.peaks, e.1 = p.id ∧ p.hypermet.isSome = true := by
    intro e he
    obtain ⟨p, hp, hpe⟩ := List.mem_filterMap.mp he
    obtain ⟨h, hh, rfl⟩ := Option.map_eq_some_iff.mp hpe
    exact ⟨p, (List.mem_filter.mp hp).1, rfl, by rw [hh]; rfl⟩
  refine ⟨fun e he => ?_, fun e he q hq hsum hkey => ?_⟩
  · obtain ⟨p, hp, hid, -⟩ := hseed e he
    rw [hid]
    exact id_mem_of_mem_peaks hwf.ids hp
  · -- a Hypermet peak and a summation peak under one identity would be one entry
    obtain ⟨p, hp, hid, hsome⟩ := hseed e he
    obtain ⟨e', he', rfl⟩ := List.mem_map.mp ((byCenter_perm _).mem_iff.mp hp)
    have hsame : e' = q := hwf.ids.eq_of_key he' hq (by rw [← hwf.ids.key e' he', ← hid, hkey])
    subst hsame
    rw [Peak.sum4Only, Option.isNone_iff_eq_none] at hsum
    rw [hsum] at hsome
    cases hsome

/-- Regressing the Hypermet peaks again with a fresh background records a settled region, which
introduces no identity. -/
theorem rebuild_spec (hwf : Wf s n r) (d : String) :
    Outcome.Post (r.rebuild d) fun o => ∀ t, o = some t → Saves s n r t ∧
      t.peakMap.map Prod.fst ⊆ r.peakMap.map Prod.fst := by
  unfold rebuild
  dsimp only
  split
  · exact .pure fun _ h => nomatch h
  · obtain ⟨hmem, hdisj⟩ := parametric_seeds hwf
    refine .bind (regress_spec hwf.initBackground (fun e he => hwf.below _ (hmem e he))
      (by simpa using hdisj)) fun o ho => ?_
    rcases o with _ | u
    · exact .pure fun _ h => nomatch h
    · obtain ⟨⟨hu, -, hubelow, huhist, -⟩, hfrom⟩ := ho u rfl
      refine .pure fun t ht => ?_
      cases ht
      refine ⟨⟨u, d, hu, hubelow, huhist.trans initBackground_history, rfl⟩, fun i hi => ?_⟩
      rw [saveCurrentFit_peakMap] at hi
      rcases hfrom i hi with hs | hr
      · obtain ⟨e, he, rfl⟩ := List.mem_map.mp hs
        exact hmem e he
      · rwa [initBackground_peakMap] at hr

/-- A refit after a change records a settled region, regressed or accepted as it is, which
introduces no identity. -/
theorem refitOrRefresh_spec (hwf : Wf s n r) (d : String) :
    Outcome.Post (r.refitOrRefresh d) fun t => Saves s n r t ∧
      t.peakMap.map Prod.fst ⊆ r.peakMap.map Prod.fst := by
  unfold refitOrRefresh
  refine .bind (rebuild_spec hwf d) fun o ho => ?_
  rcases o with _ | t
  · exact refresh_spec hwf d
  · exact .pure (ho t rfl)

end Region

end GammaFit
