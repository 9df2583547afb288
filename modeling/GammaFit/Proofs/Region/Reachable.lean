import GammaFit.Proofs.Region.Editing
import GammaFit.Request.Regions

/-!
# The regions a run of steps reaches

A region request starts from the empty region and runs steps on it, each named by its `do`
field; a step that fails leaves the region as it was, and the identity counter goes on either
way. `Reachable s parent r n` says that the region `r`, with the counter at `n`, is reached so
over the spectrum `parent`, by any steps but `reload`, or by loading stored peaks. A `reload`
builds a new region from a document instead of changing this one; the region it builds is
reached by steps of this relation (`Reachable.reload`, in the module on reloading).

Every step keeps the invariant: it is a step of it (`Step`), or, for new data, starts the
history again (`regionStep_spec`). So every reachable region is sound (`Reachable.sound`),
and what the invariant says holds of every one of them.
-/

namespace GammaFit

open Search (Finder)
open Json

namespace Region

variable {s : Settings} {n : Nat} {r : Region}

/-! ## Loading stored peaks -/

/-- Loading stored peaks and a background replaces the peaks and, when one is given, the
regression background, and accepts the peaks as they are. -/
theorem loadFit_eq (peaks : List Peak) (bg : Option Background) (d : String) :
    r.loadFit peaks bg d =
      { r with background := bg.or r.background, peakMap := peaks.foldl insertPeak [] }.refresh d := by
  cases bg <;> rfl

/-- Loading peaks whose identities the counter handed out is a step of the invariant into the
state it records: the peaks go in under their identities, are brought up to date, and the result
is recorded. -/
theorem loadFit_step (h : Wf s n r) {peaks : List Peak} (hbelow : ∀ p ∈ peaks, p.id < n)
    (bg : Option Background) (d : String) :
    Outcome.Post (r.loadFit peaks bg d) fun t => Step s r n t ∧ Recorded t := by
  rw [loadFit_eq]
  have hwf :
      Wf s n { r with background := bg.or r.background, peakMap := peaks.foldl insertPeak [] } :=
    ⟨h.settings, h.bins, PeakIds.nil.foldl_insertPeak peaks, fun i hi => by
      obtain ⟨p, hp, rfl⟩ := (foldl_insertPeak_keys hi).resolve_left nofun
      exact hbelow p hp⟩
  -- the loaded region keeps the history, so its record is a step from the region it started from
  exact fun t ht => ((refresh_spec hwf d t ht).1.of_history (r := r) rfl).step

theorem Sound.loadFit (h : Sound s n r) {peaks : List Peak} (hbelow : ∀ p ∈ peaks, p.id < n)
    (bg : Option Background) (d : String) : Outcome.Post (r.loadFit peaks bg d) (Sound s n) :=
  fun t ht => (loadFit_step h.toWf hbelow bg d t ht).1.toSound h

end Region

namespace Request

open Region

variable {s : Settings} {n : Nat} {r : Region}

/-- What a step named `op` leaves from `r` when the counter ends at `n`: a step of the
invariant, or, for new data, a sound region with no history. -/
def Moves (s : Settings) (op : String) (r : Region) (n : Nat) (t : Region) : Prop :=
  Step s r n t ∨ op = "set_data" ∧ Sound s n t ∧ t.history = #[]

theorem Moves.sound {op : String} {t : Region} (h : Moves s op r n t) (hr : Sound s n r) :
    Sound s n t := by
  rcases h with h | ⟨-, h, -⟩
  · exact h.toSound hr
  · exact h

/-- A failing computation lifted into a step, whose every result is a step of the invariant. -/
theorem Moves.lift {α : Type} {op : String} {o : Outcome α} {f : α → Outcome Value × Region}
    (h : Outcome.Post o fun a => Step s r n (f a).2) :
    RegionM.Runs (liftOutcome o >>= fun a => pure (f a)) n fun res k => Moves s op r k res.2 :=
  .liftOutcome_bind fun a ha => .pure (.inl (h a ha))

/-- Every step of a region's request but `reload` keeps the invariant. The cases follow the
steps in the order the request lists them; the arguments are read without handing out an
identity. -/
theorem regionStep_spec (parent : Finder) (step : Value) (op : String) (h : Sound s n r)
    (hdo : step.get? "do" = some (.str op)) (hop : op ≠ "reload") :
    RegionM.Runs (regionStep parent r step) n fun res k => Moves s op r k res.2 := by
  unfold regionStep
  simp only [hdo]
  split
  next hset => -- set_data: a failure once the data is taken leaves the region restarted
    refine .liftOutcome_bind fun _ _ => .liftOutcome_bind fun _ _ => ?_
    split
    next t ht =>
      have hrestart := (setData_spec h.toWf).ok_of_eq ht t rfl
      exact .pure (.inr ⟨hset, hrestart.sound, hrestart.history⟩)
    next => exact .pure (.inl (.refl h.toWf))
    next e t ht =>
      rcases (setData_spec h.toWf).error_of_eq ht with rfl | hrestart
      · exact .pure (.inl (.refl h.toWf))
      · exact .pure (.inr ⟨hset, hrestart.sound, hrestart.history⟩)
  next => -- auto_fit
    exact .bind (autoFit_spec h.toWf) fun _ _ _ ⟨hstep, _⟩ => .pure (.inl hstep)
  next => -- iterative_fit
    exact .bind (iterativeFit_spec h.toWf) fun _ _ _ ⟨hstep, _⟩ => .pure (.inl hstep)
  next => -- add_from_resid: the hint is read without handing out an identity
    split
    all_goals
      first
        | rw [bind_map_left]; refine .liftOutcome_bind fun _ _ => ?_
        | rw [pure_bind]
      refine .bind (addFromResid_spec h.toWf) fun o k hk ho => ?_
      rcases o with _ | t
      · exact .pure (.inl (.refl (h.toWf.mono hk)))
      · exact .pure (.inl (ho t rfl).1.step.1)
  next => -- add_peak
    exact .liftOutcome_bind fun _ _ => .liftOutcome_bind fun _ _ =>
      .bind (addPeak_spec h.toWf) fun _ _ _ ⟨hstep, _⟩ => .pure (.inl hstep)
  next => -- add_sum4_peak
    exact .liftOutcome_bind fun _ _ => .liftOutcome_bind fun _ _ =>
      .bind (addSum4Peak_spec h.toWf) fun _ _ _ ⟨hstep, _⟩ => .pure (.inl hstep)
  next => -- summation_peak
    exact .liftOutcome_bind fun _ _ => .liftOutcome_bind fun _ _ =>
      .bind (summationPeak_spec h.bins) fun _ _ hk _ => .pure (.inl (.refl (h.toWf.mono hk)))
  next => -- remove_peaks
    exact .liftOutcome_bind fun _ _ => Moves.lift fun a ha => (removePeaks_spec h.toWf a ha).1
  next => -- replace_peak
    exact .liftOutcome_bind fun _ _ => Moves.lift fun a ha => (replacePeak_spec h.toWf a ha).1
  next => -- rebuild
    refine .liftOutcome_bind fun o ho => ?_
    rcases o with _ | t
    · exact .pure (.inl (.refl h.toWf))
    · exact .pure (.inl (rebuild_spec h.toWf _ _ ho t rfl).1.step.1)
  next => -- rollback
    exact .liftOutcome_bind fun _ _ => Moves.lift (rollback_spec h)
  next => -- cull_peaks
    refine .liftOutcome_bind fun res hres => ?_
    obtain ⟨t, k⟩ := res
    obtain rfl : t = _ := cullPeaks_eq_ok hres
    exact .pure (.inl (.of_history (h.toWf.filter _) rfl fun _ _ hs => hs.filter _))
  next => -- set_edges
    exact .liftOutcome_bind fun lb _ => .liftOutcome_bind fun rb _ =>
      .pure (.inl (.of_history (setEdges_spec h.toWf lb rb).1 (setEdges_spec h.toWf lb rb).2.1
        fun _ _ hs => hs.setEdges lb rb))
  next => -- adjust_LB
    exact .liftOutcome_bind fun _ _ => .liftOutcome_bind fun _ _ =>
      Moves.lift fun a ha => (adjustLB_spec h.toWf a ha).1
  next => -- adjust_RB
    exact .liftOutcome_bind fun _ _ => .liftOutcome_bind fun _ _ =>
      Moves.lift fun a ha => (adjustRB_spec h.toWf a ha).1
  next => -- adjust_bounds
    exact .liftOutcome_bind fun _ _ => .liftOutcome_bind fun _ _ =>
      Moves.lift fun a ha => (adjustBounds_spec h.toWf a ha).1
  next => -- overlaps
    refine .liftOutcome_bind fun _ _ => ?_
    split
    · rw [bind_map_left]
      exact .liftOutcome_bind fun _ _ => .pure (.inl (.refl h.toWf))
    · rw [pure_bind]
      exact .pure (.inl (.refl h.toWf))
  next => -- render
    exact Moves.lift (render_spec h.toWf)
  next => -- to_dict
    exact .liftOutcome_bind fun _ _ => .pure (.inl (.refl h.toWf))
  next hreload => exact absurd hreload hop
  next => exact .throw

/-! ## Reachable regions -/

/-- The region after a step answered with `res`: the region it answers with, or the region as
it was when the step fails. -/
def regionAfter (r : Region) : Except Failure (Outcome Value × Region) → Region
  | .ok (_, t) => t
  | .error _ => r

/-- The regions, with the identity counter, that a run of operations reaches from the empty
region with settings `s` over the spectrum `parent`: the steps of a region's request but
`reload`, a step that fails leaving the region as it was; stored peaks loaded into a region that
holds data, under identities the counter handed out; and the counter moving on while other
regions take identities from it. A `reload` needs no constructor: what it leaves is reached
(`Reachable.reload`). -/
inductive Reachable (s : Settings) (parent : Finder) : Region → Nat → Prop
  | new (n : Nat) : Reachable s parent (Region.new s) n
  | step {r : Region} {n : Nat} {step : Value} {op : String}
      {res : Except Failure (Outcome Value × Region)} {n' : Nat} :
      Reachable s parent r n → step.get? "do" = some (.str op) → op ≠ "reload" →
      ((regionStep parent r step).run.run n).run = (res, n') →
      Reachable s parent (regionAfter r res) n'
  | loadFit {r : Region} {n : Nat} {peaks : List Peak} {bg : Option Background} {d : String}
      {t : Region} :
      Reachable s parent r n → r.finder.x ≠ #[] → (∀ p ∈ peaks, p.id < n) →
      r.loadFit peaks bg d = .ok t → Reachable s parent t n
  | shared {r : Region} {n n' : Nat} : Reachable s parent r n → n ≤ n' → Reachable s parent r n'

/-- The empty region is sound: no peak, no history. -/
theorem sound_new : Sound s n (Region.new s) where
  settings := rfl
  bins := Ascending.empty
  ids := PeakIds.nil
  below _ hi := nomatch hi
  toHistorySound := .empty rfl rfl
  fresh _ _ he := nomatch he

variable {parent : Finder}

section Run

variable {step : Value} {op : String} {res : Except Failure (Outcome Value × Region)} {n' : Nat}

/-- A step from a sound region moves it as the invariant allows, failing or not, and the
counter does not go back. -/
theorem moves_of_run (h : Sound s n r) (hdo : step.get? "do" = some (.str op))
    (hop : op ≠ "reload") (hrun : ((regionStep parent r step).run.run n).run = (res, n')) :
    n ≤ n' ∧ Moves s op r n' (regionAfter r res) := by
  obtain ⟨hle, hok⟩ := regionStep_spec parent step op h hdo hop res n' hrun
  refine ⟨hle, ?_⟩
  rcases res with e | ⟨v, t⟩
  · exact .inl (.refl (h.toWf.mono hle))
  · exact hok _ rfl

/-- A step from a sound region ends in a sound region, failing or not. -/
theorem sound_of_run (h : Sound s n r) (hdo : step.get? "do" = some (.str op))
    (hop : op ≠ "reload") (hrun : ((regionStep parent r step).run.run n).run = (res, n')) :
    Sound s n' (regionAfter r res) := by
  obtain ⟨hle, hmoves⟩ := moves_of_run h hdo hop hrun
  exact hmoves.sound (h.mono hle)

end Run

/-- Every reachable region is sound. -/
theorem Reachable.sound (h : Reachable s parent r n) : Sound s n r := by
  induction h with
  | new n => exact sound_new
  | step _ hdo hop hrun ih => exact sound_of_run ih hdo hop hrun
  | loadFit _ _ hbelow hload ih => exact ih.loadFit hbelow _ _ _ hload
  | shared _ hle ih => exact ih.mono hle

/-- The region and counter after a step from `r` with the counter at `n`, over `parent`. -/
def stepOver (parent : Finder) (r : Region) (n : Nat) (step : Value) : Region × Nat :=
  (regionAfter r ((regionStep parent r step).run.run n).run.1,
    ((regionStep parent r step).run.run n).run.2)

/-- A step run from a reachable region reaches the region it leaves. -/
theorem Reachable.next (h : Reachable s parent r n) {step : Value} {op : String}
    (hdo : step.get? "do" = some (.str op)) (hop : op ≠ "reload") :
    Reachable s parent (stepOver parent r n step).1 (stepOver parent r n step).2 :=
  .step h hdo hop rfl

/-! ## Regions with data, a peak and a history

Five bins with a peak in the middle one, under edge windows of one bin: new data over all of
them, a summation peak over the middle three, and that peak removed again; and new data of three
flat bins. The steps are those of a region's request, so each region is reached, and the kernel
evaluates them. -/

/-- Five bins with a peak in the middle one. -/
def fivePeakedBins : Finder := { x := #[0.0, 1.0, 2.0, 3.0, 4.0], y := #[1.0, 2.0, 9.0, 2.0, 1.0] }

/-- Settings with edge windows of one bin. -/
def oneSampleEdges : Settings := { edgeSamples := .int 1 }

/-- New data over the five bins, with the counter at one. -/
def peakedData : Region × Nat :=
  stepOver fivePeakedBins (Region.new oneSampleEdges) 1
    (.obj [("do", .str "set_data"), ("min", .int 0), ("max", .int 4)])

/-- A summation peak over the middle three bins, under the first identity. -/
def peakedSum : Region × Nat :=
  stepOver fivePeakedBins peakedData.1 peakedData.2
    (.obj [("do", .str "add_sum4_peak"), ("left", .int 1), ("right", .int 3)])

/-- The summation peak removed again: two snapshots, the first with the peak. -/
def peakedCleared : Region × Nat :=
  stepOver fivePeakedBins peakedSum.1 peakedSum.2
    (.obj [("do", .str "remove_peaks"), ("ids", .arr [.int 1])])

/-- The region that new data of three flat bins leaves, under edge windows of one sample. -/
def threeFlatBins : Region :=
  regionAfter (Region.new { edgeSamples := .int 1 })
    ((regionStep { x := #[0.0, 1.0, 2.0], y := #[1.0, 1.0, 1.0] }
      (Region.new { edgeSamples := .int 1 })
      (.obj [("do", .str "set_data"), ("min", .int 0), ("max", .int 2)])).run.run 0).run.1

theorem peakedData_reachable :
    Reachable oneSampleEdges fivePeakedBins peakedData.1 peakedData.2 :=
  .next (.new 1) rfl (by decide)

theorem peakedSum_reachable : Reachable oneSampleEdges fivePeakedBins peakedSum.1 peakedSum.2 :=
  peakedData_reachable.next rfl (by decide)

theorem peakedCleared_reachable :
    Reachable oneSampleEdges fivePeakedBins peakedCleared.1 peakedCleared.2 :=
  peakedSum_reachable.next rfl (by decide)

/-- A Gaussian of height 9 and width 1 on the middle bin, under the first identity. -/
def middleGaussian : Peak := { id := 1, hypermet := some (Hypermet.make 9.0 2.0 1.0 {}) }

/-- The Gaussian loaded into the region of the five bins, once the counter has moved past its
identity, is a region reached, holding a fit. -/
theorem middleGaussian_loaded :
    ∃ t, peakedData.1.loadFit [middleGaussian] none "Loaded" = .ok t ∧
      Reachable oneSampleEdges fivePeakedBins t 2 ∧ t.phase ≠ .stale := by
  -- the kernel sees that the load returns; what it returns needs doubles it does not evaluate
  have hok : (peakedData.1.loadFit [middleGaussian] none "Loaded").toBool = true := by
    decide +kernel
  have hr : Reachable oneSampleEdges fivePeakedBins peakedData.1 2 :=
    .shared peakedData_reachable (by decide +kernel)
  cases hload : peakedData.1.loadFit [middleGaussian] none "Loaded" with
  | error e => rw [hload] at hok; cases hok
  | ok t =>
    refine ⟨t, rfl, .loadFit hr (by decide +kernel) (by decide) hload, ?_⟩
    rw [loadFit_eq] at hload
    rw [refresh_phase hload]
    split <;> decide

/-! ## Peaks stay up to date -/

/-- In every reachable region whose edges did not move under its peaks, every peak is up to
date: its summation integral, energy, energy width and count rates are what the region's data,
edges, summation background and settings give for its results now, so bringing the peaks up to
date changes nothing. -/
theorem reachable_peaks_up_to_date (h : Reachable s parent r n) (hph : r.phase ≠ .stale) :
    (∀ p ∈ r.peaks, r.recomputePeak p = .ok p) ∧ r.recompute = .ok r := by
  have hfresh := h.sound.fresh hph
  refine ⟨fun p hp => ?_, recompute_of_fresh hfresh⟩
  obtain ⟨e, he, rfl⟩ := List.mem_map.mp ((byCenter_perm _).mem_iff.mp hp)
  exact (hfresh e he).current

/-- The region with the summation peak holds a fit, and its peak is up to date. -/
theorem peakedSum_peaks_up_to_date :
    Reachable oneSampleEdges fivePeakedBins peakedSum.1 peakedSum.2 ∧
      peakedSum.1.phase = .fitted ∧ peakedSum.1.peaks.length = 1 ∧
      (∀ p ∈ peakedSum.1.peaks, peakedSum.1.recomputePeak p = .ok p) ∧
      peakedSum.1.recompute = .ok peakedSum.1 := by
  have hph : peakedSum.1.phase = .fitted := by decide +kernel
  exact ⟨peakedSum_reachable, hph, by decide +kernel,
    reachable_peaks_up_to_date peakedSum_reachable (by rw [hph]; decide)⟩

/-! ## The history and rolling back -/

/-- What a step named `op` from `r` to `t` does to the history: it keeps the old history as a
prefix, unless it takes new data, which may empty it; and if it records, it ends in the state
its last snapshot records, that snapshot current, so that rolling back to the current fit
changes nothing but the order of the peak map. -/
structure HistoryStep (op : String) (r t : Region) : Prop where
  grows : op ≠ "set_data" → r.history.toList <+: t.history.toList
  grows_or_empties : r.history.toList <+: t.history.toList ∨ t.history = #[]
  records : r.history.size < t.history.size → Recorded t ∧
    ∃ m, t.rollback t.currentFit = .ok (true, { t with peakMap := m }) ∧
      ({ t with peakMap := m } : Region).peaks = t.peaks

/-- A step of the invariant into a sound region keeps the history as a prefix and, when it
records, ends in the state it recorded. -/
theorem HistoryStep.of_step {op : String} {t : Region} (hstep : Step s r n t) (ht : Sound s n t) :
    HistoryStep op r t where
  grows _ := hstep.grows
  grows_or_empties := .inl hstep.grows
  records hlt := ⟨hstep.recorded hlt, rollback_current ht (hstep.recorded hlt)⟩

/-- What rolling `r` back to the index `k` leaves in `t`: the history as it was, the index
current, the edges, backgrounds, finder and peaks its snapshot records, the phase its peaks call
for; and rolling back to it again changes nothing. -/
structure RolledBack (r : Region) (k : Nat) (t : Region) : Prop where
  history : t.history = r.history
  current : t.currentFit = k
  records : (r.history.getD k default).Records t
  phase : t.phase = if (r.history.getD k default).peaks.isEmpty then .searched else .fitted
  idem : t.rollback k = .ok (true, t)

/-- The history of every reachable region. The current fit is `-1` with an empty history and
an index into it otherwise. Every step keeps the history as a prefix of the new one (new data
may empty it instead), and so does loading stored peaks; an operation that records ends in the
state its last snapshot records. Rolling back to any index of the history succeeds and sets the
region to that snapshot. -/
theorem history_and_rollback (h : Reachable s parent r n) :
    (r.currentFit = -1 ∧ r.history.size = 0 ∨ 0 ≤ r.currentFit ∧ r.currentFit < r.history.size) ∧
    (∀ (step : Value) (op : String) (res : Except Failure (Outcome Value × Region)) (n' : Nat),
      step.get? "do" = some (.str op) → op ≠ "reload" →
      ((regionStep parent r step).run.run n).run = (res, n') →
      HistoryStep op r (regionAfter r res)) ∧
    (∀ (peaks : List Peak) (bg : Option Background) (d : String) (t : Region),
      (∀ p ∈ peaks, p.id < n) → r.loadFit peaks bg d = .ok t → HistoryStep "load_fit" r t) ∧
    (∀ k : Nat, k < r.history.size → ∃ t, r.rollback k = .ok (true, t) ∧ RolledBack r k t) := by
  have hs := h.sound
  refine ⟨hs.current, fun step op res n' hdo hop hrun => ?_,
    fun peaks bg d t hbelow hload => ?_, fun k hk => ?_⟩
  · obtain ⟨-, hmoves⟩ := moves_of_run hs hdo hop hrun
    rcases hmoves with hstep | ⟨hset, -, hnil⟩
    · exact .of_step hstep (sound_of_run hs hdo hop hrun)
    · -- new data may start the history again, and then records nothing
      refine ⟨fun hne => absurd hset hne, .inr hnil, fun hlt => ?_⟩
      rw [hnil] at hlt
      exact absurd hlt (Nat.not_lt_zero _)
  · exact .of_step (loadFit_step hs.toWf hbelow bg d t hload).1 (hs.loadFit hbelow bg d t hload)
  · obtain ⟨t, hr, hh, hc, hrec, hph, hidem⟩ := rollback_restores hs hk
    exact ⟨t, hr, hh, hc, hrec, hph, hidem⟩

/-- The region whose summation peak was removed has two snapshots; rolling back to the first
restores the fit with the peak. -/
theorem peakedCleared_history :
    Reachable oneSampleEdges fivePeakedBins peakedCleared.1 peakedCleared.2 ∧
      peakedCleared.1.history.size = 2 ∧ peakedCleared.1.peaks = [] ∧
      ∃ t, peakedCleared.1.rollback 0 = .ok (true, t) ∧ RolledBack peakedCleared.1 0 t ∧
        t.phase = .fitted := by
  obtain ⟨t, hr, ht⟩ := (history_and_rollback peakedCleared_reachable).2.2.2 0 (by decide +kernel)
  have hph : t.phase = .fitted := by
    rw [ht.phase]
    decide +kernel
  exact ⟨peakedCleared_reachable, by decide +kernel, by decide +kernel, t, hr, ht, hph⟩

end Request

end GammaFit
