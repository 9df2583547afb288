import GammaFit.Proofs.Spectrum
import GammaFit.Proofs.Analysis.Identities

/-!
# Rejected requests change nothing

An operation on a region or an analysis that answers `false` hands back the state it was
given: every check that can refuse the request is made before anything is changed, and work
that may still fail is done on a copy that replaces the state only on success. The peak
identity counter is the one thing a refused request may have moved on.

Each operation's lemma says so for its own answer (`FalseKeeps`). The steps of a region's or an
analysis's request are then shown to keep the state whenever they answer `false`
(`FalseAnswerKeeps`), for every step but a region's automatic fit, which answers `false` after
installing a searched state with no peaks. Loading a spectrum needs one fact more: the trimmed
range of a spectrum is again a spectrum, so its finder is never refused once the state has been
replaced.
-/

namespace GammaFit

open Search (Finder)
open Json (Value)

/-- A `false` answer comes with the state `s` it started from. -/
def FalseKeeps {α : Type} (s : α) (answer : Bool × α) : Prop :=
  answer.1 = false → answer.2 = s

/-- A step's answer `false` comes with the state `s` it started from. -/
def FalseAnswerKeeps {α : Type} (s : α) (answer : Outcome Value × α) : Prop :=
  answer.1 = .ok (.bool false) → answer.2 = s

namespace FalseKeeps

variable {α : Type} {s : α}

theorem same (ok : Bool) : FalseKeeps s (ok, s) := fun _ => rfl

theorem true (t : α) : FalseKeeps s (Bool.true, t) := fun h => by cases h

end FalseKeeps

namespace FalseAnswerKeeps

variable {α : Type} {s : α}

theorem same (v : Outcome Value) : FalseAnswerKeeps s (v, s) := fun _ => rfl

theorem true (t : α) : FalseAnswerKeeps s (.ok (.bool Bool.true), t) := fun h => by cases h

/-- A failure is no answer `false`. -/
theorem failed (e : Failure) (t : α) : FalseAnswerKeeps s (.error e, t) := fun h => by cases h

/-- An operation's Boolean answer, passed on as a step's answer. -/
theorem flagged {answer : Bool × α} (h : FalseKeeps s answer) :
    FalseAnswerKeeps s (.ok (.bool answer.1), answer.2) :=
  fun hv => h (Value.bool.inj (Except.ok.inj hv))

end FalseAnswerKeeps

theorem RegionM.Post.flagged {α : Type} {s : α} {m : RegionM (Bool × α)}
    (h : RegionM.Post m (FalseKeeps s)) :
    RegionM.Post (m >>= fun x => Pure.pure (Except.ok (Value.bool x.1), x.2)) (FalseAnswerKeeps s) :=
  .bind h fun _ hx => .pure (FalseAnswerKeeps.flagged hx)

/-! ## Regions -/

namespace Region

theorem addSum4Peak_keeps (r : Region) (l rt : Float) :
    RegionM.Post (r.addSum4Peak l rt) (FalseKeeps r) := by
  unfold addSum4Peak
  refine .bind_forall ?_
  rintro (_ | p)
  · exact .pure (.same _)
  · exact .bind_forall fun t => .pure (.true t)

/-- Adding a peak refuses before it changes anything, and falls back to a summation peak or a
whole automatic fit only on the widened copy, which is dropped when that fit finds nothing. -/
theorem addPeak_keeps (r : Region) (parent : Finder) (l rt : Float) (i : Bool) :
    RegionM.Post (r.addPeak parent l rt i) (FalseKeeps r) := by
  unfold addPeak
  split
  · exact .pure (.same _)
  split
  · exact .pure (.same _)
  dsimp only
  split
  · -- inside the range: a peak from the residual, else a summation peak
    refine .bind_forall ?_
    rintro (_ | t)
    · exact addSum4Peak_keeps r l rt
    · exact .pure (.true t)
  · -- beyond the range: the widened copy is kept only when it gains a peak
    refine .bind_forall ?_
    rintro (_ | t)
    · exact .pure (.same _)
    · dsimp only
      refine .bind_forall fun _ => .bind_forall fun _ => .bind_forall fun _ => .bind_forall fun _ =>
        .bind_forall ?_
      rintro (_ | u)
      · refine .bind_forall fun ⟨_, u⟩ => .bind_forall ?_
        rintro (_ | _)
        · exact .pure (.same _)
        · exact .pure (.true u)
      · exact .pure (.true u)

theorem removePeaks_keeps (r : Region) (ids : List Nat) :
    Outcome.Post (r.removePeaks ids) (FalseKeeps r) := by
  unfold removePeaks
  split
  · exact .pure (.same _)
  · exact .bind_forall fun t => .pure (.true t)

theorem replacePeak_keeps (r : Region) (p : Peak) :
    Outcome.Post (r.replacePeak p) (FalseKeeps r) := by
  unfold replacePeak
  split
  · exact .pure (.same _)
  refine .bind_forall fun _ => ?_
  split
  · exact .pure (.same _)
  · exact .bind_forall fun t => .pure (.true t)

theorem setEdges_keeps (r : Region) (lb rb : Float × Float) :
    FalseKeeps r (r.setEdges lb rb) := by
  unfold setEdges
  split
  · split
    · exact .same _
    · exact .true _
  · exact .same _

theorem applyEdges_keeps (r : Region) (parent : Finder) (lb rb : Float × Float) (d : String) :
    Outcome.Post (r.applyEdges parent lb rb d) (FalseKeeps r) := by
  unfold applyEdges
  refine .bind_forall ?_
  rintro (_ | t)
  · exact .pure (.same _)
  · dsimp only
    split
    · exact .pure (.same _)
    · exact .bind_forall fun t => .pure (.true t)

theorem adjustLB_keeps (r : Region) (parent : Finder) (l rt : Float) :
    Outcome.Post (r.adjustLB parent l rt) (FalseKeeps r) := by
  unfold adjustLB
  split
  · exact .pure (.same _)
  split
  · split
    · exact .pure (.same _)
    · exact applyEdges_keeps r parent _ _ _
  · exact .pure (.same _)

theorem adjustRB_keeps (r : Region) (parent : Finder) (l rt : Float) :
    Outcome.Post (r.adjustRB parent l rt) (FalseKeeps r) := by
  unfold adjustRB
  split
  · exact .pure (.same _)
  split
  · split
    · exact .pure (.same _)
    · exact applyEdges_keeps r parent _ _ _
  · exact .pure (.same _)

theorem adjustBounds_keeps (r : Region) (parent : Finder) (l rt : Float) :
    Outcome.Post (r.adjustBounds parent l rt) (FalseKeeps r) := by
  unfold adjustBounds
  split
  · exact .pure (.same _)
  refine .bind_forall ?_
  rintro (_ | t)
  · exact .pure (.same _)
  · exact .bind_forall fun _ => .bind_forall fun _ => .bind_forall fun t => .pure (.true t)

theorem rollback_keeps (r : Region) (i : Int) :
    Outcome.Post (r.rollback i) (FalseKeeps r) := by
  unfold rollback
  split
  · exact .pure (.same _)
  · exact .bind_forall fun t => .pure (.true t)

end Region

namespace Request

/-- Every step of a region's request but the automatic fit keeps the region when it answers
`false`. The cases follow the steps in the order the request lists them. -/
theorem regionStep_keeps (parent : Finder) (r : Region) (step : Value) (op : String)
    (hdo : step.get? "do" = some (.str op)) (hop : op ≠ "auto_fit") :
    RegionM.Post (regionStep parent r step) (FalseAnswerKeeps r) := by
  unfold regionStep
  simp only [hdo]
  split
  next => -- set_data
    refine .bind_forall fun _ => .bind_forall fun _ => ?_
    split
    · exact .pure (.true _)
    · exact .pure (.same _)
    · exact .pure (.failed _ _)
  next h => exact absurd h hop
  next => -- iterative_fit: the answer is a count or a failure, never `false`
    refine .bind_forall fun ⟨o, _⟩ => .pure fun h => ?_
    cases o <;> cases h
  next => -- add_from_resid
    split <;>
    · refine .bind_forall fun _ => .bind_forall ?_
      rintro (_ | t)
      · exact .pure (.same _)
      · exact .pure (.true t)
  next => -- add_peak
    exact .bind_forall fun _ => .bind_forall fun _ => .flagged (Region.addPeak_keeps _ _ _ _ _)
  next => -- add_sum4_peak
    exact .bind_forall fun _ => .bind_forall fun _ => .flagged (Region.addSum4Peak_keeps _ _ _)
  next => -- summation_peak
    exact .bind_forall fun _ => .bind_forall fun _ => .bind_forall fun _ => .pure (.same _)
  next => -- remove_peaks
    exact .bind_forall fun _ => .flagged (.liftOutcome (Region.removePeaks_keeps _ _))
  next => -- replace_peak
    exact .bind_forall fun _ => .flagged (.liftOutcome (Region.replacePeak_keeps _ _))
  next => -- rebuild
    refine .bind_forall ?_
    rintro (_ | t)
    · exact .pure (.same _)
    · exact .pure (.true t)
  next => -- rollback
    exact .bind_forall fun _ => .flagged (.liftOutcome (Region.rollback_keeps _ _))
  next => -- cull_peaks
    exact .bind_forall fun _ => .pure fun h => by cases h
  next => -- set_edges
    exact .bind_forall fun _ => .bind_forall fun _ =>
      .pure (FalseAnswerKeeps.flagged (Region.setEdges_keeps _ _ _))
  next => -- adjust_LB
    exact .bind_forall fun _ => .bind_forall fun _ =>
      .flagged (.liftOutcome (Region.adjustLB_keeps _ _ _ _))
  next => -- adjust_RB
    exact .bind_forall fun _ => .bind_forall fun _ =>
      .flagged (.liftOutcome (Region.adjustRB_keeps _ _ _ _))
  next => -- adjust_bounds
    exact .bind_forall fun _ => .bind_forall fun _ =>
      .flagged (.liftOutcome (Region.adjustBounds_keeps _ _ _ _))
  next => -- overlaps
    refine .bind_forall fun _ => ?_
    split <;> exact .bind_forall fun _ => .pure (.same _)
  next => -- render: the answer is the rendering, never `false`
    exact .bind_forall fun _ => .pure fun h => by cases h
  next => -- to_dict
    exact .bind_forall fun _ => .pure (.same _)
  next => -- reload
    split
    · split <;>
      · refine .bind_forall fun _ => .bind_forall ?_
        rintro (_ | t)
        · exact .pure (.same _)
        · exact .pure (.true t)
    · refine .bind_forall fun _ => .bind_forall ?_
      rintro (_ | t)
      · exact .pure (.same _)
      · exact .pure (.true t)
  next => exact .throw

end Request

/-! ## Analyses -/

namespace Analysis

/-- The first and last members of a filter of `0 … n-1` are in order and in range. -/
theorem range_filter_bounds {n : Nat} {p : Nat → Bool} {first last : Nat}
    (hf : ((List.range n).filter p).head? = some first)
    (hl : ((List.range n).filter p).getLast? = some last) : first ≤ last ∧ last < n := by
  have hsorted : ((List.range n).filter p).Pairwise (· < ·) := List.pairwise_lt_range.filter _
  have hmem : last ∈ (List.range n).filter p := List.mem_of_getLast? hl
  obtain ⟨rest, hcons⟩ := List.head?_eq_some_iff.mp hf
  rw [hcons] at hsorted hmem
  refine ⟨?_, List.mem_range.mp (List.mem_filter.mp (hcons ▸ hmem)).1⟩
  rcases List.mem_cons.mp hmem with rfl | hrest
  · exact le_refl _
  · exact le_of_lt (List.rel_of_pairwise_cons hsorted hrest)

/-- Loading a spectrum answers `false` only before the analysis is replaced: the trimmed range
of a spectrum is a spectrum, so its finder is accepted. -/
theorem setData_keeps (a : Analysis) (x y : Array Float) (bits live real name : Value) :
    Outcome.Post (a.setData x y bits live real name) (FalseKeeps a) := by
  unfold setData
  split
  · exact .pure (.same _)
  rename_i hvalid
  dsimp only
  split
  · rename_i first last hfirst hlast
    obtain ⟨hfl, hlast⟩ := range_filter_bounds hfirst hlast
    have hxy : Spectrum.valid x y = true := by simpa using hvalid
    have hslice := Spectrum.valid_extract hxy hfl
      (by rw [Spectrum.size_eq_of_valid hxy]; exact hlast)
    refine .bind (Search.Finder.ofData_valid hslice) fun ⟨ok, f⟩ hok => ?_
    exact .pure fun h => absurd (hok.symm.trans h) (by decide)
  · exact .pure (.same _)

/-- Adding a peak keeps the analysis unless the region it changes, or the region it builds, is
accepted. -/
theorem addPeak_keeps (a : Analysis) (l rt : Float) (i : Bool) :
    RegionM.Post (a.addPeak l rt i) (FalseKeeps a) := by
  unfold addPeak
  split
  · exact .pure (.same _)
  split
  · refine .bind_forall fun ⟨ok, t⟩ => ?_
    dsimp only
    split
    · exact .pure (.same _)
    · exact .pure (.true _)
  · dsimp only
    split
    · exact .pure (.same _)
    refine .bind_forall ?_
    rintro (_ | r)
    · exact .pure (.same _)
    · refine .bind_forall fun _ => .bind_forall fun _ => ?_
      split
      · exact .bind_forall fun _ => .pure (.true _)
      · exact .bind_forall fun _ => .bind_forall fun _ => .pure (.true _)

/-- Removing peaks changes the analysis only once some region gives one up: until then the
loop carries the analysis it started from. -/
theorem removePeaks_keeps (a : Analysis) (ids : List Nat) :
    Outcome.Post (a.removePeaks ids) (FalseKeeps a) := by
  unfold removePeaks
  dsimp only
  refine .bind (.forIn (fun s : Analysis × Bool => s.2 = false → s.1 = a) (fun _ => rfl) ?_)
    fun s hs => .pure hs
  intro r ⟨current, removed⟩ hkeep
  dsimp only
  split
  · refine .bind_forall fun ⟨ok, t⟩ => ?_
    dsimp only
    split
    · exact .pure fun h => by cases h
    · exact .pure hkeep
  · exact .pure hkeep

theorem replacePeak_keeps (a : Analysis) (p : Peak) :
    Outcome.Post (a.replacePeak p) (FalseKeeps a) := by
  unfold replacePeak
  split
  · refine .bind_forall fun ⟨ok, t⟩ => ?_
    dsimp only
    split
    · exact .pure (.same _)
    · exact .pure (.true _)
  · exact .pure (.same _)

theorem adjust_keeps (a : Analysis) (key : Float) (edit : RangeEdit) (l rt : Float) :
    Outcome.Post (a.adjust key edit l rt) (FalseKeeps a) := by
  unfold adjust
  split
  · dsimp only
    cases edit <;>
    · refine .bind_forall fun ⟨ok, t⟩ => ?_
      dsimp only
      split
      · exact .pure (.same _)
      · exact .pure (.true _)
  · exact .pure (.same _)

theorem deleteRegion_keeps (a : Analysis) (key : Float) : FalseKeeps a (a.deleteRegion key) := by
  unfold deleteRegion
  split
  · exact .true _
  · exact .same _

theorem insertRegion_keeps (a : Analysis) (r : Region) : FalseKeeps a (a.insertRegion r) := by
  unfold insertRegion
  split
  · exact .same _
  · exact .true _

theorem applySettings_invalid {a : Analysis} {s : Settings} {e : Failure}
    (h : s.validate = .error e) : a.applySettings s = .error e := by
  unfold applySettings
  rw [h]
  rfl

end Analysis

namespace Request

/-- Every step of an analysis's request keeps the analysis when it answers `false`. -/
theorem analysisStep_keeps (a : Analysis) (step : Value) :
    RegionM.Post (analysisStep a step) (FalseAnswerKeeps a) := by
  unfold analysisStep
  dsimp only
  split
  next => -- set_data
    refine .bind_forall fun _ => .bind_forall fun _ => ?_
    split
    · exact .flagged (.liftOutcome (Analysis.setData_keeps _ _ _ _ _ _ _))
    · exact .pure (.same _)
  next => -- find_regions
    split
    · exact .pure fun h => by cases h
    · exact .pure (.failed _ _)
  next => -- auto_fit_regions
    exact .bind_forall fun _ => .pure fun h => by cases h
  next => -- add_peak
    exact .bind_forall fun _ => .bind_forall fun _ => .flagged (Analysis.addPeak_keeps _ _ _ _)
  next => -- remove_peaks
    exact .bind_forall fun _ => .flagged (.liftOutcome (Analysis.removePeaks_keeps _ _))
  next => -- replace_peak
    exact .bind_forall fun _ => .flagged (.liftOutcome (Analysis.replacePeak_keeps _ _))
  next => -- adjust_LB
    exact .bind_forall fun _ => .bind_forall fun _ => .bind_forall fun _ =>
      .flagged (.liftOutcome (Analysis.adjust_keeps _ _ _ _ _))
  next => -- adjust_RB
    exact .bind_forall fun _ => .bind_forall fun _ => .bind_forall fun _ =>
      .flagged (.liftOutcome (Analysis.adjust_keeps _ _ _ _ _))
  next => -- adjust_bounds
    exact .bind_forall fun _ => .bind_forall fun _ => .bind_forall fun _ =>
      .flagged (.liftOutcome (Analysis.adjust_keeps _ _ _ _ _))
  next => -- delete_roi
    exact .bind_forall fun _ => .pure (FalseAnswerKeeps.flagged (Analysis.deleteRegion_keeps _ _))
  next => -- parent_of
    exact .bind_forall fun _ => .pure (.same _)
  next => -- apply_settings: the answer is the spectrum's search, never `false`
    exact .bind_forall fun _ => .bind_forall fun _ => .pure fun h => by cases h
  next => -- clear
    exact .pure fun h => by cases h
  next => -- table
    exact .pure (.same _)
  next => -- report
    exact .bind_forall fun _ => .pure (.same _)
  next => -- export
    exact .bind_forall fun _ => .pure (.same _)
  next => -- to_dict
    exact .bind_forall fun _ => .pure (.same _)
  next => -- reload
    split
    · split <;> exact .bind_forall fun _ => .bind_forall fun t => .pure (.true t)
    · exact .bind_forall fun _ => .bind_forall fun t => .pure (.true t)
  next => -- save_load
    exact .bind_forall fun _ => .bind_forall fun t => .pure (.true t)
  next => exact .throw

end Request

/-- A rejected request leaves the state as it was. A region's request step that answers
`false` hands back the region it was given, for every step but the automatic fit; an analysis's
request step that answers `false` hands back the analysis; a region that cannot be inserted
leaves the analysis as it was; and settings that fail their check are refused with that
check's failure before the analysis is touched. -/
theorem rejected_requests_keep_state :
    (∀ (parent : Finder) (r : Region) (step : Value) (op : String),
        step.get? "do" = some (.str op) → op ≠ "auto_fit" →
        RegionM.Post (Request.regionStep parent r step) (FalseAnswerKeeps r)) ∧
      (∀ (a : Analysis) (step : Value),
        RegionM.Post (Request.analysisStep a step) (FalseAnswerKeeps a)) ∧
      (∀ (a : Analysis) (r : Region), FalseKeeps a (a.insertRegion r)) ∧
      (∀ (a : Analysis) (s : Settings) (e : Failure),
        s.validate = .error e → a.applySettings s = .error e) :=
  ⟨Request.regionStep_keeps, Request.analysisStep_keeps, Analysis.insertRegion_keeps,
    fun _ _ _ => Analysis.applySettings_invalid⟩

/-- Removing a peak that the region of five peaked bins does not hold is refused and hands the
region back, and settings with no edge samples are refused before the analysis holding two
regions is touched. -/
theorem peakedSum_refusals_keep_state :
    (Value.obj [("do", .str "remove_peaks"), ("ids", .arr [.int 7])]).get? "do" =
        some (.str "remove_peaks") ∧ "remove_peaks" ≠ "auto_fit" ∧
      (((Request.regionStep Request.fivePeakedBins Request.peakedSum.1
          (.obj [("do", .str "remove_peaks"), ("ids", .arr [.int 7])])).run.run
            Request.peakedSum.2).run.1.toOption.bind (·.1.toOption)).map
        (Value.render .answer) = some "false" ∧
      RegionM.Post (Request.regionStep Request.fivePeakedBins Request.peakedSum.1
          (.obj [("do", .str "remove_peaks"), ("ids", .arr [.int 7])]))
        (FalseAnswerKeeps Request.peakedSum.1) ∧
      ({ edgeSamples := .int 0 } : Settings).validate =
        .error (.invalid "background_edge_samples must be at least 1") ∧
      Analysis.withHalves.applySettings { edgeSamples := .int 0 } =
        .error (.invalid "background_edge_samples must be at least 1") := by
  have hdo : (Value.obj [("do", .str "remove_peaks"), ("ids", .arr [.int 7])]).get? "do" =
      some (.str "remove_peaks") := rfl
  have hop : "remove_peaks" ≠ "auto_fit" := by decide
  have hinvalid : ({ edgeSamples := .int 0 } : Settings).validate =
      .error (.invalid "background_edge_samples must be at least 1") := by rfl
  exact ⟨hdo, hop, by decide +kernel, rejected_requests_keep_state.1 _ _ _ _ hdo hop, hinvalid,
    rejected_requests_keep_state.2.2.2 _ _ _ hinvalid⟩

end GammaFit
