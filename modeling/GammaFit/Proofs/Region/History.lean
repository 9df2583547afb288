import GammaFit.Proofs.Region.Peaks

/-!
# The history of fits

A region records a fit by appending a snapshot of its state to its history (`saveCurrentFit`),
and rolls back by setting the state to a snapshot and drawing the model again (`rollback`).

Drawing the model only reads the bins, so drawing it twice is drawing it once
(`renderWith_idem`): a finder that holds the model of its peaks is left as it is (`Rendered`).
A fit is recorded only once the peaks are up to date and the model is drawn (`Settled`), and
the snapshot of such a state is sound: its peaks have distinct identities, are listed by
center, are up to date in the snapshot's own frame, and its finder holds their model
(`Snapshot.Sound`). Rolling back to a sound snapshot therefore succeeds and gives back exactly
what was recorded (`rollback_of_sound`); rolling back twice to one index is rolling back once
(`rollback_rollback`).
-/

namespace GammaFit

open Search (Finder)

namespace Search.Finder

variable {f : Finder}

/-- Setting a model twice is setting it once: the second time finds the lengths it checks as
they were, and the fields it sets already set. -/
theorem setFit_setFit (fit background : Array Float) :
    ((f.setFit fit background).2.setFit fit background).2 = (f.setFit fit background).2 := by
  by_cases h : (fit.size != f.y.size || background.size != f.y.size) = true
  · simp only [setFit, h, if_true]
  · simp only [setFit, h, if_false, Bool.false_eq_true]

end Search.Finder

namespace Region

variable {s : Settings} {r r' t : Region} {f g : Finder} {b : Background} {ps : List Peak}
  {rnd : Rendering}

/-! ## Drawing the model -/

theorem renderWith_eq_ok : renderWith s f b ps = .ok (g, rnd) ↔
    ∃ full steps, evalModel s f.x b ps = .ok (full, steps, rnd) ∧ g = (f.setFit full steps).2 := by
  unfold renderWith
  constructor
  · intro h
    obtain ⟨⟨full, steps, rnd'⟩, he, hr⟩ := Outcome.bind_eq_ok.mp h
    obtain ⟨rfl, rfl⟩ := Prod.mk.inj (Outcome.pure_eq_ok.mp hr)
    exact ⟨full, steps, he, rfl⟩
  · rintro ⟨full, steps, he, rfl⟩
    exact Outcome.bind_eq_ok.mpr ⟨(full, steps, rnd), he, rfl⟩

theorem renderWith_bins (h : renderWith s f b ps = .ok (g, rnd)) : g.x = f.x ∧ g.y = f.y := by
  obtain ⟨full, steps, -, rfl⟩ := renderWith_eq_ok.mp h
  exact ⟨Finder.setFit_x _ _, Finder.setFit_y _ _⟩

/-- Drawing the model into the finder it was drawn into changes nothing: the model is computed
from the bins alone, and they are kept. -/
theorem renderWith_idem (h : renderWith s f b ps = .ok (g, rnd)) :
    renderWith s g b ps = .ok (g, rnd) := by
  obtain ⟨full, steps, he, rfl⟩ := renderWith_eq_ok.mp h
  refine renderWith_eq_ok.mpr ⟨full, steps, ?_, (Finder.setFit_setFit full steps).symm⟩
  rw [Finder.setFit_x]
  exact he

/-- The finder `f` holds the model of the peaks `ps` under the background `bg`: drawing it again
succeeds and leaves the finder as it is. -/
def Rendered (s : Settings) (f : Finder) (bg : Option Background) (ps : List Peak) : Prop :=
  ∀ b, bg = some b → f.x.isEmpty = false →
    ∃ rnd, renderWith s f b (ps.filter (·.hypermet.isSome)) = .ok (f, rnd)

/-- What drawing the model does: it sets the finder's model and the rendering and nothing else,
keeps the bins and counts, and leaves a finder that holds the model. -/
theorem render_eq_ok (h : r.render = .ok r') :
    ∃ g rnd, r' = { r with finder := g, rendering := rnd } ∧ g.x = r.finder.x ∧
      g.y = r.finder.y ∧ Rendered r.settings g r.background r.peaks := by
  rcases hb : r.background with _ | b
  · simp only [render, hb] at h
    cases h
    exact ⟨r.finder, {}, rfl, rfl, rfl, fun b hb' => nomatch hb'⟩
  · by_cases hx : r.finder.x.isEmpty = true
    · simp only [render, hb, hx, if_true] at h
      cases h
      refine ⟨r.finder, {}, rfl, rfl, rfl, fun _ _ hx' => ?_⟩
      rw [hx] at hx'
      cases hx'
    · simp only [render, hb, hx, if_false, Bool.false_eq_true] at h
      obtain ⟨⟨g, rnd⟩, hrw, hr⟩ := Outcome.bind_eq_ok.mp h
      cases Outcome.pure_eq_ok.mp hr
      obtain ⟨hgx, hgy⟩ := renderWith_bins hrw
      refine ⟨g, rnd, rfl, hgx, hgy, fun b' hb' _ => ?_⟩
      cases hb'
      exact ⟨rnd, renderWith_idem hrw⟩

/-- Drawing the model of a region whose finder holds it sets only the rendering. -/
theorem render_of_rendered (h : Rendered r.settings r.finder r.background r.peaks) :
    ∃ rnd, r.render = .ok { r with rendering := rnd } := by
  rcases hb : r.background with _ | b
  · exact ⟨{}, by simp only [render, hb]; rfl⟩
  · by_cases hx : r.finder.x.isEmpty = true
    · exact ⟨{}, by simp only [render, hb, hx, if_true]; rfl⟩
    · obtain ⟨rnd, hrw⟩ := h b hb (Bool.eq_false_iff.mpr hx)
      refine ⟨rnd, ?_⟩
      simp only [render, hb, hx, if_false, Bool.false_eq_true]
      exact Outcome.bind_eq_ok.mpr ⟨(r.finder, rnd), hrw, rfl⟩

/-- The rendering a region holds is never read when the model is drawn. -/
theorem render_rendering (x : Rendering) : { r with rendering := x }.render = r.render := rfl

/-- Drawing the model keeps everything that bringing a peak up to date reads. -/
theorem SameFrame.of_render (h : r.render = .ok r') : SameFrame r r' := by
  obtain ⟨g, rnd, rfl, hx, hy, -⟩ := render_eq_ok h
  exact ⟨rfl, hx, hy, rfl, rfl, rfl⟩

/-- What drawing the model computes, from the settings, the background, the finder and the
peaks alone: the finder holding the model, and the rendering. -/
def drawing (s : Settings) (f : Finder) (bg : Option Background) (ps : List Peak) :
    Outcome (Finder × Rendering) :=
  match bg with
  | none => pure (f, {})
  | some b => if f.x.isEmpty then pure (f, {}) else renderWith s f b (ps.filter (·.hypermet.isSome))

/-- Drawing the model of a region sets its finder and rendering to its drawing. -/
theorem render_eq_drawing (r : Region) : r.render =
    (fun d => { r with finder := d.1, rendering := d.2 }) <$>
      drawing r.settings r.finder r.background r.peaks := by
  unfold render drawing
  rcases r.background with _ | b
  · rfl
  · by_cases hx : r.finder.x.isEmpty = true
    · simp only [hx, if_true]
      rfl
    · simp only [hx, if_false, Bool.false_eq_true]
      change _ = _ <$> renderWith r.settings r.finder b r.parametric
      rcases renderWith r.settings r.finder b r.parametric with _ | ⟨g, rnd⟩
      · rfl
      · rfl

theorem render_eq_ok_iff : r.render = .ok r' ↔
    ∃ g rnd, drawing r.settings r.finder r.background r.peaks = .ok (g, rnd) ∧
      r' = { r with finder := g, rendering := rnd } := by
  rw [render_eq_drawing]
  constructor
  · intro h
    rcases hd : drawing r.settings r.finder r.background r.peaks with e | ⟨g, rnd⟩
    · rw [hd] at h
      cases h
    · rw [hd] at h
      exact ⟨g, rnd, rfl, (Except.ok.inj h).symm⟩
  · rintro ⟨g, rnd, hd, rfl⟩
    rw [hd]
    rfl

/-- Drawing into the finder that holds the drawing changes nothing. -/
theorem drawing_idem {bg : Option Background} (h : drawing s f bg ps = .ok (g, rnd)) :
    drawing s g bg ps = .ok (g, rnd) := by
  unfold drawing at h ⊢
  split at h
  · cases h
    rfl
  · split at h
    · cases h
      rename_i hx
      simp only [hx, if_true]
      rfl
    · rename_i hx
      obtain ⟨hgx, -⟩ := renderWith_bins h
      simp only [hgx, hx, if_false, Bool.false_eq_true]
      exact renderWith_idem h

/-- A region just drawn is its own drawing. -/
theorem render_render (h : r.render = .ok r') : r'.render = .ok r' := by
  obtain ⟨g, rnd, hd, rfl⟩ := render_eq_ok_iff.mp h
  exact render_eq_ok_iff.mpr ⟨g, rnd, drawing_idem hd, rfl⟩

end Region

/-! ## Recording a fit -/

namespace Snapshot

/-- A snapshot records the region's state: its edges, both backgrounds, its peaks by center,
and its finder with the data, the model and the last search. -/
structure Records (snap : Snapshot) (r : Region) : Prop where
  lb : snap.lb = r.lb
  rb : snap.rb = r.rb
  background : snap.background = r.background
  sum4Background : snap.sum4Background = r.sum4Background
  peaks : snap.peaks = r.peaks
  finder : snap.finder = r.finder

/-- The region a snapshot describes, with settings `s`, as far as bringing a peak up to date
reads it. -/
def frame (s : Settings) (snap : Snapshot) : Region :=
  { settings := s, finder := snap.finder, lb := snap.lb, rb := snap.rb,
    sum4Background := snap.sum4Background }

/-- A snapshot a region with settings `s` can be rolled back to: ascending bins, peaks with
distinct identities listed by center, each up to date and kept in the snapshot's own frame,
and a finder that holds their model. -/
structure Sound (s : Settings) (snap : Snapshot) : Prop where
  bins : Ascending snap.finder.x
  ids : (snap.peaks.map Peak.id).Nodup
  sorted : byCenter snap.peaks = snap.peaks
  fresh : ∀ p ∈ snap.peaks, Region.PeakFresh (snap.frame s) p
  rendered : Region.Rendered s snap.finder snap.background snap.peaks

end Snapshot

namespace Region

variable {s : Settings} {r t : Region}

/-- The region is in the state its last snapshot records, that snapshot is the current fit,
and the phase says whether there are peaks. -/
structure Recorded (r : Region) : Prop where
  last : ∃ snap, r.history.back? = some snap ∧ snap.Records r
  current : r.currentFit + 1 = r.history.size
  phase : r.phase = if r.peakMap.isEmpty then .searched else .fitted
  drawn : r.render = .ok r

theorem snapshot_records (r : Region) (d : String) : (r.snapshot d).Records r :=
  ⟨rfl, rfl, rfl, rfl, rfl, rfl⟩

@[simp] theorem saveCurrentFit_history (d : String) :
    (r.saveCurrentFit d).history = r.history.push (r.snapshot d) := rfl

@[simp] theorem saveCurrentFit_currentFit (d : String) :
    (r.saveCurrentFit d).currentFit = r.history.size := rfl

@[simp] theorem saveCurrentFit_peakMap (d : String) :
    (r.saveCurrentFit d).peakMap = r.peakMap := rfl

@[simp] theorem saveCurrentFit_phase (d : String) : (r.saveCurrentFit d).phase = r.phase := rfl

@[simp] theorem saveCurrentFit_settings (d : String) :
    (r.saveCurrentFit d).settings = r.settings := rfl

@[simp] theorem saveCurrentFit_finder (d : String) :
    (r.saveCurrentFit d).finder = r.finder := rfl

/-- Drawing the model reads neither the history nor the current fit. -/
theorem render_saveCurrentFit (h : r.render = .ok r) (d : String) :
    (r.saveCurrentFit d).render = .ok (r.saveCurrentFit d) := by
  obtain ⟨g, rnd, hd, hr⟩ := render_eq_ok_iff.mp h
  have hg : r.finder = g := congrArg Region.finder hr
  have hrnd : r.rendering = rnd := congrArg Region.rendering hr
  refine render_eq_ok_iff.mpr ⟨g, rnd, hd, ?_⟩
  rw [← hg, ← hrnd]
  rfl

/-- A drawn fit is recorded as the current state, and made current. -/
theorem recorded_saveCurrentFit (hphase : r.phase = if r.peakMap.isEmpty then .searched else .fitted)
    (hdrawn : r.render = .ok r) (d : String) : Recorded (r.saveCurrentFit d) where
  last := ⟨r.snapshot d, by simp, ⟨rfl, rfl, rfl, rfl, rfl, rfl⟩⟩
  current := by simp
  phase := hphase
  drawn := render_saveCurrentFit hdrawn d

/-- A region as it stands whenever a fit is recorded: its peaks are up to date and kept, under
their identities, its finder holds their model, and the phase says whether there are peaks. -/
structure Settled (s : Settings) (r : Region) : Prop where
  settings : r.settings = s
  bins : Ascending r.finder.x
  ids : PeakIds r.peakMap
  fresh : Fresh r
  rendered : Rendered s r.finder r.background r.peaks
  phase : r.phase = if r.peakMap.isEmpty then .searched else .fitted
  drawn : r.render = .ok r

/-- The snapshot of a settled region is sound. -/
theorem Settled.snapshot_sound (h : Settled s r) (d : String) : (r.snapshot d).Sound s where
  bins := h.bins
  ids := h.ids.byCenter_nodup
  sorted := byCenter_peaks h.fresh
  fresh p hp := by
    obtain ⟨e, he, rfl⟩ := List.mem_map.mp ((byCenter_perm _).mem_iff.mp hp)
    have hframe : SameFrame r ((r.snapshot d).frame s) := ⟨h.settings.symm, rfl, rfl, rfl, rfl, rfl⟩
    exact (h.fresh e he).of_sameFrame hframe
  rendered := h.rendered

/-! ## Rolling back -/

/-- The snapshot at an index of the history is one of its snapshots. -/
theorem history_getD_mem {k : Nat} (hk : k < r.history.size) :
    r.history.getD k default ∈ r.history := by
  rw [Array.getD, dif_pos hk]
  exact Array.getElem_mem hk

@[simp] theorem restore_history (snap : Snapshot) (i : Int) :
    (r.restore snap i).history = r.history := rfl

@[simp] theorem restore_settings (snap : Snapshot) (i : Int) :
    (r.restore snap i).settings = r.settings := rfl

@[simp] theorem restore_currentFit (snap : Snapshot) (i : Int) :
    (r.restore snap i).currentFit = i := rfl

theorem restore_peakMap {snap : Snapshot} (h : (snap.peaks.map Peak.id).Nodup) (i : Int) :
    (r.restore snap i).peakMap = snap.peaks.map fun p => (p.id, p) := by
  simp only [restore, foldl_insertPeak_of_nodup (m := []) h (by simp), List.nil_append]

/-- A restored sound snapshot lists its peaks as recorded. -/
theorem restore_peaks {snap : Snapshot} (h : snap.Sound s) (i : Int) :
    (r.restore snap i).peaks = snap.peaks :=
  byCenter_restore h.ids h.sorted

/-- A restored sound snapshot is up to date in the frame it restores. -/
theorem restore_fresh {snap : Snapshot} (h : snap.Sound s) (hs : r.settings = s) (i : Int) :
    Fresh (r.restore snap i) := by
  intro e he
  rw [restore_peakMap h.ids] at he
  obtain ⟨p, hp, rfl⟩ := List.mem_map.mp he
  have hframe : SameFrame (snap.frame s) (r.restore snap i) := ⟨hs, rfl, rfl, rfl, rfl, rfl⟩
  exact (h.fresh p hp).of_sameFrame hframe

/-- Rolling back to a sound snapshot succeeds and sets the region to what it records: the
finder already holds the model, so drawing it again sets only the rendering. -/
theorem rollback_of_sound {i : Nat} (hi : i < r.history.size) (hs : r.settings = s)
    (hsnap : (r.history.getD i default).Sound s) :
    ∃ rnd, r.rollback i = .ok (true, { r.restore (r.history.getD i default) i with rendering := rnd }) := by
  have hrendered : Rendered (r.restore (r.history.getD i default) i).settings
      (r.restore (r.history.getD i default) i).finder
      (r.restore (r.history.getD i default) i).background
      (r.restore (r.history.getD i default) i).peaks := by
    rw [restore_peaks hsnap, restore_settings, hs]
    exact hsnap.rendered
  obtain ⟨rnd, hr⟩ := render_of_rendered hrendered
  refine ⟨rnd, ?_⟩
  have hin : (0 ≤ (i : Int) ∧ (i : Int) < r.history.size) := ⟨Int.natCast_nonneg i, by omega⟩
  simp only [rollback, hin, Int.toNat_natCast, hr]
  rfl

/-- Rolling back twice to the same index is rolling back once: the second time restores the
same snapshot, and drawing the model does not read the rendering the first left. -/
theorem rollback_rollback {i : Int} {ok : Bool} (h : r.rollback i = .ok (ok, t)) :
    t.rollback i = .ok (ok, t) := by
  unfold rollback at h ⊢
  split at h
  · cases h
    rename_i hout
    simp only [hout]
    rfl
  · rename_i hin
    obtain ⟨t', hrender, hr⟩ := Outcome.bind_eq_ok.mp h
    obtain ⟨rfl, rfl⟩ := Prod.mk.inj (Outcome.pure_eq_ok.mp hr)
    obtain ⟨g, rnd, ht, -, -, -⟩ := render_eq_ok hrender
    -- the first rollback kept the history and left only a rendering the second never reads
    have hhist : t'.history = r.history := by rw [ht]; rfl
    have hrestore : t'.restore (r.history.getD i.toNat default) i =
        { r.restore (r.history.getD i.toNat default) i with rendering := rnd } := by
      rw [ht]; rfl
    rw [hhist, if_neg hin, hrestore]
    exact Outcome.bind_eq_ok.mpr ⟨_, (render_rendering rnd).trans hrender, rfl⟩

end Region

end GammaFit
