import GammaFit.Proofs.Region.AutoFit
import GammaFit.Proofs.Lockstep

/-!
# An automatic fit forgets the fit before it

An automatic fit starts again from the data: it drops the peaks, takes the backgrounds from the
edge windows, sets the residual to the counts and searches it. Everything it reads afterwards
it has set itself, so two regions over the same data, edges and settings end alike, whatever
peaks, backgrounds, models, search results and history they held before.

The two runs are compared stage by stage with the rules of `Lockstep`. The regions of the two
runs agree in what a view of them keeps, and their histories extend the two starting histories
by the same records. Four views say how much the runs have forgotten at each stage:

* `present`: all but the history and the current fit;
* `settled`: the present without the widths the last search expected at each bin, which a search
  that stops before looking keeps from before;
* `draft`: the present without what drawing sets (the phase, the drawing, the model and its
  background part);
* `rough`: the draft without the expected widths.

A search takes the rough draft of a cleared region to a rough draft, with the same expected
widths once it found a candidate; drawing takes a rough draft to a settled region, and a draft
to a present one. The regions compared can always draw their model: they have a background
and bins, one count per bin (`Drawable`).
-/

namespace GammaFit

open Search (Finder)

/-! ## The model has a value per bin -/

@[simp] theorem Hypermet.size_stepTail (h : Hypermet) (xs : Array Float) :
    (h.stepTail xs).size = xs.size := by
  unfold Hypermet.stepTail
  dsimp only
  split_ifs <;> simp [skewProfilePos]

@[simp] theorem Hypermet.size_peak (h : Hypermet) (xs : Array Float) :
    (h.peak xs).size = xs.size := by
  unfold Hypermet.peak
  dsimp only
  split_ifs <;> simp [skewProfilePos]

namespace Search.Finder

variable {s : Settings} {f g : Finder}

/-- The finder without its model and the widths its last search expected. -/
def bare (f : Finder) : Finder := { f with yFit := #[], yBackground := #[], fwTheoretical := #[] }

theorem setFit_fwTheoretical (fit bg : Array Float) :
    (f.setFit fit bg).2.fwTheoretical = f.fwTheoretical := by
  unfold setFit
  split <;> rfl

/-- Setting a model of one value per count. -/
theorem setFit_of_size {fit bg : Array Float} (h₁ : fit.size = f.y.size) (h₂ : bg.size = f.y.size) :
    (f.setFit fit bg).2 =
      { f with yFit := fit, yBackground := bg, yResid := f.y.zipWith (· - ·) fit } := by
  simp [setFit, h₁, h₂]

/-- A search reads only the bins, the counts and the residual of the cleared finder: finders
alike in these find the same candidates, and expect the same widths at them unless the search
stopped before looking. -/
theorem search_rel {w : Int} {σ : Float} (h : f.clearSearch.bare = g.clearSearch.bare) :
    Outcome.Rel (fun a b => a.1 = b.1 ∧ a.2.bare = b.2.bare ∧
        (a.2.filtered ≠ #[] → a.2.fwTheoretical = b.2.fwTheoretical))
      (search s f w σ) (search s g w σ) := by
  unfold search
  -- the search starts from the cleared finder, with no candidates
  have hcleared : f.clearSearch.filtered = #[] := rfl
  generalize f.clearSearch = F at h hcleared ⊢
  generalize g.clearSearch = G at h ⊢
  have hx : F.x = G.x := congrArg (·.x) h
  have hy : F.y = G.y := congrArg (·.y) h
  have hres : F.yResid = G.yResid := congrArg (·.yResid) h
  unfold significance
  dsimp only
  rw [hx, hy, hres]
  split
  · exact ⟨rfl, h, fun hne => absurd hcleared hne⟩
  · -- the response, the candidates and the widths are computed from the same arrays
    refine Outcome.Rel.bind (Outcome.Rel.refl (fun _ => rfl) _) fun a b hab => ?_
    subst hab
    refine Outcome.Rel.bind (Outcome.Rel.refl (fun _ => rfl) _) fun c d hcd => ?_
    subst hcd
    refine Outcome.Rel.bind (Outcome.Rel.refl (fun _ => rfl) _) fun e e' he => ?_
    subst he
    exact ⟨rfl, rfl, fun _ => rfl⟩

/-- Searches asked for with one half width relate as the searches themselves do: both read the
same width first. -/
theorem findPeaks_rel {R : Nat × Finder → Nat × Finder → Prop} {width : Json.Value} {σ : Float}
    (h : ∀ w, Outcome.Rel R (search s f w σ) (search s g w σ)) :
    Outcome.Rel R (findPeaks s f width σ) (findPeaks s g width σ) := by
  refine Outcome.Rel.bind (Outcome.Rel.refl (fun _ => rfl) _) fun w w' hw => ?_
  subst hw
  exact h w

end Search.Finder

namespace Region

variable {s : Settings} {b : Background} {ps : List Peak}

/-- The model drawn on the bins and its background part have one value per bin. -/
theorem evalModel_size (x : Array Float) :
    Outcome.Post (evalModel s x b ps) fun e => e.1.size = x.size ∧ e.2.1.size = x.size := by
  unfold evalModel
  dsimp only
  -- whichever grid of energies the calibration gives, the loop adds arrays over the bins
  split
  all_goals (try split)
  all_goals
    refine .bind_forall fun hrE => .bind (.forIn (fun st => st.2.2.1.size = x.size ∧
      st.2.2.2.size = x.size) ⟨by simp [Background.evalAll], by simp [Background.evalAll]⟩
        fun p st hst => ?_) fun st hst => .pure ⟨hst.2, hst.1⟩
    split
    · exact .pure ⟨by simp [hst.1], by simp [hst.2]⟩
    · exact .pure hst

variable {r t : Region}

/-- Drawing the model of a region with a background and bins evaluates the model over them. -/
theorem render_of_background (hb : r.background = some b) (hx : r.finder.x.isEmpty = false) :
    r.render = (fun e : Array Float × Array Float × Rendering =>
      { r with finder := (r.finder.setFit e.1 e.2.1).2, rendering := e.2.2 }) <$>
        evalModel r.settings r.finder.x b r.parametric := by
  simp only [render, hb, hx, renderWith, Bool.false_eq_true, if_false]
  cases evalModel r.settings r.finder.x b r.parametric <;> rfl

/-- A search sets the finder to what the finder's search returns. -/
theorem search_eq_map (σ : Float) :
    r.search σ = (fun res : Nat × Finder => { r with finder := res.2 }) <$>
      Finder.findPeaks r.settings r.finder r.settings.konWidth σ := by
  unfold Region.search
  cases Finder.findPeaks r.settings r.finder r.settings.konWidth σ <;> rfl

/-! ## Views of a region -/

/-- The region without its past: no history and no current fit. -/
def present (r : Region) : Region := { r with history := #[], currentFit := -1 }

/-- The present without the widths the last search expected at each bin. -/
def settled (r : Region) : Region :=
  { r.present with finder := { r.finder with fwTheoretical := #[] } }

/-- The present without what drawing the model sets: the phase, the drawing, and the model and
background model of the finder. -/
def draft (r : Region) : Region :=
  { r.present with
    phase := .empty
    rendering := {}
    finder := { r.finder with yFit := #[], yBackground := #[] } }

/-- The draft without the widths the last search expected. -/
def rough (r : Region) : Region := r.draft.settled

/-- A region that can draw its model: it has a background and bins, one count per bin. -/
structure Drawable (r : Region) : Prop where
  background : r.background.isSome
  bins : r.finder.x.isEmpty = false
  counts : r.finder.x.size = r.finder.y.size

/-- Two regions agreeing in what the view `v` keeps, with histories that extend `p` and `q` by
the same records, the first of which can draw its model. -/
structure Agree (v : Region → Region) (p q : Array Snapshot) (r t : Region) : Prop where
  view : v r = v t
  past : ∃ δ, r.history = p ++ δ ∧ t.history = q ++ δ
  drawable : r.Drawable

variable {p q : Array Snapshot}

theorem Agree.toRough (h : Agree draft p q r t) : Agree rough p q r t :=
  ⟨congrArg settled h.view, h.past, h.drawable⟩

theorem Agree.toSettled (h : Agree present p q r t) : Agree settled p q r t :=
  ⟨congrArg (fun d : Region => { d with finder := { d.finder with fwTheoretical := #[] } }) h.view,
    h.past, h.drawable⟩

/-- The draft forgets what drawing set. -/
theorem Agree.dropDrawing (h : Agree present p q r t) : Agree draft p q r t := by
  refine ⟨?_, h.past, h.drawable⟩
  show r.present.draft = t.present.draft
  rw [h.view]

/-- The present is the settled state with the widths the last search expected. -/
theorem Agree.toPresent (h : Agree settled p q r t)
    (hfw : r.finder.fwTheoretical = t.finder.fwTheoretical) : Agree present p q r t := by
  refine ⟨?_, h.past, h.drawable⟩
  show { r.settled with
      finder := { r.settled.finder with fwTheoretical := r.finder.fwTheoretical } } =
    { t.settled with finder := { t.settled.finder with fwTheoretical := t.finder.fwTheoretical } }
  rw [h.view, hfw]

/-- The draft is the rough draft with the widths the last search expected. -/
theorem Agree.toDraft (h : Agree rough p q r t)
    (hfw : r.finder.fwTheoretical = t.finder.fwTheoretical) : Agree draft p q r t := by
  refine ⟨?_, h.past, h.drawable⟩
  show { r.rough with finder := { r.rough.finder with fwTheoretical := r.finder.fwTheoretical } }
    = { t.rough with finder := { t.rough.finder with fwTheoretical := t.finder.fwTheoretical } }
  rw [h.view, hfw]

/-- Regions with the same rough draft share the frame that bringing peaks up to date reads. -/
theorem Agree.sameFrame (h : Agree rough p q r t) : SameFrame r t :=
  ⟨(congrArg (·.settings) h.view).symm, (congrArg (·.finder.x) h.view).symm,
    (congrArg (·.finder.y) h.view).symm, (congrArg (·.lb) h.view).symm,
    (congrArg (·.rb) h.view).symm, (congrArg (·.sum4Background) h.view).symm⟩

/-! ## Drawing, bringing up to date, regressing -/

/-- Drawing the model sets the model of the finder from what the rough draft keeps, and keeps
the widths the last search expected: regions with the same rough draft, drawn with the same
phase, end settled alike. -/
theorem Agree.render (h : Agree rough p q r t) (ph : Phase) :
    Outcome.Rel (fun u v => Agree settled p q u v ∧
        u.finder.fwTheoretical = r.finder.fwTheoretical ∧
        v.finder.fwTheoretical = t.finder.fwTheoretical)
      ({ r with phase := ph }.render) ({ t with phase := ph }.render) := by
  obtain ⟨b, hb⟩ := Option.isSome_iff_exists.mp h.drawable.background
  have hbt : t.background = some b := (congrArg (·.background) h.view).symm.trans hb
  have hxt : t.finder.x = r.finder.x := (congrArg (·.finder.x) h.view).symm
  have hyt : t.finder.y = r.finder.y := (congrArg (·.finder.y) h.view).symm
  -- the model is evaluated from what the rough draft keeps: settings, bins and peaks
  have hmodel : evalModel t.settings t.finder.x b ({ t with phase := ph } : Region).parametric =
      evalModel r.settings r.finder.x b ({ r with phase := ph } : Region).parametric := by
    rw [show t.settings = r.settings from (congrArg (·.settings) h.view).symm, hxt]
    exact congrArg _ (congrArg (·.parametric) h.view).symm
  rw [render_of_background (r := { r with phase := ph }) hb h.drawable.bins,
    render_of_background (r := { t with phase := ph }) hbt (hxt ▸ h.drawable.bins)]
  dsimp only
  rw [hmodel]
  cases he : evalModel r.settings r.finder.x b ({ r with phase := ph } : Region).parametric with
  | error e => exact rfl
  | ok e =>
    obtain ⟨hfull, hsteps⟩ := evalModel_size r.finder.x e he
    have hsz := h.drawable.counts
    have hsz' : r.finder.y.size = t.finder.y.size := congrArg Array.size hyt.symm
    refine ⟨⟨?_, h.past, ⟨h.drawable.background, by simpa using h.drawable.bins,
      by simpa using hsz⟩⟩, Finder.setFit_fwTheoretical _ _, Finder.setFit_fwTheoretical _ _⟩
    show settled { r with phase := ph, finder := (r.finder.setFit e.1 e.2.1).2, rendering := e.2.2 }
      = settled { t with phase := ph, finder := (t.finder.setFit e.1 e.2.1).2, rendering := e.2.2 }
    rw [Finder.setFit_of_size (hfull.trans hsz) (hsteps.trans hsz),
      Finder.setFit_of_size (hfull.trans (hsz.trans hsz')) (hsteps.trans (hsz.trans hsz'))]
    exact congrArg (fun d : Region =>
      { d with
        phase := ph
        rendering := e.2.2
        finder := { d.finder with
          yFit := e.1
          yBackground := e.2.1
          yResid := d.finder.y.zipWith (· - ·) e.1 } }) h.view

/-- Drawing regions with the same draft leaves them alike but for their pasts. -/
theorem Agree.render_present (h : Agree draft p q r t) (ph : Phase) :
    Outcome.Rel (Agree present p q) ({ r with phase := ph }.render)
      ({ t with phase := ph }.render) :=
  (h.toRough.render ph).mono fun _ _ huv =>
    huv.1.toPresent (huv.2.1.trans ((congrArg (·.finder.fwTheoretical) h.view).trans huv.2.2.symm))

/-- Regions with the same draft given the same background and peaks keep the same draft. -/
theorem Agree.withFit (h : Agree draft p q r t) (bg : Background) (m : List (Nat × Peak)) :
    Agree draft p q { r with background := some bg, peakMap := m }
      { t with background := some bg, peakMap := m } :=
  ⟨congrArg (fun d : Region => { d with background := some bg, peakMap := m }) h.view, h.past,
    ⟨rfl, h.drawable.bins, h.drawable.counts⟩⟩

/-- Bringing the peaks up to date reads only what the rough draft keeps, and sets only the
peaks. -/
theorem Agree.recompute {v : Region → Region} (hv : ∀ r k, v { r with peakMap := k } =
      { v r with peakMap := k }) (h : Agree v p q r t) (hr : Agree rough p q r t) :
    Outcome.Rel (Agree v p q) r.recompute t.recompute := by
  have hup : t.upToDate t.peakMap = r.upToDate r.peakMap := by
    rw [hr.sameFrame.upToDate, show t.peakMap = r.peakMap from (congrArg (·.peakMap) hr.view).symm]
  unfold Region.recompute
  rw [hup]
  cases r.upToDate r.peakMap with
  | error e => exact rfl
  | ok k =>
    refine ⟨?_, h.past, ⟨h.drawable.background, h.drawable.bins, h.drawable.counts⟩⟩
    show v { r with peakMap := k } = v { t with peakMap := k }
    rw [hv r k, hv t k, h.view]

/-- A joint regression reads only what the draft keeps, and ends with regions alike but for
their pasts. -/
theorem Agree.regress (h : Agree draft p q r t) (seeds : List (Nat × Hypermet)) (g : Bool) :
    Outcome.Rel (Option.Rel (Agree present p q)) (r.regress seeds g) (t.regress seeds g) := by
  have hframe := h.toRough.sameFrame
  have hbg : r.background = t.background := congrArg (·.background) h.view
  have hpm : r.peakMap = t.peakMap := congrArg (·.peakMap) h.view
  have hreg : ∀ hs bg, Multiplet.regress r.finder.x r.finder.y hs bg r.settings g =
      Multiplet.regress t.finder.x t.finder.y hs bg t.settings g := by
    intro hs bg
    rw [hframe.x, hframe.y, hframe.settings]
  unfold Region.regress
  simp only [hbg, hframe.keepRegressed, hpm, hreg]
  split
  · split
    · exact Outcome.Rel.pure .none
    · split
      · -- both gather the same results
        rename_i bgFit _
        refine Outcome.Rel.bind (Outcome.Rel.refl (R := Eq) (fun _ => rfl) _) fun R₁ R₂ hR => ?_
        subst hR
        split
        · exact Outcome.Rel.pure .none
        · -- the regressed peaks are brought up to date and drawn alike
          refine Outcome.Rel.bind ((h.withFit bgFit _).recompute (fun _ _ => rfl)
            (h.withFit bgFit _).toRough) fun u v huv => ?_
          exact Outcome.Rel.bind (huv.render_present .fitted) fun _ _ hwz =>
            Outcome.Rel.pure (.some hwz)
      · exact Outcome.Rel.pure .none
  · exact Outcome.Rel.pure .none

/-! ## Searching -/

/-- A search from cleared regions with the same rough draft ends with the same rough draft,
and with the same expected widths once it found a candidate. -/
theorem Agree.search
    (h : Agree rough p q { r with finder := r.finder.clearSearch }
      { t with finder := t.finder.clearSearch })
    (σ : Float) :
    Outcome.Rel (fun u v => Agree rough p q u v ∧
        (u.finder.filtered ≠ #[] → u.finder.fwTheoretical = v.finder.fwTheoretical))
      (r.search σ) (t.search σ) := by
  have hbare : r.finder.clearSearch.bare = t.finder.clearSearch.bare := congrArg (·.finder) h.view
  have hrel : Outcome.Rel (fun a b => (a.1 = b.1 ∧ a.2.bare = b.2.bare ∧
        (a.2.filtered ≠ #[] → a.2.fwTheoretical = b.2.fwTheoretical)) ∧
          a.2.x = r.finder.x ∧ a.2.y = r.finder.y)
      (Finder.findPeaks r.settings r.finder r.settings.konWidth σ)
      (Finder.findPeaks t.settings t.finder t.settings.konWidth σ) := by
    rw [show t.settings = r.settings from (congrArg (·.settings) h.view).symm]
    exact (Finder.findPeaks_rel fun _ => Finder.search_rel hbare).and_post Finder.findPeaks_bins
  rw [search_eq_map, search_eq_map]
  refine hrel.map fun a b hab => ⟨⟨?_, h.past, ⟨h.drawable.background, ?_, ?_⟩⟩, hab.1.2.2⟩
  · exact congrArg₂ (fun (d : Region) (e : Finder) => { d with finder := e }) h.view hab.1.2.1
  · rw [hab.2.1]
    exact h.drawable.bins
  · rw [hab.2.1, hab.2.2]
    exact h.drawable.counts

/-- A search of regions alike but for their pasts leaves them so. -/
theorem Agree.search_present (h : Agree present p q r t) (σ : Float) :
    Outcome.Rel (Agree present p q) (r.search σ) (t.search σ) := by
  have hsearch : Finder.findPeaks r.settings r.finder r.settings.konWidth σ =
      Finder.findPeaks t.settings t.finder t.settings.konWidth σ := by
    rw [show r.settings = t.settings from congrArg (·.settings) h.view,
      show r.finder = t.finder from congrArg (·.finder) h.view]
  rw [search_eq_map, search_eq_map, ← hsearch]
  refine ((Outcome.Rel.refl (fun _ => rfl) _).and_post Finder.findPeaks_bins).map fun a b hab => ?_
  obtain ⟨rfl, hx, hy⟩ := hab
  refine ⟨congrArg (fun d : Region => { d with finder := a.2 }) h.view, h.past,
    ⟨h.drawable.background, ?_, ?_⟩⟩
  · rw [hx]
    exact h.drawable.bins
  · rw [hx, hy]
    exact h.drawable.counts

/-- Recording the state records the same snapshot in both histories. -/
theorem Agree.saveCurrentFit (h : Agree present p q r t) (d : String) :
    Agree present p q (r.saveCurrentFit d) (t.saveCurrentFit d) := by
  obtain ⟨δ, hr, ht⟩ := h.past
  -- a snapshot records only what the present keeps
  have hsnap : r.snapshot d = t.snapshot d := (congrArg (fun u : Region => u.snapshot d) h.view :)
  refine ⟨h.view, ⟨δ.push (r.snapshot d), ?_, ?_⟩,
    ⟨h.drawable.background, h.drawable.bins, h.drawable.counts⟩⟩
  · rw [saveCurrentFit_history, hr, Array.append_push]
  · rw [saveCurrentFit_history, ht, hsnap, Array.append_push]

/-! ## Peaks added from the residual -/

/-- Adding a peak from the residual reads only what the present keeps: the residual is searched
again, and the candidates, the seeds and their regression are the same. -/
theorem Agree.addFromResid (h : Agree present p q r t) (hint : Option Float) :
    RegionM.Rel (Option.Rel (Agree present p q)) (r.addFromResid hint) (t.addFromResid hint) := by
  have hs : t.settings = r.settings := (congrArg (·.settings) h.view).symm
  have hx : t.finder.x = r.finder.x := (congrArg (·.finder.x) h.view).symm
  have hbg : t.background = r.background := (congrArg (·.background) h.view).symm
  have hclose : t.tooClose = r.tooClose := by
    unfold tooClose
    rw [hs, show t.parametric = r.parametric from (congrArg (·.parametric) h.view).symm]
  have hpar : t.parametric = r.parametric := (congrArg (·.parametric) h.view).symm
  unfold Region.addFromResid
  simp only [hs, hx, hbg, hclose, hpar]
  split
  · exact RegionM.Rel.pure .none
  · refine RegionM.Rel.bind (RegionM.Rel.liftOutcome (h.search_present _)) fun u v huv => ?_
    have hf : v.finder = u.finder := (congrArg (·.finder) huv.view).symm
    simp only [hf]
    -- the candidates and the chosen one are read from the same finder
    refine RegionM.Rel.bind (RegionM.Rel.refl (fun _ => rfl) _) fun c c' hc => ?_
    subst hc
    split
    · refine RegionM.Rel.bind (RegionM.Rel.refl (fun _ => rfl) _) fun i i' hi => ?_
      subst hi
      refine RegionM.Rel.bind (RegionM.Rel.liftOutcome
        (huv.dropDrawing.regress _ _)) fun o o' ho => ?_
      cases ho with
      | none => exact RegionM.Rel.pure .none
      | some hw => exact RegionM.Rel.pure (.some (hw.saveCurrentFit _))
    · exact RegionM.Rel.pure .none

/-- Rounds of peaks added from the residual, from regions alike but for their pasts, count the
same and end alike. -/
theorem Agree.refineResid (h : Agree present p q r t) (i : Bool) (prev : Float) (rounds : Nat) :
    RegionM.Rel (fun a b => a.1 = b.1 ∧ Agree present p q a.2 b.2)
      (r.refineResid i prev rounds) (t.refineResid i prev rounds) := by
  -- one round per step of the count, from the regions the last round kept
  induction rounds generalizing r t prev with
  | zero => exact RegionM.Rel.pure ⟨rfl, h⟩
  | succ n ih =>
    unfold Region.refineResid
    split
    · exact RegionM.Rel.pure ⟨rfl, h⟩
    · refine RegionM.Rel.bind (RegionM.Rel.attempt (h.addFromResid none)) fun o o' ho => ?_
      cases o <;> cases o'
      · cases ho
        exact RegionM.Rel.pure ⟨rfl, h⟩
      · exact ho.elim
      · exact ho.elim
      · cases ho with
        | none => exact RegionM.Rel.pure ⟨rfl, h⟩
        | some hw =>
          rename_i a b
          have hrsq : b.rsq = a.rsq := (congrArg (·.rsq) hw.view).symm
          simp only [hrsq]
          split
          · exact RegionM.Rel.bind (ih hw _) fun x y hxy =>
              RegionM.Rel.pure ⟨congrArg (fun o => Except.map (· + 1) o) hxy.1, hxy.2⟩
          · exact RegionM.Rel.pure ⟨rfl, h⟩

/-- Peaks added from the residual, from regions alike but for their pasts, count the same and
end alike. -/
theorem Agree.iterativeFit (h : Agree present p q r t) (i : Bool) :
    RegionM.Rel (fun a b => a.1 = b.1 ∧ Agree present p q a.2 b.2)
      (r.iterativeFit i) (t.iterativeFit i) := by
  have hs : t.settings = r.settings := (congrArg (·.settings) h.view).symm
  have hph : t.phase = r.phase := (congrArg (·.phase) h.view).symm
  have hpar : t.parametric = r.parametric := (congrArg (·.parametric) h.view).symm
  have hrsq : t.rsq = r.rsq := (congrArg (·.rsq) h.view).symm
  unfold Region.iterativeFit
  simp only [hs, hph, hpar, hrsq]
  split
  · exact RegionM.Rel.pure ⟨rfl, h⟩
  · split
    · exact RegionM.Rel.pure ⟨rfl, h⟩
    · split
      · exact RegionM.Rel.pure ⟨rfl, h⟩
      · exact h.refineResid i _ _

/-! ## Summation peaks and the end of the fit -/

/-- The summation peak over a window reads only the frame. -/
theorem SameFrame.summationPeakAt (h : SameFrame r t) : t.summationPeakAt = r.summationPeakAt := by
  funext left right
  unfold Region.summationPeakAt Region.leftEdge Region.rightEdge
  rw [h.lb, h.rb, h.sum4Background, h.x, h.y]

/-- Putting in the same peak keeps the draft. -/
theorem Agree.insertPeak (h : Agree draft p q r t) (pk : Peak) :
    Agree draft p q { r with peakMap := GammaFit.insertPeak r.peakMap pk }
      { t with peakMap := GammaFit.insertPeak t.peakMap pk } := by
  have hpm : t.peakMap = r.peakMap := (congrArg (·.peakMap) h.view).symm
  refine ⟨?_, h.past, ⟨h.drawable.background, h.drawable.bins, h.drawable.counts⟩⟩
  show { r.draft with peakMap := GammaFit.insertPeak r.peakMap pk } =
    { t.draft with peakMap := GammaFit.insertPeak t.peakMap pk }
  rw [hpm, h.view]

/-- Summation peaks over the same candidate windows, put in regions with the same draft, leave
them with the same draft. -/
theorem Agree.summationPeaks (h : Agree draft p q r t) {f g : Finder} (hl : f.lefts = g.lefts)
    (hr : f.rights = g.rights) :
    RegionM.Rel (Agree draft p q) (r.summationPeaks f) (t.summationPeaks g) := by
  unfold Region.summationPeaks
  dsimp only
  rw [forIn_range_eq, forIn_range_eq, ← hl, ← hr]
  -- each pass reads the frame, which the draft keeps, and puts in the same peak
  refine RegionM.Rel.bind (RegionM.Rel.forIn (Agree draft p q) h fun k u v huv => ?_)
    fun u v huv => ?_
  · rw [huv.toRough.sameFrame.summationPeakAt]
    refine RegionM.Rel.bind (RegionM.Rel.refl (fun _ => rfl) _) fun o o' ho => ?_
    subst ho
    split
    · exact RegionM.Rel.pure (huv.insertPeak _)
    · exact RegionM.Rel.pure huv
  · exact RegionM.Rel.liftOutcome (huv.recompute (fun _ _ => rfl) huv.toRough)

/-- The end of an automatic fit, from regions with the same draft, answers the same and leaves
them alike but for their pasts. -/
theorem Agree.finishAutoFit (h : Agree draft p q r t) (s : Settings) (i : Bool) :
    RegionM.Rel (fun a b => a.1 = b.1 ∧ Agree present p q a.2 b.2) (r.finishAutoFit s i)
      (t.finishAutoFit s i) := by
  have hpm : t.peakMap = r.peakMap := (congrArg (·.peakMap) h.view).symm
  unfold Region.finishAutoFit
  by_cases he : r.peakMap.isEmpty = true
  · rw [if_pos he, if_pos (show t.peakMap.isEmpty = true by rw [hpm]; exact he)]
    exact RegionM.Rel.bind (RegionM.Rel.liftOutcome (h.render_present .searched)) fun u v huv =>
      RegionM.Rel.pure ⟨rfl, huv⟩
  · rw [if_neg he, if_neg (show ¬t.peakMap.isEmpty = true by rw [hpm]; exact he)]
    refine RegionM.Rel.bind (RegionM.Rel.liftOutcome (h.render_present .fitted)) fun u v huv => ?_
    have hsave := huv.saveCurrentFit "Autofit"
    split
    · exact RegionM.Rel.bind (hsave.iterativeFit i) fun x y hxy =>
        RegionM.Rel.pure ⟨congrArg (fun o => Except.map (fun _ => true) o) hxy.1, hxy.2⟩
    · exact RegionM.Rel.pure ⟨rfl, hsave⟩

/-! ## The automatic fit -/

/-- The region an automatic fit searches: no peaks, the backgrounds taken from the edges, and the
residual set to the counts. -/
def fresh (r : Region) : Region :=
  let trial := { r with peakMap := [] }.initBackground
  { trial with finder := { trial.finder with yResid := trial.finder.y } }

/-- Regions with the same settings, data and edges give trials with the same rough draft once the
search results are cleared; the history is the one the region had. -/
theorem Agree.fresh (hs : t.settings = r.settings) (hx : t.finder.x = r.finder.x)
    (hy : t.finder.y = r.finder.y) (hlb : t.lb = r.lb) (hrb : t.rb = r.rb) (hd : r.fresh.Drawable) :
    Agree rough r.history t.history { r.fresh with finder := r.fresh.finder.clearSearch }
      { t.fresh with finder := t.fresh.finder.clearSearch } := by
  refine ⟨?_, ⟨#[], ?_, ?_⟩, ⟨hd.background, hd.bins, hd.counts⟩⟩
  · -- the backgrounds are taken from the same edges
    rcases hl : r.lb with _ | l <;> rcases hr : r.rb with _ | rt <;>
      simp only [rough, draft, settled, present, Region.fresh, initBackground, Finder.clearSearch,
        hs, hx, hy, hlb, hrb, hl, hr]
  · simp [Region.fresh]
  · simp [Region.fresh]

/-- The trial of a region with bins, one count per bin, and edge windows in order can draw its
model: the run between windows in order is positive, so the regression background exists. -/
theorem fresh_drawable {l rt : Edge} (hl : r.lb = some l) (hr : r.rb = some rt)
    (hlt : l.stop < rt.start) (hbins : r.finder.x.isEmpty = false)
    (hcounts : r.finder.x.size = r.finder.y.size) : r.fresh.Drawable := by
  have hrun : ¬(rt.start - l.stop ≤ 0.0) := fun hle =>
    Float.lt_irrefl _ (Float.lt_of_lt_of_le (Float.sub_pos_of_lt hlt) hle)
  refine ⟨?_, by simpa [Region.fresh] using hbins, by simpa [Region.fresh] using hcounts⟩
  simp [Region.fresh, initBackground, hl, hr, Background.regression, Background.twoPoint, hrun]

/-- An automatic fit of two regions with the same settings, data and edges, whose trial can draw
its model, answers the same and leaves them alike in all but the widths the last search
expected, with histories extended by the same records: whatever peaks, backgrounds, models,
search results and history they held before. -/
theorem Agree.autoFit (hA : r.phase ≠ .empty) (hB : t.phase ≠ .empty) (hs : t.settings = r.settings)
    (hx : t.finder.x = r.finder.x) (hy : t.finder.y = r.finder.y) (hlb : t.lb = r.lb)
    (hrb : t.rb = r.rb) (hd : r.fresh.Drawable) (i : Bool) :
    RegionM.Rel (fun a b => a.1 = b.1 ∧ Agree settled r.history t.history a.2 b.2)
      (r.autoFit i) (t.autoFit i) := by
  have h₀ := Agree.fresh hs hx hy hlb hrb hd
  -- the second region is taken apart so that its settings can be those of the first
  rcases t with ⟨ts, tf, tlb, trb, tbg, ts4, tpm, th, tc, tph, trn⟩
  dsimp only at hs hB h₀ ⊢
  subst hs
  unfold Region.autoFit
  simp only [beq_iff_eq, hA, hB, if_false]
  -- the trials the two runs search have the same rough draft once cleared
  refine RegionM.Rel.bind (RegionM.Rel.liftOutcome (Agree.search h₀ _)) fun u v huv => ?_
  obtain ⟨hagree, hfw⟩ := huv
  have hfil : v.finder.filtered = u.finder.filtered :=
    (congrArg (·.finder.filtered) hagree.view).symm
  by_cases he : u.finder.filtered.isEmpty = true
  · -- no candidate: the trial is drawn as searched
    rw [if_pos he, if_pos (show v.finder.filtered.isEmpty = true by rw [hfil]; exact he)]
    exact RegionM.Rel.bind (RegionM.Rel.liftOutcome (hagree.render .searched)) fun a b hab =>
      RegionM.Rel.pure ⟨rfl, hab.1⟩
  · -- candidates found: the widths expected at them are the same, so the draft is too
    rw [if_neg he, if_neg (show ¬v.finder.filtered.isEmpty = true by rw [hfil]; exact he)]
    have hdraft := hagree.toDraft (hfw fun h0 => he (by rw [h0]; rfl))
    have hx' : v.finder.x = u.finder.x := (congrArg (·.finder.x) hagree.view).symm
    have hy' : v.finder.y = u.finder.y := (congrArg (·.finder.y) hagree.view).symm
    have hl' : v.finder.lefts = u.finder.lefts := (congrArg (·.finder.lefts) hagree.view).symm
    have hr' : v.finder.rights = u.finder.rights := (congrArg (·.finder.rights) hagree.view).symm
    have hbg' : v.background = u.background := (congrArg (·.background) hagree.view).symm
    simp only [hx', hy', hl', hr', hbg']
    -- the seeds are read from the same candidates and handed the same identities
    refine RegionM.Rel.bind (RegionM.Rel.refl (fun _ => rfl) _) fun c c' hc => ?_
    subst hc
    have hend : ∀ a b, Agree draft r.history th a b →
        RegionM.Rel (fun a b => a.1 = b.1 ∧ Agree settled r.history th a.2 b.2)
          (a.finishAutoFit r.settings i) (b.finishAutoFit r.settings i) := fun a b hab =>
      (hab.finishAutoFit _ i).mono fun _ _ hxy => ⟨hxy.1, hxy.2.toSettled⟩
    have hsum := RegionM.Rel.bind (hdraft.summationPeaks hl'.symm hr'.symm) hend
    split
    · refine RegionM.Rel.bind (RegionM.Rel.liftOutcome (hdraft.regress _ _)) fun o o' ho => ?_
      cases ho with
      | none => exact hsum
      | some hw =>
        exact RegionM.Rel.bind (RegionM.Rel.pure hw) fun a b hab => hend a b hab.dropDrawing
    · exact hsum

end Region

end GammaFit
