import GammaFit.Proofs.Region.Rebuild
import GammaFit.Proofs.Region.Refinement

/-!
# What an automatic fit ends with

An automatic fit searches the data of a region afresh, with the peaks cleared, the backgrounds
taken from the edges again and the residual reset to the data. It has three ways out:

* the search finds no candidate: the region is drawn as searched, without peaks;
* the settings allow a regression, some candidate windows give an acceptable Gaussian estimate,
  and the joint regression of the seeds these give keeps a result between the edges
  (`SeedFit`);
* otherwise every candidate window, clipped to the bins between the edge windows, whose
  summation integral exists and has its centroid between the edges becomes a summation peak
  (`SumFallback`), and there may be none.

A region left with peaks is drawn as fitted and recorded under "Autofit"; then, when the
settings ask for it and do not restrict the fit to summation peaks, peaks are added from the
residual while R² improves (`Continued`). The fit answers whether the region ends with a peak
(`AutoFitted`), with one exception: a number of rounds that is no whole number, or an addition from
the residual that fails, fails the fit after it has recorded the region with its peaks.

The two loops of the fit, over the seeds and over the summation windows, are described in
closed form by an invariant of the windows passed (`RegionM.Runs.forIn_passed`).
-/

namespace GammaFit

open Search (Finder)

/-- A loop over the range `[0:n]` is the loop over the list of its numbers. -/
theorem forIn_range_eq {β : Type} {m : Type → Type} [Monad m] (n : Nat) (init : β)
    (f : Nat → β → m (ForInStep β)) : forIn [0:n] init f = forIn (List.range n) init f := by
  rw [Std.Legacy.Range.forIn_eq_forIn_range']
  simp [Std.Legacy.Range.size, List.range_eq_range']

namespace Region

/-! ## The candidates of a search -/

/-- The counts of `f` less the background `bg` at each bin; without a background, less a
number that is none. -/
def netCounts (f : Finder) (bg : Option Background) : Array Float :=
  Array.zipWith (· - ·) f.y (match bg with
    | some b => b.evalAll f.x
    | none => f.x.map fun _ => 0.0 / 0.0)

/-- The Gaussian estimate over candidate window `k` of `f`, from the counts less the
background `bg`. -/
def windowEstimate (f : Finder) (bg : Option Background) (k : Nat) : Gaussian :=
  Gaussian.ofData (f.x.extract (f.lefts.getD k 0) (f.rights.getD k 0 + 1))
    ((netCounts f bg).extract (f.lefts.getD k 0) (f.rights.getD k 0 + 1))

/-- Whether candidate window `k` of `f` gives an estimate acceptable between the window's
ends. -/
def acceptsWindow (f : Finder) (bg : Option Background) (k : Nat) : Bool :=
  (windowEstimate f bg k).acceptedIn (f.x.getD (f.lefts.getD k 0) 0.0)
    (f.x.getD (f.rights.getD k 0) 0.0)

/-- The candidate windows of `f` whose estimate is acceptable, in order. -/
def acceptedWindows (f : Finder) (bg : Option Background) : List Nat :=
  (List.range f.lefts.size).filter (acceptsWindow f bg)

/-- The summation integral of `r` over the bins `left … right` clipped to the bins strictly
between the edge windows; none without edge windows or summation background, or when the
clipped window holds no bin. -/
def clippedSum (r : Region) (left right : Int) : Option Summation :=
  match r.lb, r.rb, r.sum4Background with
  | some l, some rt, some b =>
    Summation.ofCounts? r.finder.x r.finder.y (max left (l.last + 1))
      (min right ((rt.first : Int) - 1)) b l rt
  | _, _, _ => none

/-- The summation integral of `r` over candidate window `k` of `f`, clipped between the edge
windows. -/
def windowSum (r : Region) (f : Finder) (k : Nat) : Option Summation :=
  r.clippedSum (f.lefts.getD k 0) (f.rights.getD k 0)

/-- The summation integrals over the candidate windows of `f` whose centroid lies between the
edges of `r`, in window order. -/
def fallbackSums (r : Region) (f : Finder) : List Summation :=
  (List.range f.lefts.size).filterMap fun k =>
    (r.windowSum f k).filter fun sm => r.between sm.centroid

/-- The region an automatic fit of `r` works on once its search has given the finder `f`: no
peaks, the backgrounds the edge windows give, and the finder of the search. -/
def searchedWith (r : Region) (f : Finder) : Region :=
  { ({ r with peakMap := [] } : Region).initBackground with finder := f }

/-! ## The region searched -/

section Searched

variable {r t : Region} {f : Finder}

@[simp] theorem searchedWith_peakMap : (r.searchedWith f).peakMap = [] := by
  simp [searchedWith]

@[simp] theorem searchedWith_finder : (r.searchedWith f).finder = f := rfl

@[simp] theorem searchedWith_settings : (r.searchedWith f).settings = r.settings := by
  simp [searchedWith]

@[simp] theorem searchedWith_history : (r.searchedWith f).history = r.history := by
  simp [searchedWith]

@[simp] theorem searchedWith_currentFit : (r.searchedWith f).currentFit = r.currentFit := by
  simp [searchedWith]

@[simp] theorem searchedWith_lb : (r.searchedWith f).lb = r.lb := by
  simp [searchedWith]

@[simp] theorem searchedWith_rb : (r.searchedWith f).rb = r.rb := by
  simp [searchedWith]

/-- The backgrounds of the region searched are those the edge windows of `r` give. -/
theorem searchedWith_background :
    (r.searchedWith f).background = r.initBackground.background := by
  rcases hl : r.lb with _ | l <;> rcases hr : r.rb with _ | rt <;>
    simp [searchedWith, initBackground, hl, hr]

/-- On a tied region, the search changes only the finder, and keeps its bins and counts. -/
theorem Tied.searchedWith_frame (h : r.Tied) (hx : f.x = r.finder.x) (hy : f.y = r.finder.y) :
    SameFrame r (r.searchedWith f) := by
  refine ⟨searchedWith_settings, hx, hy, searchedWith_lb, searchedWith_rb, ?_⟩
  exact Region.initBackground_sum4Background.trans h.current.symm

/-- A search of the residual records the finder the search of its finder gives, and changes
nothing else. -/
theorem search_run {sigma : Float} :
    Outcome.Post (r.search sigma) fun t => ∃ c f, Search.Finder.findPeaks r.settings r.finder
      r.settings.konWidth sigma = .ok (c, f) ∧ t = { r with finder := f } := by
  unfold Region.search
  refine .bind (P := fun p => Search.Finder.findPeaks r.settings r.finder
    r.settings.konWidth sigma = .ok p) (fun _ h => h) fun p hp => ?_
  rcases p with ⟨c, f⟩
  exact .pure ⟨c, f, hp, rfl⟩

end Searched

/-! ## Peaks added from the residual keep the frame -/

section Residual

variable {s : Settings} {n : Nat} {r t u : Region}

/-- A joint regression that succeeds keeps the frame and draws the region as fitted. -/
theorem regress_frame {seeds : List (Nat × Hypermet)} {g : Bool} :
    Outcome.Post (r.regress seeds g) fun o => ∀ t, o = some t →
      SameFrame r t ∧ t.phase = .fitted := by
  unfold Region.regress
  split
  · split
    · exact .pure fun _ h => by cases h
    · dsimp only
      split
      · refine .bind_forall fun regressed => ?_
        split
        · exact .pure fun _ h => by cases h
        · refine .bind (P := SameFrame r) (fun r₁ h₁ => ?_) fun r₁ h₁ =>
            .bind (P := fun u => SameFrame r u ∧ u.phase = .fitted) (fun u hu => ?_)
              fun u hu => .pure fun t ht => ?_
          · obtain ⟨k, -, rfl⟩ := recompute_eq_ok.mp h₁
            exact ⟨rfl, rfl, rfl, rfl, rfl, rfl⟩
          · have hphase : SameFrame r₁ { r₁ with phase := .fitted } := ⟨rfl, rfl, rfl, rfl, rfl, rfl⟩
            have hfr := h₁.trans (hphase.trans (SameFrame.of_render hu))
            obtain ⟨g, rnd, rfl, -⟩ := render_eq_ok hu
            exact ⟨hfr, rfl⟩
          · cases ht
            exact hu
      · exact .pure fun _ h => by cases h
  · exact .pure fun _ h => by cases h

/-- A peak added from the residual keeps the frame, and the region is drawn as fitted. -/
theorem addFromResid_frame {hint : Option Float} :
    RegionM.Post (r.addFromResid hint) fun o => ∀ t, o = some t →
      SameFrame r t ∧ t.phase = .fitted := by
  unfold Region.addFromResid
  dsimp only
  split
  · exact .pure fun _ h => by cases h
  · refine .bind (.liftOutcome search_spec) fun trial htrial => .bind_forall fun cands => ?_
    obtain ⟨f, rfl, hx, hy⟩ := htrial
    split
    · refine .bind_forall fun id => .bind (.liftOutcome regress_frame) fun o ho => ?_
      rcases o with _ | v
      · exact .pure fun _ h => by cases h
      · refine .pure fun t ht => ?_
        cases ht
        obtain ⟨hfr, hph⟩ := ho v rfl
        have hsearch : SameFrame r { r with finder := f } := ⟨rfl, hx, hy, rfl, rfl, rfl⟩
        have hsave : SameFrame v (v.saveCurrentFit "Added from residual") :=
          ⟨rfl, rfl, rfl, rfl, rfl, rfl⟩
        exact ⟨(hsearch.trans hfr).trans hsave, hph⟩
    · exact .pure fun _ h => by cases h

/-- A kept peak from the residual leaves a region in the frame it was added in, fitted and with
peaks: the regression it feeds records a settled region, and a settled region drawn as fitted
holds a peak. -/
theorem ResidGain.frame {k : Nat} (hwf : Wf s n r) (h : ResidGain r n u k) :
    SameFrame r u ∧ u.phase = .fitted ∧ u.peakMap ≠ [] := by
  obtain ⟨hfr, hph⟩ := addFromResid_frame n (some u) k h.run u rfl
  obtain ⟨hsaves, -⟩ := (addFromResid_spec hwf _ _ h.run).2 _ rfl u rfl
  obtain ⟨v, d, hset, -, -, rfl⟩ := hsaves
  refine ⟨hfr, hph, fun hnil => ?_⟩
  have hsettled := hset.phase
  rw [saveCurrentFit_phase] at hph
  rw [saveCurrentFit_peakMap] at hnil
  rw [hnil, hph] at hsettled
  simp at hsettled

/-- No kept peak leaves the region and the counter as they were. -/
theorem Refined.zero {m : Nat} (h : Refined r n 0 t m) : t = r ∧ m = n := by
  cases h
  exact ⟨rfl, rfl⟩

/-- Peaks kept one after another keep the frame, and once one is kept the region is fitted and
holds a peak. The induction follows the kept peaks, with the frame of the invariant. -/
theorem Refined.frame {k m : Nat} (hwf : Wf s n r) (h : Refined r n k t m) :
    SameFrame r t ∧ (0 < k → t.phase = .fitted ∧ t.peakMap ≠ []) := by
  induction h generalizing s with
  | done r n => exact ⟨.refl r, fun h => absurd h (Nat.lt_irrefl 0)⟩
  | @gain r u t n k j m hg hrest ih =>
    obtain ⟨hfr, hph, hne⟩ := hg.frame hwf
    obtain ⟨-, -, -, -, -, hwf'⟩ := hg.recorded hwf
    obtain ⟨hfr', hlast⟩ := ih hwf'
    refine ⟨hfr.trans hfr', fun _ => ?_⟩
    rcases Nat.eq_zero_or_pos j with rfl | hpos
    · -- the peak just kept is the last
      obtain ⟨rfl, -⟩ := hrest.zero
      exact ⟨hph, hne⟩
    · exact hlast hpos

end Residual

/-! ## The summation fallback -/

section Fallback

variable {s : Settings} {r t : Region} {f : Finder}

theorem SameFrame.clippedSum (h : SameFrame r t) : t.clippedSum = r.clippedSum := by
  funext left right
  simp only [Region.clippedSum, h.x, h.y, h.lb, h.rb, h.sum4Background]

/-- A clipped integral that exists is one over a window between the edge windows. -/
theorem clippedSum_eq_some {left right : Int} {sm : Summation}
    (h : r.clippedSum left right = some sm) : ∃ l rt b, r.lb = some l ∧ r.rb = some rt ∧
      r.sum4Background = some b ∧ Summation.ofCounts? r.finder.x r.finder.y
        (max left (l.last + 1)) (min right ((rt.first : Int) - 1)) b l rt = some sm := by
  unfold Region.clippedSum at h
  split at h
  · rename_i l rt b hl hr hb
    exact ⟨l, rt, b, hl, hr, hb, h⟩
  · cases h

/-- A summation peak over `left … right` is the integral over the window clipped between the
edge windows, when it exists and its centroid lies between the edges, under the identity the
counter hands out; otherwise there is none, and no identity is handed out. -/
theorem summationPeakAt_runs {left right : Int} {k : Nat} :
    RegionM.Runs (t.summationPeakAt left right) k fun o k' =>
      ((t.clippedSum left right).filter fun sm => t.between sm.centroid) = none ∧ o = none ∧
        k' = k ∨
      ∃ sm, ((t.clippedSum left right).filter fun sm => t.between sm.centroid) = some sm ∧
        o = some { id := k, sum4 := some sm } ∧ k' = k + 1 := by
  unfold summationPeakAt
  refine .liftOutcome_bind fun l hl => .liftOutcome_bind fun rt hr => ?_
  rw [leftEdge_eq_ok] at hl
  rw [rightEdge_eq_ok] at hr
  split
  · rename_i b hb
    dsimp only
    split
    · rename_i sm hw
      have hclip : t.clippedSum left right = some sm := by simp [clippedSum, hl, hr, hb, hw]
      split
      · rename_i hin
        refine .bind (.nextPeakId (Q := fun i k' => i = k ∧ k' = k + 1) ⟨rfl, rfl⟩)
          fun i k' _ hi => .pure (.inr ⟨sm, ?_, by rw [hi.1], hi.2⟩)
        simp [hclip, between_of_edges hl hr, hin]
      · rename_i hin
        exact .pure (.inl ⟨by simp [hclip, between_of_edges hl hr, hin], rfl, rfl⟩)
    · rename_i hw
      exact .pure (.inl ⟨by simp [clippedSum, hl, hr, hb, hw], rfl, rfl⟩)
  · rename_i hnone
    have hclip : t.clippedSum left right = none := by simp [clippedSum, hl, hr, hnone]
    exact .pure (.inl ⟨by rw [hclip]; rfl, rfl, rfl⟩)

/-- A summation peak the fallback puts in: the clipped integral over some window, with its
centroid between the edges, under its own identity. -/
def FallbackPeak (r : Region) (e : Nat × Peak) : Prop :=
  ∃ sm left right, e.2 = { id := e.1, sum4 := some sm } ∧ r.clippedSum left right = some sm ∧
    r.between sm.centroid = true

/-- Bringing a fallback peak up to date keeps it, and keeps its integral and its lack of a
Hypermet shape: its window already lies between the edges. -/
theorem FallbackPeak.recompute (hx : Ascending r.finder.x) {e : Nat × Peak}
    (h : FallbackPeak r e) {q : Peak} (hq : r.recomputePeak e.2 = .ok q) :
    r.dropped q = .ok false ∧ q.sum4 = e.2.sum4 ∧ q.hypermet = none := by
  obtain ⟨sm, left, right, he, hclip, hin⟩ := h
  obtain ⟨l, rt, b, hl, hr, hb, hw⟩ := clippedSum_eq_some hclip
  rw [he] at hq ⊢
  refine ⟨dropped_of_window hx hb hl hr (le_max_right _ _) (min_le_right _ _) hw
    (insideEdges_eq_ok_true_iff.mpr hin) hq, ?_,
    recomputePeak_hypermet hq⟩
  obtain ⟨s, d, hs, -, rfl⟩ := recomputePeak_eq_ok hq
  rw [sum4Of_window (p := { id := e.1, sum4 := some sm }) hx hb hl hr (le_max_right _ _)
    (min_le_right _ _) hw rfl rfl] at hs
  exact (Except.ok.inj hs).symm

/-- Bringing up to date peaks that are all kept, each keeping what `F` reads, keeps the list of
what `F` reads. -/
theorem upToDate_map_of_kept {β : Type} (F : Peak → β) {m k : List (Nat × Peak)}
    (h : r.upToDate m = .ok k)
    (hkeep : ∀ e ∈ m, ∀ q, r.recomputePeak e.2 = .ok q → r.dropped q = .ok false ∧ F q = F e.2) :
    k.map (fun e => F e.2) = m.map fun e => F e.2 := by
  induction m generalizing k with
  | nil => cases h; rfl
  | cons e m ih =>
    obtain ⟨i, p⟩ := e
    obtain ⟨q, d, k', hq, hd, hk', rfl⟩ := upToDate_cons_eq_ok.mp h
    obtain ⟨hkept, hF⟩ := hkeep (i, p) List.mem_cons_self q hq
    obtain rfl : d = false := Except.ok.inj (hd.symm.trans hkept)
    have htail := ih hk' fun e he => hkeep e (List.mem_cons_of_mem _ he)
    simp only [Bool.false_eq_true, if_false, List.map_cons, hF, htail]

/-- A region with other peaks in the frame of `t` is in the frame of `t`. -/
theorem SameFrame.withPeaks (h : SameFrame r t) (pm : List (Nat × Peak)) :
    SameFrame r { t with peakMap := pm } :=
  ⟨h.settings, h.x, h.y, h.lb, h.rb, h.sum4Background⟩

/-- The summation fallback over the candidate windows of `f`, from the region searched: one
summation peak for every window whose clipped integral exists and has its centroid between the
edges, in window order, each brought up to date without change to its integral. -/
theorem summationPeaks_fallback (h : r.Tied) (hx : f.x = r.finder.x) (hy : f.y = r.finder.y)
    (hbins : Ascending r.finder.x) {m : Nat} :
    RegionM.Runs ((r.searchedWith f).summationPeaks f) m fun u _ =>
      ∃ pm, u = { r.searchedWith f with peakMap := pm } ∧
        pm.map (fun e => e.2.sum4) = (r.fallbackSums f).map some ∧
        ∀ e ∈ pm, e.2.hypermet = none := by
  have hframe := h.searchedWith_frame hx hy
  unfold summationPeaks
  dsimp only
  rw [forIn_range_eq]
  -- the windows passed so far left one fallback peak each, under identities below the counter
  refine .bind (.forIn_passed (fun pre t k => ∃ pm, t = { r.searchedWith f with peakMap := pm } ∧
      pm.map (fun e => e.2.sum4) = (pre.filterMap fun j =>
        (r.windowSum f j).filter fun sm => r.between sm.centroid).map some ∧
      ∀ e ∈ pm, FallbackPeak r e ∧ e.1 < k)
    ⟨[], by rw [← searchedWith_peakMap (r := r) (f := f)], rfl, fun _ he => by cases he⟩ ?_)
    fun t k _ ht => ?_
  · rintro pre x rest t k - ⟨pm, rfl, hsums, hpm⟩
    have hfr := hframe.withPeaks pm
    refine .bind summationPeakAt_runs fun o k' _ ho => ?_
    rw [hfr.clippedSum, hfr.between] at ho
    rcases ho with ⟨hnone, rfl, rfl⟩ | ⟨sm, hsm, rfl, rfl⟩
    · -- no peak over this window
      refine .pure ⟨_, rfl, pm, rfl, ?_, hpm⟩
      simp only [List.filterMap_append, List.filterMap_cons, List.filterMap_nil, windowSum, hnone,
        List.append_nil, hsums]
    · -- a new peak, whose identity is above every one in use
      have hnew : k ∉ pm.map Prod.fst := fun hk => by
        obtain ⟨e, he, hek⟩ := List.mem_map.mp hk
        have := (hpm e he).2
        omega
      obtain ⟨hclip, hin⟩ := Option.filter_eq_some_iff.mp hsm
      refine .pure ⟨_, rfl, pm ++ [(k, { id := k, sum4 := some sm })], ?_, ?_, ?_⟩
      · rw [insertPeak_of_not_mem hnew]
      · simp only [List.filterMap_append, List.filterMap_cons, List.filterMap_nil, windowSum, hsm,
          List.map_append, hsums, List.map_cons, List.map_nil]
      · intro e he
        rcases List.mem_append.mp he with he | he
        · exact ⟨(hpm e he).1, Nat.lt_succ_of_lt (hpm e he).2⟩
        · rw [List.mem_singleton.mp he]
          exact ⟨⟨sm, _, _, rfl, hclip, hin⟩, Nat.lt_succ_self k⟩
  · -- bringing the peaks up to date keeps every one, with its integral
    obtain ⟨pm, rfl, hsums, hpm⟩ := ht
    have hfr := hframe.withPeaks pm
    refine .liftOutcome fun u hu => ?_
    obtain ⟨pm', hup, rfl⟩ := recompute_eq_ok.mp hu
    have hkept : ∀ e ∈ pm, ∀ q, ({ r.searchedWith f with peakMap := pm } : Region).recomputePeak
        e.2 = .ok q → ({ r.searchedWith f with peakMap := pm } : Region).dropped q = .ok false ∧
          q.sum4 = e.2.sum4 := by
      intro e he q hq
      rw [hfr.recomputePeak] at hq
      obtain ⟨hd, hs, -⟩ := (hpm e he).1.recompute hbins hq
      exact ⟨by rw [hfr.dropped]; exact hd, hs⟩
    refine ⟨pm', rfl, ?_, fun e he => ?_⟩
    · rw [upToDate_map_of_kept Peak.sum4 hup hkept, hsums]
      rfl
    · obtain ⟨p, hp, hq, -⟩ := mem_upToDate hup he
      rw [hfr.recomputePeak] at hq
      exact ((hpm _ hp).1.recompute hbins hq).2.2

end Fallback

/-! ## The seeds -/

/-- A loop that gives each element passing a test a fresh identity, and collects it with the
element's seed, collects in order the seeds of the elements that pass, under the identities the
counter hands out one after another. -/
theorem collect_runs {α : Type} (xs : List Nat) (p : Nat → Bool) (seed : Nat → α) {n : Nat} :
    RegionM.Runs (forIn xs ([] : List (Nat × α)) fun k acc =>
        if p k = true then do
          let id ← nextPeakId
          pure (ForInStep.yield (acc ++ [(id, seed k)]))
        else pure (ForInStep.yield acc)) n fun seeds k =>
      seeds.map Prod.fst = List.range' n (xs.filter p).length ∧
        seeds.map Prod.snd = (xs.filter p).map seed ∧ k = n + (xs.filter p).length := by
  refine .forIn_passed (fun (pre : List Nat) (acc : List (Nat × α)) (k : Nat) =>
    acc.map Prod.fst = List.range' n (pre.filter p).length ∧
    acc.map Prod.snd = (pre.filter p).map seed ∧ k = n + (pre.filter p).length)
    ⟨rfl, rfl, rfl⟩ ?_
  rintro pre x rest acc k - ⟨hids, hseeds, rfl⟩
  split
  · rename_i hp
    refine .bind (.nextPeakId (Q := fun i k' => i = n + (pre.filter p).length ∧ k' = i + 1)
      ⟨rfl, rfl⟩) fun i k' _ hi => .pure ⟨_, rfl, ?_, ?_, ?_⟩
    · simp [List.filter_append, hp, hids, hi.1, List.range'_concat]
    · simp [List.filter_append, hp, hseeds]
    · simp [List.filter_append, hp, hi.2, hi.1]
      omega
  · rename_i hp
    exact .pure ⟨_, rfl, by simp [List.filter_append, hp, hids],
      by simp [List.filter_append, hp, hseeds], by simp [List.filter_append, hp]⟩

/-! ## Recording the fit and going on from the residual -/

section Continue

variable {s : Settings} {m : Nat} {u₀ u t : Region}

/-- Drawing a region under a phase keeps its peaks, its frame, its background and its history,
and gives it that phase. -/
theorem render_phase {ph : Phase} (h : { t with phase := ph }.render = .ok u) :
    u.phase = ph ∧ u.peakMap = t.peakMap ∧ SameFrame t u ∧ u.history = t.history ∧
      u.currentFit = t.currentFit ∧ u.background = t.background := by
  have hphase : SameFrame t { t with phase := ph } := ⟨rfl, rfl, rfl, rfl, rfl, rfl⟩
  have hfr := hphase.trans (SameFrame.of_render h)
  obtain ⟨g, rnd, rfl, -⟩ := render_eq_ok h
  exact ⟨rfl, rfl, hfr, rfl, rfl, rfl⟩

/-- `u` is `u₀` drawn as fitted and recorded under "Autofit": the peaks, the frame and the
background of `u₀`, and one snapshot more, made current. -/
structure RecordedFit (u₀ u : Region) : Prop where
  phase : u.phase = .fitted
  peakMap : u.peakMap = u₀.peakMap
  frame : SameFrame u₀ u
  background : u.background = u₀.background
  history : ∃ snap : Snapshot, u.history = u₀.history.push snap ∧ snap.description = "Autofit"
  currentFit : u.currentFit = u₀.history.size

/-- Whether the settings ask for peaks from the residual after an automatic fit: additions are
on, and the fit is not restricted to summation peaks. -/
def residualAfterFit (s : Settings) : Bool :=
  s.residAuto.truthy && !s.sum4Only.truthy

/-- What follows the recording of an automatic fit at `u`, with the counter at `m`, under the
settings `s`, answering `o` at `t`: `k` peaks added from the residual and kept, which leave their
snapshots in the history; none unless the settings ask for them, and then the fit answers
`true`; at most the number of rounds the settings give when the fit answers; the fit never
answers `false` once it has recorded peaks; and a failure is
the refusal of a number of rounds that is no whole number, before any addition, or the failure of
the next addition. -/
def Continued (s : Settings) (u : Region) (m : Nat) (o : Outcome Bool) (t : Region) : Prop :=
  o ≠ .ok false ∧ ∃ k m', Refined u m k t m' ∧ ResidHistory u k t ∧
    (residualAfterFit s = false → k = 0 ∧ o = .ok true) ∧
    (o = .ok true → k ≤ (Settings.count s.residMaxIterations).toNat) ∧
    ∀ e, o = .error e → residualAfterFit s = true ∧
      (Settings.rounds s.residMaxIterations = .error e ∧ k = 0 ∨
        ∃ j, ((t.addFromResid none).run.run m').run = (.error e, j))

/-- Without additions the fit answers `true` and stays where it was recorded. -/
theorem Continued.idle : Continued s u m (.ok true) u :=
  ⟨by simp, 0, m, .done u m, .none u, fun _ => ⟨rfl, rfl⟩, fun _ => Nat.zero_le _,
    fun _ he => by cases he⟩

/-- A number of rounds the settings give as a whole number. -/
theorem rounds_eq_ok {v : Json.Value} {k : Nat} (h : Settings.rounds v = .ok k) :
    k = (Settings.count v).toNat := by
  cases v with
  | int n => exact (Except.ok.inj h).symm
  | bool b =>
    cases b <;> exact (Except.ok.inj h).symm
  | _ => cases h

/-- The additions from the residual the settings ask for, after the fit is recorded, continue it
as `Continued` says. -/
theorem iterativeFit_continued (hwf : Wf s m u) (hgate : residualAfterFit s = true) (i : Bool) :
    RegionM.Runs (u.iterativeFit i) m fun res _ =>
      Continued s u m (res.1.map fun _ => true) res.2 := by
  refine .mono (iterativeFit_returns i hwf).runs fun res n' _ ⟨hidle, hrefused, hloop⟩ => ?_
  obtain ⟨o, t⟩ := res
  dsimp only at hidle hrefused hloop ⊢
  -- the answer of the loop, a count or a failure, is mapped to `true` or kept as a failure
  refine ⟨by cases o <;> simp [Except.map], ?_⟩
  rw [hwf.settings] at hrefused hloop
  have hnot : residualAfterFit s = false → False := fun h => by rw [hgate] at h; cases h
  by_cases hr : u.Refinable
  · rcases hrounds : Settings.rounds s.residMaxIterations with e | rounds
    · -- a number of rounds that is no whole number is refused, before any addition
      obtain ⟨rfl, ht, -⟩ := hrefused hr _ hrounds
      rw [ht]
      refine ⟨0, m, .done u m, .none u, fun h => (hnot h).elim, fun h => by simp [Except.map] at h,
        fun e he => ?_⟩
      cases he
      exact ⟨hgate, .inl ⟨rfl, rfl⟩⟩
    · -- the loop keeps at most `rounds` peaks and ends as `Ends` says
      obtain ⟨⟨k, m', hchain, hle, hends⟩, -⟩ := hloop hr rounds hrounds
      refine ⟨k, m', hchain, hchain.history hwf, fun h => (hnot h).elim, fun _ => ?_, ?_⟩
      · rw [← rounds_eq_ok hrounds]
        exact hle
      · intro e he
        rcases hends with ⟨rfl, -⟩ | ⟨e', rfl, -, -, hfail⟩
        · cases he
        · cases he
          exact ⟨hgate, .inr ⟨n', hfail⟩⟩
  · -- nothing to refine: the fit answers `true` as recorded
    obtain ⟨rfl, ht, -⟩ := hidle hr
    rw [ht]
    exact ⟨0, m, .done u m, .none u, fun h => (hnot h).elim, fun _ => Nat.zero_le _,
      fun _ he => by cases he⟩

/-- The end of an automatic fit, from a region `u₀` in the frame of the invariant: without peaks
it is drawn as searched and answers `false`; with peaks it is drawn as fitted, recorded under
"Autofit", and continued from the residual as the settings `s` ask. -/
theorem finishAutoFit_runs (hwf : Wf s m u₀) (i : Bool) :
    RegionM.Runs (u₀.finishAutoFit s i) m fun res _ =>
      (u₀.peakMap = [] → res.1 = .ok false ∧ res.2.peakMap = [] ∧ res.2.phase = .searched ∧
        SameFrame u₀ res.2 ∧ res.2.history = u₀.history ∧ res.2.currentFit = u₀.currentFit ∧
        res.2.background = u₀.background) ∧
      (u₀.peakMap ≠ [] → ∃ u, RecordedFit u₀ u ∧ Continued s u m res.1 res.2) := by
  unfold finishAutoFit
  dsimp only
  split
  · -- no peak: drawn as searched
    rename_i hempty
    have hnil : u₀.peakMap = [] := List.isEmpty_iff.mp hempty
    refine .liftOutcome_bind fun v hv => .pure ⟨fun _ => ?_, fun hne => absurd hnil hne⟩
    obtain ⟨hph, hpm, hfr, hh, hc, hb⟩ := render_phase hv
    exact ⟨rfl, hpm.trans hnil, hph, hfr, hh, hc, hb⟩
  · -- drawn as fitted and recorded, then continued from the residual
    rename_i hne
    have hpeaks : u₀.peakMap ≠ [] := fun h => hne (List.isEmpty_iff.mpr h)
    refine .liftOutcome_bind fun v hv => ?_
    obtain ⟨hph, hpm, hfr, hh, hc, hb⟩ := render_phase hv
    have hsave : SameFrame v (v.saveCurrentFit "Autofit") := ⟨rfl, rfl, rfl, rfl, rfl, rfl⟩
    have hrec : RecordedFit u₀ (v.saveCurrentFit "Autofit") :=
      ⟨hph, hpm, hfr.trans hsave, hb, ⟨_, by rw [saveCurrentFit_history, hh], rfl⟩,
        by rw [saveCurrentFit_currentFit, hh]⟩
    split
    · rename_i hgate
      have hwf' : Wf s m (v.saveCurrentFit "Autofit") := hwf.of_eq hfr.settings hfr.x hpm
      refine .bind (iterativeFit_continued hwf' hgate i) fun res k _ hcont => ?_
      exact .pure ⟨fun h => absurd h hpeaks, fun _ => ⟨_, hrec, hcont⟩⟩
    · exact .pure ⟨fun h => absurd h hpeaks, fun _ => ⟨_, hrec, .idle⟩⟩

end Continue

/-! ## The three ways out -/

/-- The search of an automatic fit of `r`, with the counter at `n`: a fresh search `f` of the
data, its residual reset, finds candidates, and the candidate windows whose estimate is
acceptable give the seeds `seeds`, one each in window order, under the identities `n`, `n + 1`,
…. -/
structure Candidates (r : Region) (n : Nat) (f : Finder) (seeds : List (Nat × Hypermet)) :
    Prop where
  search : ∃ c, Search.Finder.findPeaks r.settings { r.finder with yResid := r.finder.y }
    r.settings.konWidth (setting r.settings.sigmaSpectrum) = .ok (c, f)
  found : f.filtered.isEmpty = false
  ids : seeds.map Prod.fst = List.range' n (acceptedWindows f r.initBackground.background).length
  shapes : seeds.map Prod.snd = (acceptedWindows f r.initBackground.background).map fun k =>
    seedOf (windowEstimate f r.initBackground.background k) r.settings

/-- The regression way out for `r`, from the seeds `seeds`, leaving `u`: the settings allow a
regression, and the joint regression of the seeds (Gaussian-only exactly when every seed is), in
the order `ordered` over the regression background the edges give, gives the results `fitted`
and the background `bg'`. Every result is physical; `u` holds, under each seed's identity, the
result when it lies between the edges, and no summation peak. -/
structure SeedFit (r : Region) (seeds ordered : List (Nat × Hypermet))
    (fitted : List (Option Hypermet)) (bg' : Background) (u : Region) : Prop where
  allowed : r.settings.sum4Only.truthy = false
  perm : ordered.Perm seeds
  regress : ∃ bg, r.initBackground.background = some bg ∧
    Multiplet.regress r.finder.x r.finder.y (ordered.map (·.2)) bg r.settings
      (seeds.all fun e => e.2.gaussianOnly) = some (fitted, bg')
  physical : ∀ i h₀ h, ((i, h₀), some h) ∈ ordered.zip fitted →
    h.height.value > 0.0 ∧ h.width.value > 0.0 ∧ h.center.value.isNaN = false ∧
      h.center.value.isInf = false
  background : u.background = some bg'
  hypermet : ∀ i h, (∃ p, (i, p) ∈ u.peakMap ∧ p.hypermet = some h) ↔
    ∃ h₀, ((i, h₀), some h) ∈ ordered.zip fitted ∧ r.insideEdges h.center.value = .ok true
  shaped : ∀ e ∈ u.peakMap, e.2.hypermet ≠ none

/-- The summation way out for `r`, from the search `f` and the seeds `seeds`, leaving `u`: the
settings restrict the fit to summation peaks, there is no seed, or the regression of the seeds
keeps nothing between the edges; `u` holds one summation peak for each candidate window whose
clipped integral exists and has its centroid between the edges, in window order, and keeps the
regression background the edges give. -/
structure SumFallback (r : Region) (f : Finder) (seeds : List (Nat × Hypermet)) (u : Region) :
    Prop where
  reason : r.settings.sum4Only.truthy = true ∨ seeds = [] ∨
    (r.searchedWith f).regress seeds (seeds.all fun e => e.2.gaussianOnly) = .ok none
  sums : u.peakMap.map (fun e => e.2.sum4) = (r.fallbackSums f).map some
  summationOnly : ∀ e ∈ u.peakMap, e.2.hypermet = none
  background : u.background = r.initBackground.background

/-- The seed fit read on another region with the same peaks and background. -/
theorem SeedFit.congr {seeds ordered : List (Nat × Hypermet)} {fitted : List (Option Hypermet)}
    {bg' : Background} {r u₀ u : Region} (h : SeedFit r seeds ordered fitted bg' u₀)
    (hpm : u.peakMap = u₀.peakMap) (hb : u.background = u₀.background) :
    SeedFit r seeds ordered fitted bg' u :=
  { h with
    background := hb.trans h.background
    hypermet := fun i g => by rw [hpm]; exact h.hypermet i g
    shaped := fun e he => h.shaped e (hpm ▸ he) }

/-- The summation fallback read on another region with the same peaks and background. -/
theorem SumFallback.congr {f : Finder} {seeds : List (Nat × Hypermet)} {r u₀ u : Region}
    (h : SumFallback r f seeds u₀) (hpm : u.peakMap = u₀.peakMap)
    (hb : u.background = u₀.background) : SumFallback r f seeds u :=
  { h with
    sums := by rw [hpm]; exact h.sums
    summationOnly := fun e he => h.summationOnly e (hpm ▸ he)
    background := hb.trans h.background }

/-- What an automatic fit of `r`, with the counter at `n`, recorded under "Autofit" at `u`: its
search `f` found candidates, the acceptable ones gave the seeds `seeds`, and `u` holds the peaks of the seed fit or of the summation fallback, drawn as fitted, with the edge
windows and the summation background of `r`, and one snapshot more, made current. -/
structure AutoFitRecord (r : Region) (n : Nat) (f : Finder) (seeds : List (Nat × Hypermet))
    (u : Region) : Prop where
  candidates : Candidates r n f seeds
  way : (∃ ordered fitted bg', SeedFit r seeds ordered fitted bg' u) ∨ SumFallback r f seeds u
  phase : u.phase = .fitted
  peaks : u.peakMap ≠ []
  lb : u.lb = r.lb
  rb : u.rb = r.rb
  sum4Background : u.sum4Background = r.sum4Background
  history : ∃ snap : Snapshot, u.history = r.history.push snap ∧ snap.description = "Autofit"
  currentFit : u.currentFit = r.history.size

/-- What an automatic fit of `r`, with the counter at `n`, answering `o`, leaves at `t`. A region
without data is left as it is and the answer is `false`. Otherwise the answer, when there is
one, says whether `t` holds a peak; an answer `false` leaves `t` without peaks, drawn as
searched, with the edge windows, the history and the current fit of `r`, and the backgrounds the
edges give; any other outcome, `true` or a failure, comes after the fit was recorded with its
peaks (`AutoFitRecord`) and continued from the residual (`Continued`), and leaves `t` fitted,
with a peak, and with the edge windows and the summation background of `r`. -/
structure AutoFitted (r : Region) (n : Nat) (o : Outcome Bool) (t : Region) : Prop where
  idle : r.phase = .empty → o = .ok false ∧ t = r
  answer : r.phase ≠ .empty → ∀ b, o = .ok b → (b = true ↔ t.peakMap ≠ [])
  unfound : r.phase ≠ .empty → o = .ok false → t.peakMap = [] ∧ t.phase = .searched ∧
    t.lb = r.lb ∧ t.rb = r.rb ∧ t.history = r.history ∧ t.currentFit = r.currentFit ∧
    t.background = r.initBackground.background ∧ t.sum4Background = r.sum4Background
  found : o ≠ .ok false → ∃ f seeds u m, AutoFitRecord r n f seeds u ∧
    Continued r.settings u m o t ∧ t.phase = .fitted ∧ t.peakMap ≠ [] ∧ t.lb = r.lb ∧
    t.rb = r.rb ∧ t.sum4Background = r.sum4Background

/-- The region an automatic fit of `r` has prepared before it is drawn, with the counter at `m`:
the seed fit or the summation fallback from its search, in the frame of the invariant and of
`r`, with the history and current fit of `r`; without peaks, it has the regression background
the edges give. -/
structure Prepared (r : Region) (n : Nat) (f : Finder) (seeds : List (Nat × Hypermet)) (m : Nat)
    (u₀ : Region) : Prop where
  candidates : Candidates r n f seeds
  way : (∃ ordered fitted bg', SeedFit r seeds ordered fitted bg' u₀) ∨ SumFallback r f seeds u₀
  wf : Wf r.settings m u₀
  frame : SameFrame r u₀
  history : u₀.history = r.history
  currentFit : u₀.currentFit = r.currentFit
  unfitted : u₀.peakMap = [] → u₀.background = r.initBackground.background

/-- Drawing and recording a prepared region, and going on from the residual, ends the automatic
fit as `AutoFitted` says. -/
theorem Prepared.finish {n m : Nat} {f : Finder} {seeds : List (Nat × Hypermet)} {r u₀ : Region}
    (hp : Prepared r n f seeds m u₀) (hne : r.phase ≠ .empty) (i : Bool) :
    RegionM.Runs (u₀.finishAutoFit r.settings i) m fun res _ => AutoFitted r n res.1 res.2 := by
  refine .mono (finishAutoFit_runs hp.wf i) fun res k _ ⟨hnil, hpeaks⟩ => ?_
  obtain ⟨o, t⟩ := res
  dsimp only at hnil hpeaks ⊢
  by_cases hu : u₀.peakMap = []
  · -- nothing to record: the answer is `false`
    obtain ⟨rfl, htpm, htph, hfr, hth, htc, htb⟩ := hnil hu
    refine ⟨fun h => absurd h hne, fun _ b hb => ?_, fun _ _ => ?_, fun h => absurd rfl h⟩
    · cases hb
      simp [htpm]
    · exact ⟨htpm, htph, hfr.lb.trans hp.frame.lb, hfr.rb.trans hp.frame.rb,
        hth.trans hp.history, htc.trans hp.currentFit, htb.trans (hp.unfitted hu),
        hfr.sum4Background.trans hp.frame.sum4Background⟩
  · -- recorded with its peaks, then continued from the residual
    obtain ⟨u, hrec, hcont⟩ := hpeaks hu
    obtain ⟨hanswer, k', m', hchain, -⟩ := id hcont
    have hwfu : Wf r.settings m u := hp.wf.of_eq hrec.frame.settings hrec.frame.x hrec.peakMap
    have hupeaks : u.peakMap ≠ [] := by rw [hrec.peakMap]; exact hu
    -- the region the fit ends with is the recorded one, or one a kept peak left
    have hend : SameFrame u t ∧ t.phase = .fitted ∧ t.peakMap ≠ [] := by
      obtain ⟨hfr, hlast⟩ := hchain.frame hwfu
      rcases Nat.eq_zero_or_pos k' with rfl | hpos
      · obtain ⟨rfl, -⟩ := hchain.zero
        exact ⟨hfr, hrec.phase, hupeaks⟩
      · exact ⟨hfr, hlast hpos⟩
    obtain ⟨hfr, htph, htpm⟩ := hend
    have hframe : SameFrame r t := (hp.frame.trans hrec.frame).trans hfr
    have hway : (∃ ordered fitted bg', SeedFit r seeds ordered fitted bg' u) ∨
        SumFallback r f seeds u := by
      rcases hp.way with ⟨ordered, fitted, bg', hs⟩ | hs
      · exact .inl ⟨ordered, fitted, bg', hs.congr hrec.peakMap hrec.background⟩
      · exact .inr (hs.congr hrec.peakMap hrec.background)
    have hrecord : AutoFitRecord r n f seeds u :=
      { candidates := hp.candidates
        way := hway
        phase := hrec.phase
        peaks := hupeaks
        lb := hrec.frame.lb.trans hp.frame.lb
        rb := hrec.frame.rb.trans hp.frame.rb
        sum4Background := hrec.frame.sum4Background.trans hp.frame.sum4Background
        history := by
          obtain ⟨snap, hh, hd⟩ := hrec.history
          exact ⟨snap, by rw [hh, hp.history], hd⟩
        currentFit := by rw [hrec.currentFit, hp.history] }
    refine ⟨fun h => absurd h hne, fun _ b hb => ?_, fun _ hb => absurd hb hanswer,
      fun _ => ⟨f, seeds, u, m, hrecord, hcont, htph, htpm, hframe.lb, hframe.rb,
        hframe.sum4Background⟩⟩
    subst hb
    cases b
    · exact absurd rfl hanswer
    · simp [htpm]

/-! ## The automatic fit -/

section AutoFit

variable {n : Nat} {f : Finder} {seeds : List (Nat × Hypermet)} {r u₀ : Region}

/-- The test before the regression: there are seeds and the settings allow a regression. -/
theorem regression_gate {b : Bool} : (!seeds.isEmpty && !b) = true ↔ seeds ≠ [] ∧ b = false := by
  cases seeds <;> cases b <;> simp

/-- The region searched is in the frame of the invariant, without peaks. -/
theorem Wf.searchedWith (hwf : Wf r.settings n r) (hx : f.x = r.finder.x) (k : Nat) :
    Wf r.settings k (r.searchedWith f) where
  settings := searchedWith_settings
  bins := by rw [searchedWith_finder, hx]; exact hwf.bins
  ids := by rw [searchedWith_peakMap]; exact PeakIds.nil
  below := by simp

/-- A joint regression of the seeds that keeps a result prepares the seed fit: the seeds'
identities are distinct and lie below the counter, and the region searched holds no peak a seed
could meet. -/
theorem seedFit_prepared (hwf : Wf r.settings n r) (h : r.Tied) (hc : Candidates r n f seeds)
    (hx : f.x = r.finder.x) (hy : f.y = r.finder.y)
    (hallowed : r.settings.sum4Only.truthy = false)
    (ho : (r.searchedWith f).regress seeds (seeds.all fun e => e.2.gaussianOnly) =
      .ok (some u₀)) :
    Prepared r n f seeds (n + (acceptedWindows f r.initBackground.background).length) u₀ := by
  have hframe := h.searchedWith_frame hx hy
  have hnodup : (seeds.map Prod.fst).Nodup := by
    rw [hc.ids]
    exact List.nodup_range'
  have hbelow : ∀ e ∈ seeds,
      e.1 < n + (acceptedWindows f r.initBackground.background).length := fun e he => by
    have hmem : e.1 ∈ seeds.map Prod.fst := List.mem_map.mpr ⟨e, he, rfl⟩
    rw [hc.ids, List.mem_range'_1] at hmem
    exact hmem.2
  have hdisj : ∀ e ∈ seeds, ∀ q ∈ (r.searchedWith f).peakMap, q.2.sum4Only = true →
      e.1 ≠ q.1 := by
    simp
  obtain ⟨ordered, fitted, bg', hj⟩ :=
    regress_jointFit (by rw [searchedWith_peakMap]; exact PeakIds.nil) hnodup hdisj _ ho u₀ rfl
  obtain ⟨⟨hset, hpm, hb, hh, hcur⟩, -⟩ := regress_spec (hwf.searchedWith hx _) hbelow hdisj _ ho u₀ rfl
  obtain ⟨bg, hbg, hreg⟩ := hj.regress
  rw [searchedWith_background] at hbg
  rw [searchedWith_finder, searchedWith_settings, hx, hy] at hreg
  -- a Gaussian-only regression has Gaussian-only seeds
  have hgo : (seeds.all fun e => e.2.gaussianOnly) = true →
      ∀ e ∈ ordered, e.2.gaussianOnly = true :=
    fun hg e he => List.all_eq_true.mp hg e (hj.perm.mem_iff.mp he)
  have hfit : SeedFit r seeds ordered fitted bg' u₀ :=
    { allowed := hallowed
      perm := hj.perm
      regress := ⟨bg, hbg, hreg⟩
      physical := fun _ _ _ he => (regress_entry hreg hgo he).1
      background := hj.background
      hypermet := fun i g => by rw [← hframe.insideEdges]; exact hj.hypermet i g
      shaped := fun e he hnone => by
        obtain ⟨p, hp, -⟩ := hj.summation e he hnone
        simp at hp }
  exact ⟨hc, .inl ⟨ordered, fitted, bg', hfit⟩, ⟨hset.settings, hset.bins, hset.ids, hb⟩,
    hframe.trans hj.frame, hh.trans searchedWith_history, hcur.trans searchedWith_currentFit,
    fun hnil => absurd hnil hpm⟩

/-- The summation fallback, drawn and recorded, ends the automatic fit as `AutoFitted` says. -/
theorem fallback_finish (hwf : Wf r.settings n r) (h : r.Tied) (hne : r.phase ≠ .empty)
    (hc : Candidates r n f seeds) (hx : f.x = r.finder.x) (hy : f.y = r.finder.y)
    (hreason : r.settings.sum4Only.truthy = true ∨ seeds = [] ∨
      (r.searchedWith f).regress seeds (seeds.all fun e => e.2.gaussianOnly) = .ok none)
    {k : Nat} (i : Bool) :
    RegionM.Runs (do
        let t ← (r.searchedWith f).summationPeaks f
        t.finishAutoFit r.settings i) k fun res _ => AutoFitted r n res.1 res.2 := by
  have hframe := h.searchedWith_frame hx hy
  refine .bind ((summationPeaks_fallback h hx hy hwf.bins).both
    (summationPeaks_spec (hwf.searchedWith hx k))) fun u₀ m _ hu => ?_
  obtain ⟨⟨pm, rfl, hsums, hnone⟩, -, hwfu, -, -⟩ := hu
  have hprep : Prepared r n f seeds m { r.searchedWith f with peakMap := pm } :=
    ⟨hc, .inr ⟨hreason, hsums, hnone, searchedWith_background (f := f)⟩, hwfu,
      hframe.withPeaks pm, searchedWith_history (f := f), searchedWith_currentFit (f := f),
      fun _ => searchedWith_background (f := f)⟩
  exact hprep.finish hne i

/-- An automatic fit, interrupted or not, ends as `AutoFitted` says, for every region whose bins
ascend, whose peaks hold distinct identities below the counter and whose summation background is
the one its edges give: every region a run of a region's steps reaches (`Reachable.sound`,
`Reachable.tied`) and every region read from a document is one. A region with data answers
whether it ends with a peak: `false` leaves it without peaks, drawn as searched, with its edge
windows, history and current fit, and the backgrounds its edges give; `true` comes after a fresh
search found candidates and the fit recorded the seed regression or the summation fallback under
"Autofit", and after the peaks added from the residual that the settings ask for, so the region
is fitted, with its edge windows and its summation background. The fit fails only after that
record, when a number of rounds that is no whole number is refused or an addition from the residual
fails. The proof follows the fit: the search, the seeds, and the three ways out. -/
theorem auto_fit_outcome (hwf : Wf r.settings n r) (h : r.Tied) (i : Bool) :
    RegionM.Runs (r.autoFit i) n fun res _ => AutoFitted r n res.1 res.2 := by
  unfold autoFit
  dsimp only
  split
  · -- a region without data is left as it is
    rename_i hph
    have hempty : r.phase = .empty := beq_iff_eq.mp hph
    exact .pure ⟨fun _ => ⟨rfl, rfl⟩, fun hne => absurd hempty hne,
      fun hne => absurd hempty hne, fun hfalse => absurd rfl hfalse⟩
  rename_i hph
  have hne : r.phase ≠ .empty := fun hempty => hph (beq_iff_eq.mpr hempty)
  -- the search of the data, with the peaks cleared and the residual reset
  refine .liftOutcome_bind fun trial ht => ?_
  obtain ⟨c, f, hsearch, htrial⟩ := search_run trial ht
  replace htrial : trial = r.searchedWith f := htrial
  subst htrial
  simp only [initBackground_settings, initBackground_finder] at hsearch
  obtain ⟨hx, hy⟩ := Search.Finder.findPeaks_bins _ hsearch
  split
  · -- no candidate: drawn as searched, without peaks
    refine .liftOutcome_bind fun v hv => ?_
    obtain ⟨hph', hpm, hfr, hh, hcur, hb⟩ := render_phase hv
    have hframe := (h.searchedWith_frame hx hy).trans hfr
    refine .pure ⟨fun hempty => absurd hempty hne, fun _ b hans => ?_, fun _ _ => ?_,
      fun hfalse => absurd rfl hfalse⟩
    · cases hans
      simp [hpm]
    · exact ⟨hpm.trans searchedWith_peakMap, hph', hframe.lb, hframe.rb,
        hh.trans searchedWith_history, hcur.trans searchedWith_currentFit,
        hb.trans searchedWith_background, hframe.sum4Background⟩
  rename_i hcand
  rw [forIn_range_eq]
  -- every acceptable candidate window seeds a peak under an identity the counter hands out
  refine .bind (collect_runs _ (acceptsWindow f (r.searchedWith f).background)
    fun k => seedOf (windowEstimate f (r.searchedWith f).background k) r.settings)
    fun seeds k _ hseeds => ?_
  obtain ⟨hids, hshapes, rfl⟩ := hseeds
  rw [searchedWith_background] at hids hshapes ⊢
  have hc : Candidates r n f seeds :=
    ⟨⟨c, hsearch⟩, Bool.eq_false_iff.mpr hcand, hids, hshapes⟩
  split
  · -- the seeds regressed jointly, with the fallback when the regression keeps nothing
    rename_i hgate
    have hallowed := (regression_gate.mp hgate).2
    refine .liftOutcome_bind fun o ho => ?_
    rcases o with _ | u₀
    · exact fallback_finish hwf h hne hc hx hy (.inr (.inr ho)) i
    · exact (seedFit_prepared hwf h hc hx hy hallowed ho).finish hne i
  · -- summation peaks only, or no seed
    rename_i hgate
    have hreason : r.settings.sum4Only.truthy = true ∨ seeds = [] := by
      rcases Bool.eq_false_or_eq_true r.settings.sum4Only.truthy with hb | hb
      · exact .inl hb
      · exact .inr (Classical.byContradiction fun hs => hgate (regression_gate.mpr ⟨hs, hb⟩))
    exact fallback_finish hwf h hne hc hx hy (hreason.imp_right .inl) i

end AutoFit

end Region

namespace Request

open Region

/-- The region of five peaked bins with its summation peak holds a fit, and its automatic fit
ends as `Region.AutoFitted` says. -/
theorem peakedSum_auto_fit_outcome :
    Wf peakedSum.1.settings peakedSum.2 peakedSum.1 ∧ peakedSum.1.Tied ∧
      peakedSum.1.phase = .fitted ∧
      RegionM.Runs (peakedSum.1.autoFit false) peakedSum.2 fun res _ =>
        AutoFitted peakedSum.1 peakedSum.2 res.1 res.2 := by
  have hs := peakedSum_reachable.sound
  have hwf : Wf peakedSum.1.settings peakedSum.2 peakedSum.1 := ⟨rfl, hs.bins, hs.ids, hs.below⟩
  have ht := peakedSum_reachable.tied
  exact ⟨hwf, ht, by decide +kernel, auto_fit_outcome hwf ht false⟩

end Request

end GammaFit
