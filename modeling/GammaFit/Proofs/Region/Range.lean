import GammaFit.Proofs.Region.AutoFit

/-!
# The bins of a region under its operations

A region's bins are cut from the whole spectrum when its range is set, and only a change of
range cuts them again. Every other operation keeps them as they are: bringing the peaks up to
date, drawing, searching, the regressions, the summation peaks, the automatic fit with the
peaks it adds from the residual, and the edits of peaks. A change of range leaves a region with
bins, since a cut without bins is refused, and so does loading new data, since only a spectrum
is accepted.

An analysis files each region under its first bin: what keeps the bins keeps the key, and a
region with bins has a first bin that is a number.

The lemmas follow the operations as the ones of `Region.Tied` do; each takes the bins `x` the
region starts with and says that it ends with them.
-/

namespace GammaFit

open Search (Finder)

namespace Search.Finder

/-- The finder of a spectrum holds bins, since a spectrum has them. -/
theorem ofData_bins_ne {s : Settings} {x y : Array Float} :
    Outcome.Post (ofData s x y) fun res => res.1 = true → res.2.x ≠ #[] := by
  unfold ofData
  split
  · exact .pure fun h => by cases h
  · rename_i hvalid
    have hsize : (x.size != 0) = true := by
      have hxy : Spectrum.valid x y = true := by simpa using hvalid
      unfold Spectrum.valid at hxy
      simp only [Bool.and_eq_true] at hxy
      exact hxy.1.1.1.2
    refine .bind_forall fun _ => .pure fun _ hx => ?_
    have hempty : x = #[] := hx
    subst hempty
    exact absurd hsize (by decide)

end Search.Finder

namespace Region

variable {r t : Region} {x : Array Float}

/-! ## The operations that keep the bins -/

theorem recompute_bins (hx : r.finder.x = x) : Outcome.Post r.recompute fun t => t.finder.x = x := by
  intro t ht
  obtain ⟨k, -, rfl⟩ := recompute_eq_ok.mp ht
  exact hx

theorem render_bins (hx : r.finder.x = x) : Outcome.Post r.render fun t => t.finder.x = x := by
  intro t ht
  obtain ⟨g, rnd, rfl, hg, -⟩ := render_eq_ok ht
  exact hg.trans hx

theorem search_bins {sigma : Float} (hx : r.finder.x = x) :
    Outcome.Post (r.search sigma) fun t => t.finder.x = x := by
  intro t ht
  obtain ⟨f, rfl, hf, -⟩ := search_spec t ht
  exact hf.trans hx

theorem refresh_bins (hx : r.finder.x = x) (d : String) :
    Outcome.Post (r.refresh d) fun t => t.finder.x = x := by
  unfold Region.refresh
  exact .bind (recompute_bins hx) fun r₁ h₁ => .bind (render_bins h₁) fun u hu => .pure hu

theorem regress_bins {seeds : List (Nat × Hypermet)} {g : Bool} (hx : r.finder.x = x) :
    Outcome.Post (r.regress seeds g) fun o => ∀ t, o = some t → t.finder.x = x :=
  fun o ho t ht => (regress_frame o ho t ht).1.x.trans hx

theorem rebuild_bins (hx : r.finder.x = x) (d : String) :
    Outcome.Post (r.rebuild d) fun o => ∀ t, o = some t → t.finder.x = x := by
  unfold Region.rebuild
  dsimp only
  split
  · exact .pure fun _ h => by cases h
  · refine .bind (regress_bins (x := x) ?_) fun o ho => ?_
    · rw [initBackground_finder]
      exact hx
    rcases o with _ | u
    · exact .pure fun _ h => by cases h
    · exact .pure fun t ht => by
        cases ht
        exact ho u rfl

theorem refitOrRefresh_bins (hx : r.finder.x = x) (d : String) :
    Outcome.Post (r.refitOrRefresh d) fun t => t.finder.x = x := by
  unfold Region.refitOrRefresh
  refine .bind (rebuild_bins hx d) fun o ho => ?_
  rcases o with _ | t
  · exact refresh_bins hx d
  · exact .pure (ho t rfl)

theorem removePeaks_bins (hx : r.finder.x = x) {ids : List Nat} :
    Outcome.Post (r.removePeaks ids) fun res => res.2.finder.x = x := by
  unfold Region.removePeaks
  split
  · exact .pure hx
  · refine .bind (refitOrRefresh_bins ?_ _) fun t ht => .pure ht
    exact hx

theorem cullPeaks_bins (hx : r.finder.x = x) :
    Outcome.Post r.cullPeaks fun res => res.1.finder.x = x :=
  cullPeaks_filter (P := fun u => u.finder.x = x) fun _ => hx

theorem replacePeak_bins (hx : r.finder.x = x) {p : Peak} :
    Outcome.Post (r.replacePeak p) fun res => res.2.finder.x = x := by
  unfold Region.replacePeak
  split
  · exact .pure hx
  refine .bind_forall fun _ => ?_
  split
  · exact .pure hx
  · refine .bind (refresh_bins ?_ _) fun t ht => .pure ht
    exact hx

/-! ## The operations that hand out identities -/

theorem summationPeaks_bins (hx : r.finder.x = x) {f : Finder} :
    RegionM.Post (r.summationPeaks f) fun t => t.finder.x = x := by
  unfold Region.summationPeaks
  dsimp only
  rw [Std.Legacy.Range.forIn_eq_forIn_range']
  -- each pass puts in at most one peak and touches nothing else
  refine .bind (.forIn (fun t : Region => t.finder.x = x) hx fun k t ht => .bind_forall fun o => ?_)
    fun t ht => .liftOutcome (recompute_bins ht)
  split
  · exact .pure ht
  · exact .pure ht

theorem addSum4Peak_bins (hx : r.finder.x = x) {leftBin rightBin : Float} :
    RegionM.Post (r.addSum4Peak leftBin rightBin) fun res => res.2.finder.x = x := by
  unfold Region.addSum4Peak
  refine .bind_forall fun o => ?_
  split
  · refine .bind (.liftOutcome (refresh_bins ?_ _)) fun t ht => .pure ht
    exact hx
  · exact .pure hx

theorem addFromResid_bins (hx : r.finder.x = x) {hint : Option Float} :
    RegionM.Post (r.addFromResid hint) fun o => ∀ t, o = some t → t.finder.x = x :=
  fun n o n' hrun t ht => (addFromResid_frame n o n' hrun t ht).1.x.trans hx

theorem refineResid_bins (hx : r.finder.x = x) {i : Bool} {q : Float} (rounds : Nat) :
    RegionM.Post (r.refineResid i q rounds) fun res => res.2.finder.x = x := by
  induction rounds generalizing r q with
  | zero => exact .pure hx
  | succ rounds ih =>
    rw [Region.refineResid]
    split
    · exact .pure hx
    refine .bind (.attempt (addFromResid_bins hx)) fun o ho => ?_
    rcases o with e | _ | trial
    · exact .pure hx
    · exact .pure hx
    dsimp only
    split
    · exact .bind (ih (ho _ rfl trial rfl)) fun res hres => .pure hres
    · exact .pure hx

theorem iterativeFit_bins (hx : r.finder.x = x) {i : Bool} :
    RegionM.Post (r.iterativeFit i) fun res => res.2.finder.x = x := by
  unfold Region.iterativeFit
  dsimp only
  split
  · exact .pure hx
  split
  · exact .pure hx
  split
  · exact .pure hx
  · exact refineResid_bins hx _

theorem finishAutoFit_bins (hx : r.finder.x = x) {s : Settings} {i : Bool} :
    RegionM.Post (r.finishAutoFit s i) fun res => res.2.finder.x = x := by
  unfold Region.finishAutoFit
  dsimp only
  split
  · exact .bind (.liftOutcome (render_bins hx)) fun t ht => .pure ht
  · refine .bind (.liftOutcome (render_bins hx)) fun t ht => ?_
    split
    · exact .bind (iterativeFit_bins (r := t.saveCurrentFit "Autofit") ht) fun res hres =>
        .pure hres
    · exact .pure ht

/-- An automatic fit searches the region's own data and fits over it, whatever way it ends. -/
theorem autoFit_bins (hx : r.finder.x = x) {i : Bool} :
    RegionM.Post (r.autoFit i) fun res => res.2.finder.x = x := by
  unfold Region.autoFit
  dsimp only
  split
  · exact .pure hx
  refine .bind (.liftOutcome (search_bins (by simpa using hx))) fun trial htrial => ?_
  split
  · exact .bind (.liftOutcome (render_bins htrial)) fun t ht => .pure ht
  refine .bind_forall fun seeds => ?_
  -- the fallback to summation peaks over the candidate windows
  have hsum : RegionM.Post (do
      let t ← trial.summationPeaks trial.finder
      t.finishAutoFit r.settings i) fun res => res.2.finder.x = x :=
    .bind (summationPeaks_bins htrial) fun t ht => finishAutoFit_bins ht
  split
  · refine .bind (.liftOutcome (regress_bins htrial)) fun o ho => ?_
    rcases o with _ | t
    · exact hsum
    · exact .bind (.pure (ho t rfl)) fun u hu => finishAutoFit_bins hu
  · exact hsum

/-! ## The changes of range -/

/-- A new range is refused unless its cut holds a bin. -/
theorem setRange_bins {parent : Finder} {left right : Float} :
    Outcome.Post (r.setRange parent left right) fun o => ∀ t, o = some t → t.finder.x ≠ #[] := by
  unfold setRange
  dsimp only
  split
  · exact .pure fun _ h => by cases h
  split
  · exact .pure fun _ h => by cases h
  refine .bind_forall fun f => ?_
  split
  · exact .pure fun _ h => by cases h
  · rename_i hne
    refine .pure fun t ht => ?_
    cases ht
    exact fun h => hne (by rw [show f.x = #[] from h]; rfl)

theorem setEdges_bins (lbBins rbBins : Float × Float) :
    (r.setEdges lbBins rbBins).2.finder.x = r.finder.x := by
  unfold setEdges
  split
  · split
    · rfl
    · dsimp only
      split <;> simp [cullWithin]
  · rfl

theorem applyEdges_bins (hr : r.finder.x ≠ #[]) {parent : Finder} {lbBins rbBins : Float × Float}
    {d : String} :
    Outcome.Post (r.applyEdges parent lbBins rbBins d) fun res => res.2.finder.x ≠ #[] := by
  unfold applyEdges
  refine .bind setRange_bins fun o ho => ?_
  rcases o with _ | t
  · exact .pure hr
  dsimp only
  split
  · exact .pure hr
  · refine .bind (refitOrRefresh_bins (setEdges_bins (r := t) lbBins rbBins) d) fun u hu => ?_
    exact .pure fun h => ho t rfl (hu.symm.trans h)

theorem adjustLB_bins (hr : r.finder.x ≠ #[]) {parent : Finder} {left right : Float} :
    Outcome.Post (r.adjustLB parent left right) fun res => res.2.finder.x ≠ #[] := by
  unfold adjustLB
  split
  · exact .pure hr
  · split
    · split
      · exact .pure hr
      · exact applyEdges_bins hr
    · exact .pure hr

theorem adjustRB_bins (hr : r.finder.x ≠ #[]) {parent : Finder} {left right : Float} :
    Outcome.Post (r.adjustRB parent left right) fun res => res.2.finder.x ≠ #[] := by
  unfold adjustRB
  split
  · exact .pure hr
  · split
    · split
      · exact .pure hr
      · exact applyEdges_bins hr
    · exact .pure hr

theorem adjustBounds_bins (hr : r.finder.x ≠ #[]) {parent : Finder} {left right : Float} :
    Outcome.Post (r.adjustBounds parent left right) fun res => res.2.finder.x ≠ #[] := by
  unfold adjustBounds
  split
  · exact .pure hr
  · refine .bind setRange_bins fun o ho => ?_
    rcases o with _ | t
    · exact .pure hr
    · refine .bind defaultEdges_spec fun t₁ ⟨l, rt, ht₁⟩ => ?_
      subst ht₁
      refine .bind (cullPeaks_bins (x := t.finder.x) (by simp)) fun res hres => ?_
      refine .bind (refitOrRefresh_bins (r := { res.1 with phase := .stale }) (x := t.finder.x) hres _)
        fun u hu => ?_
      exact .pure fun h => ho t rfl (hu.symm.trans h)

/-- Adding a peak keeps the bins inside the range, and beyond it widens the range to a cut
that holds bins. -/
theorem addPeak_bins (hr : r.finder.x ≠ #[]) {parent : Finder} {leftBin rightBin : Float}
    {i : Bool} :
    RegionM.Post (r.addPeak parent leftBin rightBin i) fun res => res.2.finder.x ≠ #[] := by
  unfold Region.addPeak
  dsimp only
  split
  · exact .pure hr
  split
  · exact .pure hr
  split
  · -- inside the range
    refine .bind (addFromResid_bins rfl) fun o ho => ?_
    rcases o with _ | t
    · exact (addSum4Peak_bins rfl).mono fun res hres h => hr (hres.symm.trans h)
    · exact .pure fun h => hr ((ho t rfl).symm.trans h)
  -- beyond the range: the range cut again, then the bins stay
  refine .bind (.liftOutcome setRange_bins) fun o ho => ?_
  rcases o with _ | t
  · exact .pure hr
  have ht := ho t rfl
  refine .bind (.liftOutcome defaultEdges_spec) fun t₁ ⟨l, rt, ht₁⟩ => ?_
  subst ht₁
  refine .bind (.liftOutcome (cullPeaks_bins (x := t.finder.x) (by simp))) fun res hres => ?_
  refine .bind (.liftOutcome (recompute_bins hres)) fun t₂ h₂ => ?_
  refine .bind (.liftOutcome (render_bins h₂)) fun t₃ h₃ => ?_
  refine .bind (addFromResid_bins h₃) fun o ho' => ?_
  rcases o with _ | u
  · refine .bind (autoFit_bins h₃) fun res hres => .bind_forall fun ok => ?_
    split
    · exact .pure fun h => ht (hres.symm.trans h)
    · exact .pure hr
  · exact .pure fun h => ht ((ho' u rfl).symm.trans h)

/-! ## New data -/

/-- New data that is taken holds bins. -/
theorem setData_bins {x y : Array Float} {minBin maxBin : Float} :
    Except.Post (r.setData x y minBin maxBin) (fun o => ∀ t, o = some t → t.finder.x ≠ #[])
      fun _ => True := by
  unfold setData
  dsimp only
  split
  · exact .pure fun _ h => by cases h
  split
  · exact .pure fun _ h => by cases h
  refine .bind (.mapError Finder.ofData_bins_ne fun _ => trivial) fun res hres => ?_
  split
  · exact .pure fun _ h => by cases h
  rename_i hok
  have hf : res.2.x ≠ #[] := hres (by simpa using hok)
  refine .bind (.mapError defaultEdges_spec fun _ => trivial) fun r₂ ⟨l, rt, hr₂⟩ => ?_
  subst hr₂
  refine .bind (.mapError (search_bins (x := res.2.x) (by simp)) fun _ => trivial)
    fun r₃ h₃ => ?_
  refine .bind (.mapError (render_bins (x := res.2.x) h₃) fun _ => trivial) fun u hu => ?_
  exact .pure fun t ht => by
    cases ht
    rw [hu]
    exact hf

/-! ## The first bin -/

/-- Regions with the same bins have the same first bin. -/
theorem left_of_bins (h : t.finder.x = r.finder.x) : t.left = r.left := by
  unfold left
  rw [h]

/-- The first bin of a region with ascending bins, when it has bins, is a number: it equals
itself. -/
theorem left_beq_self (hx : Ascending r.finder.x) (hr : r.finder.x ≠ #[]) :
    (r.left == r.left) = true := by
  have hpos : 0 < r.finder.x.size := Array.size_pos_iff.mpr hr
  have hleft : r.left = r.finder.x.getD 0 0.0 := by
    unfold left
    rw [if_neg (by simpa using hr)]
  rw [hleft]
  exact Float.beq_self (hx.not_nan 0 hpos)

end Region

end GammaFit
