import GammaFit.Proofs.Region.Invariant

/-!
# Fitting keeps the invariant

The fitting operations hand out peak identities from the counter, so their specifications
follow the counter (`RegionM.Runs`). Each new identity is the counter itself, which lies above
every identity in use, so a seed added from the residual never takes the place of a peak already
there, and the regression it feeds leaves a fitted region with peaks.

* `addFromResid` records a settled region (`Saves`);
* `iterativeFit` repeats it, and what it returns is a step of the invariant that stays in the
  recorded state whenever it started in one;
* `autoFit` regresses the seeds of a search or falls back to summation peaks, records the result
  when it has peaks, and goes on with `iterativeFit`.
-/

namespace GammaFit

namespace Region

variable {s : Settings} {n : Nat} {r t : Region}

/-- A search of the residual records candidates in the finder and changes nothing else. -/
theorem search_spec {sigma : Float} :
    Outcome.Post (r.search sigma) fun t => ∃ f, t = { r with finder := f } ∧ f.x = r.finder.x ∧
      f.y = r.finder.y := by
  unfold search
  refine .bind Search.Finder.findPeaks_bins fun ⟨_, f⟩ ⟨hx, hy⟩ => .pure ⟨f, rfl, hx, hy⟩

theorem Wf.search {sigma : Float} (h : Wf s n r) :
    Outcome.Post (r.search sigma) fun t => Wf s n t ∧ t.peakMap = r.peakMap ∧
      t.history = r.history ∧ t.parametric = r.parametric := by
  refine fun t ht => ?_
  obtain ⟨f, rfl, hx, -⟩ := search_spec t ht
  exact ⟨⟨h.settings, hx ▸ h.bins, h.ids, h.below⟩, rfl, rfl, rfl⟩

/-- A new summation peak over a window takes the identity the counter hands out, and bringing
it up to date keeps it: its window lies between the edges and its centroid between them. -/
theorem summationPeakAt_spec {left right : Int} (hx : Ascending r.finder.x) :
    RegionM.Runs (r.summationPeakAt left right) n fun o k => ∀ p, o = some p →
      p.id = n ∧ k = n + 1 ∧ ∀ q, r.recomputePeak p = .ok q → r.dropped q = .ok false := by
  unfold summationPeakAt
  refine .liftOutcome_bind fun l hl => .liftOutcome_bind fun rt hr => ?_
  rw [leftEdge_eq_ok] at hl
  rw [rightEdge_eq_ok] at hr
  split
  · rename_i b hb
    dsimp only
    split
    · rename_i s hw
      split
      · rename_i hin
        refine .bind (.nextPeakId (Q := fun i k => i = n ∧ k = n + 1) ⟨rfl, rfl⟩)
          fun i k _ ⟨hi, hk⟩ => .pure fun p hp => ?_
        cases hp
        exact ⟨hi, hk, fun q hq => dropped_of_window hx hb hl hr (le_max_right _ _)
          (min_le_right _ _) hw (by rw [insideEdges_of_edges hl hr, hin]) hq⟩
      · exact .pure fun _ h => nomatch h
    · exact .pure fun _ h => nomatch h
  · exact .pure fun _ h => nomatch h

/-- The candidate loop of a search of the residual hands out no identity. -/
theorem runs_of_pure_branches {β : Type} {f : Nat → β → RegionM (ForInStep β)}
    (hf : ∀ x b, ∃ step, f x b = pure step) (xs : List Nat) (init : β) :
    RegionM.Runs (ForIn.forIn xs init f) n fun _ k => k = n :=
  .forIn (fun _ k => k = n) rfl fun x b k _ hk => by
    obtain ⟨step, hstep⟩ := hf x b
    rw [hstep]
    exact .pure hk

/-- A peak added from the residual is recorded as a settled region, under its own description:
the seed takes the identity the counter hands out when the call starts, above every identity in
use, and the region holds no other new identity. -/
theorem addFromResid_spec {hint : Option Float} (hwf : Wf s n r) :
    RegionM.Runs (r.addFromResid hint) n fun o k => ∀ t, o = some t → Saves s k r t ∧
      (∀ i ∈ t.peakMap.map Prod.fst, i ∈ r.peakMap.map Prod.fst ∨ i = n) ∧
      ∃ u : Region, u.history = r.history ∧ t = u.saveCurrentFit "Added from residual" := by
  unfold addFromResid
  dsimp only
  split
  · exact .pure fun _ h => nomatch h
  · refine .liftOutcome_bind fun trial ht => ?_
    obtain ⟨htrial, hpm, hhist, _⟩ := hwf.search trial ht
    rw [Std.Legacy.Range.forIn_eq_forIn_range']
    -- choosing a candidate hands out nothing, so the seed's identity is the counter at the call
    refine .bind (runs_of_pure_branches (fun x b => ?_) _ _) fun cands k' _ hk' => ?_
    · split
      · exact ⟨_, rfl⟩
      · split
        · exact ⟨_, rfl⟩
        · exact ⟨_, rfl⟩
    subst k'
    split
    · rename_i g _
      refine .bind (.nextPeakId (Q := fun i k'' => i = n ∧ k'' = n + 1) ⟨rfl, rfl⟩)
        fun id k'' _ ⟨hid, hk''⟩ => ?_
      subst id k''
      obtain ⟨hmem, hdisj⟩ := parametric_seeds hwf
      have hnew : ∀ q ∈ trial.peakMap, q.1 ≠ n := fun q hq heq =>
        Nat.lt_irrefl n (heq ▸ hwf.below q.1 (List.mem_map_of_mem (hpm ▸ hq)))
      refine .liftOutcome_bind fun o ho => ?_
      have hreg := regress_spec (htrial.mono (Nat.le_succ n)) (fun e he => ?_)
        (fun e he q hq hsum => ?_) o ho
      · rcases o with _ | u
        · exact .pure fun _ h => nomatch h
        · obtain ⟨⟨hu, -, hubelow, huhist, -⟩, hfrom⟩ := hreg u rfl
          refine .pure fun t ht => ?_
          cases ht
          refine ⟨⟨u, _, hu, hubelow, huhist.trans hhist, rfl⟩, fun i hi => ?_,
            u, huhist.trans hhist, rfl⟩
          rw [saveCurrentFit_peakMap] at hi
          rcases hfrom i hi with hs | hr
          · rw [List.map_append, List.mem_append] at hs
            rcases hs with hs | hs
            · obtain ⟨e, he, rfl⟩ := List.mem_map.mp hs
              exact .inl (hmem e he)
            · exact .inr (List.mem_singleton.mp hs)
          · exact .inl (hpm ▸ hr)
      · rcases List.mem_append.mp he with he | he
        · exact Nat.lt_succ_of_lt (hwf.below _ (hmem e he))
        · rw [List.mem_singleton.mp he]
          exact Nat.lt_succ_self _
      · rcases List.mem_append.mp he with he | he
        · exact hdisj e he q (hpm ▸ hq) hsum
        · rw [List.mem_singleton.mp he]
          exact (hnew q hq).symm
    · exact .pure fun _ h => nomatch h

/-- The summation fallback puts in summation peaks under identities the counter hands out and
brings them up to date: only the peaks change, and they end up to date. -/
theorem summationPeaks_spec {f : Search.Finder} (hwf : Wf s n r) :
    RegionM.Runs (r.summationPeaks f) n fun t k =>
      (∃ m, t = { r with peakMap := m }) ∧ Wf s k t ∧ Fresh t ∧ IdsFrom r n t := by
  unfold summationPeaks
  dsimp only
  rw [Std.Legacy.Range.forIn_eq_forIn_range']
  -- the loop changes only the peaks, each new one under the identity the counter hands out
  refine .bind (.forIn (fun t k => (∃ m, t = { r with peakMap := m }) ∧ Wf s k t ∧ IdsFrom r n t)
    ⟨⟨_, rfl⟩, hwf, .refl r n⟩ ?_) fun t k _ ⟨⟨m, ht⟩, hwft, hids⟩ => ?_
  · intro x t k hk ⟨⟨m, ht⟩, hwft, hids⟩
    subst ht
    refine .bind (summationPeakAt_spec hwft.bins) fun o k' hk' ho => ?_
    split
    · rename_i p
      obtain ⟨hid, hk'', -⟩ := ho p rfl
      exact .pure ⟨⟨_, rfl⟩, (hwft.mono hk').insertPeak (by omega), hids.insertPeak (by omega)⟩
    · exact .pure ⟨⟨m, rfl⟩, hwft.mono hk', hids⟩
  · subst ht
    refine .liftOutcome fun t' h => ?_
    obtain ⟨m', rfl, hm', hsub, hfresh⟩ := recompute_spec hwft.bins hwft.ids t' h
    exact ⟨⟨m', rfl⟩, ⟨hwft.settings, hwft.bins, hm', fun i hi => hwft.below i (hsub.subset hi)⟩,
      hfresh, fun i hi => hids i (hsub.subset hi)⟩

/-- Peaks added from the residual one after another: a step of the invariant, in the recorded
state whenever it started in one, whose new identities the counter handed out. -/
theorem refineResid_spec {i : Bool} {q : Float} (h : Wf s n r) (rounds : Nat) :
    RegionM.Runs (r.refineResid i q rounds) n fun res k => Step s r k res.2 ∧
      (Recorded r → Recorded res.2) ∧ IdsFrom r n res.2 := by
  induction rounds generalizing r q n with
  | zero => exact .pure ⟨.refl h, id, .refl r n⟩
  | succ rounds ih =>
    rw [refineResid]
    split
    · exact .pure ⟨.refl h, id, .refl r n⟩
    refine .bind (.attempt (addFromResid_spec h)) fun o k hk ho => ?_
    rcases o with e | _ | trial
    · exact .pure ⟨.refl (h.mono hk), id, .refl r n⟩
    · exact .pure ⟨.refl (h.mono hk), id, .refl r n⟩
    -- an addition records a settled region, and the additions after it are steps from there
    obtain ⟨hsaves, hfrom, -⟩ := ho _ rfl trial rfl
    obtain ⟨hstep, hrec⟩ := hsaves.step
    dsimp only
    split
    · refine .bind (ih hstep.wf) fun res k' hk' ⟨hstep', hrec', hids'⟩ => ?_
      exact .pure ⟨hstep.then_recorded hstep' hk' (hrec' hrec), fun _ => hrec' hrec,
        (IdsFrom.of_eq_or hfrom).trans hids' hk⟩
    · exact .pure ⟨.refl (h.mono hk), id, .refl r n⟩

/-- Adding peaks from the residual while R² improves is a step of the invariant, which ends in
the state it recorded last whenever it started in one: each accepted peak is recorded, and a
refused one is dropped with the copy it was added to. Every new identity is one the counter
handed out during the loop. -/
theorem iterativeFit_spec {i : Bool} (h : Wf s n r) :
    RegionM.Runs (r.iterativeFit i) n fun res k => Step s r k res.2 ∧
      (Recorded r → Recorded res.2) ∧ IdsFrom r n res.2 := by
  unfold iterativeFit
  dsimp only
  split
  · exact .pure ⟨.refl h, id, .refl r n⟩
  split
  · exact .pure ⟨.refl h, id, .refl r n⟩
  split
  · exact .pure ⟨.refl h, id, .refl r n⟩
  · exact refineResid_spec h _

/-- The end of an automatic fit, from a region whose peaks are up to date and whose history is
the one of `r`: a step from `r`, which records the region and ends recorded when it has
peaks, and whose new identities the counter handed out. -/
theorem finishAutoFit_spec {i : Bool} (hwf : Wf s n t) (hf : Fresh t)
    (hh : t.history = r.history) (hc : t.currentFit = r.currentFit) :
    RegionM.Runs (t.finishAutoFit s i) n fun res k => Step s r k res.2 ∧
      (res.1 = .ok true → r.history.size < res.2.history.size) ∧ IdsFrom t n res.2 := by
  unfold finishAutoFit
  dsimp only
  split
  · -- no peak: drawn as searched, nothing recorded
    rename_i hempty
    refine .liftOutcome_bind fun u hu => ?_
    obtain ⟨hstep, -, hpm, -⟩ := render_step hwf hf hh hc (by rw [if_pos hempty]) u hu
    exact .pure ⟨hstep, nofun, .of_subset (fun _ hi => by rwa [hpm] at hi) n⟩
  · -- drawn as fitted and recorded, then peaks from the residual if the settings ask for it
    rename_i hne
    refine .liftOutcome_bind fun u hu => ?_
    obtain ⟨-, -, hpm, hsaves⟩ := render_step hwf hf hh hc (by rw [if_neg hne]) u hu
    obtain ⟨hstep, hrec⟩ := (hsaves "Autofit").step
    have hids : IdsFrom t n (u.saveCurrentFit "Autofit") :=
      .of_subset (fun _ hi => by rwa [saveCurrentFit_peakMap, hpm] at hi) n
    split
    · refine .bind (iterativeFit_spec hstep.wf) fun res k' hk' ⟨hstep', hrec', hids'⟩ => ?_
      exact .pure ⟨hstep.then_recorded hstep' hk' (hrec' hrec),
        fun _ => Nat.lt_of_lt_of_le (hsaves _).size_lt hstep'.size_le, hids.trans hids' (Nat.le_refl n)⟩
    · exact .pure ⟨hstep, fun _ => (hsaves _).size_lt, hids⟩

/-- An automatic fit is a step of the invariant, and one that ends with a peak has recorded it.
The search starts from the region without peaks, so no seed can meet a summation peak in the
regression, and every identity it ends with, seed or summation peak, comes from the counter. -/
theorem autoFit_spec {i : Bool} (h : Wf s n r) :
    RegionM.Runs (r.autoFit i) n fun res k => Step s r k res.2 ∧
      (res.1 = .ok true → r.history.size < res.2.history.size) ∧ IdsFrom r n res.2 := by
  unfold autoFit
  dsimp only
  split
  · exact .pure ⟨.refl h, nofun, .refl r n⟩
  · -- the search of the data with the peaks cleared and the residual reset
    refine .bind (P := fun t _ => Wf s n t ∧ t.peakMap = [] ∧ t.history = r.history ∧
        t.currentFit = r.currentFit) (.liftOutcome fun t ht => ?_)
      fun trial k hk ⟨htrial, hpm, hhist, hcur⟩ => ?_
    · obtain ⟨f, rfl, hx, -⟩ := search_spec t ht
      refine ⟨⟨?_, ?_, ?_, ?_⟩, ?_, ?_, ?_⟩
      all_goals simp only [initBackground_settings, initBackground_finder, initBackground_peakMap,
        initBackground_history, initBackground_currentFit] at hx ⊢
      exacts [h.settings, hx ▸ h.bins, PeakIds.nil, fun _ hi => nomatch hi]
    have hfresh : Fresh trial := fun e he => by
      rw [hpm] at he
      cases he
    split
    · -- no candidates: drawn as searched
      refine .liftOutcome_bind fun u hu => ?_
      obtain ⟨hstep, -, hupm, -⟩ :=
        render_step (htrial.mono hk) hfresh hhist hcur (by rw [hpm]; rfl) u hu
      exact .pure ⟨hstep, nofun,
        .of_empty hpm (.of_subset (fun _ hi => by rwa [hupm] at hi) n)⟩
    rw [Std.Legacy.Range.forIn_eq_forIn_range']
    -- every seed takes an identity the counter hands out
    refine .bind (.forIn (fun seeds k => ∀ e ∈ seeds, n ≤ e.1 ∧ e.1 < k) (fun _ h => nomatch h) ?_)
      fun seeds k' hk' hseeds => ?_
    · intro x seeds k₁ hk₁ hseeds
      split_ifs
      · refine .bind (.nextPeakId (Q := fun id k' => id = k₁ ∧ k' = k₁ + 1) ⟨rfl, rfl⟩)
          fun id k' _ ⟨hid, hk'⟩ => ?_
        refine .pure fun e he => ?_
        rcases List.mem_append.mp he with he | he
        · have := hseeds e he
          omega
        · rw [List.mem_singleton.mp he]
          omega
      · exact .pure hseeds
    rw [h.settings]
    -- the fallback to summation peaks, from any counter past the seeds
    have hsum : ∀ k'', k' ≤ k'' → RegionM.Runs (do
        let t ← trial.summationPeaks trial.finder
        t.finishAutoFit s i) k'' fun res k => Step s r k res.2 ∧
          (res.1 = .ok true → r.history.size < res.2.history.size) ∧ IdsFrom r n res.2 :=
      fun k'' hk'' =>
      .bind (summationPeaks_spec (htrial.mono (Nat.le_trans (Nat.le_trans hk hk') hk'')))
        fun t k₃ hk₃ ⟨⟨m, ht⟩, hwf', hf', hids⟩ => by
          subst ht
          refine .mono (finishAutoFit_spec hwf' hf' hhist hcur)
            fun res k₄ _ ⟨hstep, hgrow, hids'⟩ => ⟨hstep, hgrow, ?_⟩
          exact .of_empty hpm ((hids.trans hids' hk₃).mono (by omega))
    split
    · -- the seeds regressed jointly, with the fallback when the regression gives nothing
      have hnone : ∀ e ∈ seeds, ∀ q ∈ trial.peakMap, q.2.sum4Only = true → e.1 ≠ q.1 :=
        fun _ _ q hq => by
          rw [hpm] at hq
          cases hq
      refine .liftOutcome_bind fun o ho => ?_
      have hreg := regress_spec (htrial.mono (Nat.le_trans hk hk')) (fun e he => (hseeds e he).2)
        hnone o ho
      rcases o with _ | t
      · exact hsum k' (Nat.le_refl k')
      · obtain ⟨⟨ht, -, hbelow, hth, htc⟩, hfrom⟩ := hreg t rfl
        -- every identity of the regressed region is a seed's, handed out from `n` on
        have hids : IdsFrom r n t := fun j hj => by
          rcases hfrom j hj with hs | htr
          · obtain ⟨e, he, rfl⟩ := List.mem_map.mp hs
            exact .inr (hseeds e he).1
          · rw [hpm] at htr
            cases htr
        refine .mono (finishAutoFit_spec ⟨ht.settings, ht.bins, ht.ids, hbelow⟩ ht.fresh
            (hth.trans hhist) (htc.trans hcur))
          fun res k₃ hk₃ ⟨hstep, hgrow, hids'⟩ => ⟨hstep, hgrow, hids.trans hids' (by omega)⟩
    · exact hsum k' (Nat.le_refl k')

end Region

end GammaFit
