import GammaFit.Proofs.Region.Reachable

/-!
# Peak identities under edits

A region hands out new peak identities only through its counter. Every edit of a reachable
region keeps identities it had, or takes ones the counter hands out during the call:

* regressing again, taking peaks out, replacing a peak and moving an edge or the range
  introduce no identity, and taking peaks out keeps none of those it names;
* a summation peak put in takes the counter's value at the call, an identity the region did not
  hold and the only new one, and is kept; in a region that is not stale every other peak is
  kept too;
* a peak from the residual leaves no new identity but the counter's value at the call, which
  the region did not hold; the joint regression may drop the new peak and keep the others, so
  that identity need not be held. Adding peaks from the residual leaves only identities handed
  out during the call.

A replaced peak keeps its identity when the new peak has a Hypermet shape, or is the region's own
peak while the region is not stale. Nothing more holds: once the edges have moved under a
summation peak (the region is stale), its window clamped between the new edges may hold no bin,
and a replacement by that very peak drops it.
-/

namespace GammaFit

open Search (Finder)

namespace Region

variable {r t : Region}

@[simp] theorem contains_iff_mem {i : Nat} : r.contains i = true ↔ i ∈ r.peakMap.map Prod.fst :=
  any_key_iff

theorem contains_of_subset (h : t.peakMap.map Prod.fst ⊆ r.peakMap.map Prod.fst) {i : Nat}
    (hi : t.contains i = true) : r.contains i = true :=
  contains_iff_mem.mpr (h (contains_iff_mem.mp hi))

/-- How the edits of `r` treat peak identities when the counter stands at `n`. -/
structure EditIdentities (r : Region) (n : Nat) : Prop where
  rebuild : ∀ d t, r.rebuild d = .ok (some t) → ∀ i, t.contains i → r.contains i
  removePeaks : ∀ (ids : List Nat) t, r.removePeaks ids = .ok (true, t) →
    ∀ i, t.contains i → r.contains i ∧ i ∉ ids
  replacePeak : ∀ p t, r.replacePeak p = .ok (true, t) → (∀ i, t.contains i → r.contains i) ∧
    (p.hypermet.isSome ∨ r.phase ≠ .stale ∧ p ∈ r.peaks → t.contains p.id)
  adjustLB : ∀ (g : Finder) lo hi t, r.adjustLB g lo hi = .ok (true, t) →
    ∀ i, t.contains i → r.contains i
  adjustRB : ∀ (g : Finder) lo hi t, r.adjustRB g lo hi = .ok (true, t) →
    ∀ i, t.contains i → r.contains i
  adjustBounds : ∀ (g : Finder) lo hi t, r.adjustBounds g lo hi = .ok (true, t) →
    ∀ i, t.contains i → r.contains i
  addSum4Peak : ∀ lo hi t n', ((r.addSum4Peak lo hi).run.run n).run = (.ok (true, t), n') →
    r.contains n = false ∧ t.contains n ∧ (∀ i, t.contains i → r.contains i ∨ i = n) ∧
      (r.phase ≠ .stale → ∀ i, r.contains i → t.contains i)
  addFromResid : ∀ hint t n', ((r.addFromResid hint).run.run n).run = (.ok (some t), n') →
    r.contains n = false ∧ ∀ i, t.contains i → r.contains i ∨ i = n
  iterativeFit : ∀ stop res n', ((r.iterativeFit stop).run.run n).run = (.ok res, n') →
    ∀ i, res.2.contains i → r.contains i ∨ n ≤ i ∧ i < n'

variable {s : Settings} {n : Nat}

/-- The counter's value was never handed out to a peak of a sound region. -/
theorem Sound.not_contains (h : Sound s n r) : r.contains n = false :=
  Bool.eq_false_iff.mpr fun hn => Nat.lt_irrefl n (h.below n (contains_iff_mem.mp hn))

/-- A sound region treats identities as `EditIdentities` says: each part is read off the
specification of the edit. -/
theorem Sound.editIdentities (h : Sound s n r) : EditIdentities r n where
  rebuild d t ht i := contains_of_subset (rebuild_spec h.toWf d _ ht t rfl).2
  removePeaks ids t ht i hi := by
    obtain ⟨hr, hnot⟩ := (removePeaks_spec h.toWf _ ht).2 rfl i (contains_iff_mem.mp hi)
    exact ⟨contains_iff_mem.mpr hr, by simpa using hnot⟩
  replacePeak p t ht := by
    obtain ⟨-, hsub, hkeep⟩ := replacePeak_spec h.toWf _ ht
    refine ⟨fun i => contains_of_subset hsub, fun hp => contains_iff_mem.mpr (hkeep rfl ?_)⟩
    exact hp.imp_right fun ⟨hph, hp⟩ => ⟨h.fresh hph, hp⟩
  adjustLB g lo hi t ht i := contains_of_subset (adjustLB_spec h.toWf _ ht).2
  adjustRB g lo hi t ht i := contains_of_subset (adjustRB_spec h.toWf _ ht).2
  adjustBounds g lo hi t ht i := contains_of_subset (adjustBounds_spec h.toWf _ ht).2
  addSum4Peak lo hi t n' hrun := by
    obtain ⟨-, hfrom, hkept⟩ := (addSum4Peak_spec h.toWf _ _ hrun).2 _ rfl
    obtain ⟨hn, hold⟩ := hkept rfl
    refine ⟨h.not_contains, contains_iff_mem.mpr hn, fun i hi => ?_, fun hph i hi => ?_⟩
    · exact (hfrom i (contains_iff_mem.mp hi)).imp_left contains_iff_mem.mpr
    · exact contains_iff_mem.mpr (hold (h.fresh hph) (contains_iff_mem.mp hi))
  addFromResid hint t n' hrun := ⟨h.not_contains, fun i hi =>
    ((((addFromResid_spec h.toWf _ _ hrun).2 _ rfl) t rfl).2.1 i
      (contains_iff_mem.mp hi)).imp_left contains_iff_mem.mpr⟩
  iterativeFit stop res n' hrun i hi := by
    obtain ⟨hstep, -, hfrom⟩ := (iterativeFit_spec h.toWf _ _ hrun).2 _ rfl
    have hmem := contains_iff_mem.mp hi
    -- a new identity was handed out during the call, so it lies below the counter it left
    exact (hfrom i hmem).imp contains_iff_mem.mpr fun hle => ⟨hle, hstep.wf.below i hmem⟩

end Region

namespace Request

variable {s : Settings} {parent : Finder} {r : Region} {n : Nat}

/-- Every reachable region treats peak identities as `Region.EditIdentities` says: edits keep
the identities they had, a summation peak or a peak from the residual takes the identity the
counter hands out at the call, and a replaced peak keeps its identity when the new peak has a
Hypermet shape or is the region's own peak while the region is not stale. -/
theorem edits_keep_peak_identities (h : Reachable s parent r n) : r.EditIdentities n :=
  h.sound.editIdentities

/-- The region of five peaked bins with its summation peak holds identity one, and treats
identities as `Region.EditIdentities` says. -/
theorem peakedSum_edit_identities :
    Reachable oneSampleEdges fivePeakedBins peakedSum.1 peakedSum.2 ∧
      peakedSum.1.peakMap.map Prod.fst = [1] ∧ peakedSum.1.EditIdentities peakedSum.2 :=
  ⟨peakedSum_reachable, by decide +kernel, edits_keep_peak_identities peakedSum_reachable⟩

end Request

end GammaFit
