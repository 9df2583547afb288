import GammaFit.Proofs.Region.Reachable

/-!
# Adding peaks from the residual while R² improves

`iterativeFit` adds peaks found in the residual one after another, and keeps each only when it
raises R² strictly to a finite value. Its run is described here completely:

* `Refined r n k t m`: `k` peaks added and kept one after another lead from `r` to `t`, the
  counter going from `n` to `m`;
* `Ends`: how the loop ends after them, with the count when no round is left, it is interrupted
  or the next addition is refused, and with the failure of the next addition otherwise;
* `ResidHistory`: what the kept peaks leave in the history, one snapshot each under their
  description, whose R² values rise strictly from the R² the loop started from.

A failure of an addition comes back as a value, so the loop always returns and its
specification is total (`RegionM.Returns`).
-/

namespace GammaFit

namespace Region

variable {s : Settings} {n : Nat} {r t u : Region}

/-! ## Kept peaks -/

/-- The region `t` raises the R² of `r` strictly, to a finite value. -/
def Gains (r t : Region) : Prop :=
  t.rsq.isNaN = false ∧ t.rsq.isInf = false ∧ r.rsq < t.rsq

instance : Decidable (Gains r t) := inferInstanceAs (Decidable (_ ∧ _ ∧ _))

/-- The test the loop makes on a trial is `Gains`. -/
theorem gains_iff : (!t.rsq.isNaN && !t.rsq.isInf && decide (t.rsq > r.rsq)) = true ↔
    Gains r t := by
  simp [Gains, and_assoc]

/-- A peak added from the residual to `r`, with the counter at `n`, and kept: the addition gives
`t` with the counter at `m`, and `t` raises R² strictly to a finite value. -/
structure ResidGain (r : Region) (n : Nat) (t : Region) (m : Nat) : Prop where
  run : ((r.addFromResid none).run.run n).run = (.ok (some t), m)
  gains : Gains r t

/-- `Refined r n k t m`: `k` peaks added from the residual and kept one after another lead from
`r`, the counter at `n`, to `t`, the counter at `m`. -/
inductive Refined : Region → Nat → Nat → Region → Nat → Prop
  | done (r : Region) (n : Nat) : Refined r n 0 r n
  | gain {r u t : Region} {n k j m : Nat} :
      ResidGain r n u k → Refined u k j t m → Refined r n (j + 1) t m

/-- How the loop ends after keeping `k` peaks, at `t` with the counter at `m` and `left` rounds
left, answering `o` with the counter at `n'`. It answers the count `k` when no round is left or
it is interrupted, and when the next addition gives no peak or one that does not raise R²; it
answers the failure of the next addition otherwise. -/
def Ends (i : Bool) (left : Nat) (t : Region) (m k : Nat) (o : Outcome Nat) (n' : Nat) : Prop :=
  o = .ok k ∧ ((left = 0 ∨ i = true) ∧ n' = m ∨
    i = false ∧ 0 < left ∧ ∃ res, ((t.addFromResid none).run.run m).run = (.ok res, n') ∧
      ∀ u, res = some u → ¬ Gains t u) ∨
  ∃ e, o = .error e ∧ i = false ∧ 0 < left ∧ ((t.addFromResid none).run.run m).run = (.error e, n')

/-- What adding at most `rounds` peaks from the residual to `r`, with the counter at `n`, ends
with: the answer `o`, the region `t` and the counter at `n'`. Some `k ≤ rounds` peaks were
kept, leaving the counter at `m`, and the loop ended there as `Ends` says. -/
def Refines (r : Region) (n : Nat) (i : Bool) (rounds : Nat) (o : Outcome Nat) (t : Region)
    (n' : Nat) : Prop :=
  ∃ k m, Refined r n k t m ∧ k ≤ rounds ∧ Ends i (rounds - k) t m k o n'

/-- The loop stops at once: no peak kept, and the answer is `0`. -/
theorem Refines.stop {i : Bool} {rounds : Nat} {n' : Nat} (h : Ends i rounds r n 0 o n') :
    Refines r n i rounds o r n' :=
  ⟨0, n, .done r n, Nat.zero_le _, h⟩

/-- A kept peak followed by a run of the loop from it is a run of the loop with one round
more, answering one more. -/
theorem Refines.gain {i : Bool} {rounds k n' : Nat} {o : Outcome Nat} (hg : ResidGain r n u k)
    (h : Refines u k i rounds o t n') :
    Refines r n i (rounds + 1) (o.map (· + 1)) t n' := by
  obtain ⟨j, m, hchain, hle, hends⟩ := h
  refine ⟨j + 1, m, .gain hg hchain, Nat.succ_le_succ hle, ?_⟩
  rw [Nat.add_sub_add_right]
  rcases hends with ⟨rfl, hstop⟩ | ⟨e, rfl, hi, hleft, hfail⟩
  · exact .inl ⟨rfl, hstop⟩
  · exact .inr ⟨e, rfl, hi, hleft, hfail⟩

/-- Adding at most `rounds` peaks from the residual to a region in the frame of the invariant
returns, and ends as `Refines` says; an interruption stops it before any attempt. The induction
is on the rounds, as the loop's recursion is. -/
theorem refineResid_returns {i : Bool} (h : Wf s n r) (rounds : Nat) :
    RegionM.Returns (r.refineResid i r.rsq rounds) n fun res n' =>
      Refines r n i rounds res.1 res.2 n' ∧ (i = true → res.1 = .ok 0 ∧ res.2 = r ∧ n' = n) := by
  induction rounds generalizing r n with
  | zero => exact .pure ⟨.stop (.inl ⟨rfl, .inl ⟨.inl rfl, rfl⟩⟩), fun _ => ⟨rfl, rfl, rfl⟩⟩
  | succ rounds ih =>
    rw [refineResid]
    split
    · rename_i hi
      exact .pure ⟨.stop (.inl ⟨rfl, .inl ⟨.inr hi, rfl⟩⟩), fun _ => ⟨rfl, rfl, rfl⟩⟩
    rename_i hi
    have hi' : i = false := Bool.eq_false_iff.mpr hi
    have hleft : 0 < rounds + 1 := Nat.succ_pos rounds
    refine .bind (.attempt (addFromResid_spec h)) fun o k hk hrun => ?_
    rcases o with e | _ | trial
    · exact .pure ⟨.stop (.inr ⟨e, rfl, hi', hleft, hrun⟩), fun hi'' => absurd hi'' hi⟩
    · exact .pure ⟨.stop (.inl ⟨rfl, .inr ⟨hi', hleft, none, hrun, fun _ hu => (Option.some_ne_none _ hu.symm).elim⟩⟩),
        fun hi'' => absurd hi'' hi⟩
    -- an addition that gives a peak is kept when it raises R², and the loop goes on from it
    have hwf : Wf s k trial := ((addFromResid_spec h _ _ hrun).2 _ rfl trial rfl).1.step.1.wf
    dsimp only
    split
    · rename_i hgain
      refine .bind (ih hwf) fun res n' _ hres => .pure ⟨?_, fun hi'' => absurd hi'' hi⟩
      exact Refines.gain ⟨hrun, gains_iff.mp hgain⟩ hres.1
    · rename_i hgain
      refine .pure ⟨.stop (.inl ⟨rfl, .inr ⟨hi', hleft, some trial, hrun, ?_⟩⟩),
        fun hi'' => absurd hi'' hi⟩
      rintro u ⟨⟩ hu
      exact hgain (gains_iff.mpr hu)

/-! ## The whole loop -/

/-- A region the loop works on: fitted, not restricted to summation peaks, with a Hypermet peak
and a finite R². -/
def Refinable (r : Region) : Prop :=
  r.phase = .fitted ∧ r.settings.sum4Only.truthy = false ∧ r.parametric ≠ [] ∧
    r.rsq.isNaN = false ∧ r.rsq.isInf = false

/-- The two tests the loop makes before it starts are `Refinable`. -/
theorem refinable_iff :
    r.Refinable ↔ (r.phase != .fitted || r.settings.sum4Only.truthy || r.parametric.isEmpty) =
      false ∧ (r.rsq.isNaN || r.rsq.isInf) = false := by
  simp [Refinable, and_assoc]

/-- Adding peaks from the residual while R² improves, on a region in the frame of the invariant,
returns. A region that is not `Refinable` answers `0` and is left as it was; on a refinable one a
number of rounds that cannot count the loop is refused, and any other bounds the loop, which
ends as `Refines` says. -/
theorem iterativeFit_returns (i : Bool) (h : Wf s n r) :
    RegionM.Returns (r.iterativeFit i) n fun res n' =>
      (¬ r.Refinable → res.1 = .ok 0 ∧ res.2 = r ∧ n' = n) ∧
      (r.Refinable → ∀ e, Settings.rounds r.settings.residMaxIterations = .error e →
        res.1 = .error e ∧ res.2 = r ∧ n' = n) ∧
      (r.Refinable → ∀ rounds, Settings.rounds r.settings.residMaxIterations = .ok rounds →
        Refines r n i rounds res.1 res.2 n' ∧ (i = true → res.1 = .ok 0 ∧ res.2 = r ∧ n' = n)) := by
  unfold iterativeFit
  dsimp only
  split
  · rename_i hg
    have hnot : ¬ r.Refinable := fun hr => by
      rw [(refinable_iff.mp hr).1] at hg
      cases hg
    exact .pure ⟨fun _ => ⟨rfl, rfl, rfl⟩, fun hr => absurd hr hnot, fun hr => absurd hr hnot⟩
  rename_i hg₁
  split
  · rename_i hg
    have hnot : ¬ r.Refinable := fun hr => by
      rw [(refinable_iff.mp hr).2] at hg
      cases hg
    exact .pure ⟨fun _ => ⟨rfl, rfl, rfl⟩, fun hr => absurd hr hnot, fun hr => absurd hr hnot⟩
  rename_i hg₂
  have hr : r.Refinable :=
    refinable_iff.mpr ⟨Bool.eq_false_iff.mpr hg₁, Bool.eq_false_iff.mpr hg₂⟩
  split
  · rename_i e he
    refine .pure ⟨fun hn => absurd hr hn, fun _ e' he' => ?_, fun _ k hk => ?_⟩
    · rw [he] at he'
      cases he'
      exact ⟨rfl, rfl, rfl⟩
    · rw [he] at hk
      cases hk
  · rename_i rounds he
    refine .mono (refineResid_returns h rounds) fun res n' _ hres =>
      ⟨fun hn => absurd hr hn, fun _ e he' => ?_, fun _ k hk => ?_⟩
    · rw [he] at he'
      cases he'
    · rw [he] at hk
      cases hk
      exact hres

/-! ## The history -/

/-- What `k` kept peaks leave in the history of `t`, started from `r`: the history of `r`
followed by `k` snapshots described "Added from residual", whose R² values are finite and rise
strictly from the R² of `r`. The last of them is current when there is one, and with none `t` is
`r`. -/
structure ResidHistory (r : Region) (k : Nat) (t : Region) : Prop where
  added : ∃ snaps : List Snapshot, t.history.toList = r.history.toList ++ snaps ∧
    snaps.length = k ∧
    (∀ p ∈ snaps, p.description = "Added from residual" ∧ p.rsq.isNaN = false ∧
      p.rsq.isInf = false) ∧
    List.IsChain (· < ·) (r.rsq :: snaps.map Snapshot.rsq)
  current : 0 < k → t.currentFit + 1 = t.history.size
  same : k = 0 → t = r

theorem ResidHistory.none (r : Region) : ResidHistory r 0 r :=
  ⟨⟨[], by simp, rfl, by simp, .singleton _⟩, fun h => absurd h (Nat.lt_irrefl 0), fun _ => rfl⟩

/-- A kept peak is recorded after the history of the region it was added to, under its own
description and with its R², and made current; the region stays in the frame of the
invariant. -/
theorem ResidGain.recorded {k : Nat} (hwf : Wf s n r) (h : ResidGain r n u k) :
    ∃ p : Snapshot, u.history.toList = r.history.toList ++ [p] ∧
      p.description = "Added from residual" ∧ p.rsq = u.rsq ∧ u.currentFit = r.history.size ∧
      Wf s k u := by
  obtain ⟨hsaves, -, w, hw, rfl⟩ := (addFromResid_spec hwf _ _ h.run).2 _ rfl _ rfl
  refine ⟨w.snapshot "Added from residual", ?_, rfl, rfl, ?_, hsaves.step.1.wf⟩
  · rw [saveCurrentFit_history, Array.toList_push, hw]
  · rw [saveCurrentFit_currentFit, hw]

/-- The peaks kept one after another leave their snapshots in the history, as `ResidHistory`
says. The induction follows the kept peaks, and the frame of the invariant goes along. -/
theorem Refined.history {k m : Nat} (hwf : Wf s n r) (h : Refined r n k t m) :
    ResidHistory r k t := by
  induction h generalizing s with
  | done r n => exact .none r
  | @gain r u t n k j m hg _ ih =>
    obtain ⟨p, hhist, hdesc, hrsq, hcur, hwf'⟩ := hg.recorded hwf
    obtain ⟨⟨snaps, hsnaps, hlen, hdescs, hchain⟩, hcur', hsame⟩ := ih hwf'
    refine ⟨⟨p :: snaps, ?_, by simp [hlen], ?_, ?_⟩, fun _ => ?_, fun hj => nomatch hj⟩
    · rw [hsnaps, hhist, List.append_assoc, List.singleton_append]
    · rintro q (_ | ⟨_, hq⟩)
      · exact ⟨hdesc, hrsq ▸ hg.gains.1, hrsq ▸ hg.gains.2.1⟩
      · exact hdescs q hq
    · rw [List.map_cons, hrsq]
      exact .cons_cons hg.gains.2.2 hchain
    · -- the last kept peak is current: the one just recorded, or a later one
      rcases Nat.eq_zero_or_pos j with rfl | hpos
      · have hsize : u.history.size = r.history.size + 1 := by
          rw [← Array.length_toList, hhist, List.length_append, List.length_singleton,
            Array.length_toList]
        obtain rfl := hsame rfl
        rw [hcur, hsize]
        push_cast
        rfl
      · exact hcur' hpos

/-! ## What the loop answers -/

/-- What adding peaks from the residual while R² improves answers on `r`, with the counter at
`n` and the interruption `i`: the answer `o`, the region `t` and the counter at `n'`. A region
that is not `Refinable` answers `0` and is left as it was; on a refinable one a number of rounds
that is no whole number (a double, a text, a list) is refused with the failure of reading it and
the region left as it was, and a whole number bounds the peaks kept, the loop ending as `Refines`
says. An interruption, with a number of rounds that can count the loop, answers `0` and leaves
the region as it was. The history gains one snapshot for each peak
kept, and a count answered is the number of peaks kept. -/
structure IterativeOutcome (r : Region) (n : Nat) (i : Bool) (o : Outcome Nat) (t : Region)
    (n' : Nat) : Prop where
  idle : ¬ r.Refinable → o = .ok 0 ∧ t = r ∧ n' = n
  refused : r.Refinable → ∀ e, Settings.rounds r.settings.residMaxIterations = .error e →
    o = .error e ∧ t = r ∧ n' = n
  refines : r.Refinable → ∀ k, Settings.rounds r.settings.residMaxIterations = .ok k →
    Refines r n i k o t n'
  interrupted : i = true → ∀ k, Settings.rounds r.settings.residMaxIterations = .ok k →
    o = .ok 0 ∧ t = r ∧ n' = n
  history : ∃ k, ResidHistory r k t ∧ ∀ j, o = .ok j → j = k

end Region

namespace Request

open Region

variable {s : Settings} {parent : Search.Finder} {r : Region} {n : Nat}

/-- On every reachable region, whether interrupted or not, adding peaks from the residual while
R² improves returns, and answers as `Region.IterativeOutcome` says: nothing changes on a region
that is not fitted, is restricted to summation peaks, or has no Hypermet peak or no finite R²; a
number of rounds that is no whole number is refused; otherwise the loop keeps at most that many peaks,
each raising R² strictly to a finite value and recorded in the history, and stops at the first
addition that fails, gives no peak or does not raise R². -/
theorem iterative_fit_keeps_improving_peaks (h : Reachable s parent r n) (i : Bool) :
    ∃ o t n', ((r.iterativeFit i).run.run n).run = (.ok (o, t), n') ∧
      IterativeOutcome r n i o t n' := by
  have hwf := h.sound.toWf
  obtain ⟨⟨o, t⟩, n', hrun, -, hidle, hrefused, hloop⟩ := iterativeFit_returns i hwf
  dsimp only at hidle hrefused hloop
  refine ⟨o, t, n', hrun, hidle, hrefused, fun hr k hk => (hloop hr k hk).1, fun hi k hk => ?_, ?_⟩
  · by_cases hr : r.Refinable
    · exact (hloop hr k hk).2 hi
    · exact hidle hr
  -- the history: the region as it was, or the peaks the loop kept
  by_cases hr : r.Refinable
  · rcases hrounds : Settings.rounds r.settings.residMaxIterations with e | k
    · obtain ⟨ho, ht, -⟩ := hrefused hr e hrounds
      rw [ht]
      exact ⟨0, .none r, fun j hj => by rw [ho] at hj; cases hj⟩
    · obtain ⟨k, m, hchain, -, hends⟩ := (hloop hr k hrounds).1
      refine ⟨k, hchain.history hwf, fun j hj => ?_⟩
      rcases hends with ⟨hok, -⟩ | ⟨e, he, -⟩
      · rw [hok] at hj
        cases hj
        rfl
      · rw [he] at hj
        cases hj
  · obtain ⟨ho, ht, -⟩ := hidle hr
    rw [ht]
    exact ⟨0, .none r, fun j hj => by rw [ho] at hj; cases hj; rfl⟩

/-- The Gaussian loaded into the region of the five peaked bins is reached, and adding peaks from
its residual returns as `Region.IterativeOutcome` says. -/
theorem middleGaussian_iterative_fit :
    ∃ t, peakedData.1.loadFit [middleGaussian] none "Loaded" = .ok t ∧
      Reachable oneSampleEdges fivePeakedBins t 2 ∧
      ∃ o u n', ((t.iterativeFit false).run.run 2).run = (.ok (o, u), n') ∧
        IterativeOutcome t 2 false o u n' := by
  obtain ⟨t, hload, hr, -⟩ := middleGaussian_loaded
  exact ⟨t, hload, hr, iterative_fit_keeps_improving_peaks hr false⟩

end Request

end GammaFit
