import GammaFit.Proofs.Region.Enclosure
import GammaFit.Proofs.Region.Backgrounds

/-!
# What a region with data represents

A region that holds bins stands for a stretch of a spectrum with two edge windows, a summation
background through them, and peaks between them (`Region.Represented`):

* both edge windows are windows of the region's own bins and counts at the indices they record,
  the left one wholly before the right one;
* the summation background is the one the two windows give;
* every peak has a result and its center lies strictly between the windows;
* the peaks by center are the region's peaks, each once, in order of their centers;
* unless the peaks await a regression, every summation integral is taken over bins strictly
  between the windows.

Every region a request reaches with bins represents them (`region_represents_data`), when the
edge windows take a whole number of samples. It rests on five invariants, each kept by every
step: the windows are in order (`Reachable.ready`), they are windows of the region's data
(`Reachable.anchored`), the summation background follows them (`Reachable.tied`), the peaks are
kept (`Reachable.enclosed`), and the peaks are up to date unless they await a regression
(`Reachable.sound`). An integral is always clamped between the windows it is taken between
(`sum4Of_between`).
-/

namespace GammaFit

open Search (Finder)

namespace Summation

variable {x y : Array Float} {left right : Int} {b : Background} {lb rb : Edge} {s : Summation}

/-- An integral records the indices of its first and last bins. -/
theorem ofCounts?_indices (h : ofCounts? x y left right b lb rb = some s) :
    (s.left : Int) = left ∧ (s.right : Int) = right := by
  obtain ⟨h0, hlr, -⟩ := ofCounts?_window h
  unfold ofCounts? at h
  split at h
  · cases h
  · cases h
    exact ⟨Int.toNat_of_nonneg h0, Int.toNat_of_nonneg (by omega)⟩

end Summation

namespace Edge

variable {f : Finder} {e l rt : Edge} {bins : List Float}

/-- A window of the data names a run of its bins, first to last. -/
theorem Spans.indices (h : e.Spans f bins) : e.first ≤ e.last ∧ e.last < f.x.size := by
  obtain ⟨-, hfl, hl, hxy, -⟩ := ofSamples?_indices h.window
  omega

/-- On ascending bins, a window that stops before another starts ends at a smaller index. -/
theorem Spans.last_lt_first (hx : Ascending f.x) {lbins rbins : List Float} (hl : l.Spans f lbins)
    (hr : rt.Spans f rbins) (hlt : l.stop < rt.start) : l.last < rt.first := by
  obtain ⟨-, -, -, -, -, -, -, hstop⟩ := ofSamples?_indices hl.window
  obtain ⟨-, -, -, -, -, -, hstart, -⟩ := ofSamples?_indices hr.window
  simp only [Int.toNat_natCast] at hstop hstart
  rw [hstop, hstart] at hlt
  exact (hx.lt_iff hl.indices.2 (Nat.lt_of_le_of_lt hr.indices.1 hr.indices.2)).mp hlt

end Edge

namespace Region

variable {r : Region} {l rt : Edge}

/-- A region with data, its edge windows, summation background and peaks as they stand for a
stretch of the spectrum. -/
structure Represented (r : Region) (l rt : Edge) : Prop where
  lb : r.lb = some l
  rb : r.rb = some rt
  lbWindow : Edge.ofSamples? r.finder.x r.finder.y l.first l.last = some l
  rbWindow : Edge.ofSamples? r.finder.x r.finder.y rt.first rt.last = some rt
  indices : l.first ≤ l.last ∧ l.last < rt.first ∧ rt.first ≤ rt.last ∧ rt.last < r.finder.x.size
  apart : l.stop < rt.start
  background : r.sum4Background = Background.summation l rt
  peaks : ∀ p ∈ r.peaks, (p.hypermet.isSome ∨ p.sum4.isSome) ∧ l.stop < p.center ∧
    p.center < rt.start
  perm : r.peaks.Perm (r.peakMap.map Prod.snd)
  ids : (r.peaks.map Peak.id).Nodup
  sorted : r.peaks.Pairwise fun a b => a.center ≤ b.center
  windows : r.phase ≠ .stale → ∀ p ∈ r.peaks, ∀ w, p.sum4 = some w →
    l.last < w.left ∧ w.left ≤ w.right ∧ w.right < rt.first

/-! ## Integrals between the edges -/

/-- Bringing a peak up to date takes its integral again. -/
theorem recomputePeak_sum4 {p q : Peak} (h : r.recomputePeak p = .ok q) :
    r.sum4Of p = .ok q.sum4 := by
  obtain ⟨s, d, hs, -, rfl⟩ := recomputePeak_eq_ok h
  exact hs

/-- Every integral a region takes lies strictly between its edge windows: around a Hypermet
center or over a peak's own window, the window is clamped to the bins between them. -/
theorem sum4Of_between (hl : r.lb = some l) (hr : r.rb = some rt) {p : Peak} {w : Summation}
    (h : r.sum4Of p = .ok (some w)) : l.last < w.left ∧ w.left ≤ w.right ∧ w.right < rt.first := by
  cases hb : r.sum4Background with
  | none =>
    cases hh : p.hypermet <;> cases hs : p.sum4 <;>
      simp [sum4Of, leftEdge, rightEdge, hh, hs, hb, hl, hr, bind, Except.bind, pure,
        Except.pure] at h
  | some b =>
    -- both integrals are taken over indices clamped between the windows
    have hclamped : ∃ left right : Int, (l.last : Int) + 1 ≤ left ∧
        right ≤ (rt.first : Int) - 1 ∧
        Summation.ofCounts? r.finder.x r.finder.y left right b l rt = some w := by
      cases hh : p.hypermet with
      | some hy =>
        simp only [sum4Of, hh, hb, hl, hr, Summation.around?, pure, Except.pure,
          Except.ok.injEq] at h
        split_ifs at h
        exact ⟨_, _, le_max_right _ _, min_le_right _ _, h⟩
      | none =>
        cases hs : p.sum4 with
        | none => simp [sum4Of, hh, hs, pure, Except.pure] at h
        | some s =>
          simp only [sum4Of, leftEdge, rightEdge, hh, hs, hb, hl, hr, bind, Except.bind, pure,
            Except.pure, Except.ok.injEq] at h
          exact ⟨_, _, le_max_right _ _, min_le_right _ _, h⟩
    obtain ⟨left, right, hleft, hright, hw⟩ := hclamped
    obtain ⟨hwl, hwr⟩ := Summation.ofCounts?_indices hw
    obtain ⟨-, hlr, -⟩ := Summation.ofCounts?_window hw
    omega

/-! ## The peaks by center -/

theorem mem_peaks {p : Peak} (hp : p ∈ r.peaks) : ∃ e ∈ r.peakMap, e.2 = p := by
  obtain ⟨e, he, rfl⟩ := List.mem_map.mp ((byCenter_perm _).mem_iff.mp hp)
  exact ⟨e, he, rfl⟩

/-- The peaks of an enclosed region lie strictly between its edge windows, each with a
result. -/
theorem Enclosed.peaks (h : r.Enclosed) (hl : r.lb = some l) (hr : r.rb = some rt) :
    ∀ p ∈ r.peaks, (p.hypermet.isSome ∨ p.sum4.isSome) ∧ l.stop < p.center ∧
      p.center < rt.start := by
  intro p hp
  obtain ⟨e, he, rfl⟩ := mem_peaks hp
  have hkept := h e he
  have hin := insideEdges_eq_ok_true_iff.mp (insideEdges_of_dropped hkept)
  simp only [between_of_edges hl hr, encloses, Bool.and_eq_true, decide_eq_true_eq] at hin
  refine ⟨?_, hin⟩
  have hres := hasResult_of_dropped hkept
  cases hh : e.2.hypermet <;> cases hs : e.2.sum4 <;> simp [hh, hs] at hres ⊢

/-- Peaks whose centers are not NaN are listed in order of their centers. -/
theorem peaks_sorted (h : ∀ p ∈ r.peaks, p.center.isNaN = false) :
    r.peaks.Pairwise fun a b => a.center ≤ b.center := by
  have hmap : ∀ p ∈ r.peakMap.map Prod.snd, p.center.isNaN = false := fun p hp =>
    h p ((byCenter_perm _).mem_iff.mpr hp)
  -- the order of exact values is total and transitive, so the merge sort lists by it
  have hsorted : List.Pairwise (fun a b => decide (a.center.units ≤ b.center.units) = true)
      ((r.peakMap.map Prod.snd).mergeSort fun a b => decide (a.center.units ≤ b.center.units)) :=
    List.pairwise_mergeSort
      (fun a b c hab hbc => by simp only [decide_eq_true_eq] at hab hbc ⊢; omega)
      (fun a b => by simp only [Bool.or_eq_true, decide_eq_true_eq]; omega) _
  rw [← byCenter_eq_units hmap] at hsorted
  -- on centers that are not NaN the order of the exact values is the order of the doubles
  refine hsorted.imp_of_mem fun ha hb hab => ?_
  simp only [decide_eq_true_eq] at hab
  exact Float.le_iff_units.mpr ⟨h _ ha, h _ hb, hab⟩

end Region

namespace Request

open Region

variable {s : Settings} {parent : Finder} {r : Region} {n : Nat}

/-- Every reachable region with bins represents them, when its edge windows take a whole number
of samples: its edge windows are windows of its own data at their indices, the left one before
the right one; its summation background is the one they give; its peaks lie strictly between
them, each with a result, listed once each in order of their centers; and unless they await a
regression every summation integral lies strictly between the windows. -/
theorem region_represents_data (hs : s.WholeEdgeSamples) (h : Reachable s parent r n)
    (hn : 0 < r.finder.x.size) : ∃ l rt, r.Represented l rt := by
  have hsound := h.sound
  have hanchored := h.anchored hs
  have henclosed := h.enclosed
  obtain ⟨l, rt, hl, hr, hlt⟩ := (h.ready hs).edges (Array.size_pos_iff.mp hn)
  obtain ⟨lbins, hls⟩ := hanchored.current.lb l hl
  obtain ⟨rbins, hrs⟩ := hanchored.current.rb rt hr
  have hpeaks := henclosed.peaks hl hr
  refine ⟨l, rt, ⟨hl, hr, hls.window, hrs.window, ?_, hlt, ?_, hpeaks, byCenter_perm _,
    hsound.ids.byCenter_nodup, ?_, ?_⟩⟩
  · exact ⟨hls.indices.1, hls.last_lt_first hsound.bins hrs hlt, hrs.indices⟩
  · rw [h.tied.current, hl, hr]
    rfl
  · exact peaks_sorted fun p hp => (Float.lt_iff_units.mp (hpeaks p hp).2.1).2.1
  · -- peaks that do not await a regression are up to date, so their integrals are the region's
    intro hstale p hp w hw
    obtain ⟨e, he, rfl⟩ := mem_peaks hp
    have hcur := (hsound.fresh hstale e he).current
    exact sum4Of_between hl hr ((recomputePeak_sum4 hcur).trans (congrArg Except.ok hw))

/-- The region of three flat bins, reached by new data, represents them. -/
theorem threeFlatBins_represents_data :
    Settings.WholeEdgeSamples { edgeSamples := .int 1 } ∧ 0 < threeFlatBins.finder.x.size ∧
      ∃ l rt, threeFlatBins.Represented l rt := by
  have hs : Settings.WholeEdgeSamples { edgeSamples := .int 1 } := by
    unfold Settings.WholeEdgeSamples
    exact ⟨fun _ => nofun, by decide⟩
  have hA : Reachable { edgeSamples := .int 1 } { x := #[0.0, 1.0, 2.0], y := #[1.0, 1.0, 1.0] }
      threeFlatBins _ := Reachable.next (Reachable.new 0) rfl (by decide)
  have hn : 0 < threeFlatBins.finder.x.size := by decide +kernel
  exact ⟨hs, hn, region_represents_data hs hA hn⟩

end Request

end GammaFit
