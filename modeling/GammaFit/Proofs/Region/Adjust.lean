import GammaFit.Proofs.Region.Cuts
import GammaFit.Proofs.Region.Range

/-!
# Moving the edge windows

A region's edge windows are moved by cutting the range again from the parent's spectrum and
placing the windows over the new bins. This module says exactly what the three moves answer and
leave, in terms of the bins of the parent between two values (`binsIn`), which on ascending bins
are the bins between the two binary searches (`Ascending.binsIn_eq_extract`):

* a new range is refused exactly when the parent has too few bins between its bounds for two
  edge windows and a bin between them, and is otherwise exactly those bins (`setRange_exact`);
* an edge window taken over the bins between two values is placed exactly when there is such a
  bin, and then spans them (`edgeAt_eq_none_iff`, `edgeAt_spans`);
* a window of the parent taken again over the same bins of a cut has the same statistics
  (`Edge.Of.eq_of_spans`);
* a refit keeps the bins and the windows, keeps only peaks strictly between the windows and
  records its result (`refitOrRefresh_records`).

Together they give the answers of `adjustLB`, `adjustRB` and `adjustBounds` on every region a
request reaches (`Request.edge_adjustments`). The moves answer only when the model is drawn: a
calibration that cannot be evaluated makes them fail, with no answer at all.
-/

namespace Float

variable {a b : Float}

/-- Of two numbers, the one that the other is not at most lies below it. -/
theorem lt_of_not_le (ha : a.isNaN = false) (hb : b.isNaN = false) (h : ¬b ≤ a) : a < b := by
  by_contra hnlt
  exact h ((not_lt_iff_le ha hb).mp hnlt)

end Float

namespace GammaFit

open Search (Finder)

/-! ## Bins between two values -/

/-- Whether `v` lies between `lo` and `hi`, both included. -/
def between (lo hi v : Float) : Bool := decide (lo ≤ v) && decide (v ≤ hi)

/-- The bins of `x` from `lo` to `hi`, both included, in order. -/
def binsIn (x : Array Float) (lo hi : Float) : List Float := x.toList.filter (between lo hi)

theorem mem_binsIn {x : Array Float} {lo hi v : Float} :
    v ∈ binsIn x lo hi ↔ v ∈ x.toList ∧ lo ≤ v ∧ v ≤ hi := by
  simp [binsIn, between]

/-- A bin between two values shows the lower one is at most the upper one. -/
theorem le_of_binsIn_ne_nil {x : Array Float} {lo hi : Float} (h : binsIn x lo hi ≠ []) :
    lo ≤ hi := by
  obtain ⟨v, hv⟩ := List.exists_mem_of_ne_nil _ h
  obtain ⟨-, hlo, hhi⟩ := mem_binsIn.mp hv
  exact Float.le_trans hlo hhi

/-- The bins of a run of bins between `lo` and `hi`, taken between narrower bounds, are the
bins of the whole between them. -/
theorem binsIn_of_bins {x y : Array Float} {lo hi lo' hi' : Float}
    (hy : y.toList = binsIn x lo hi) (hlo : lo ≤ lo') (hhi : hi' ≤ hi) :
    binsIn y lo' hi' = binsIn x lo' hi' := by
  unfold binsIn
  rw [hy, binsIn, List.filter_filter]
  refine List.filter_congr fun v _ => ?_
  cases hv : between lo' hi' v
  · simp
  · simp only [between, Bool.and_eq_true, decide_eq_true_eq] at hv
    simp [between, Float.le_trans hlo hv.1, Float.le_trans hv.2 hhi]

namespace Ascending

variable {x : Array Float}

/-- A run of ascending bins ascends. -/
theorem extract (h : Ascending x) (a b : Nat) : Ascending (x.extract a b) where
  not_nan i hi := by
    rw [Array.size_extract] at hi
    rw [Spectrum.getD_extract x hi]
    exact h.not_nan _ (by omega)
  lt_succ i hi := by
    rw [Array.size_extract] at hi
    rw [Spectrum.getD_extract x (by omega), Spectrum.getD_extract x hi, ← Nat.add_assoc]
    exact h.lt_succ _ (by omega)

/-- Ascending bins, listed, are strictly increasing. -/
theorem pairwise (h : Ascending x) : x.toList.Pairwise (· < ·) := by
  refine List.pairwise_iff_getElem.mpr fun i j hi hj hij => ?_
  have hi' : i < x.size := by simpa using hi
  have hj' : j < x.size := by simpa using hj
  have hlt := h.lt hij hj'
  simpa [Array.getD_eq_getD_getElem?, hi', hj'] using hlt

/-- Two bins between two values show the lower one is below the upper one. -/
theorem lt_of_two_le_length (h : Ascending x) {lo hi : Float}
    (h2 : 2 ≤ (binsIn x lo hi).length) : lo < hi := by
  have hpw : (binsIn x lo hi).Pairwise (· < ·) := h.pairwise.filter _
  rcases hbins : binsIn x lo hi with _ | ⟨v, _ | ⟨w, rest⟩⟩
  · simp [hbins] at h2
  · simp [hbins] at h2
  have hv : v ∈ binsIn x lo hi := by
    rw [hbins]
    exact List.mem_cons_self
  have hw : w ∈ binsIn x lo hi := by
    rw [hbins]
    exact List.mem_cons_of_mem _ List.mem_cons_self
  have hvw : v < w := by
    rw [hbins] at hpw
    exact List.rel_of_pairwise_cons hpw List.mem_cons_self
  exact Float.lt_of_le_of_lt (mem_binsIn.mp hv).2.1
    (Float.lt_of_lt_of_le hvw (mem_binsIn.mp hw).2.2)

end Ascending

/-- The bins at the indices `a … b - 1`, as far as there are bins, are the run from `a` to `b`. -/
theorem map_getD_range' (x : Array Float) {a b : Nat} (hb : b ≤ x.size) :
    (List.range' a (b - a)).map (x.getD · 0.0) = (x.extract a b).toList := by
  refine List.ext_getElem (by simp; omega) fun i hi _ => ?_
  simp only [List.length_map, List.length_range'] at hi
  simp [Array.getD_eq_getD_getElem?, List.getElem_range', show a + i < x.size by omega]

theorem toList_eq_map_range (x : Array Float) :
    x.toList = (List.range x.size).map (x.getD · 0.0) := by
  refine List.ext_getElem (by simp) fun i hi _ => ?_
  have hi' : i < x.size := by simpa using hi
  simp [Array.getD_eq_getD_getElem?, hi']

namespace Ascending

variable {x : Array Float}

/-- On ascending bins, the bins from `lo` to a number `hi` are those from the insertion point
before the bins not below `lo` to the one after the bins not above `hi`. -/
theorem binsIn_eq_extract (h : Ascending x) {lo hi : Float} (hhi : hi.isNaN = false) :
    binsIn x lo hi =
      (x.extract (Numeric.searchLeft x lo) (Numeric.searchRight x hi)).toList := by
  have hright := Numeric.searchRight_le_size x hi
  -- the indices of the bins between the bounds run from one search to the other
  have hidx : (List.range x.size).filter (fun k => between lo hi (x.getD k 0.0)) =
      List.range' (Numeric.searchLeft x lo)
        (Numeric.searchRight x hi - Numeric.searchLeft x lo) := by
    refine (List.pairwise_lt_range.filter _).eq_of_mem_iff List.pairwise_lt_range' fun k => ?_
    simp only [List.mem_filter, List.mem_range, List.mem_range'_1, between, Bool.and_eq_true,
      decide_eq_true_eq]
    constructor
    · rintro ⟨hk, hlo, hkhi⟩
      have := h.lt_searchRight hk hkhi
      exact ⟨h.searchLeft_le hk hlo, by omega⟩
    · rintro ⟨hlk, hkr⟩
      have hk : k < x.size := by omega
      refine ⟨hk, (h.searchLeft_spec lo hk).mp hlk, ?_⟩
      exact (Float.not_lt_iff_le hhi (h.not_nan k hk)).mp
        ((h.searchRight_spec hi hk).mp (by omega))
  rw [binsIn, toList_eq_map_range, List.filter_map]
  change ((List.range x.size).filter (fun k => between lo hi (x.getD k 0.0))).map _ = _
  rw [hidx, map_getD_range' x hright]

/-- On ascending bins, the number of bins from `lo` to a number `hi` is the distance between
the two searches. -/
theorem length_binsIn (h : Ascending x) {lo hi : Float} (hhi : hi.isNaN = false) :
    (binsIn x lo hi).length = Numeric.searchRight x hi - Numeric.searchLeft x lo := by
  rw [h.binsIn_eq_extract hhi, Array.length_toList, Array.size_extract]
  have := Numeric.searchRight_le_size x hi
  omega

/-- Runs of ascending bins holding the same bins are the same run. -/
theorem extract_inj (h : Ascending x) {a b a' b' : Nat} (hab : a ≤ b) (hb : b < x.size)
    (hab' : a' ≤ b') (hb' : b' < x.size)
    (heq : (x.extract a (b + 1)).toList = (x.extract a' (b' + 1)).toList) : a = a' ∧ b = b' := by
  have harr : x.extract a (b + 1) = x.extract a' (b' + 1) := Array.toList_inj.mp heq
  have hlen := congrArg Array.size harr
  simp only [Array.size_extract] at hlen
  -- both runs start at the same bin, so at the same index
  have hfirst := congrArg (fun arr => arr.getD 0 0.0) harr
  rw [Spectrum.getD_extract x (by omega), Spectrum.getD_extract x (by omega)] at hfirst
  simp only [Nat.add_zero] at hfirst
  have ha : a = a' := by
    rcases Nat.lt_trichotomy a a' with hlt | heq | hgt
    · exact absurd (hfirst ▸ h.lt hlt (by omega)) (Float.lt_irrefl _)
    · exact heq
    · exact absurd (hfirst ▸ h.lt hgt (by omega)) (Float.lt_irrefl _)
  omega

end Ascending

/-- A bin between two indices lies in the run of bins between them. -/
theorem getD_mem_extract {x : Array Float} {a b i : Nat} (hai : a ≤ i) (hib : i < b)
    (hb : b ≤ x.size) : x.getD i 0.0 ∈ (x.extract a b).toList := by
  have hk : i - a < (x.extract a b).size := by
    rw [Array.size_extract]
    omega
  have hmem := Array.getElem_mem_toList hk
  rw [Array.getElem_extract] at hmem
  simpa [Array.getD_eq_getD_getElem?, show i < x.size by omega,
    show a + (i - a) = i by omega] using hmem

namespace Search.Finder

variable {f parent : Finder}

/-- A cut of ascending bins ascends. -/
theorem CutOf.ascending (h : f.CutOf parent) (hasc : Ascending parent.x) : Ascending f.x := by
  obtain ⟨i, hx, -⟩ := h
  rw [hx]
  exact hasc.extract _ _

/-- A cut of a spectrum with one count per bin has one count per bin. -/
theorem CutOf.size_eq (h : f.CutOf parent) (hsize : parent.x.size = parent.y.size) :
    f.x.size = f.y.size := by
  obtain ⟨i, hx, hy⟩ := h
  have hxs := congrArg Array.size hx
  have hys := congrArg Array.size hy
  rw [Array.size_extract] at hxs hys
  omega

end Search.Finder

/-! ## Edge windows over the bins between two values -/

namespace Edge

variable {x y : Array Float} {f : Finder} {e : Edge} {bins : List Float}

/-- The window `e` spans the bins `bins` of `f`: it is the window of the spectrum of `f` at its
own indices, and the bins it covers are `bins`. -/
structure Spans (f : Finder) (e : Edge) (bins : List Float) : Prop where
  window : ofSamples? f.x f.y e.first e.last = some e
  bins : (f.x.extract e.first (e.last + 1)).toList = bins

/-- A window records the indices it was taken at, which name a run of the spectrum, and the
bins it starts and stops at. -/
theorem ofSamples?_indices {a b : Int} (h : ofSamples? x y a b = some e) :
    0 ≤ a ∧ a ≤ b ∧ b < y.size ∧ x.size = y.size ∧ e.first = a.toNat ∧ e.last = b.toNat ∧
      e.start = x.getD a.toNat 0.0 ∧ e.stop = x.getD b.toNat 0.0 := by
  unfold ofSamples? window? at h
  split_ifs at h with hbad
  cases h
  simp only [not_or, not_lt, not_le, ne_eq, not_not] at hbad
  exact ⟨hbad.2.1, hbad.2.2.2, hbad.2.2.1, hbad.1, rfl, rfl, rfl, rfl⟩

/-- A window is refused exactly when its indices do not name a run of the spectrum. -/
theorem ofSamples?_eq_none_iff (hxy : x.size = y.size) {a b : Int} :
    ofSamples? x y a b = none ↔ a < 0 ∨ b < a ∨ (y.size : Int) ≤ b := by
  unfold ofSamples? window?
  split_ifs with hbad
  · simp only [true_iff]
    omega
  · simp only [false_iff]
    omega

/-- A window taken at some indices spans the bins between them. -/
theorem Spans.of_ofSamples? {a b : Int} (h : ofSamples? f.x f.y a b = some e) :
    e.Spans f (f.x.extract a.toNat (b.toNat + 1)).toList := by
  obtain ⟨h0, hab, -, -, hfirst, hlast, -, -⟩ := ofSamples?_indices h
  have hb0 : 0 ≤ b := by omega
  refine ⟨?_, by rw [hfirst, hlast]⟩
  rw [hfirst, hlast, Int.toNat_of_nonneg h0, Int.toNat_of_nonneg hb0]
  exact h

/-- What a window spans depends only on the bins and the counts. -/
theorem Spans.of_data {g : Finder} (h : e.Spans f bins) (hx : g.x = f.x) (hy : g.y = f.y) :
    e.Spans g bins :=
  ⟨hx ▸ hy ▸ h.window, hx ▸ h.bins⟩

/-- A window starts and stops at bins it spans. -/
theorem Spans.ends_mem (h : e.Spans f bins) : e.start ∈ bins ∧ e.stop ∈ bins := by
  obtain ⟨-, hfl, hl, hxy, -, -, hstart, hstop⟩ := ofSamples?_indices h.window
  simp only [Int.toNat_natCast] at hstart hstop
  have hsize : e.last + 1 ≤ f.x.size := by omega
  rw [← h.bins, hstart, hstop]
  exact ⟨getD_mem_extract le_rfl (by omega) hsize, getD_mem_extract (by omega) (by omega) hsize⟩

/-- A window spanning the bins from `lo` to `hi` starts at or above `lo` and stops at or below
`hi`. -/
theorem Spans.between {lo hi : Float} (h : e.Spans f (binsIn y lo hi)) :
    lo ≤ e.start ∧ e.stop ≤ hi :=
  ⟨(mem_binsIn.mp h.ends_mem.1).2.1, (mem_binsIn.mp h.ends_mem.2).2.2⟩

section Of

variable {parent : Finder}

/-- A window of ascending bins spans the bins between its first and last: those from the
parent's bin at its first index to the one at its last. -/
theorem Of.binsIn_eq_extract (hasc : Ascending parent.x) (h : e.Of parent) :
    ∃ i j : Nat, i ≤ j ∧ j < parent.x.size ∧
      ofSamples? parent.x parent.y i j = some { e with first := i, last := j } ∧
      binsIn parent.x e.start e.stop = (parent.x.extract i (j + 1)).toList := by
  obtain ⟨i, j, hij⟩ := h
  obtain ⟨-, hle, hj, hxy, -, -, hstart, hstop⟩ := ofSamples?_indices hij
  simp only [Int.toNat_natCast] at hstart hstop
  have hj' : j < parent.x.size := by omega
  refine ⟨i, j, by omega, hj', hij, ?_⟩
  rw [hasc.binsIn_eq_extract (hstop ▸ hasc.not_nan j hj'), hstart, hstop,
    hasc.searchLeft_getD (by omega), hasc.searchRight_getD hj']

theorem Of.start_le_stop (hasc : Ascending parent.x) (h : e.Of parent) : e.start ≤ e.stop := by
  obtain ⟨i, j, hij, hj, hw, -⟩ := h.binsIn_eq_extract hasc
  obtain ⟨-, -, -, -, -, -, hstart, hstop⟩ := ofSamples?_indices hw
  simp only [Int.toNat_natCast] at hstart hstop
  rw [hstart, hstop]
  exact hasc.le hij hj

theorem Of.binsIn_ne_nil (hasc : Ascending parent.x) (h : e.Of parent) :
    binsIn parent.x e.start e.stop ≠ [] := by
  obtain ⟨i, j, hij, hj, -, hbins⟩ := h.binsIn_eq_extract hasc
  rw [hbins]
  exact List.ne_nil_of_mem (getD_mem_extract (le_refl i) (by omega) (by omega))

/-- A window of the parent, taken again over the same bins of a cut, has the same statistics:
only its indices differ. -/
theorem Of.eq_of_spans (hasc : Ascending parent.x) (hsize : parent.x.size = parent.y.size)
    (h : e.Of parent) {f : Finder} (hcut : f.CutOf parent) {e' : Edge}
    (hs : e'.Spans f (binsIn parent.x e.start e.stop)) :
    { e' with first := e.first, last := e.last } = e := by
  obtain ⟨i, j, hij, hj, hw, hbins⟩ := h.binsIn_eq_extract hasc
  obtain ⟨c, hx, hy⟩ := hcut
  obtain ⟨-, hfl, hl, hxy, -, -, -, -⟩ := ofSamples?_indices hs.window
  have hn : c + f.x.size ≤ parent.x.size := by
    have hsz := congrArg Array.size hx
    rw [Array.size_extract] at hsz
    omega
  -- the window of the cut is the parent's window over the same run, counted from `c`
  have hwin := hs.window
  rw [hx, hy] at hwin
  have hw' := ofSamples?_extract hsize hn hwin
  simp only [Int.toNat_natCast] at hw'
  have hrun : (parent.x.extract (c + e'.first) (c + e'.last + 1)).toList =
      (parent.x.extract i (j + 1)).toList := by
    rw [← hbins, ← hs.bins, hx, Array.extract_extract]
    congr 2
    omega
  obtain ⟨rfl, rfl⟩ := hasc.extract_inj (by omega) (by omega) hij hj hrun
  rw [hw] at hw'
  exact (congrArg (fun g => { g with first := e.first, last := e.last })
    (Option.some.inj hw')).symm

end Of

end Edge

/-! ## Edge windows of a region -/

namespace Region

variable {r : Region} {lo hi : Float}

/-- An edge window over the bins of a region from `lo` to a number `hi` is refused exactly when
the region has no bin between them. -/
theorem edgeAt_eq_none_iff (hasc : Ascending r.finder.x)
    (hsize : r.finder.x.size = r.finder.y.size) (hhi : hi.isNaN = false) :
    r.edgeAt lo hi = none ↔ binsIn r.finder.x lo hi = [] := by
  have hright := Numeric.searchRight_le_size r.finder.x hi
  unfold edgeAt
  rw [Edge.ofSamples?_eq_none_iff hsize, hasc.binsIn_eq_extract hhi, ← List.length_eq_zero_iff,
    Array.length_toList, Array.size_extract]
  omega

/-- An edge window over the bins of a region from `lo` to a number `hi` spans those bins. -/
theorem edgeAt_spans (hasc : Ascending r.finder.x) (hhi : hi.isNaN = false) {e : Edge}
    (he : r.edgeAt lo hi = some e) : e.Spans r.finder (binsIn r.finder.x lo hi) := by
  unfold edgeAt at he
  have hspans := Edge.Spans.of_ofSamples? he
  obtain ⟨-, hfl, -, -, -, -, -, -⟩ := Edge.ofSamples?_indices he
  rw [hasc.binsIn_eq_extract hhi]
  convert hspans using 3
  · simp
  · omega

/-! ## Placing the edge windows -/

/-- Edge windows that are placed are the windows over the bins asked for, over the data the
region had. -/
theorem setEdges_placed {a b : Float × Float} (h : (r.setEdges a b).1 = true) :
    ∃ l rt, r.edgeAt a.1 a.2 = some l ∧ r.edgeAt b.1 b.2 = some rt ∧
      (r.setEdges a b).2.finder = r.finder ∧ (r.setEdges a b).2.lb = some l ∧
      (r.setEdges a b).2.rb = some rt := by
  unfold setEdges at h ⊢
  rcases hl : r.edgeAt a.1 a.2 with _ | l
  · simp [hl] at h
  rcases hr : r.edgeAt b.1 b.2 with _ | rt
  · simp [hl, hr] at h
  simp only [hl, hr] at h ⊢
  split at h
  · cases h
  · rename_i hlt
    simp only [hlt]
    -- the culled region keeps the data and the windows, whether or not it is marked stale
    have hkeep : ∀ (t : Region) (c : Bool),
        (if c = true then t else { t with phase := .stale }).finder = t.finder ∧
          (if c = true then t else { t with phase := .stale }).lb = t.lb ∧
          (if c = true then t else { t with phase := .stale }).rb = t.rb := by
      intro t c
      cases c <;> exact ⟨rfl, rfl, rfl⟩
    obtain ⟨hf, hlb, hrb⟩ :=
      hkeep (({ r with lb := some l, rb := some rt } : Region).initBackground.cullWithin l rt).1 _
    exact ⟨l, rt, rfl, rfl, hf.trans (by simp [cullWithin]),
      hlb.trans (by simp [cullWithin]), hrb.trans (by simp [cullWithin])⟩

/-- Edge windows over the bins of a region from `lo₁` to `hi₁` and from `lo₂` to a number
`hi₂`, the first bounds below the second, are placed exactly when both hold a bin: the windows
are then apart. -/
theorem setEdges_fst_iff (hasc : Ascending r.finder.x) (hsize : r.finder.x.size = r.finder.y.size)
    {lo₁ hi₁ lo₂ hi₂ : Float} (hlt : hi₁ < lo₂) (hhi₂ : hi₂.isNaN = false) :
    (r.setEdges (lo₁, hi₁) (lo₂, hi₂)).1 = true ↔
      binsIn r.finder.x lo₁ hi₁ ≠ [] ∧ binsIn r.finder.x lo₂ hi₂ ≠ [] := by
  have hhi₁ : hi₁.isNaN = false := (Float.lt_iff_units.mp hlt).1
  rw [Ne, ← edgeAt_eq_none_iff hasc hsize hhi₁, Ne, ← edgeAt_eq_none_iff hasc hsize hhi₂]
  unfold setEdges
  rcases hl : r.edgeAt lo₁ hi₁ with _ | l
  · simp
  rcases hr : r.edgeAt lo₂ hi₂ with _ | rt
  · simp
  -- the left window stops at or below `hi₁`, the right one starts at or above `lo₂`
  have hl' := (edgeAt_spans hasc hhi₁ hl).between
  have hr' := (edgeAt_spans hasc hhi₂ hr).between
  have hapart : l.stop < rt.start := Float.lt_of_le_of_lt hl'.2 (Float.lt_of_lt_of_le hlt hr'.1)
  simp [hapart]

/-! ## Refitting after a move -/

/-- A refit keeps the bins, the counts and the edge windows, and ends by recording its result
under its description. -/
theorem refitOrRefresh_frame (d : String) :
    Outcome.Post (r.refitOrRefresh d) fun t => t.finder.x = r.finder.x ∧
      t.finder.y = r.finder.y ∧ t.lb = r.lb ∧ t.rb = r.rb ∧
      ∃ snap, t.history.back? = some snap ∧ snap.description = d := by
  unfold Region.refitOrRefresh
  refine .bind (P := fun o => ∀ t, o = some t → t.finder.x = r.finder.x ∧
      t.finder.y = r.finder.y ∧ t.lb = r.lb ∧ t.rb = r.rb ∧
      ∃ snap, t.history.back? = some snap ∧ snap.description = d) ?_ fun o ho => ?_
  · -- a regression keeps the frame of the region it starts from
    unfold Region.rebuild
    dsimp only
    split
    · exact .pure fun _ h => by cases h
    · refine .bind regress_frame fun o ho => ?_
      rcases o with _ | u
      · exact .pure fun _ h => by cases h
      · refine .pure fun t ht => ?_
        cases ht
        obtain ⟨hfr, -⟩ := ho u rfl
        exact ⟨hfr.x.trans (by simp), hfr.y.trans (by simp), hfr.lb.trans initBackground_lb,
          hfr.rb.trans initBackground_rb, u.snapshot d, by simp, rfl⟩
  rcases o with _ | t
  · -- accepting the peaks as they are keeps the frame too
    unfold Region.refresh
    refine .bind (P := SameFrame r) (fun r₁ h₁ => ?_) fun r₁ h₁ => ?_
    · obtain ⟨k, -, rfl⟩ := recompute_eq_ok.mp h₁
      exact ⟨rfl, rfl, rfl, rfl, rfl, rfl⟩
    refine .bind (P := SameFrame r) (fun u hu => ?_) fun u hu => .pure ?_
    · have hphase : SameFrame r₁
          { r₁ with phase := if r₁.peakMap.isEmpty then .searched else .fitted } :=
        ⟨rfl, rfl, rfl, rfl, rfl, rfl⟩
      exact (h₁.trans hphase).trans (SameFrame.of_render hu)
    · exact ⟨hu.x, hu.y, hu.lb, hu.rb, u.snapshot d, by simp, rfl⟩
  · exact .pure (ho t rfl)

/-- A refit keeps the bins, the counts and the edge windows, keeps only peaks strictly between
the windows, and adds to the history one snapshot of its result, under its description. -/
theorem refitOrRefresh_records {s : Settings} {n : Nat} (hwf : Wf s n r) (d : String) :
    Outcome.Post (r.refitOrRefresh d) fun t => t.finder.x = r.finder.x ∧
      t.finder.y = r.finder.y ∧ t.lb = r.lb ∧ t.rb = r.rb ∧
      (∀ e ∈ t.peakMap, t.insideEdges e.2.center = .ok true) ∧
      ∃ snap, t.history = r.history.push snap ∧ snap.description = d ∧ snap.Records t := by
  refine ((refitOrRefresh_frame d).and (refitOrRefresh_spec hwf d)).mono fun t ht => ?_
  obtain ⟨⟨hx, hy, hlb, hrb, snap, hback, hd⟩, ⟨u, d', hu, -, hhist, rfl⟩, -⟩ := ht
  -- the snapshot the refit ends with is the one its settled region records
  have hsnap : u.snapshot d' = snap := by
    simpa using hback
  refine ⟨hx, hy, hlb, hrb, fun e he => ?_, u.snapshot d', by simp [hhist], hsnap ▸ hd,
    ⟨rfl, rfl, rfl, rfl, rfl, rfl⟩⟩
  exact insideEdges_of_dropped (hu.fresh e he).kept

end Region

/-! ## Cutting a new range -/

namespace Search.Finder

variable {s : Settings} {f : Finder}

/-- A finder built from a spectrum holds its bins and counts. -/
theorem ofData_exact {x y : Array Float} (h : Spectrum.valid x y = true) :
    Outcome.Post (ofData s x y) fun res => res.2.x = x ∧ res.2.y = y := by
  unfold ofData
  split
  · rename_i hbad
    simp [h] at hbad
  · exact .bind_forall fun _ => .pure ⟨rfl, rfl⟩

/-- The cut of a spectrum's finder over bins it has holds exactly those bins and counts. -/
theorem cloneRange_exact (hvalid : Spectrum.valid f.x f.y = true) {first last : Int}
    (h0 : 0 ≤ first) (hfl : first ≤ last) (hl : last < f.x.size) :
    Outcome.Post (cloneRange s f first last) fun g =>
      g.x = f.x.extract first.toNat (last.toNat + 1) ∧
        g.y = f.y.extract first.toNat (last.toNat + 1) := by
  unfold cloneRange
  split
  · rename_i hbad
    simp only [Bool.or_eq_true, Array.isEmpty_iff, decide_eq_true_eq] at hbad
    rcases hbad with ((hempty | hneg) | hge) | hgt
    · simp [hempty] at hl
      omega
    all_goals omega
  · have hcut : Spectrum.valid (f.x.extract first.toNat (last.toNat + 1))
        (f.y.extract first.toNat (last.toNat + 1)) = true :=
      Spectrum.valid_extract hvalid (by omega) (by omega)
    refine .bind (ofData_exact hcut) fun res hres => .pure ?_
    simpa using hres

end Search.Finder

namespace Region

variable {parent : Finder} {r : Region}

/-- A new range over a spectrum is refused exactly when the spectrum has too few bins between
its bounds for two edge windows and a bin between them; otherwise it holds exactly those bins,
with their counts. -/
theorem setRange_exact (hvalid : Spectrum.valid parent.x parent.y = true)
    (hs : r.settings.WholeEdgeSamples) {lo hi : Float} (hhi : hi.isNaN = false) :
    Outcome.Post (r.setRange parent lo hi) fun o =>
      (o.isSome = true ↔ 2 * r.edgeSamples + 1 ≤ (binsIn parent.x lo hi).length) ∧
      ∀ t, o = some t → ∃ f : Finder, t = { r with finder := f } ∧ f.CutOf parent ∧
        f.x.toList = binsIn parent.x lo hi := by
  have hasc := Spectrum.ascending_of_valid hvalid
  have hsize := Spectrum.size_eq_of_valid hvalid
  have hk : 1 ≤ r.edgeSamples := hs.2
  have hlen : (binsIn parent.x lo hi).length =
      Numeric.searchRight parent.x hi - Numeric.searchLeft parent.x lo := hasc.length_binsIn hhi
  have hright := Numeric.searchRight_le_size parent.x hi
  unfold setRange
  dsimp only
  split
  · -- an empty spectrum, or bounds the wrong way round, hold at most one bin between them
    rename_i hbad
    have hfew : (binsIn parent.x lo hi).length ≤ 1 := by
      simp only [Bool.or_eq_true, Array.isEmpty_iff, decide_eq_true_eq] at hbad
      rcases hbad with hempty | hge
      · simp [binsIn, hempty]
      · by_contra h2
        exact Float.lt_irrefl _
          (Float.lt_of_lt_of_le (hasc.lt_of_two_le_length (by omega)) hge)
    exact .pure ⟨by simp only [Option.isSome_none, Bool.false_eq_true, false_iff]; omega,
      fun _ h => by cases h⟩
  split
  · rename_i hfew
    have hnarrow : ¬(2 * r.edgeSamples + 1 ≤ (Numeric.searchRight parent.x hi : Int) - 1 -
        Numeric.searchLeft parent.x lo + 1) := fun h => by
      rw [(tooFewBins_eq_false hs).mpr h] at hfew
      cases hfew
    exact .pure ⟨by simp only [Option.isSome_none, Bool.false_eq_true, false_iff]; omega,
      fun _ h => by cases h⟩
  · rename_i hfew
    have hwide := (tooFewBins_eq_false hs).mp (by simpa using hfew)
    refine .bind (Finder.cloneRange_exact hvalid (by omega) (by omega) (by omega))
      fun f ⟨hx, hy⟩ => ?_
    -- the cut runs from one search to the other
    have hend : ((Numeric.searchRight parent.x hi : Int) - 1).toNat + 1 =
        Numeric.searchRight parent.x hi := by omega
    simp only [Int.toNat_natCast, hend] at hx hy
    split
    · rename_i hempty
      have hnil : f.x = #[] := by simpa using hempty
      have hsz := congrArg Array.size hx
      rw [Array.size_extract, hnil, Array.size_empty] at hsz
      omega
    · refine .pure ⟨by simp only [Option.isSome_some, true_iff]; omega, fun t ht => ?_⟩
      cases ht
      exact ⟨f, rfl, Finder.cutOf_extract hsize hx hy, by rw [hx, hasc.binsIn_eq_extract hhi]⟩

/-! ## Moving the edge windows -/

/-- What moving the edge windows of `r` leaves: the bins of `parent` from `lo` to `hi` with their
counts, edge windows spanning the bins `lbBins` and `rbBins`, every peak strictly between them,
and the history of `r` with one snapshot more, of the result, described by `d`. -/
structure Reframed (parent : Finder) (r : Region) (lo hi : Float) (lbBins rbBins : List Float)
    (d : String) (t : Region) : Prop where
  cut : t.finder.CutOf parent
  bins : t.finder.x.toList = binsIn parent.x lo hi
  lb : ∃ l, t.lb = some l ∧ l.Spans t.finder lbBins
  rb : ∃ rt, t.rb = some rt ∧ rt.Spans t.finder rbBins
  inside : ∀ e ∈ t.peakMap, t.insideEdges e.2.center = .ok true
  saved : ∃ snap, t.history = r.history.push snap ∧ snap.description = d ∧ snap.Records t

section Move

variable {s : Settings} {n : Nat}

/-- Refitting a range cut from `parent`, with edge windows placed over its bins, leaves it
reframed. -/
theorem reframed_refit {t : Region} (hwf : Wf s n t) {lo hi : Float}
    (hcut : t.finder.CutOf parent) (hbins : t.finder.x.toList = binsIn parent.x lo hi)
    {lbBins rbBins : List Float} {l rt : Edge} (hl : t.lb = some l) (hls : l.Spans t.finder lbBins)
    (hr : t.rb = some rt) (hrs : rt.Spans t.finder rbBins) (hhist : t.history = r.history)
    (d : String) : Outcome.Post (t.refitOrRefresh d) (Reframed parent r lo hi lbBins rbBins d) := by
  refine (refitOrRefresh_records hwf d).mono fun u ⟨hx, hy, hlb, hrb, hin, snap, hh, hd, hrec⟩ =>
    ⟨hcut.of_data hx hy, by rw [hx]; exact hbins, ⟨l, hlb.trans hl, hls.of_data hx hy⟩,
      ⟨rt, hrb.trans hr, hrs.of_data hx hy⟩, hin, snap, by rw [hh, hhist], hd, hrec⟩

/-- Cutting the range from `lo₁` to `hi₂` again from a spectrum and placing edge windows over its
bins from `lo₁` to `hi₁` and from `lo₂` to `hi₂`, apart, succeeds exactly when the spectrum has
enough bins for the range and bins for both windows; it then leaves the region reframed, and
otherwise as it was. -/
theorem applyEdges_answer (hvalid : Spectrum.valid parent.x parent.y = true)
    (hs : r.settings.WholeEdgeSamples) (hwf : Wf s n r) {lo₁ hi₁ lo₂ hi₂ : Float}
    (h₁ : lo₁ ≤ hi₁) (hlt : hi₁ < lo₂) (h₂ : lo₂ ≤ hi₂) (d : String) :
    Outcome.Post (r.applyEdges parent (lo₁, hi₁) (lo₂, hi₂) d) fun res =>
      (res.1 = true ↔ 2 * r.edgeSamples + 1 ≤ (binsIn parent.x lo₁ hi₂).length ∧
        binsIn parent.x lo₁ hi₁ ≠ [] ∧ binsIn parent.x lo₂ hi₂ ≠ []) ∧
      (res.1 = false → res.2 = r) ∧
      (res.1 = true → Reframed parent r lo₁ hi₂ (binsIn parent.x lo₁ hi₁)
        (binsIn parent.x lo₂ hi₂) d res.2) := by
  have hasc := Spectrum.ascending_of_valid hvalid
  have hsize := Spectrum.size_eq_of_valid hvalid
  have hlo₁ : lo₁.isNaN = false := (Float.le_iff_units.mp h₁).1
  have hhi₁ : hi₁.isNaN = false := (Float.lt_iff_units.mp hlt).1
  have hhi₂ : hi₂.isNaN = false := (Float.le_iff_units.mp h₂).2.1
  unfold Region.applyEdges
  refine .bind (setRange_exact hvalid hs hhi₂) fun o ⟨hsome, ho⟩ => ?_
  rcases o with _ | t
  · refine .pure ⟨?_, fun _ => rfl, fun h => by cases h⟩
    simp only [Option.isSome_none, Bool.false_eq_true, false_iff] at hsome ⊢
    exact fun hc => hsome hc.1
  obtain ⟨f, rfl, hcut, hbins⟩ := ho _ rfl
  have hwide := hsome.mp rfl
  have hfasc : Ascending f.x := hcut.ascending hasc
  have hfsize : f.x.size = f.y.size := hcut.size_eq hsize
  -- the bins of the cut between narrower bounds are the parent's
  have hb₁ : binsIn f.x lo₁ hi₁ = binsIn parent.x lo₁ hi₁ :=
    binsIn_of_bins hbins (Float.le_refl hlo₁) (Float.le_of_lt (Float.lt_of_lt_of_le hlt h₂))
  have hb₂ : binsIn f.x lo₂ hi₂ = binsIn parent.x lo₂ hi₂ :=
    binsIn_of_bins hbins (Float.le_trans h₁ (Float.le_of_lt hlt)) (Float.le_refl hhi₂)
  have hiff : (({ r with finder := f } : Region).setEdges (lo₁, hi₁) (lo₂, hi₂)).1 = true ↔
      binsIn f.x lo₁ hi₁ ≠ [] ∧ binsIn f.x lo₂ hi₂ ≠ [] :=
    setEdges_fst_iff hfasc hfsize hlt hhi₂
  have hwf₀ : Wf s n { r with finder := f } := ⟨hwf.settings, hfasc, hwf.ids, hwf.below⟩
  obtain ⟨hwf₁, hhist₁, -⟩ := setEdges_spec hwf₀ (lo₁, hi₁) (lo₂, hi₂)
  dsimp only
  split
  · -- a window with no bin is refused
    rename_i hrefused
    have hok : (({ r with finder := f } : Region).setEdges (lo₁, hi₁) (lo₂, hi₂)).1 = false := by
      simpa using hrefused
    refine .pure ⟨?_, fun _ => rfl, fun h => by cases h⟩
    simp only [Bool.false_eq_true, false_iff]
    rw [← hb₁, ← hb₂]
    intro hc
    rw [hiff.mpr hc.2] at hok
    cases hok
  · rename_i hplaced
    have hok : (({ r with finder := f } : Region).setEdges (lo₁, hi₁) (lo₂, hi₂)).1 = true := by
      simpa using hplaced
    obtain ⟨l, rt, hl, hr, hfind, hlb, hrb⟩ := setEdges_placed hok
    have hls : l.Spans (({ r with finder := f } : Region).setEdges (lo₁, hi₁) (lo₂, hi₂)).2.finder
        (binsIn parent.x lo₁ hi₁) := by
      rw [hfind, ← hb₁]
      exact edgeAt_spans (r := { r with finder := f }) hfasc hhi₁ hl
    have hrs : rt.Spans (({ r with finder := f } : Region).setEdges (lo₁, hi₁) (lo₂, hi₂)).2.finder
        (binsIn parent.x lo₂ hi₂) := by
      rw [hfind, ← hb₂]
      exact edgeAt_spans (r := { r with finder := f }) hfasc hhi₂ hr
    refine .bind (reframed_refit (r := r) hwf₁ (by rw [hfind]; exact hcut)
      (by rw [hfind]; exact hbins) hlb hls hrb hrs hhist₁ d) fun u hu =>
        .pure ⟨?_, (fun h => by cases h), fun _ => hu⟩
    simp only [true_iff]
    refine ⟨hwide, ?_⟩
    rw [← hb₁, ← hb₂]
    exact hiff.mp hok

/-- The edge windows at the ends of a range, `k` samples each for a whole count `k`, span its
first and its last `k` bins. -/
theorem defaultEdges_spans {t : Region} (hs : t.settings.WholeEdgeSamples)
    (hsize : t.finder.x.size = t.finder.y.size) (hwide : 2 * t.edgeSamples + 1 ≤ t.finder.x.size) :
    ∃ l rt, t.defaultEdges = .ok { t with lb := some l, rb := some rt } ∧
      l.Spans t.finder (t.finder.x.toList.take t.edgeSamples.toNat) ∧
      rt.Spans t.finder (t.finder.x.toList.drop (t.finder.x.size - t.edgeSamples.toNat)) := by
  have hk : 1 ≤ t.edgeSamples := hs.2
  obtain ⟨l, hl, -, -⟩ := @Edge.ofSamples?_bounds t.finder.x t.finder.y 0
    (t.edgeSamples - 1) hsize le_rfl (by omega) (by omega)
  obtain ⟨rt, hr, -, -⟩ := @Edge.ofSamples?_bounds t.finder.x t.finder.y
    (t.finder.x.size - t.edgeSamples) (t.finder.x.size - 1) hsize (by omega) (by omega) (by omega)
  refine ⟨l, rt, ?_, ?_, ?_⟩
  · unfold defaultEdges
    split
    · rename_i v hv
      exact absurd hv (hs.1 v)
    · dsimp only
      rw [hl, hr]
      rfl
  · have hspans := Edge.Spans.of_ofSamples? hl
    convert hspans using 1
    simp only [Array.toList_extract, List.extract_eq_take_drop]
    congr 1
    omega
  · have hspans := Edge.Spans.of_ofSamples? hr
    convert hspans using 1
    simp only [Array.toList_extract, List.extract_eq_take_drop]
    rw [List.take_of_length_le (by simp; omega)]
    congr 1
    omega

/-- Moving the left edge window of a region cut from a spectrum, whose right window `rb` is a
window of the spectrum, to the bins from `left` to `right`. It succeeds exactly when they stop
before `rb` starts and hold a bin, and the spectrum has enough bins from `left` to the end of
`rb`; the right window then spans the same bins as before, with the same statistics. -/
theorem adjustLB_answer (hvalid : Spectrum.valid parent.x parent.y = true)
    (hs : r.settings.WholeEdgeSamples) (hwf : Wf s n r) (hph : r.phase ≠ .empty) {rb : Edge}
    (hrb : r.rb = some rb) (hof : rb.Of parent) (left right : Float) :
    Outcome.Post (r.adjustLB parent left right) fun res =>
      (res.1 = true ↔ right < rb.start ∧
        2 * r.edgeSamples + 1 ≤ (binsIn parent.x left rb.stop).length ∧
        binsIn parent.x left right ≠ []) ∧
      (res.1 = false → res.2 = r) ∧
      (res.1 = true → Reframed parent r left rb.stop (binsIn parent.x left right)
          (binsIn parent.x rb.start rb.stop) "Left edge adjusted" res.2 ∧
        ∃ rt, res.2.rb = some rt ∧ { rt with first := rb.first, last := rb.last } = rb) := by
  have hasc := Spectrum.ascending_of_valid hvalid
  have hsize := Spectrum.size_eq_of_valid hvalid
  have hse := hof.start_le_stop hasc
  unfold Region.adjustLB
  split
  · -- bounds the wrong way round hold no bin
    rename_i hbad
    have hlr : ¬left ≤ right := by simpa [hph] using hbad
    refine .pure ⟨?_, fun _ => rfl, fun h => by cases h⟩
    simp only [Bool.false_eq_true, false_iff]
    exact fun hc => hlr (le_of_binsIn_ne_nil hc.2.2)
  rename_i hok
  have hlr : left ≤ right := by simpa [hph] using hok
  simp only [hrb]
  split
  · -- the new window reaches into the right one
    rename_i hge
    refine .pure ⟨?_, fun _ => rfl, fun h => by cases h⟩
    simp only [Bool.false_eq_true, false_iff]
    exact fun hc => Float.lt_irrefl _ (Float.lt_of_lt_of_le hc.1 hge)
  rename_i hge
  have hlt : right < rb.start :=
    Float.lt_of_not_le (Float.le_iff_units.mp hlr).2.1 (Float.le_iff_units.mp hse).1 hge
  refine (applyEdges_answer hvalid hs hwf hlr hlt hse _).mono fun res ⟨hiff, hfalse, htrue⟩ =>
    ⟨?_, hfalse, fun h => ?_⟩
  · rw [hiff]
    exact ⟨fun hc => ⟨hlt, hc.1, hc.2.1⟩, fun hc => ⟨hc.2.1, hc.2.2, hof.binsIn_ne_nil hasc⟩⟩
  · have hre := htrue h
    obtain ⟨rt, hrt, hspans⟩ := hre.rb
    exact ⟨hre, rt, hrt, hof.eq_of_spans hasc hsize hre.cut hspans⟩

/-- Moving the right edge window of a region cut from a spectrum, whose left window `lb` is a
window of the spectrum, to the bins from `left` to `right`. It succeeds exactly when they start
after `lb` stops and hold a bin, and the spectrum has enough bins from the start of `lb` to
`right`; the left window then spans the same bins as before, with the same statistics. -/
theorem adjustRB_answer (hvalid : Spectrum.valid parent.x parent.y = true)
    (hs : r.settings.WholeEdgeSamples) (hwf : Wf s n r) (hph : r.phase ≠ .empty) {lb : Edge}
    (hlb : r.lb = some lb) (hof : lb.Of parent) (left right : Float) :
    Outcome.Post (r.adjustRB parent left right) fun res =>
      (res.1 = true ↔ lb.stop < left ∧
        2 * r.edgeSamples + 1 ≤ (binsIn parent.x lb.start right).length ∧
        binsIn parent.x left right ≠ []) ∧
      (res.1 = false → res.2 = r) ∧
      (res.1 = true → Reframed parent r lb.start right (binsIn parent.x lb.start lb.stop)
          (binsIn parent.x left right) "Right edge adjusted" res.2 ∧
        ∃ l, res.2.lb = some l ∧ { l with first := lb.first, last := lb.last } = lb) := by
  have hasc := Spectrum.ascending_of_valid hvalid
  have hsize := Spectrum.size_eq_of_valid hvalid
  have hse := hof.start_le_stop hasc
  unfold Region.adjustRB
  split
  · -- bounds the wrong way round hold no bin
    rename_i hbad
    have hlr : ¬left ≤ right := by simpa [hph] using hbad
    refine .pure ⟨?_, fun _ => rfl, fun h => by cases h⟩
    simp only [Bool.false_eq_true, false_iff]
    exact fun hc => hlr (le_of_binsIn_ne_nil hc.2.2)
  rename_i hok
  have hlr : left ≤ right := by simpa [hph] using hok
  simp only [hlb]
  split
  · -- the new window reaches into the left one
    rename_i hle
    refine .pure ⟨?_, fun _ => rfl, fun h => by cases h⟩
    simp only [Bool.false_eq_true, false_iff]
    exact fun hc => Float.lt_irrefl _ (Float.lt_of_lt_of_le hc.1 hle)
  rename_i hle
  have hlt : lb.stop < left :=
    Float.lt_of_not_le (Float.le_iff_units.mp hse).2.1 (Float.le_iff_units.mp hlr).1 hle
  refine (applyEdges_answer hvalid hs hwf hse hlt hlr _).mono fun res ⟨hiff, hfalse, htrue⟩ =>
    ⟨?_, hfalse, fun h => ?_⟩
  · rw [hiff]
    exact ⟨fun hc => ⟨hlt, hc.1, hc.2.2⟩, fun hc => ⟨hc.2.1, hof.binsIn_ne_nil hasc, hc.2.2⟩⟩
  · have hre := htrue h
    obtain ⟨l, hl, hspans⟩ := hre.lb
    exact ⟨hre, l, hl, hof.eq_of_spans hasc hsize hre.cut hspans⟩

/-- Changing the range of a region cut from a spectrum to the bins from `left` to `right`. It
succeeds exactly when the spectrum has enough bins between them for two edge windows and a bin
between them; the edge windows then span the first and the last `k` of those bins, for `k`
samples a window. -/
theorem adjustBounds_answer (hvalid : Spectrum.valid parent.x parent.y = true)
    (hs : r.settings.WholeEdgeSamples) (hwf : Wf s n r) (hph : r.phase ≠ .empty)
    {left right : Float} (hlr : left ≤ right) :
    Outcome.Post (r.adjustBounds parent left right) fun res =>
      (res.1 = true ↔ 2 * r.edgeSamples + 1 ≤ (binsIn parent.x left right).length) ∧
      (res.1 = false → res.2 = r) ∧
      (res.1 = true → Reframed parent r left right
        ((binsIn parent.x left right).take r.edgeSamples.toNat)
        ((binsIn parent.x left right).drop
          ((binsIn parent.x left right).length - r.edgeSamples.toNat))
        "Bounds adjusted" res.2) := by
  have hsize := Spectrum.size_eq_of_valid hvalid
  have hhi : right.isNaN = false := (Float.le_iff_units.mp hlr).2.1
  unfold Region.adjustBounds
  split
  · rename_i hbad
    exact absurd (by simpa using hbad) hph
  refine .bind (setRange_exact hvalid hs hhi) fun o ⟨hsome, ho⟩ => ?_
  rcases o with _ | t
  · refine .pure ⟨?_, fun _ => rfl, fun h => by cases h⟩
    simpa using hsome
  obtain ⟨f, rfl, hcut, hbins⟩ := ho _ rfl
  have hwide := hsome.mp rfl
  have hlen : f.x.size = (binsIn parent.x left right).length := by
    rw [← hbins, Array.length_toList]
  -- the new range takes its edge windows at its ends
  obtain ⟨l, rt, hdef, hl, hrt⟩ := defaultEdges_spans (t := { r with finder := f }) hs
    (hcut.size_eq hsize) (by rw [hlen]; exact hwide)
  dsimp only at hl hrt ⊢
  rw [hbins] at hl hrt
  rw [hlen] at hrt
  refine .bind (P := fun t => t = { ({ r with finder := f } : Region) with
      lb := some l, rb := some rt }) (fun t ht => ?_) fun t ht => ?_
  · rw [hdef] at ht
    exact (Except.ok.inj ht).symm
  subst ht
  -- the peaks outside the new windows are culled and the rest await a regression
  refine .bind_of_ok fun res hres => ?_
  obtain ⟨hwf₁, hhist₁, -, -⟩ := hwf.reframe (hcut.ascending (Spectrum.ascending_of_valid hvalid))
    (some l) (some rt) res hres
  obtain ⟨t₁, k⟩ := res
  obtain rfl : t₁ = _ := cullPeaks_eq_ok hres
  refine .bind (reframed_refit (s := s) (n := n) (r := r) ?_ hcut hbins rfl hl rfl hrt ?_ _)
    fun u hu => .pure ⟨?_, (fun h => by cases h), fun _ => hu⟩
  · exact hwf₁.of_eq rfl rfl rfl
  · exact hhist₁
  · simpa using hwide

end Move

end Region

namespace Request

open Region

variable {s : Settings} {parent : Finder} {r : Region} {n : Nat}

/-- On every region a request reaches over a spectrum, with edge windows of a whole number `k`
of samples, once it holds data. Moving the left edge window to the bins from `left` to `right`
succeeds exactly when they stop before the right window starts and hold a bin, and the spectrum
has at least `2k + 1` bins from `left` to the end of the right window. The region then holds
exactly those bins, the left window spans the spectrum's bins from `left` to `right`, the right
one the same bins as before with the same statistics, every peak lies strictly between them,
and the history has one snapshot more, of the result, described "Left edge adjusted". Moving
the right window is the mirror image. Changing the range to bounds `left ≤ right` succeeds
exactly when the spectrum has at least `2k + 1` bins between them, and the windows then span
the first and the last `k` of them. A move that does not succeed leaves the region as it
was. -/
theorem edge_adjustments (hvalid : Spectrum.valid parent.x parent.y = true)
    (hs : s.WholeEdgeSamples) (hr : Reachable s parent r n) (hph : r.phase ≠ .empty) :
    ∃ lb rb, r.lb = some lb ∧ r.rb = some rb ∧ ∀ left right : Float,
      Outcome.Post (r.adjustLB parent left right) (fun res =>
        (res.1 = true ↔ right < rb.start ∧
          2 * r.edgeSamples + 1 ≤ (binsIn parent.x left rb.stop).length ∧
          binsIn parent.x left right ≠ []) ∧
        (res.1 = false → res.2 = r) ∧
        (res.1 = true → Reframed parent r left rb.stop (binsIn parent.x left right)
            (binsIn parent.x rb.start rb.stop) "Left edge adjusted" res.2 ∧
          ∃ rt, res.2.rb = some rt ∧ { rt with first := rb.first, last := rb.last } = rb)) ∧
      Outcome.Post (r.adjustRB parent left right) (fun res =>
        (res.1 = true ↔ lb.stop < left ∧
          2 * r.edgeSamples + 1 ≤ (binsIn parent.x lb.start right).length ∧
          binsIn parent.x left right ≠ []) ∧
        (res.1 = false → res.2 = r) ∧
        (res.1 = true → Reframed parent r lb.start right (binsIn parent.x lb.start lb.stop)
            (binsIn parent.x left right) "Right edge adjusted" res.2 ∧
          ∃ l, res.2.lb = some l ∧ { l with first := lb.first, last := lb.last } = lb)) ∧
      (left ≤ right → Outcome.Post (r.adjustBounds parent left right) fun res =>
        (res.1 = true ↔ 2 * r.edgeSamples + 1 ≤ (binsIn parent.x left right).length) ∧
        (res.1 = false → res.2 = r) ∧
        (res.1 = true → Reframed parent r left right
          ((binsIn parent.x left right).take r.edgeSamples.toNat)
          ((binsIn parent.x left right).drop
            ((binsIn parent.x left right).length - r.edgeSamples.toNat))
          "Bounds adjusted" res.2)) := by
  have hsize := Spectrum.size_eq_of_valid hvalid
  have hsound := hr.sound
  have hsr : r.settings.WholeEdgeSamples := by
    rw [hsound.settings]
    exact hs
  -- a region holding data has both edge windows, and they are windows of the spectrum
  obtain ⟨lb, rb, hlb, hrb, -⟩ := ((hr.ready hs).loaded (.inl hph)).apart
  have hframed := hr.framed hsize
  refine ⟨lb, rb, hlb, hrb, fun left right => ⟨?_, ?_, fun hlr => ?_⟩⟩
  · exact adjustLB_answer hvalid hsr hsound.toWf hph hrb (hframed.current.rb rb hrb) left right
  · exact adjustRB_answer hvalid hsr hsound.toWf hph hlb (hframed.current.lb lb hlb) left right
  · exact adjustBounds_answer hvalid hsr hsound.toWf hph hlr

/-- New data of three flat bins, under edge windows of one sample, is a spectrum and leaves a
region that holds data, so its edge windows move as stated. -/
theorem threeFlatBins_edge_adjustments :
    Spectrum.valid #[0.0, 1.0, 2.0] #[1.0, 1.0, 1.0] = true ∧
    Settings.WholeEdgeSamples { edgeSamples := .int 1 } ∧ threeFlatBins.phase ≠ .empty ∧
    ∃ lb rb, threeFlatBins.lb = some lb ∧ threeFlatBins.rb = some rb ∧ ∀ left right : Float,
      Outcome.Post (threeFlatBins.adjustLB { x := #[0.0, 1.0, 2.0], y := #[1.0, 1.0, 1.0] }
          left right) (fun res =>
        (res.1 = true ↔ right < rb.start ∧
          2 * threeFlatBins.edgeSamples + 1 ≤ (binsIn #[0.0, 1.0, 2.0] left rb.stop).length ∧
          binsIn #[0.0, 1.0, 2.0] left right ≠ []) ∧
        (res.1 = false → res.2 = threeFlatBins) ∧
        (res.1 = true → Reframed { x := #[0.0, 1.0, 2.0], y := #[1.0, 1.0, 1.0] } threeFlatBins
            left rb.stop (binsIn #[0.0, 1.0, 2.0] left right)
            (binsIn #[0.0, 1.0, 2.0] rb.start rb.stop) "Left edge adjusted" res.2 ∧
          ∃ rt, res.2.rb = some rt ∧ { rt with first := rb.first, last := rb.last } = rb)) ∧
      Outcome.Post (threeFlatBins.adjustRB { x := #[0.0, 1.0, 2.0], y := #[1.0, 1.0, 1.0] }
          left right) (fun res =>
        (res.1 = true ↔ lb.stop < left ∧
          2 * threeFlatBins.edgeSamples + 1 ≤ (binsIn #[0.0, 1.0, 2.0] lb.start right).length ∧
          binsIn #[0.0, 1.0, 2.0] left right ≠ []) ∧
        (res.1 = false → res.2 = threeFlatBins) ∧
        (res.1 = true → Reframed { x := #[0.0, 1.0, 2.0], y := #[1.0, 1.0, 1.0] } threeFlatBins
            lb.start right (binsIn #[0.0, 1.0, 2.0] lb.start lb.stop)
            (binsIn #[0.0, 1.0, 2.0] left right) "Right edge adjusted" res.2 ∧
          ∃ l, res.2.lb = some l ∧ { l with first := lb.first, last := lb.last } = lb)) ∧
      (left ≤ right →
        Outcome.Post (threeFlatBins.adjustBounds { x := #[0.0, 1.0, 2.0], y := #[1.0, 1.0, 1.0] }
            left right) fun res =>
          (res.1 = true ↔
            2 * threeFlatBins.edgeSamples + 1 ≤ (binsIn #[0.0, 1.0, 2.0] left right).length) ∧
          (res.1 = false → res.2 = threeFlatBins) ∧
          (res.1 = true → Reframed { x := #[0.0, 1.0, 2.0], y := #[1.0, 1.0, 1.0] } threeFlatBins
            left right ((binsIn #[0.0, 1.0, 2.0] left right).take threeFlatBins.edgeSamples.toNat)
            ((binsIn #[0.0, 1.0, 2.0] left right).drop
              ((binsIn #[0.0, 1.0, 2.0] left right).length - threeFlatBins.edgeSamples.toNat))
            "Bounds adjusted" res.2)) := by
  have hvalid : Spectrum.valid #[0.0, 1.0, 2.0] #[1.0, 1.0, 1.0] = true := by decide +kernel
  have hs : Settings.WholeEdgeSamples { edgeSamples := .int 1 } := by
    unfold Settings.WholeEdgeSamples
    exact ⟨fun _ => nofun, by decide⟩
  have hA : Reachable { edgeSamples := .int 1 } { x := #[0.0, 1.0, 2.0], y := #[1.0, 1.0, 1.0] }
      threeFlatBins _ := Reachable.next (Reachable.new 0) rfl (by decide)
  have hph : threeFlatBins.phase ≠ .empty := by decide +kernel
  exact ⟨hvalid, hs, hph, edge_adjustments hvalid hs hA hph⟩

end Request

end GammaFit
