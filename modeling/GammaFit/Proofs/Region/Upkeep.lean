import GammaFit.Proofs.Bins
import GammaFit.Region.Edit

/-!
# Bringing peaks up to date

A region brings a peak up to date in two steps: its summation integral is taken again
(`sum4Of`), around the Hypermet center or over the peak's own window clamped between the edges,
and its energy, energy width and count rates are derived from its results (`derivedOf`).
`recompute` does so for every peak and leaves out those without a result or outside the edges.

Both steps read only the region's settings, bins, counts, edges and summation background
(`SameFrame`). On ascending bins bringing a peak up to date is idempotent: the window of an
integral is named by its first and last bins, the search for those bins gives back their
indices, and the window was already clamped, so the integral is taken over the same bins again
(`sum4Of_sum4Of`), and the derived values depend only on the results. Hence a
peak brought up to date is left as it is (`recomputePeak_idem`), every peak `recompute`
keeps is up to date (`fresh_of_recompute`), and so a second update changes nothing
(`recompute_idempotent`).
-/

namespace GammaFit

namespace Summation

/-- An integral records its window: the indices are in range and in order, and its bins are
the bins at those indices. -/
theorem ofCounts?_window {x y : Array Float} {left right : Int} {b : Background} {lb rb : Edge}
    {s : Summation} (h : ofCounts? x y left right b lb rb = some s) :
    0 ≤ left ∧ left ≤ right ∧ right < x.size ∧ s.leftBin = x.getD left.toNat 0.0 ∧
      s.rightBin = x.getD right.toNat 0.0 := by
  unfold ofCounts? at h
  split at h
  · cases h
  · rename_i hin
    simp only [not_or, Int.not_lt, Int.not_le] at hin
    obtain ⟨-, hl, hr, hlr⟩ := hin
    cases h
    refine ⟨hl, hlr, hr, ?_, ?_⟩
    · dsimp only
      rw [Spectrum.getD_extract x (by omega), Nat.add_zero]
    · dsimp only
      rw [Spectrum.getD_extract x (by omega)]
      congr 1
      omega

/-- An integral over a window between the edges, taken again over the window its first and
last bins name and clamped between the edges, is the same integral: on ascending bins the
search finds the window's bins at their indices, and the clamp leaves the window as it is. -/
theorem ofCounts?_again {x y : Array Float} (hx : Ascending x) {left right : Int} {b : Background}
    {lb rb : Edge} {s : Summation} (hleft : (lb.last : Int) + 1 ≤ left)
    (hright : right ≤ (rb.first : Int) - 1) (hw : ofCounts? x y left right b lb rb = some s) :
    ofCounts? x y (max (Numeric.searchLeft x s.leftBin : Int) (lb.last + 1))
      (min ((Numeric.searchRight x s.rightBin : Int) - 1) (rb.first - 1)) b lb rb = some s := by
  obtain ⟨h0, hlr, hsize, hleftBin, hrightBin⟩ := ofCounts?_window hw
  rw [hleftBin, hrightBin, hx.searchLeft_getD (by omega), hx.searchRight_getD (by omega), ← hw]
  congr 1 <;> omega

end Summation

namespace Region

variable {r t : Region} {p q : Peak}

/-! ## What bringing a peak up to date reads -/

/-- Two regions agree on all that bringing a peak up to date reads. -/
structure SameFrame (r t : Region) : Prop where
  settings : t.settings = r.settings
  x : t.finder.x = r.finder.x
  y : t.finder.y = r.finder.y
  lb : t.lb = r.lb
  rb : t.rb = r.rb
  sum4Background : t.sum4Background = r.sum4Background

namespace SameFrame

@[refl] theorem refl (r : Region) : SameFrame r r := ⟨rfl, rfl, rfl, rfl, rfl, rfl⟩

@[symm] theorem symm (h : SameFrame r t) : SameFrame t r :=
  ⟨h.1.symm, h.2.symm, h.3.symm, h.4.symm, h.5.symm, h.6.symm⟩

@[trans] theorem trans {u : Region} (h₁ : SameFrame r t) (h₂ : SameFrame t u) : SameFrame r u :=
  ⟨h₂.1.trans h₁.1, h₂.2.trans h₁.2, h₂.3.trans h₁.3, h₂.4.trans h₁.4, h₂.5.trans h₁.5,
    h₂.6.trans h₁.6⟩

theorem insideEdges (h : SameFrame r t) : t.insideEdges = r.insideEdges := by
  funext c
  simp only [Region.insideEdges, Region.leftEdge, Region.rightEdge, h.lb, h.rb]

theorem sum4Of (h : SameFrame r t) : t.sum4Of = r.sum4Of := by
  funext p
  simp only [Region.sum4Of, Region.leftEdge, Region.rightEdge, h.settings, h.x, h.y, h.lb, h.rb,
    h.sum4Background]

theorem derivedOf (h : SameFrame r t) : t.derivedOf = r.derivedOf := by
  funext p
  simp only [Region.derivedOf, Region.energyOf, h.settings]

theorem recomputePeak (h : SameFrame r t) : t.recomputePeak = r.recomputePeak := by
  funext p
  simp only [Region.recomputePeak, h.sum4Of, h.derivedOf]

end SameFrame

/-! ## Between the edges -/

/-- The left window is given exactly when it is there. -/
theorem leftEdge_eq_ok {field : String} {l : Edge} : r.leftEdge field = .ok l ↔ r.lb = some l := by
  unfold leftEdge
  cases r.lb <;> simp

/-- The right window is given exactly when it is there. -/
theorem rightEdge_eq_ok {field : String} {rt : Edge} :
    r.rightEdge field = .ok rt ↔ r.rb = some rt := by
  unfold rightEdge
  cases r.rb <;> simp

/-- With both edge windows there, the test reads them and answers whether they enclose the
position. -/
theorem insideEdges_of_edges {l rt : Edge} (hl : r.lb = some l) (hr : r.rb = some rt)
    (c : Float) : r.insideEdges c = .ok (encloses l rt c) := by
  simp only [insideEdges, leftEdge, rightEdge, hl, hr, encloses, bind, Except.bind, pure,
    Except.pure]
  by_cases h : l.stop < c <;> simp [h]

/-- The test answers `true` exactly when both windows are there and enclose the position: the
right window is only asked for its start past the end of the left one. -/
theorem insideEdges_eq_ok_true {c : Float} :
    r.insideEdges c = .ok true ↔
      ∃ l rt, r.lb = some l ∧ r.rb = some rt ∧ encloses l rt c = true := by
  constructor
  · intro h
    cases hl : r.lb with
    | none => simp [insideEdges, leftEdge, hl, bind, Except.bind] at h
    | some l =>
      cases hr : r.rb with
      | some rt =>
        rw [insideEdges_of_edges hl hr] at h
        exact ⟨l, rt, rfl, rfl, Except.ok.inj h⟩
      | none =>
        -- without the right window the test fails past the left one and answers `false` before
        simp only [insideEdges, leftEdge, rightEdge, hl, hr, bind, Except.bind, pure,
          Except.pure] at h
        split at h <;> cases h
  · rintro ⟨l, rt, hl, hr, hin⟩
    rw [insideEdges_of_edges hl hr, hin]

/-- Whether a position lies strictly between the edge windows, both of them there: what the
test of the edges answers whenever it returns. -/
def between (r : Region) (c : Float) : Bool :=
  match r.lb, r.rb with
  | some l, some rt => encloses l rt c
  | _, _ => false

theorem between_of_edges {l rt : Edge} (hl : r.lb = some l) (hr : r.rb = some rt) (c : Float) :
    r.between c = encloses l rt c := by
  simp [between, hl, hr]

theorem SameFrame.between (h : SameFrame r t) : t.between = r.between := by
  funext c
  simp only [Region.between, h.lb, h.rb]

/-- A test of the edges that returns answers whether the position lies between them. -/
theorem between_of_insideEdges {c : Float} {b : Bool} (h : r.insideEdges c = .ok b) :
    r.between c = b := by
  cases hl : r.lb with
  | none => simp [insideEdges, leftEdge, hl, bind, Except.bind] at h
  | some l =>
    cases hr : r.rb with
    | some rt =>
      rw [insideEdges_of_edges hl hr] at h
      rw [between_of_edges hl hr, Except.ok.inj h]
    | none =>
      -- without the right window the test returns only before the end of the left one
      simp only [insideEdges, leftEdge, rightEdge, hl, hr, bind, Except.bind, pure,
        Except.pure] at h
      split at h
      · cases h
      · cases h
        simp [between, hl, hr]

/-- The test answers `true` exactly at the positions between the edges. -/
theorem insideEdges_eq_ok_true_iff {c : Float} : r.insideEdges c = .ok true ↔ r.between c = true := by
  refine ⟨between_of_insideEdges, fun h => ?_⟩
  unfold between at h
  split at h
  · rename_i l rt hl hr
    rw [insideEdges_of_edges hl hr, h]
  · cases h

/-- A peak brought up to date is kept exactly when it has a result and its center lies between
the edges. -/
theorem dropped_eq_ok_false : r.dropped q = .ok false ↔
    (q.hypermet.isNone && q.sum4.isNone) = false ∧ r.insideEdges q.center = .ok true := by
  unfold dropped
  by_cases hnone : (q.hypermet.isNone && q.sum4.isNone) = true
  · simp [hnone, pure, Except.pure]
  · rw [Bool.not_eq_true] at hnone
    cases hin : r.insideEdges q.center with
    | error e => simp [hnone, bind, Except.bind]
    | ok b => cases b <;> simp [hnone, bind, Except.bind, pure, Except.pure]

/-! ## One peak -/

/-- The integral depends on the peak only through its Hypermet shape and its own integral. -/
theorem sum4Of_congr (hh : p.hypermet = q.hypermet) (hs : p.sum4 = q.sum4) :
    r.sum4Of p = r.sum4Of q := by
  simp only [sum4Of, hh, hs]

/-- What bringing a peak up to date gives: the peak with its integral taken again and the
values derived from its results. -/
theorem recomputePeak_eq_ok (h : r.recomputePeak p = .ok q) :
    ∃ s d, r.sum4Of p = .ok s ∧ r.derivedOf { p with sum4 := s } = .ok d ∧
      q = { p with sum4 := s, energy := d.1, fwhmEnergy := d.2.1, cpsHyp := d.2.2.1,
                   cpsSum4 := d.2.2.2 } := by
  unfold recomputePeak at h
  obtain ⟨s, hs, h⟩ := Outcome.bind_eq_ok.mp h
  obtain ⟨d, hd, h⟩ := Outcome.bind_eq_ok.mp h
  exact ⟨s, d, hs, hd, (Outcome.pure_eq_ok.mp h).symm⟩

theorem recomputePeak_id (h : r.recomputePeak p = .ok q) : q.id = p.id := by
  obtain ⟨s, d, -, -, rfl⟩ := recomputePeak_eq_ok h
  rfl

theorem recomputePeak_hypermet (h : r.recomputePeak p = .ok q) : q.hypermet = p.hypermet := by
  obtain ⟨s, d, -, -, rfl⟩ := recomputePeak_eq_ok h
  rfl

/-- A summation peak whose integral was taken over a window between the edges is integrated
again over the same window. -/
theorem sum4Of_window (hx : Ascending r.finder.x) {b : Background} {l rt : Edge} {s : Summation}
    (hb : r.sum4Background = some b) (hl : r.lb = some l) (hr : r.rb = some rt) {left right : Int}
    (hleft : (l.last : Int) + 1 ≤ left) (hright : right ≤ (rt.first : Int) - 1)
    (hw : Summation.ofCounts? r.finder.x r.finder.y left right b l rt = some s)
    (hh : p.hypermet = none) (hs : p.sum4 = some s) : r.sum4Of p = .ok (some s) := by
  simp only [sum4Of, leftEdge, rightEdge, hh, hs, hb, hl, hr, bind, Except.bind, pure,
    Except.pure]
  rw [Summation.ofCounts?_again hx hleft hright hw]

/-- Taking an integral again over its own window, on ascending bins, gives the same integral:
the search finds the window's bins at their indices, and the window is already clamped
between the edges. -/
theorem sum4Of_sum4Of (hx : Ascending r.finder.x) {s : Option Summation}
    (h : r.sum4Of p = .ok s) : r.sum4Of { p with sum4 := s } = .ok s := by
  cases hh : p.hypermet with
  | some hy =>
    simp only [sum4Of, hh] at h ⊢
    exact h
  | none =>
    cases hs : p.sum4 with
    | none =>
      simp only [sum4Of, hh, hs, pure, Except.pure, Except.ok.injEq] at h
      subst h
      rfl
    | some w =>
      -- the first pass reached the window: both edges are there
      obtain ⟨l, hl⟩ : ∃ l, r.lb = some l := by
        cases hl : r.lb with
        | none => simp [sum4Of, leftEdge, hh, hs, hl, bind, Except.bind] at h
        | some l => exact ⟨l, rfl⟩
      obtain ⟨rt, hr⟩ : ∃ rt, r.rb = some rt := by
        cases hr : r.rb with
        | none => simp [sum4Of, leftEdge, rightEdge, hh, hs, hl, hr, bind, Except.bind] at h
        | some rt => exact ⟨rt, rfl⟩
      cases hb : r.sum4Background with
      | none =>
        simp only [sum4Of, leftEdge, rightEdge, hh, hs, hl, hr, hb, bind, Except.bind, pure,
          Except.pure, Except.ok.injEq] at h
        subst h
        rfl
      | some b =>
        simp only [sum4Of, leftEdge, rightEdge, hh, hs, hl, hr, hb, bind, Except.bind, pure,
          Except.pure, Except.ok.injEq] at h
        subst h
        -- with both edges and the background the first pass took the clamped window
        cases hw : Summation.ofCounts? r.finder.x r.finder.y _ _ b l rt with
        | none => rfl
        | some s' =>
          simp only [sum4Of, leftEdge, rightEdge, hl, hr, hb, bind, Except.bind, pure,
            Except.pure]
          rw [Summation.ofCounts?_again hx (le_max_right _ _) (min_le_right _ _) hw]

/-- Bringing a peak up to date reads only its id, its Hypermet shape and its integral. -/
theorem recomputePeak_congr (hid : p.id = q.id) (hh : p.hypermet = q.hypermet)
    (hs : r.sum4Of p = r.sum4Of q) : r.recomputePeak p = r.recomputePeak q := by
  simp only [recomputePeak, hid, hh, hs]
  -- what is left differs only in fields that the derived values do not read
  congr 1

/-- Bringing a peak up to date twice, on ascending bins, is bringing it up to date once. -/
theorem recomputePeak_idem (hx : Ascending r.finder.x) (h : r.recomputePeak p = .ok q) :
    r.recomputePeak q = .ok q := by
  obtain ⟨s, d, hs, -, hq⟩ := recomputePeak_eq_ok h
  have hsum : r.sum4Of q = r.sum4Of p := by
    rw [hq, hs]
    exact (sum4Of_congr rfl rfl).trans (sum4Of_sum4Of hx hs)
  rw [recomputePeak_congr (recomputePeak_id h) (recomputePeak_hypermet h) hsum, h]

/-! ## Peaks up to date -/

/-- A peak the region keeps as it is: bringing it up to date gives it back, and it is not
dropped. -/
structure PeakFresh (r : Region) (p : Peak) : Prop where
  current : r.recomputePeak p = .ok p
  kept : r.dropped p = .ok false

/-- Every peak of the region is up to date and kept. -/
def Fresh (r : Region) : Prop := ∀ e ∈ r.peakMap, PeakFresh r e.2

theorem SameFrame.dropped (h : SameFrame r t) : t.dropped = r.dropped := by
  funext q
  simp only [Region.dropped, h.insideEdges]

theorem SameFrame.upToDate (h : SameFrame r t) : t.upToDate = r.upToDate := by
  funext m
  induction m with
  | nil => rfl
  | cons e m ih =>
    obtain ⟨i, p⟩ := e
    simp only [Region.upToDate, h.recomputePeak, h.dropped, ih]

theorem PeakFresh.of_sameFrame (h : SameFrame r t) (hp : PeakFresh r p) : PeakFresh t p :=
  ⟨by rw [h.recomputePeak]; exact hp.current, by rw [h.dropped]; exact hp.kept⟩

theorem upToDate_cons_eq_ok {i : Nat} {m k : List (Nat × Peak)} :
    r.upToDate ((i, p) :: m) = .ok k ↔ ∃ q d k', r.recomputePeak p = .ok q ∧
      r.dropped q = .ok d ∧ r.upToDate m = .ok k' ∧ k = if d then k' else (i, q) :: k' := by
  simp only [upToDate, Outcome.bind_eq_ok, Outcome.pure_eq_ok]
  constructor
  · rintro ⟨q, hq, d, hd, k', hk', rfl⟩
    exact ⟨q, d, k', hq, hd, hk', rfl⟩
  · rintro ⟨q, d, k', hq, hd, hk', rfl⟩
    exact ⟨q, hq, d, hd, k', hk', rfl⟩

/-- The kept peaks keep the order of their identities in the map. -/
theorem upToDate_keys {m k : List (Nat × Peak)} (h : r.upToDate m = .ok k) :
    (k.map Prod.fst).Sublist (m.map Prod.fst) := by
  induction m generalizing k with
  | nil => cases h; exact .slnil
  | cons e m ih =>
    obtain ⟨i, p⟩ := e
    obtain ⟨q, d, k', -, -, hk', rfl⟩ := upToDate_cons_eq_ok.mp h
    split
    · exact (ih hk').cons _
    · exact (ih hk').cons_cons _

/-- A kept peak is a peak of the map brought up to date, under its identity, and it is not
dropped. -/
theorem mem_upToDate {m k : List (Nat × Peak)} (h : r.upToDate m = .ok k) {e : Nat × Peak}
    (he : e ∈ k) :
    ∃ p, (e.1, p) ∈ m ∧ r.recomputePeak p = .ok e.2 ∧ r.dropped e.2 = .ok false := by
  induction m generalizing k with
  | nil => cases h; cases he
  | cons d m ih =>
    obtain ⟨i, p⟩ := d
    obtain ⟨q, d, k', hq, hd, hk', rfl⟩ := upToDate_cons_eq_ok.mp h
    split at he
    · obtain ⟨p', hp', hr⟩ := ih hk' he
      exact ⟨p', List.mem_cons_of_mem _ hp', hr⟩
    · rename_i hdrop
      rcases List.mem_cons.mp he with rfl | he
      · exact ⟨p, List.mem_cons_self, hq, by rw [hd, Bool.eq_false_iff.mpr hdrop]⟩
      · obtain ⟨p', hp', hr⟩ := ih hk' he
        exact ⟨p', List.mem_cons_of_mem _ hp', hr⟩

/-- Peaks that are all kept as they are are their own update. -/
theorem upToDate_of_fresh {m : List (Nat × Peak)} (h : ∀ e ∈ m, PeakFresh r e.2) :
    r.upToDate m = .ok m := by
  induction m with
  | nil => rfl
  | cons e m ih =>
    obtain ⟨i, p⟩ := e
    have hp := h (i, p) List.mem_cons_self
    have hm := ih fun e he => h e (List.mem_cons_of_mem _ he)
    exact upToDate_cons_eq_ok.mpr ⟨p, false, m, hp.current, hp.kept, hm, rfl⟩

/-- A Hypermet peak centered between the edges is never dropped. -/
theorem dropped_of_hypermet {h : Hypermet} (hh : q.hypermet = some h)
    (hin : r.insideEdges h.center.value = .ok true) : r.dropped q = .ok false := by
  have hc : q.center = h.center.value := by simp only [Peak.center, hh]
  simp only [dropped, hh, hc, hin, Option.isNone_some, Bool.false_and, Bool.false_eq_true,
    if_false, bind, Except.bind, pure, Except.pure, Bool.not_true]

/-- A summation peak over a window between the edges, its centroid between them, is kept when
brought up to date: its integral is taken again over the same window. -/
theorem dropped_of_window (hx : Ascending r.finder.x) {b : Background} {l rt : Edge}
    {s : Summation} (hb : r.sum4Background = some b) (hl : r.lb = some l) (hr : r.rb = some rt)
    {left right : Int} (hleft : (l.last : Int) + 1 ≤ left) (hright : right ≤ (rt.first : Int) - 1)
    (hw : Summation.ofCounts? r.finder.x r.finder.y left right b l rt = some s)
    (hin : r.insideEdges s.centroid = .ok true) {i : Nat}
    (hq : r.recomputePeak { id := i, sum4 := some s } = .ok q) : r.dropped q = .ok false := by
  obtain ⟨s', d, hs', -, rfl⟩ := recomputePeak_eq_ok hq
  rw [sum4Of_window hx hb hl hr hleft hright hw rfl rfl] at hs'
  cases hs'
  simp [dropped, Peak.center, hin, bind, Except.bind, pure, Except.pure]

/-- Every peak of the map is brought up to date, and kept under its identity unless it is
dropped. -/
theorem mem_upToDate_of_mem {m k : List (Nat × Peak)} (h : r.upToDate m = .ok k) {e : Nat × Peak}
    (he : e ∈ m) :
    ∃ q, r.recomputePeak e.2 = .ok q ∧ (r.dropped q = .ok false → (e.1, q) ∈ k) := by
  induction m generalizing k with
  | nil => cases he
  | cons d m ih =>
    obtain ⟨i, p⟩ := d
    obtain ⟨q, d, k', hq, hd, hk', rfl⟩ := upToDate_cons_eq_ok.mp h
    rcases List.mem_cons.mp he with rfl | he
    · refine ⟨q, hq, fun hkept => ?_⟩
      rw [hkept] at hd
      cases hd
      exact List.mem_cons_self
    · obtain ⟨q', hq', hmem⟩ := ih hk' he
      refine ⟨q', hq', fun hkept => ?_⟩
      split
      · exact hmem hkept
      · exact List.mem_cons_of_mem _ (hmem hkept)

/-- An update keeps a Hypermet peak centered between the edges, so it leaves peaks. -/
theorem upToDate_ne_nil {m k : List (Nat × Peak)} (h : r.upToDate m = .ok k) {e : Nat × Peak}
    (he : e ∈ m) {hy : Hypermet} (hh : e.2.hypermet = some hy)
    (hin : r.insideEdges hy.center.value = .ok true) : k ≠ [] := by
  obtain ⟨q, hq, hmem⟩ := mem_upToDate_of_mem h he
  have hkept : r.dropped q = .ok false :=
    dropped_of_hypermet ((recomputePeak_hypermet hq).trans hh) hin
  exact List.ne_nil_of_mem (hmem hkept)

theorem recompute_eq_ok {r' : Region} :
    r.recompute = .ok r' ↔ ∃ k, r.upToDate r.peakMap = .ok k ∧ r' = { r with peakMap := k } := by
  simp only [recompute, Outcome.bind_eq_ok, Outcome.pure_eq_ok]
  exact exists_congr fun k => and_congr_right fun _ => eq_comm

/-- A region whose peaks are all up to date and kept is its own update. -/
theorem recompute_of_fresh (h : Fresh r) : r.recompute = .ok r :=
  recompute_eq_ok.mpr ⟨r.peakMap, upToDate_of_fresh h, rfl⟩

/-- On ascending bins, every peak an update keeps is up to date. -/
theorem fresh_of_recompute {r' : Region} (hx : Ascending r.finder.x) (h : r.recompute = .ok r') :
    Fresh r' := by
  obtain ⟨k, hk, rfl⟩ := recompute_eq_ok.mp h
  have hframe : SameFrame r { r with peakMap := k } := ⟨rfl, rfl, rfl, rfl, rfl, rfl⟩
  intro e he
  obtain ⟨p, -, hp, hkept⟩ := mem_upToDate hk he
  exact ⟨by rw [hframe.recomputePeak]; exact recomputePeak_idem hx hp,
    by rw [hframe.dropped]; exact hkept⟩

/-- Bringing the peaks up to date twice is bringing them up to date once, on ascending bins:
the same peaks under the same identities, in the same order, with the same integrals, energies
and rates; an update that fails fails the same way both times. -/
theorem recompute_idempotent (hx : Ascending r.finder.x) :
    (r.recompute >>= Region.recompute) = r.recompute := by
  cases h : r.recompute with
  | error e => rfl
  | ok r' =>
    show r'.recompute = .ok r'
    exact recompute_of_fresh (fresh_of_recompute hx h)

/-- Five bins with a peak at the middle one, under edge windows of one bin at each end: a Hypermet
peak on the middle bin and a summation peak over the middle three bins. -/
def fiveBinsTwoPeaks : Region :=
  let x := #[0.0, 1.0, 2.0, 3.0, 4.0]
  let y := #[1.0, 2.0, 9.0, 2.0, 1.0]
  let lb := (Edge.ofSamples? x y 0 0).getD default
  let rb := (Edge.ofSamples? x y 4 4).getD default
  let b := (Background.summation lb rb).getD default
  { settings := {}, finder := { x, y }, lb := some lb, rb := some rb, sum4Background := some b,
    peakMap := [(1, { id := 1, hypermet := some (Hypermet.make 9.0 2.0 1.0 {}) }),
      (2, { id := 2, sum4 := Summation.ofCounts? x y 1 3 b lb rb })] }

/-- Bringing the two peaks of the five bins up to date twice is doing it once. -/
theorem fiveBinsTwoPeaks_recompute_idempotent :
    Ascending fiveBinsTwoPeaks.finder.x ∧
      fiveBinsTwoPeaks.peakMap.map (fun e => (e.2.hypermet.isSome, e.2.sum4.isSome)) =
        [(true, false), (false, true)] ∧
      (fiveBinsTwoPeaks.recompute >>= Region.recompute) = fiveBinsTwoPeaks.recompute := by
  have hx : Ascending fiveBinsTwoPeaks.finder.x :=
    Spectrum.ascending_of_valid (y := #[1.0, 2.0, 9.0, 2.0, 1.0]) (by decide +kernel)
  exact ⟨hx, by decide +kernel, recompute_idempotent hx⟩

end Region

end GammaFit
