import GammaFit.Proofs.Region.Reload
import GammaFit.Request.Analyses

/-!
# Peak identities across an analysis

One counter hands out the identities of the peaks of every region, and an analysis holds regions
built, edited, fitted and loaded at many times. Every identity an analysis holds is held once, by
one peak of one region, and was handed out while the analysis was built (`Analysis.Keyed`). So
the region holding an identity is the one `parentOf` finds, replacing a peak changes only that
region, and removing peaks takes them out of every region and leaves the other regions alone.

The invariant files every region under its first bin, a number, with no two keys equal: the
region a step names is then the one it drops when it puts the changed region back, and a region
put back with its bins lands last, in no other region's place. Every operation on a region holds
on to the region's identities or takes new ones from the counter (`IdsFrom`), and a region built
from data holds only new ones.
-/

namespace GammaFit

open Search (Finder)
open Json
open scoped List

namespace Region

variable {r t : Region} {n k : Nat}

/-! ## The regions an analysis holds -/

/-- A region as an analysis holds it with the counter at `n`: in the frame of the invariant under
its own settings, with the summation background its edges give, and with bins. -/
structure Held (n : Nat) (r : Region) : Prop where
  wf : Wf r.settings n r
  tied : r.Tied
  bins : r.finder.x ≠ #[]

theorem Held.mono (h : r.Held n) (hle : n ≤ k) : r.Held k := ⟨h.wf.mono hle, h.tied, h.bins⟩

/-- The region an operation leaves, in the frame of the invariant under the settings it started
with, is held. -/
theorem Held.of_wf {s : Settings} (hwf : Wf s n t) (ht : t.Tied) (hx : t.finder.x ≠ #[]) :
    t.Held n :=
  ⟨⟨rfl, hwf.bins, hwf.ids, hwf.below⟩, ht, hx⟩

/-- The first bin of a held region is a number. -/
theorem Held.left_self (h : r.Held n) : (r.left == r.left) = true := left_beq_self h.wf.bins h.bins

/-! ## What the operations on a held region leave

Each operation an analysis routes to a region leaves a held region that holds on to the
region's identities or takes new ones from the counter. -/

variable {parent : Finder}

theorem Held.removePeaks (h : r.Held n) (ids : List Nat) :
    Outcome.Post (r.removePeaks ids) fun res => res.2.Held n :=
  fun res hres => .of_wf (removePeaks_spec h.wf res hres).1.wf (h.tied.removePeaks ids res hres)
    (removePeaks_bins rfl res hres ▸ h.bins)

/-- Removing peaks from a region that holds one of them answers `true`. -/
theorem removePeaks_answer {ids : List Nat} (h : ids.any r.contains = true) :
    Outcome.Post (r.removePeaks ids) fun res => res.1 = true := by
  unfold Region.removePeaks
  rw [if_neg (by simp [h])]
  exact .bind_forall fun _ => .pure rfl

theorem Held.replacePeak (h : r.Held n) (p : Peak) :
    Outcome.Post (r.replacePeak p) fun res => res.2.Held n ∧ IdsFrom r n res.2 := by
  intro res hres
  obtain ⟨hstep, hsub, -⟩ := replacePeak_spec h.wf res hres
  exact ⟨.of_wf hstep.wf (h.tied.replacePeak p res hres) (replacePeak_bins rfl res hres ▸ h.bins),
    .of_subset hsub n⟩

theorem Held.adjustLB (h : r.Held n) {left right : Float} :
    Outcome.Post (r.adjustLB parent left right) fun res => res.2.Held n ∧ IdsFrom r n res.2 := by
  intro res hres
  obtain ⟨hstep, hsub⟩ := adjustLB_spec h.wf res hres
  exact ⟨.of_wf hstep.wf (h.tied.adjustLB res hres) (adjustLB_bins h.bins res hres),
    .of_subset hsub n⟩

theorem Held.adjustRB (h : r.Held n) {left right : Float} :
    Outcome.Post (r.adjustRB parent left right) fun res => res.2.Held n ∧ IdsFrom r n res.2 := by
  intro res hres
  obtain ⟨hstep, hsub⟩ := adjustRB_spec h.wf res hres
  exact ⟨.of_wf hstep.wf (h.tied.adjustRB res hres) (adjustRB_bins h.bins res hres),
    .of_subset hsub n⟩

theorem Held.adjustBounds (h : r.Held n) {left right : Float} :
    Outcome.Post (r.adjustBounds parent left right) fun res => res.2.Held n ∧ IdsFrom r n res.2 := by
  intro res hres
  obtain ⟨hstep, hsub⟩ := adjustBounds_spec h.wf res hres
  exact ⟨.of_wf hstep.wf (h.tied.adjustBounds res hres) (adjustBounds_bins h.bins res hres),
    .of_subset hsub n⟩

theorem Held.addPeak (h : r.Held n) {leftBin rightBin : Float} {i : Bool} :
    RegionM.Runs (r.addPeak parent leftBin rightBin i) n fun res k =>
      res.2.Held k ∧ IdsFrom r n res.2 :=
  .mono (((addPeak_spec h.wf).post h.tied.addPeak).post (addPeak_bins h.bins))
    fun _ _ _ hres => ⟨.of_wf hres.1.1.1.wf hres.1.2 hres.2, hres.1.1.2⟩

/-- An automatic fit keeps the bins, so the region keeps its first bin. -/
theorem Held.autoFit (h : r.Held n) {i : Bool} :
    RegionM.Runs (r.autoFit i) n fun res k =>
      res.2.Held k ∧ IdsFrom r n res.2 ∧ res.2.finder.x = r.finder.x :=
  .mono (((autoFit_spec h.wf).post h.tied.autoFit).post (autoFit_bins rfl))
    fun _ _ _ hres => ⟨.of_wf hres.1.1.1.wf hres.1.2 (hres.2 ▸ h.bins), hres.1.1.2.2, hres.2⟩

theorem Held.addSum4Peak (h : r.Held n) {leftBin rightBin : Float} :
    RegionM.Runs (r.addSum4Peak leftBin rightBin) n fun res k =>
      res.2.Held k ∧ IdsFrom r n res.2 :=
  .mono (((addSum4Peak_spec h.wf).post h.tied.addSum4Peak).post (addSum4Peak_bins rfl))
    fun _ _ _ hres => ⟨.of_wf hres.1.1.1.wf hres.1.2 (hres.2 ▸ h.bins), .of_eq_or hres.1.1.2.1⟩

/-- A region built over a range of data is held, without peaks. -/
theorem ofRange_held {s : Settings} {x y : Array Float} {minBin maxBin : Float} :
    Outcome.Post (ofRange s x y minBin maxBin) fun o => ∀ t, o = some t →
      t.Held n ∧ t.peakMap = [] := by
  intro o ho t ht
  subst ht
  unfold ofRange at ho
  rcases hset : (Region.new s).setData x y minBin maxBin with e | o'
  · rw [hset] at ho
    cases ho
  · rw [hset] at ho
    cases ho
    have hre := (setData_spec (Request.sound_new (n := n)).toWf).ok_of_eq hset t rfl
    exact ⟨.of_wf hre.sound.toWf ((Tied.setData Request.tied_new).ok_of_eq hset t rfl)
      (setData_bins.ok_of_eq hset t rfl), hre.peaks⟩

/-! ## A region read from a document -/

/-- A region read from a document holds only identities the counter handed out while it was
read, and, being reached by the steps it is read back by, the frame of the invariant. -/
theorem ofDocument_fresh {doc : Value} {parent : Finder} {s : Settings} :
    RegionM.Runs (Region.ofDocument doc parent s) n fun o k => ∀ t, o = some t →
      Wf t.settings k t ∧ t.Tied ∧ ∀ i ∈ t.peakMap.map Prod.fst, n ≤ i :=
  ofDocument_readBack.mono fun _ _ _ h t ht =>
    have hreach := Request.ReadBack.reachable (h t ht)
    ⟨hreach.sound.toWf, hreach.tied, fun i hi => ((h t ht).keys i hi).1⟩

end Region

namespace Analysis

open Region

variable {lo n k : Nat} {m m' l₁ l₂ : List (Float × Region)} {e : Float × Region} {r t : Region}

/-- The identities of the peaks of a map's regions, region after region. -/
def heldIds (m : List (Float × Region)) : List Nat := m.flatMap fun e => e.2.peakMap.map Prod.fst

@[simp] theorem heldIds_nil : heldIds [] = [] := rfl

@[simp] theorem heldIds_append : heldIds (m ++ m') = heldIds m ++ heldIds m' := List.flatMap_append

@[simp] theorem heldIds_cons : heldIds (e :: m) = e.2.peakMap.map Prod.fst ++ heldIds m :=
  List.flatMap_cons

theorem mem_heldIds {i : Nat} : i ∈ heldIds m ↔ ∃ e ∈ m, i ∈ e.2.peakMap.map Prod.fst :=
  List.mem_flatMap

theorem mem_heldIds_of_mem {i : Nat} (he : e ∈ m) (hi : i ∈ e.2.peakMap.map Prod.fst) :
    i ∈ heldIds m :=
  mem_heldIds.mpr ⟨e, he, hi⟩

/-- The regions of an analysis filed under their first bins, with the counter at `n` and every
identity handed out from `lo` on: each region is held, each key is its region's first bin, no two
keys are equal, and no identity is held twice. -/
structure Keyed (lo n : Nat) (m : List (Float × Region)) : Prop where
  held : ∀ e ∈ m, e.2.Held n
  key : ∀ e ∈ m, (e.1 == e.2.left) = true
  distinct : m.Pairwise fun e e' => (e.1 == e'.1) = false
  nodup : (heldIds m).Nodup
  issued : ∀ i ∈ heldIds m, lo ≤ i

/-! ## Keys -/

/-- A key equal to some key is a number, equal to itself. -/
theorem beq_self_of_beq {a b : Float} (h : (a == b) = true) : (a == a) = true :=
  Float.beq_trans h (Float.beq_symm h)

/-- Keys that differ differ either way round. -/
theorem beq_false_symm {a b : Float} (h : (a == b) = false) : (b == a) = false := by
  cases hb : (b == a)
  · rfl
  · rw [Float.beq_symm hb] at h
    cases h

/-- Dropping the region under a key equal to an entry's key drops that entry, when no key before
it is equal to it. -/
theorem dropRegion_eq {key : Float}
    (hd : (l₁ ++ e :: l₂).Pairwise fun e e' => (e.1 == e'.1) = false)
    (hk : (e.1 == key) = true) : dropRegion (l₁ ++ e :: l₂) key = l₁ ++ l₂ := by
  -- no entry before `e` has the key: it would equal `e`'s
  have hnone : ∀ e' ∈ l₁, (e'.1 == key) = false := by
    intro e' he'
    have hne : (e'.1 == e.1) = false :=
      (List.pairwise_append.mp hd).2.2 e' he' e List.mem_cons_self
    cases hb : (e'.1 == key)
    · rfl
    · rw [Float.beq_trans hb (Float.beq_symm hk)] at hne
      cases hne
  unfold dropRegion
  rw [List.findIdx?_append, List.findIdx?_eq_none_iff.mpr hnone, List.findIdx?_cons, if_pos hk]
  simp [List.eraseIdx_append_of_length_le]

theorem dropRegion_sublist (m : List (Float × Region)) (key : Float) : dropRegion m key <+ m := by
  unfold dropRegion
  split
  · exact List.eraseIdx_sublist _ _
  · exact List.Sublist.refl _

/-- A region whose first bin is no key goes last. -/
theorem putRegion_of_new (hnew : ∀ e ∈ m, (e.1 == r.left) = false) :
    putRegion m r = m ++ [(r.left, r)] := by
  unfold putRegion
  rw [if_neg]
  simpa using hnew

/-- The entry a region put in place of another takes. -/
theorem putRegion_entry (r : Region) (e : Float × Region) :
    (fun (kq : Float × Region) => if kq.1 == r.left then (kq.1, r) else (kq.1, kq.2)) e =
      if e.1 == r.left then (e.1, r) else e := by
  simp

namespace Keyed

theorem nil : Keyed lo n [] where
  held _ h := by cases h
  key _ h := by cases h
  distinct := .nil
  nodup := .nil
  issued _ h := by cases h

theorem mono (h : Keyed lo n m) (hle : n ≤ k) : Keyed lo k m :=
  { h with held := fun e he => (h.held e he).mono hle }

theorem lower (h : Keyed lo' n m) (hle : lo ≤ lo') : Keyed lo n m :=
  { h with issued := fun i hi => hle.trans (h.issued i hi) }

/-- Every identity held lies below the counter. -/
theorem below (h : Keyed lo n m) {i : Nat} (hi : i ∈ heldIds m) : i < n := by
  obtain ⟨e, he, hi⟩ := mem_heldIds.mp hi
  exact (h.held e he).wf.below i hi

theorem sublist (h : Keyed lo n m) (hs : m' <+ m) : Keyed lo n m' where
  held e he := h.held e (hs.subset he)
  key e he := h.key e (hs.subset he)
  distinct := h.distinct.sublist hs
  nodup := h.nodup.sublist (hs.flatMap _)
  issued i hi := h.issued i ((hs.flatMap _).subset hi)

/-- Two entries whose keys are equal are one entry. -/
theorem eq_of_beq (h : Keyed lo n m) {e e' : Float × Region} (he : e ∈ m) (he' : e' ∈ m)
    (hk : (e.1 == e'.1) = true) : e = e' := by
  by_contra hne
  have : Std.Symm fun e e' : Float × Region => (e.1 == e'.1) = false :=
    ⟨fun _ _ hab => beq_false_symm hab⟩
  have hd := h.distinct.forall he he' hne
  rw [hk] at hd
  cases hd

/-- Two entries holding one identity are one entry. -/
theorem eq_of_held (h : Keyed lo n m) {e e' : Float × Region} (he : e ∈ m) (he' : e' ∈ m)
    {i : Nat} (hi : i ∈ e.2.peakMap.map Prod.fst) (hi' : i ∈ e'.2.peakMap.map Prod.fst) :
    e = e' := by
  by_contra hne
  have : Std.Symm (Function.onFun List.Disjoint fun e : Float × Region =>
      e.2.peakMap.map Prod.fst) :=
    ⟨fun _ _ hab => List.Disjoint.symm hab⟩
  exact (List.nodup_flatMap.mp h.nodup).2.forall he he' hne hi hi'

/-- The identities of an entry are held by no other entry. -/
theorem not_mem_rest (h : Keyed lo n (l₁ ++ e :: l₂)) {i : Nat}
    (hi : i ∈ e.2.peakMap.map Prod.fst) : i ∉ heldIds (l₁ ++ l₂) := by
  have hnd := h.nodup
  simp only [heldIds_append, heldIds_cons, List.nodup_append] at hnd
  intro hmem
  rw [heldIds_append, List.mem_append] at hmem
  rcases hmem with h₁ | h₂
  · exact hnd.2.2 i h₁ i (List.mem_append_left _ hi) rfl
  · exact hnd.2.1.2.2 i hi i h₂ rfl

/-- A region whose first bin is no key goes last. -/
theorem append (h : Keyed lo n m) (hr : r.Held n) (hnew : ∀ e ∈ m, (e.1 == r.left) = false)
    (hfresh : ∀ i ∈ r.peakMap.map Prod.fst, i ∉ heldIds m)
    (hlo : ∀ i ∈ r.peakMap.map Prod.fst, lo ≤ i) : Keyed lo n (m ++ [(r.left, r)]) where
  held e he := by
    rcases List.mem_append.mp he with he | he
    · exact h.held e he
    · rw [List.mem_singleton.mp he]
      exact hr
  key e he := by
    rcases List.mem_append.mp he with he | he
    · exact h.key e he
    · rw [List.mem_singleton.mp he]
      exact hr.left_self
  distinct := List.pairwise_append.mpr ⟨h.distinct, List.pairwise_singleton _ _,
    fun e he e' he' => by
      rw [List.mem_singleton.mp he']
      exact hnew e he⟩
  nodup := by
    rw [heldIds_append, List.nodup_append]
    refine ⟨h.nodup, by simpa [heldIds] using hr.wf.ids.nodup, fun a ha b hb hab => ?_⟩
    subst hab
    exact hfresh a (by simpa [heldIds] using hb) ha
  issued i hi := by
    rw [heldIds_append, List.mem_append] at hi
    rcases hi with hi | hi
    · exact h.issued i hi
    · exact hlo i (by simpa [heldIds] using hi)

/-- A region whose first bin is a key takes the place of that key's region. -/
theorem inPlace (h : Keyed lo n m) (hr : r.Held n)
    (hfresh : ∀ i ∈ r.peakMap.map Prod.fst, i ∉ heldIds m)
    (hlo : ∀ i ∈ r.peakMap.map Prod.fst, lo ≤ i) :
    Keyed lo n (m.map fun e => if e.1 == r.left then (e.1, r) else e) := by
  -- each entry keeps its key and holds its own region or `r`
  have hentry : ∀ e' ∈ m.map (fun e => if e.1 == r.left then (e.1, r) else e),
      ∃ e ∈ m, e'.1 = e.1 ∧ (e'.2 = r ∧ (e.1 == r.left) = true ∨ e' = e) := by
    intro e' he'
    obtain ⟨e, he, rfl⟩ := List.mem_map.mp he'
    refine ⟨e, he, ?_, ?_⟩
    · split <;> rfl
    · split
      · rename_i hk
        exact .inl ⟨rfl, hk⟩
      · exact .inr rfl
  have hids : ∀ e ∈ m, ∀ i ∈ (if e.1 == r.left then (e.1, r) else e).2.peakMap.map Prod.fst,
      i ∈ r.peakMap.map Prod.fst ∨ i ∈ e.2.peakMap.map Prod.fst := by
    intro e _ i hi
    split at hi
    · exact .inl hi
    · exact .inr hi
  refine ⟨fun e' he' => ?_, fun e' he' => ?_, ?_, ?_, fun i hi => ?_⟩
  · obtain ⟨e, he, -, ⟨hreg, -⟩ | rfl⟩ := hentry e' he'
    · rw [hreg]
      exact hr
    · exact h.held e' he
  · obtain ⟨e, he, hkey, ⟨hreg, hk⟩ | rfl⟩ := hentry e' he'
    · rw [hkey, hreg]
      exact hk
    · exact h.key e' he
  · rw [List.pairwise_map]
    refine h.distinct.imp fun {e e'} hd => ?_
    split <;> split <;> exact hd
  · rw [heldIds, List.flatMap_map, List.nodup_flatMap]
    refine ⟨fun e he => ?_, ?_⟩
    · split
      · exact hr.wf.ids.nodup
      · exact (h.held e he).wf.ids.nodup
    -- two entries put `r` in place only if their keys were equal
    refine (h.distinct.and (List.nodup_flatMap.mp h.nodup).2).imp_of_mem
      fun {e e'} he he' ⟨hd, hdisj⟩ => ?_
    dsimp only [Function.onFun]
    cases hk : (e.1 == r.left) <;> cases hk' : (e'.1 == r.left)
    · simpa using hdisj
    · rw [if_neg Bool.false_ne_true, if_pos rfl]
      exact fun i hi hi' => hfresh i hi' (mem_heldIds_of_mem he hi)
    · rw [if_pos rfl, if_neg Bool.false_ne_true]
      exact fun i hi hi' => hfresh i hi (mem_heldIds_of_mem he' hi')
    · rw [Float.beq_trans hk (Float.beq_symm hk')] at hd
      cases hd
  · rw [heldIds, List.flatMap_map] at hi
    obtain ⟨e, he, hi⟩ := List.mem_flatMap.mp hi
    rcases hids e he i hi with hi | hi
    · exact hlo i hi
    · exact h.issued i (mem_heldIds_of_mem he hi)

/-- Putting in a held region whose identities no region of the map holds, all handed out from
`lo` on, keeps the invariant. -/
theorem put (h : Keyed lo n m) (hr : r.Held n)
    (hfresh : ∀ i ∈ r.peakMap.map Prod.fst, i ∉ heldIds m)
    (hlo : ∀ i ∈ r.peakMap.map Prod.fst, lo ≤ i) : Keyed lo n (putRegion m r) := by
  unfold putRegion
  split
  · have hmap : (m.map fun (kq : Float × Region) =>
        if kq.1 == r.left then (kq.1, r) else (kq.1, kq.2)) =
        m.map fun e => if e.1 == r.left then (e.1, r) else e :=
      List.map_congr_left fun e _ => putRegion_entry r e
    rw [hmap]
    exact h.inPlace hr hfresh hlo
  · rename_i hany
    exact h.append hr (by simpa using hany) hfresh hlo

/-- Putting in a region built from the counter at `n` keeps the invariant. -/
theorem insert (h : Keyed lo n m) (hle : n ≤ k) (hlo : lo ≤ n) (ht : t.Held k)
    (hnew : ∀ i ∈ t.peakMap.map Prod.fst, n ≤ i) : Keyed lo k (putRegion m t) :=
  (h.mono hle).put ht (fun i hi hheld => absurd (h.below hheld) (Nat.not_lt.mpr (hnew i hi)))
    fun i hi => Nat.le_trans hlo (hnew i hi)

/-- Putting back, in place of an entry, a region that holds on to the entry's identities or takes
new ones from the counter at `n` keeps the invariant. -/
theorem replace (h : Keyed lo n (l₁ ++ e :: l₂)) (hle : n ≤ k) (hlo : lo ≤ n) (ht : t.Held k)
    (hfrom : IdsFrom e.2 n t) : Keyed lo k (putRegion (l₁ ++ l₂) t) := by
  have hsub : l₁ ++ l₂ <+ l₁ ++ e :: l₂ := (List.Sublist.refl l₁).append (List.sublist_cons_self e l₂)
  refine ((h.mono hle).sublist hsub).put ht (fun i hi hheld => ?_) fun i hi => ?_
  · rcases hfrom i hi with hold | hnew
    · exact h.not_mem_rest hold hheld
    · have hlt := h.below ((hsub.flatMap _).subset hheld)
      omega
  · rcases hfrom i hi with hold | hnew
    · exact h.issued i (mem_heldIds_of_mem (List.mem_append_right _ List.mem_cons_self) hold)
    · exact Nat.le_trans hlo hnew

/-- An entry other than `e` has a key other than `e`'s. -/
theorem beq_other (h : Keyed lo n (l₁ ++ e :: l₂)) {e' : Float × Region} (he' : e' ∈ l₁ ++ l₂) :
    (e'.1 == e.1) = false := by
  have hd := List.pairwise_append.mp h.distinct
  rcases List.mem_append.mp he' with he' | he'
  · exact hd.2.2 e' he' e List.mem_cons_self
  · exact beq_false_symm (List.rel_of_pairwise_cons hd.2.1 he')

/-- An entry other than `e` has a key other than the first bin of `e`'s region, which is `e`'s
key. -/
theorem beq_left_other (h : Keyed lo n (l₁ ++ e :: l₂)) {e' : Float × Region}
    (he' : e' ∈ l₁ ++ l₂) : (e'.1 == e.2.left) = false := by
  have hkey := h.key e (List.mem_append_right _ List.mem_cons_self)
  cases hb : (e'.1 == e.2.left)
  · rfl
  · have hsame := Float.beq_trans hb (Float.beq_symm hkey)
    rw [h.beq_other he'] at hsame
    cases hsame

/-- Putting back a region with the bins of the entry it replaces puts it last: no other key is
its first bin. -/
theorem putRegion_last (h : Keyed lo n (l₁ ++ e :: l₂)) (hx : t.finder.x = e.2.finder.x) :
    putRegion (l₁ ++ l₂) t = l₁ ++ l₂ ++ [(t.left, t)] := by
  refine putRegion_of_new fun e' he' => ?_
  rw [left_of_bins hx]
  exact h.beq_left_other he'

end Keyed

/-! ## Regions by first bin -/

variable {a : Analysis}

theorem mem_regions : r ∈ a.regions ↔ ∃ key, (key, r) ∈ a.regionMap := by
  unfold regions
  simp [List.mem_mergeSort]

/-- Entries with one region have one key, so the regions by first bin are distinct. -/
theorem Keyed.regions_nodup (h : Keyed lo n a.regionMap) : a.regions.Nodup := by
  unfold regions
  refine ((List.mergeSort_perm _ _).map _).nodup_iff.mpr ?_
  refine List.pairwise_map.mpr (h.distinct.imp_of_mem fun {e e'} he he' hd hreg => ?_)
  have hk : (e.1 == e'.1) = true :=
    Float.beq_trans (h.key e he) (hreg ▸ Float.beq_symm (h.key e' he'))
  rw [hk] at hd
  cases hd

/-- Replacing the region under a key equal to an entry's key by a region that holds on to the
entry's identities or takes new ones keeps the invariant. -/
theorem Keyed.replaceRegion (h : Keyed lo n a.regionMap) (he : e ∈ a.regionMap) {key : Float}
    (hk : (e.1 == key) = true) (hle : n ≤ k) (hlo : lo ≤ n) (ht : t.Held k)
    (hfrom : IdsFrom e.2 n t) : Keyed lo k (a.replaceRegion (some key) t).regionMap := by
  obtain ⟨l₁, l₂, hm⟩ := List.append_of_mem he
  show Keyed lo k (putRegion (dropRegion a.regionMap key) t)
  rw [hm] at h ⊢
  rw [dropRegion_eq h.distinct hk]
  exact h.replace hle hlo ht hfrom

/-- An entry of `l₁ ++ e :: l₂` other than `e` is an entry of `l₁ ++ l₂`. -/
theorem mem_of_mem_middle {e' : Float × Region} (he' : e' ∈ l₁ ++ e :: l₂) (hne : e' ≠ e) :
    e' ∈ l₁ ++ l₂ := by
  simp only [List.mem_append, List.mem_cons] at he' ⊢
  rcases he' with h₁ | rfl | h₂
  · exact .inl h₁
  · exact absurd rfl hne
  · exact .inr h₂

theorem mem_middle_of_mem {e' : Float × Region} (he' : e' ∈ l₁ ++ l₂) : e' ∈ l₁ ++ e :: l₂ :=
  ((List.Sublist.refl l₁).append (List.sublist_cons_self e l₂)).subset he'

/-- Putting back, under the key of an entry, a region with the bins of its region takes the
entry out and puts the region last. -/
theorem Keyed.replaceRegion_last (h : Keyed lo n a.regionMap) (hm : a.regionMap = l₁ ++ e :: l₂)
    {key : Float} (hk : (e.1 == key) = true) (hx : t.finder.x = e.2.finder.x) :
    (a.replaceRegion (some key) t).regionMap = l₁ ++ l₂ ++ [(t.left, t)] := by
  show putRegion (dropRegion a.regionMap key) t = _
  rw [hm] at h ⊢
  rw [dropRegion_eq h.distinct hk, h.putRegion_last hx]

/-- Putting back, under the key of an entry, a region with the bins of its region leaves every
other entry where it was. -/
theorem Keyed.replaceRegion_keeps (h : Keyed lo n a.regionMap) (he : e ∈ a.regionMap)
    {key : Float} (hk : (e.1 == key) = true) (hx : t.finder.x = e.2.finder.x)
    {e' : Float × Region} (he' : e' ∈ a.regionMap) (hne : e' ≠ e) :
    e' ∈ (a.replaceRegion (some key) t).regionMap := by
  obtain ⟨l₁, l₂, hm⟩ := List.append_of_mem he
  rw [h.replaceRegion_last hm hk hx]
  rw [hm] at he'
  exact List.mem_append_left _ (mem_of_mem_middle he' hne)

/-- An entry of `l₁ ++ l₂`, when `l₁ ++ e :: l₂` is filed, holds another region than `e`. -/
theorem Keyed.region_ne (h : Keyed lo n (l₁ ++ e :: l₂)) {e' : Float × Region}
    (he' : e' ∈ l₁ ++ l₂) : e'.2 ≠ e.2 := by
  intro hreg
  have hk : (e'.1 == e.1) = true := Float.beq_trans (h.key e' (mem_middle_of_mem he'))
    (hreg ▸ Float.beq_symm (h.key e (List.mem_append_right _ List.mem_cons_self)))
  rw [h.beq_other he'] at hk
  cases hk

/-- A region put in under its first bin, unless it has no bins or overlaps a region. -/
theorem Keyed.insertRegion (h : Keyed lo n a.regionMap) (hle : n ≤ k) (hlo : lo ≤ n)
    (hwf : Wf t.settings k t) (ht : t.Tied) (hnew : ∀ i ∈ t.peakMap.map Prod.fst, n ≤ i) :
    Keyed lo k (a.insertRegion t).2.regionMap := by
  unfold Analysis.insertRegion
  split
  · exact h.mono hle
  · rename_i hfit
    have hx : t.finder.x ≠ #[] := fun hx => hfit (by simp [hx])
    exact h.insert hle hlo ⟨hwf, ht, hx⟩ hnew

/-- Putting in a region built from the counter at `n`. -/
theorem Keyed.insertNew (h : Keyed lo n a.regionMap) (hle : n ≤ k) (hlo : lo ≤ n) (ht : t.Held k)
    (hnew : ∀ i ∈ t.peakMap.map Prod.fst, n ≤ i) : Keyed lo k (a.replaceRegion none t).regionMap :=
  h.insert hle hlo ht hnew

/-! ## The operations of an analysis keep the invariant -/

section Operations

variable {lo n : Nat} {a : Analysis}

theorem setData_keyed (h : Keyed lo n a.regionMap) (x y : Array Float) (bits live real name : Value) :
    Outcome.Post (a.setData x y bits live real name) fun res => Keyed lo n res.2.regionMap := by
  unfold setData
  split
  · exact .pure h
  dsimp only
  split
  · exact .bind_forall fun _ => .pure .nil
  · exact .pure h

/-- New data drops every region, or leaves the analysis as it was. -/
theorem setData_regionMap (x y : Array Float) (bits live real name : Value) :
    Outcome.Post (a.setData x y bits live real name) fun res =>
      res.2.regionMap = [] ∨ res.2.regionMap = a.regionMap := by
  unfold setData
  split
  · exact .pure (.inr rfl)
  dsimp only
  split
  · exact .bind_forall fun _ => .pure (.inl rfl)
  · exact .pure (.inr rfl)

theorem deleteRegion_keyed (h : Keyed lo n a.regionMap) (key : Float) :
    Keyed lo n (a.deleteRegion key).2.regionMap := by
  unfold deleteRegion
  split
  · exact h.sublist (dropRegion_sublist _ _)
  · exact h

/-- New settings reach every region, which keeps its bins, its peaks and its edges. -/
theorem applySettings_keyed (h : Keyed lo n a.regionMap) (s : Settings) :
    Outcome.Post (a.applySettings s) fun t => Keyed lo n t.regionMap := by
  -- the regions under their new settings
  have hset : Keyed lo n (a.regionMap.map fun (kr : Float × Region) =>
      (kr.1, { kr.2 with settings := s })) := by
    refine ⟨fun e' he' => ?_, fun e' he' => ?_, ?_, ?_, fun i hi => ?_⟩
    · obtain ⟨e, he, rfl⟩ := List.mem_map.mp he'
      have hh := h.held e he
      exact ⟨⟨rfl, hh.wf.bins, hh.wf.ids, hh.wf.below⟩, hh.tied.of_frame rfl rfl rfl rfl, hh.bins⟩
    · obtain ⟨e, he, rfl⟩ := List.mem_map.mp he'
      exact h.key e he
    · exact List.pairwise_map.mpr h.distinct
    · rw [heldIds, List.flatMap_map]
      exact h.nodup
    · rw [heldIds, List.flatMap_map] at hi
      exact h.issued i hi
  unfold applySettings
  refine .bind_forall fun _ => ?_
  dsimp only
  split
  · exact .bind_forall fun _ => .pure hset
  · exact .pure hset

/-- Replacing a peak changes only the region holding it, which keeps its bins. -/
theorem replacePeak_keyed (h : Keyed lo n a.regionMap) (hlo : lo ≤ n) (p : Peak) :
    Outcome.Post (a.replacePeak p) fun res => Keyed lo n res.2.regionMap ∧
      ∀ e ∈ a.regionMap, e.2.contains p.id = false → e ∈ res.2.regionMap := by
  unfold replacePeak
  split
  · rename_i key r hparent
    have he : (key, r) ∈ a.regionMap := List.mem_of_find?_eq_some hparent
    have hholds : r.contains p.id = true := by
      unfold parentOf at hparent
      have hsat := List.find?_some hparent
      exact hsat
    have hedit : Outcome.Post (r.replacePeak p) fun res =>
        (res.2.Held n ∧ IdsFrom r n res.2) ∧ res.2.finder.x = r.finder.x :=
      fun res hres => ⟨(h.held _ he).replacePeak p res hres, replacePeak_bins rfl res hres⟩
    refine .bind hedit fun res hres => ?_
    obtain ⟨ok, t⟩ := res
    dsimp only
    split
    · exact .pure ⟨h, fun _ he' _ => he'⟩
    · refine .pure ⟨h.replaceRegion he (beq_self_of_beq (h.key _ he)) le_rfl hlo hres.1.1 hres.1.2,
        fun e' he' hfree => h.replaceRegion_keeps he (beq_self_of_beq (h.key _ he)) hres.2 he' ?_⟩
      rintro rfl
      rw [hholds] at hfree
      cases hfree
  · exact .pure ⟨h, fun _ he' _ => he'⟩

/-- A range change of the region under a key puts it back unless it fails or overlaps another
region. -/
theorem adjust_keyed (h : Keyed lo n a.regionMap) (hlo : lo ≤ n) (key : Float) (edit : RangeEdit)
    (l rt : Float) :
    Outcome.Post (a.adjust key edit l rt) fun res => Keyed lo n res.2.regionMap := by
  unfold adjust
  split
  · rename_i r hr
    obtain ⟨e, hfind, rfl⟩ := Option.map_eq_some_iff.mp hr
    have he : e ∈ a.regionMap := List.mem_of_find?_eq_some hfind
    have hput : ∀ t : Region, t.Held n → IdsFrom e.2 n t →
        Keyed lo n (a.replaceRegion (some e.2.left) t).regionMap := fun t ht hfrom =>
      h.replaceRegion he (h.key e he) le_rfl hlo ht hfrom
    dsimp only
    cases edit
    · refine .bind (h.held e he).adjustLB fun res hres => ?_
      obtain ⟨ok, t⟩ := res
      dsimp only
      split
      · exact .pure h
      · exact .pure (hput t hres.1 hres.2)
    · refine .bind (h.held e he).adjustRB fun res hres => ?_
      obtain ⟨ok, t⟩ := res
      dsimp only
      split
      · exact .pure h
      · exact .pure (hput t hres.1 hres.2)
    · refine .bind (h.held e he).adjustBounds fun res hres => ?_
      obtain ⟨ok, t⟩ := res
      dsimp only
      split
      · exact .pure h
      · exact .pure (hput t hres.1 hres.2)
  · exact .pure h

/-- Adding a peak changes the first region the bounds overlap, or builds a new region over them
that holds only identities handed out during the call. -/
theorem addPeak_keyed (h : Keyed lo n a.regionMap) (hlo : lo ≤ n) (l rt : Float) (i : Bool) :
    RegionM.Runs (a.addPeak l rt i) n fun res k => Keyed lo k res.2.regionMap := by
  unfold addPeak
  split
  · exact .pure h
  split
  · -- through the first region the bounds overlap
    rename_i r hfind
    obtain ⟨key, hmem⟩ := mem_regions.mp (List.mem_of_find?_eq_some hfind)
    refine .bind (h.held _ hmem).addPeak fun res k hk hres => ?_
    obtain ⟨ok, t⟩ := res
    dsimp only
    split
    · exact .pure (h.mono hk)
    · exact .pure (h.replaceRegion hmem (h.key _ hmem) hk hlo hres.1 hres.2)
  · -- a new region over the bounds, fitted, with a summation peak when the fit finds nothing
    dsimp only
    split
    · exact .pure h
    refine .liftOutcome_bind fun o ho => ?_
    split
    rotate_left
    · exact .pure h
    rename_i r
    obtain ⟨hr, hpm⟩ := ofRange_held (n := n) _ ho r rfl
    refine .bind hr.autoFit fun res k hk hres => ?_
    obtain ⟨o, t⟩ := res
    have hnew : ∀ i ∈ t.peakMap.map Prod.fst, n ≤ i := fun i hi =>
      (hres.2.1 i hi).resolve_left (by rw [hpm]; exact List.not_mem_nil)
    dsimp only
    refine .liftOutcome_bind fun b _ => ?_
    split
    · rw [pure_bind]
      exact .pure (h.insertNew hk hlo hres.1 hnew)
    · refine .bind hres.1.addSum4Peak fun res' k' hk' hres' => ?_
      rw [pure_bind]
      refine .pure (h.insertNew (Nat.le_trans hk hk') hlo hres'.1 fun i hi => ?_)
      rcases hres'.2 i hi with hold | hfresh
      · exact hnew i hold
      · exact Nat.le_trans hk hfresh

/-- In a pass over distinct regions, the one met now is not among those passed. -/
theorem passed_fresh {xs pre rest : List Region} (hnodup : xs.Nodup) (hxs : pre ++ x :: rest = xs) :
    x ∈ xs ∧ x ∉ pre := by
  subst hxs
  refine ⟨List.mem_append_right _ List.mem_cons_self, fun hmem => ?_⟩
  exact (List.nodup_append.mp hnodup).2.2 x hmem x List.mem_cons_self rfl

/-- A search for regions builds regions without peaks from the data, failing or not. -/
theorem findRegions_keyed (a : Analysis) :
    Except.Post a.findRegions (fun res => Keyed lo n res.2.regionMap)
      fun failed => Keyed lo n failed.2.regionMap := by
  unfold findRegions
  dsimp only
  split
  · exact .pure .nil
  refine .bind (.mapError (fun _ _ => trivial) fun _ => .nil) fun f _ => ?_
  split
  · exact .pure .nil
  refine .bind (.mapError (fun _ _ => trivial) fun _ => .nil) fun windows _ => ?_
  refine .bind (.forIn (fun b : Analysis => Keyed lo n b.regionMap) .nil
    fun w b hb => ?_) fun b hb => .pure hb
  split
  · rename_i region hregion
    obtain ⟨hr, hpm⟩ := ofRange_held (n := n) _ hregion region rfl
    exact .pure (hb.put hr (by simp [hpm]) (by simp [hpm]))
  · exact .pure hb
  · exact .bind (P := fun _ => False) hb fun _ h => h.elim

/-- Removing peaks takes them out of every region that holds one, which is put back with its bins,
and leaves every other region where it was. The loop passes the regions by first bin: the ones
not passed yet are still filed under their keys, every entry is one of them or holds none of the
identities, and every region that held none of them from the start is still there. -/
theorem removePeaks_keyed (h : Keyed lo n a.regionMap) (hlo : lo ≤ n) (ids : List Nat) :
    Outcome.Post (a.removePeaks ids) fun res => Keyed lo n res.2.regionMap ∧
      (∀ e ∈ res.2.regionMap, ∀ i ∈ ids, e.2.contains i = false) ∧
      ∀ e ∈ a.regionMap, (∀ i ∈ ids, e.2.contains i = false) → e ∈ res.2.regionMap := by
  unfold removePeaks
  dsimp only
  have hnodup := h.regions_nodup
  refine .bind (.forIn_passed (fun pre (s : Analysis × Bool) =>
      Keyed lo n s.1.regionMap ∧
      (∀ r ∈ a.regions, r ∉ pre → ∃ key, (key, r) ∈ s.1.regionMap) ∧
      (∀ e ∈ s.1.regionMap, (e.2 ∈ a.regions ∧ e.2 ∉ pre) ∨ ∀ i ∈ ids, e.2.contains i = false) ∧
      ∀ e ∈ a.regionMap, (∀ i ∈ ids, e.2.contains i = false) → e ∈ s.1.regionMap)
    ⟨h, fun r hr _ => mem_regions.mp hr,
      fun e he => .inl ⟨mem_regions.mpr ⟨e.1, he⟩, List.not_mem_nil⟩, fun e he _ => he⟩
    fun pre x rest s hxs hI => ?_) fun s hs => .pure ⟨hs.1, fun e he => ?_, hs.2.2.2⟩
  rotate_left
  · rcases hs.2.2.1 e he with ⟨hin, hout⟩ | hclean
    · exact absurd hin hout
    · exact hclean
  obtain ⟨hkeyed, hrest, hentries, hkept⟩ := hI
  obtain ⟨hx, hxpre⟩ := passed_fresh hnodup hxs
  obtain ⟨key, hmem⟩ := hrest x hx hxpre
  have hheld := hkeyed.held _ hmem
  split
  · -- it holds one of the identities: it gives them up and goes back last
    rename_i hany
    have hedit : Outcome.Post (x.removePeaks ids) fun res => res.1 = true ∧ res.2.Held n ∧
        res.2.finder.x = x.finder.x ∧
        (res.1 = true → ∀ i ∈ res.2.peakMap.map Prod.fst,
          i ∈ x.peakMap.map Prod.fst ∧ ids.contains i = false) := fun res hres =>
      ⟨removePeaks_answer hany res hres, hheld.removePeaks ids res hres,
        removePeaks_bins rfl res hres, (removePeaks_spec hheld.wf res hres).2⟩
    refine .bind hedit fun res hres => ?_
    obtain ⟨hok, ht, hbins, hfrom⟩ := hres
    split
    rotate_left
    · rename_i hnot
      exact absurd hok hnot
    obtain ⟨l₁, l₂, hm⟩ := List.append_of_mem hmem
    have hkey := hkeyed.key _ hmem
    have hlast := hkeyed.replaceRegion_last hm hkey hbins
    have hdirty : ∃ i ∈ ids, x.contains i = true := List.any_eq_true.mp hany
    refine .pure ⟨_, rfl, ?_, fun r hr hr' => ?_, fun e he => ?_, fun e he hclean => ?_⟩
    · exact hkeyed.replaceRegion hmem hkey le_rfl hlo ht
        (.of_subset (fun i hi => (hfrom hok i hi).1) n)
    · -- a region not passed yet was another entry
      obtain ⟨key', hmem'⟩ := hrest r hr fun h => hr' (List.mem_append_left _ h)
      rw [hm] at hmem'
      refine ⟨key', ?_⟩
      rw [hlast]
      refine List.mem_append_left _ (mem_of_mem_middle hmem' fun heq => hr' ?_)
      exact List.mem_append_right _ (List.mem_singleton.mpr (Prod.mk.inj heq).2)
    · rw [hlast] at he
      rcases List.mem_append.mp he with he | he
      · rw [hm] at hkeyed hentries
        rcases hentries e (mem_middle_of_mem he) with ⟨hin, hout⟩ | hclean
        · refine .inl ⟨hin, fun hmem' => (List.mem_append.mp hmem').elim hout fun hx' => ?_⟩
          exact hkeyed.region_ne he (List.mem_singleton.mp hx')
        · exact .inr hclean
      · -- the region put back holds none of the identities
        rw [List.mem_singleton.mp he]
        refine .inr fun i hi => ?_
        cases hc : res.2.contains i
        · rfl
        · have hgone := (hfrom hok i (any_key_iff.mp hc)).2
          simp [hi] at hgone
    · -- a region that held none of the identities was another entry
      have hmem' := hkept e he hclean
      rw [hm] at hmem'
      rw [hlast]
      refine List.mem_append_left _ (mem_of_mem_middle hmem' fun heq => ?_)
      obtain ⟨i, hi, hxi⟩ := hdirty
      have hxclean := hclean i hi
      rw [heq] at hxclean
      rw [hxclean] at hxi
      cases hxi
  · -- it holds none of them: nothing changes
    rename_i hany
    have hclean : ∀ i ∈ ids, x.contains i = false := by
      intro i hi
      cases hc : x.contains i
      · rfl
      · exact absurd (List.any_eq_true.mpr ⟨i, hi, hc⟩) hany
    refine .pure ⟨_, rfl, hkeyed, fun r hr hr' => hrest r hr fun h => hr' (List.mem_append_left _ h),
      fun e he => ?_, hkept⟩
    rcases hentries e he with ⟨hin, hout⟩ | hclean'
    · by_cases hex : e.2 = x
      · exact .inr (hex ▸ hclean)
      · refine .inl ⟨hin, fun hmem' => (List.mem_append.mp hmem').elim hout fun hx' => ?_⟩
        exact hex (List.mem_singleton.mp hx')
    · exact .inr hclean'

/-- Fitting every region puts each back under its first bin with its bins; the loop carries that
the regions not passed yet are still filed. -/
theorem autoFitRegions_keyed (h : Keyed lo n a.regionMap) (hlo : lo ≤ n) (i : Bool) :
    RegionM.Runs (a.autoFitRegions i) n fun res k => Keyed lo k res.2.regionMap := by
  unfold autoFitRegions
  dsimp only
  have hnodup := h.regions_nodup
  refine .bind (.forIn_passed (fun pre (s : Analysis × Nat) k => n ≤ k ∧
      Keyed lo k s.1.regionMap ∧ ∀ r ∈ a.regions, r ∉ pre → ∃ key, (key, r) ∈ s.1.regionMap)
    ⟨le_rfl, h, fun r hr _ => mem_regions.mp hr⟩ fun pre x rest s k hxs hI => ?_)
    fun s k _ hs => .pure hs.2.1
  obtain ⟨hnk, hkeyed, hrest⟩ := hI
  obtain ⟨hx, hxpre⟩ := passed_fresh hnodup hxs
  obtain ⟨key, hmem⟩ := hrest x hx hxpre
  have hheld := hkeyed.held _ hmem
  have hkey := hkeyed.key _ hmem
  -- however the region is fitted, it goes back with its bins and the others stay
  have hnext : ∀ (t : Region) k', k ≤ k' → t.Held k' → IdsFrom x k t →
      t.finder.x = x.finder.x → n ≤ k' ∧ Keyed lo k' (s.1.replaceRegion (some x.left) t).regionMap ∧
        ∀ r ∈ a.regions, r ∉ pre ++ [x] →
          ∃ key, (key, r) ∈ (s.1.replaceRegion (some x.left) t).regionMap := by
    intro t k' hk' ht hfrom hbins
    refine ⟨hnk.trans hk', hkeyed.replaceRegion hmem hkey hk' (hlo.trans hnk) ht hfrom,
      fun r hr hr' => ?_⟩
    obtain ⟨key', hmem'⟩ := hrest r hr fun h => hr' (List.mem_append_left _ h)
    refine ⟨key', hkeyed.replaceRegion_keeps hmem hkey hbins hmem' fun heq => hr' ?_⟩
    exact List.mem_append_right _ (List.mem_singleton.mpr (Prod.mk.inj heq).2)
  split
  · rw [pure_bind]
    split <;> exact .pure ⟨_, rfl, hnext x k le_rfl hheld (.refl x k) rfl⟩
  · refine .bind hheld.autoFit fun res k' hk' hres => .liftOutcome_bind fun _ _ => ?_
    rw [pure_bind]
    split <;> exact .pure ⟨_, rfl, hnext res.2 k' hk' hres.1 hres.2.1 hres.2.2⟩

/-- What holds of every analysis read from a document, once it holds of an analysis without
regions and survives putting in a region read with identities from the counter on (and the
counter moving on): reading a document sets the spectrum, which drops every region, and puts in
the stored regions one by one. The document's kind of region list gives a copy of the loop for
each, which reads the same. -/
theorem ofDocument_induction (I : Analysis → Nat → Prop) (hstart : ∀ a, a.regionMap = [] → I a n)
    (hput : ∀ cur k k' t, n ≤ k → k ≤ k' → I cur k → Wf t.settings k' t → t.Tied →
      (∀ i ∈ t.peakMap.map Prod.fst, k ≤ i) → I (cur.insertRegion t).2 k')
    (hskip : ∀ cur k k', k ≤ k' → I cur k → I cur k') (doc : Value) :
    RegionM.Runs (Analysis.ofDocument doc) n I := by
  unfold Analysis.ofDocument
  dsimp only
  split
  rotate_left
  · exact .bind (P := fun _ _ => False) .throw fun _ _ _ h => h.elim
  refine .liftOutcome_bind fun s _ => .liftOutcome_bind fun _ _ =>
    .liftOutcome_bind fun _ _ => .liftOutcome_bind fun _ _ => ?_
  split
  rotate_left
  · exact .throw
  refine .liftOutcome_bind fun res hres => ?_
  -- new data over a new analysis leaves it without regions
  have hnew : res.2.regionMap = [] := by
    rcases setData_regionMap (a := Analysis.new s) _ _ _ _ _ _ res hres with h | h <;> exact h
  split
  · exact .bind (P := fun _ _ => False) .throw fun _ _ _ h => h.elim
  split
  all_goals first
    | exact .bind (P := fun _ _ => False) .throw fun _ _ _ h => h.elim
    | rw [pure_bind]
      refine .bind (.forIn (fun (cur : Analysis) k => n ≤ k ∧ I cur k)
        ⟨le_rfl, hstart _ hnew⟩ fun e cur k _ hcur => ?_) fun cur k _ hcur => .pure hcur.2
      refine .bind ofDocument_fresh fun o k' hk' ho => ?_
      split
      · rename_i t
        obtain ⟨hwf, ht, hfresh⟩ := ho t rfl
        exact .pure ⟨hcur.1.trans hk', hput cur k k' t hcur.1 hk' hcur.2 hwf ht hfresh⟩
      · exact .pure ⟨hcur.1.trans hk', hskip cur k k' hk' hcur.2⟩

/-- An analysis read from a document files its regions under their first bins, holding
identities the counter handed out while it was read. -/
theorem ofDocument_keyed (doc : Value) :
    RegionM.Runs (Analysis.ofDocument doc) n fun a k => Keyed n k a.regionMap :=
  ofDocument_induction (fun a k => Keyed n k a.regionMap) (fun _ ha => ha ▸ .nil)
    (fun _ _ _ _ hk hk' hcur hwf ht hfresh => hcur.insertRegion hk' hk hwf ht hfresh)
    (fun _ _ _ hk' hcur => hcur.mono hk') doc

end Operations

end Analysis

namespace Request

open Analysis (Keyed)

/-- Every step of an analysis's request keeps its regions filed under their first bins, holding
identities handed out from `lo` on, each once; a step that loads a document starts over with
identities from the counter on. -/
theorem analysisStep_keyed {a : Analysis} {lo n : Nat} (h : Keyed lo n a.regionMap) (hlo : lo ≤ n)
    (step : Value) :
    RegionM.Runs (analysisStep a step) n fun res k => Keyed lo k res.2.regionMap := by
  unfold analysisStep
  dsimp only
  split
  next => -- set_data
    refine .liftOutcome_bind fun _ _ => .liftOutcome_bind fun _ _ => ?_
    split
    · exact .liftOutcome_bind fun res hres => .pure (Analysis.setData_keyed h _ _ _ _ _ _ res hres)
    · exact .pure h
  next => -- find_regions
    split
    all_goals
      rename_i hfind
      have hpost : Except.Post a.findRegions (fun res => Keyed lo n res.2.regionMap)
          fun failed => Keyed lo n failed.2.regionMap := Analysis.findRegions_keyed a
      rw [hfind] at hpost
      exact .pure hpost
  next => -- auto_fit_regions
    exact .bind (Analysis.autoFitRegions_keyed h hlo _) fun _ _ _ hres => .pure hres
  next => -- add_peak
    exact .liftOutcome_bind fun _ _ => .liftOutcome_bind fun _ _ =>
      .bind (Analysis.addPeak_keyed h hlo _ _ _) fun _ _ _ hres => .pure hres
  next => -- remove_peaks
    exact .liftOutcome_bind fun _ _ => .liftOutcome_bind fun res hres =>
      .pure (Analysis.removePeaks_keyed h hlo _ res hres).1
  next => -- replace_peak
    exact .liftOutcome_bind fun _ _ => .liftOutcome_bind fun res hres =>
      .pure (Analysis.replacePeak_keyed h hlo _ res hres).1
  next => -- adjust_LB
    exact .liftOutcome_bind fun _ _ => .liftOutcome_bind fun _ _ => .liftOutcome_bind fun _ _ =>
      .liftOutcome_bind fun res hres => .pure (Analysis.adjust_keyed h hlo _ _ _ _ res hres)
  next => -- adjust_RB
    exact .liftOutcome_bind fun _ _ => .liftOutcome_bind fun _ _ => .liftOutcome_bind fun _ _ =>
      .liftOutcome_bind fun res hres => .pure (Analysis.adjust_keyed h hlo _ _ _ _ res hres)
  next => -- adjust_bounds
    exact .liftOutcome_bind fun _ _ => .liftOutcome_bind fun _ _ => .liftOutcome_bind fun _ _ =>
      .liftOutcome_bind fun res hres => .pure (Analysis.adjust_keyed h hlo _ _ _ _ res hres)
  next => -- delete_roi
    exact .liftOutcome_bind fun _ _ => .pure (Analysis.deleteRegion_keyed h _)
  next => -- parent_of
    exact .liftOutcome_bind fun _ _ => .pure h
  next => -- apply_settings
    exact .liftOutcome_bind fun _ _ => .liftOutcome_bind fun t ht =>
      .pure (Analysis.applySettings_keyed h _ t ht)
  next => -- clear
    exact .pure .nil
  next => -- table
    exact .pure h
  next => -- report
    exact .liftOutcome_bind fun _ _ => .pure h
  next => -- export
    exact .liftOutcome_bind fun _ _ => .pure h
  next => -- to_dict
    exact .liftOutcome_bind fun _ _ => .pure h
  next => -- reload: the document read holds identities from the counter on
    split
    · split
      · exact .bind (P := fun _ _ => True) (.pure trivial) fun doc k hk _ =>
          .bind (Analysis.ofDocument_keyed doc) fun _ _ _ ht => .pure (ht.lower (hlo.trans hk))
      · exact .bind (P := fun _ _ => True) (.liftOutcome fun _ _ => trivial) fun doc k hk _ =>
          .bind (Analysis.ofDocument_keyed doc) fun _ _ _ ht => .pure (ht.lower (hlo.trans hk))
    · exact .bind (P := fun _ _ => True) (.liftOutcome fun _ _ => trivial) fun doc k hk _ =>
        .bind (Analysis.ofDocument_keyed doc) fun _ _ _ ht => .pure (ht.lower (hlo.trans hk))
  next => -- save_load
    exact .bind (P := fun _ _ => True) (.liftOutcome fun _ _ => trivial) fun doc k hk _ =>
      .bind (Analysis.ofDocument_keyed doc) fun _ _ _ ht => .pure (ht.lower (hlo.trans hk))
  next => exact .throw

end Request

namespace Analysis

variable {a : Analysis} {lo n : Nat}

/-! ## Every analysis a run reaches -/

/-- An entry holding an identity is the parent `parentOf` finds for it. -/
theorem Keyed.parentOf_eq (h : Keyed lo n a.regionMap) {e : Float × Region} (he : e ∈ a.regionMap)
    {i : Nat} (hi : e.2.contains i = true) : a.parentOf i = some e := by
  obtain ⟨e', hfind⟩ : ∃ e', a.parentOf i = some e' :=
    Option.isSome_iff_exists.mp (List.find?_isSome.mpr ⟨e, he, hi⟩)
  rw [hfind]
  unfold parentOf at hfind
  have hsat := List.find?_some hfind
  have hheld : e'.2.contains i = true := hsat
  exact congrArg some
    (h.eq_of_held (List.mem_of_find?_eq_some hfind) he (any_key_iff.mp hheld) (any_key_iff.mp hi))

/-- The analysis a step leaves: the one it answers with, or the one it was given when it fails. -/
def afterStep (a : Analysis) : Except Failure (Outcome Value × Analysis) → Analysis
  | .ok (_, t) => t
  | .error _ => a

/-- The analyses that a run reaches while the counter hands out identities from `lo` on, with the
counter they leave it at: a new analysis, one read from a document, what a step leaves of an
analysis reached, and a region built elsewhere put in when it overlaps none (`insert_roi`). The
region put in is one a region's own operations reach, holding identities the counter handed out
since the analysis last took one. -/
inductive Reached (lo : Nat) : Analysis → Nat → Prop
  | new (s : Settings) : Reached lo (Analysis.new s) lo
  | load {doc : Value} {a : Analysis} {n : Nat} :
      ((Analysis.ofDocument doc).run.run lo).run = (.ok a, n) → Reached lo a n
  | step {a : Analysis} {n n' : Nat} {step : Value}
      {res : Except Failure (Outcome Value × Analysis)} :
      Reached lo a n → ((Request.analysisStep a step).run.run n).run = (res, n') →
      Reached lo (afterStep a res) n'
  | insert {a : Analysis} {n k : Nat} {s : Settings} {parent : Finder} {r : Region} :
      Reached lo a n → Request.Reachable s parent r k → n ≤ k →
      (∀ i ∈ r.peakMap.map Prod.fst, n ≤ i) → Reached lo (a.insertRegion r).2 k

/-- Every analysis reached files its regions under their first bins, holding identities handed
out from `lo` on, each once. -/
theorem Reached.keyed (h : Reached lo a n) : lo ≤ n ∧ Keyed lo n a.regionMap := by
  induction h with
  | new s => exact ⟨le_rfl, .nil⟩
  | load hrun =>
    obtain ⟨hle, hok⟩ := ofDocument_keyed _ _ _ hrun
    exact ⟨hle, hok _ rfl⟩
  | step _ hrun ih =>
    obtain ⟨hle, hok⟩ := Request.analysisStep_keyed ih.2 ih.1 _ _ _ hrun
    refine ⟨ih.1.trans hle, ?_⟩
    rename_i res _
    cases res with
    | ok r => exact hok r rfl
    | error e => exact ih.2.mono hle -- a step that fails leaves the analysis it was given
  | insert _ hr hle hnew ih =>
    have hs := hr.sound
    exact ⟨ih.1.trans hle, ih.2.insertRegion hle ih.1 ⟨rfl, hs.bins, hs.ids, hs.below⟩ hr.tied hnew⟩

/-- What the peak identities of an analysis mean, when the counter handed them out from `lo` on
and stands at `n`. -/
structure PeakIdentities (lo n : Nat) (a : Analysis) : Prop where
  /-- No identity is held twice, by two regions or by two peaks of one. -/
  nodup : (heldIds a.regionMap).Nodup
  /-- Every identity held was handed out by the counter. -/
  issued : ∀ i ∈ heldIds a.regionMap, lo ≤ i ∧ i < n
  /-- The parent of an identity is the one region holding it. -/
  parentOf : ∀ e ∈ a.regionMap, ∀ i, e.2.contains i = true → a.parentOf i = some e
  /-- Replacing a peak leaves every region that does not hold its identity in place. -/
  replacePeak : ∀ p : Peak, Outcome.Post (a.replacePeak p) fun res =>
    ∀ e ∈ a.regionMap, e.2.contains p.id = false → e ∈ res.2.regionMap
  /-- Removing peaks leaves none of them held, and every region that held none of them in
  place. -/
  removePeaks : ∀ ids : List Nat, Outcome.Post (a.removePeaks ids) fun res =>
    (∀ e ∈ res.2.regionMap, ∀ i ∈ ids, e.2.contains i = false) ∧
      ∀ e ∈ a.regionMap, (∀ i ∈ ids, e.2.contains i = false) → e ∈ res.2.regionMap

/-- Peak identities are unique across an analysis, whatever steps reached it: each is held once
and was handed out during the run, so the parent of an identity is the region holding it and
replacing or removing peaks touches exactly the regions holding them. -/
theorem peak_ids_unique (h : Reached lo a n) : PeakIdentities lo n a := by
  obtain ⟨hlo, hkeyed⟩ := h.keyed
  refine ⟨hkeyed.nodup, fun i hi => ⟨hkeyed.issued i hi, hkeyed.below hi⟩,
    fun e he i hi => hkeyed.parentOf_eq he hi, fun p => ?_, fun ids => ?_⟩
  · exact (replacePeak_keyed hkeyed hlo p).mono fun _ hres => hres.2
  · exact (removePeaks_keyed hkeyed hlo ids).mono fun _ hres => hres.2

/-! ## An analysis holding two regions

Ten bins with a peak in each half, read in as new data. Each half is then cut out by a region's
own steps, which put a summation peak over its middle three bins, and the two regions are put in
side by side: the first holds identity one, the second identity two. -/

/-- The analysis and counter after a step from `a` with the counter at `n`. -/
def stepFrom (a : Analysis) (n : Nat) (step : Value) : Analysis × Nat :=
  (afterStep a ((Request.analysisStep a step).run.run n).run.1,
    ((Request.analysisStep a step).run.run n).run.2)

/-- A step run from an analysis reached reaches the analysis it leaves. -/
theorem Reached.next (h : Reached lo a n) (step : Value) :
    Reached lo (stepFrom a n step).1 (stepFrom a n step).2 :=
  .step h rfl

/-- Ten bins with a peak in each half. -/
def twoPeakedBins : Finder :=
  { x := #[0.0, 1.0, 2.0, 3.0, 4.0, 5.0, 6.0, 7.0, 8.0, 9.0],
    y := #[1.0, 2.0, 9.0, 2.0, 1.0, 1.0, 3.0, 8.0, 3.0, 1.0] }

/-- Edge windows of one bin and a search kernel five bins wide. -/
def wideKernel : Settings := { edgeSamples := .int 1, konWidth := .int 5 }

/-- The ten bins read in as new data, with the counter at one. -/
def halvesData : Analysis × Nat :=
  stepFrom (Analysis.new wideKernel) 1
    (.obj [("do", .str "set_data"), ("x", Value.floatArray twoPeakedBins.x),
      ("y", Value.floatArray twoPeakedBins.y)])

/-- A region over the bins from `first` to `first + 4`, its counter starting at `n`, with a
summation peak over the middle three. -/
def halfRegion (first : Int) (n : Nat) : Region × Nat :=
  let data := Request.stepOver twoPeakedBins (Region.new wideKernel) n
    (.obj [("do", .str "set_data"), ("min", .int first), ("max", .int (first + 4))])
  Request.stepOver twoPeakedBins data.1 data.2
    (.obj [("do", .str "add_sum4_peak"), ("left", .int (first + 1)), ("right", .int (first + 3))])

theorem halfRegion_reachable (first : Int) (n : Nat) :
    Request.Reachable wideKernel twoPeakedBins (halfRegion first n).1 (halfRegion first n).2 :=
  ((Request.Reachable.new n).next rfl (by decide)).next rfl (by decide)

/-- The analysis with the left half put in. -/
def withLeft : Analysis := (halvesData.1.insertRegion (halfRegion 0 1).1).2

/-- The analysis with both halves put in. -/
def withHalves : Analysis := (withLeft.insertRegion (halfRegion 5 2).1).2

theorem withLeft_reached : Reached 1 withLeft 2 := by
  have hk : (halfRegion 0 1).2 = 2 := by decide +kernel
  rw [← hk]
  exact .insert ((Reached.new wideKernel).next _) (halfRegion_reachable 0 1) (by decide +kernel)
    (by decide +kernel)

theorem withHalves_reached : Reached 1 withHalves 3 := by
  have hk : (halfRegion 5 2).2 = 3 := by decide +kernel
  rw [← hk]
  exact .insert withLeft_reached (halfRegion_reachable 5 2) (by decide +kernel) (by decide +kernel)

/-- The analysis with both halves holds two regions, with identities one and two, each once. -/
theorem withHalves_peak_ids_unique :
    Reached 1 withHalves 3 ∧ withHalves.regionMap.length = 2 ∧
      heldIds withHalves.regionMap = [1, 2] ∧ PeakIdentities 1 3 withHalves :=
  ⟨withHalves_reached, by decide +kernel, by decide +kernel, peak_ids_unique withHalves_reached⟩

end Analysis

end GammaFit
