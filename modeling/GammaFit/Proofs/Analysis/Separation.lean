import GammaFit.Proofs.Analysis.Placement

/-!
# Regions apart from one another

The regions of an analysis are filed under their first bins, and a bin of the spectrum should
belong to one region at most: taken by key, each region ends strictly before the next one starts.
The search for regions does not keep to that (its windows, widened by the expected width, can
reach over one another), but every other step does. The regions of an analysis are pairwise apart
(`Analysis.Separated`), and stay so:

* a step that fits, trims or edits the peaks of regions puts each region back with its bins
  (`BinsFrom`); the first bins then tell the regions apart, so they stay apart
  (`Separated.of_bins`);
* a step that moves the ends of a region, or widens it for a peak, puts it back only when it
  overlaps no other region (`Separated.replaceRegion_clear`);
* a peak away from every region gets a new region over its bounds, stopped before its
  neighbours (`newRegionRange_spec`);
* new data and `clear` drop every region, and deleting one keeps the others;
* a region built elsewhere is put in only when it overlaps none (`Separated.insertRegion`), and
  an analysis read from a document is built that way, region by region
  (`ofDocument_separated`).

So every analysis reached by those steps holds its regions in key order strictly apart
(`regions_filed_apart`), each under its own first bin.
-/

namespace GammaFit

open Search (Finder)
open Json

namespace Region

variable {r t r' t' : Region}

/-- Two regions apart: one ends strictly before the other starts. -/
def Apart (r t : Region) : Prop := r.right < t.left ∨ t.right < r.left

theorem Apart.symm (h : r.Apart t) : t.Apart r := Or.symm h

/-- Whether two regions are apart depends only on their bins. -/
theorem Apart.of_bins (h : r.Apart t) (hr : r'.finder.x = r.finder.x)
    (ht : t'.finder.x = t.finder.x) :
    r'.Apart t' := by
  unfold Apart
  rw [left_of_bins hr, right_of_bins hr, left_of_bins ht, right_of_bins ht]
  exact h

end Region

namespace Analysis

open Region

variable {lo n k : Nat} {m m' : List (Float × Region)} {e : Float × Region} {t : Region}
  {a : Analysis}

/-! ## Entries apart -/

/-- Entries whose regions are pairwise apart. -/
def Separated (m : List (Float × Region)) : Prop := ∀ e ∈ m, ∀ e' ∈ m, e ≠ e' → e.2.Apart e'.2

theorem Separated.nil : Separated [] := fun _ he => by cases he

theorem Separated.subset (h : Separated m) (hs : m' ⊆ m) : Separated m' :=
  fun e he e' he' hne => h e (hs he) e' (hs he') hne

/-- A region apart from every entry can go last. -/
theorem Separated.append (h : Separated m) (ht : ∀ e ∈ m, e.2.Apart t) (key : Float) :
    Separated (m ++ [(key, t)]) := by
  intro e he e' he' hne
  rcases List.mem_append.mp he with he | he <;> rcases List.mem_append.mp he' with he' | he'
  · exact h e he e' he' hne
  · rw [List.mem_singleton.mp he']
    exact ht e he
  · rw [List.mem_singleton.mp he]
    exact (ht e' he').symm
  · exact absurd ((List.mem_singleton.mp he).trans (List.mem_singleton.mp he').symm) hne

/-- A region apart from every entry, under a first bin that is no key, goes last. -/
theorem Separated.putRegion (h : Separated m) (hnew : ∀ e ∈ m, (e.1 == t.left) = false)
    (ht : ∀ e ∈ m, e.2.Apart t) : Separated (putRegion m t) := by
  rw [putRegion_of_new hnew]
  exact h.append ht t.left

/-! ## Regions put back with their bins -/

/-- Entries each holding the bins of a region of `m`. -/
def BinsFrom (m m' : List (Float × Region)) : Prop :=
  ∀ e' ∈ m', ∃ e ∈ m, e.2.finder.x = e'.2.finder.x

theorem BinsFrom.refl (m : List (Float × Region)) : BinsFrom m m := fun e he => ⟨e, he, rfl⟩

/-- An entry of a map a region was put in is an old entry or holds that region. -/
theorem mem_putRegion (he : e ∈ GammaFit.Analysis.putRegion m t) : e ∈ m ∨ e.2 = t := by
  unfold Analysis.putRegion at he
  split at he
  · obtain ⟨⟨k, q⟩, he₀, rfl⟩ := List.mem_map.mp he
    dsimp only
    split
    · exact .inr rfl
    · exact .inl he₀
  · rcases List.mem_append.mp he with he | he
    · exact .inl he
    · exact .inr (by rw [List.mem_singleton.mp he])

/-- Replacing a region by one with the bins of a region of `m` keeps the entries holding bins of
regions of `m`. -/
theorem BinsFrom.replaceRegion (h : BinsFrom m a.regionMap)
    (ht : ∃ e ∈ m, e.2.finder.x = t.finder.x) (old : Option Float) : BinsFrom m (a.replaceRegion old t).regionMap := by
  intro e' he'
  rcases mem_putRegion he' with he' | rfl
  · refine h e' ?_
    cases old with
    | none => exact he'
    | some key => exact (dropRegion_sublist _ key).subset he'
  · exact ht

/-- Filed entries holding the bins of regions apart are apart: two of them cannot hold the bins of
one region, since they would start at one bin, under one key. -/
theorem Separated.of_bins (h : Separated m) (hk : Keyed lo n m') (hb : BinsFrom m m') :
    Separated m' := by
  intro e₁ he₁ e₂ he₂ hne
  obtain ⟨s₁, hs₁, hx₁⟩ := hb e₁ he₁
  obtain ⟨s₂, hs₂, hx₂⟩ := hb e₂ he₂
  by_cases hs : s₁ = s₂
  · have hleft : e₂.2.left = e₁.2.left := by
      rw [← left_of_bins hx₁, ← left_of_bins hx₂, hs]
    have hkeys : (e₁.1 == e₂.1) = true :=
      Float.beq_trans (hk.key e₁ he₁) (hleft ▸ Float.beq_symm (hk.key e₂ he₂))
    exact absurd (hk.eq_of_beq he₁ he₂ hkeys) hne
  · exact (h s₁ hs₁ s₂ hs₂ hs).of_bins hx₁.symm hx₂.symm

/-! ## Regions put back clear of the others -/

/-- A region put in the place of an entry, when it overlaps no region but the entry's, lies
apart from every other entry, each filed under another key than its first bin; so it goes last,
and the entries stay apart. -/
theorem Separated.replaceRegion_clear (hs : Separated a.regionMap) (h : Keyed lo n a.regionMap)
    (he : e ∈ a.regionMap) (ht : t.Held k)
    (hothers : a.overlapsOthers t (some e.2.left) = false) :
    Separated (a.replaceRegion (some e.2.left) t).regionMap := by
  obtain ⟨l₁, l₂, hm⟩ := List.append_of_mem he
  have hkey := h.key e he
  have hclear : ∀ e' ∈ l₁ ++ l₂, e'.2.Apart t ∧ (e'.1 == t.left) = false := by
    intro e' he'
    have hmem : e' ∈ a.regionMap := hm ▸ mem_middle_of_mem he'
    -- the entry is filed under another key than the one replaced
    have hother : (e'.1 == e.2.left) = false :=
      (hm ▸ h : Keyed lo n (l₁ ++ e :: l₂)).beq_left_other he'
    have hne : (some e.2.left != some e'.1) = true := by simp [bne, beq_false_symm hother]
    have hno := not_overlaps_of_overlapsOthers hothers hmem hne
    have hheld := h.held e' hmem
    exact ⟨apart_of_not_overlaps hheld.wf.bins hheld.bins (left_not_nan ht.wf.bins ht.bins)
        (right_not_nan ht.wf.bins ht.bins) hno,
      key_ne_of_not_overlaps (h.key e' hmem) hheld.wf.bins hheld.bins ht.wf.bins ht.bins hno⟩
  have hrest : Separated (l₁ ++ l₂) := hs.subset fun e' he' => hm ▸ mem_middle_of_mem he'
  show Separated (GammaFit.Analysis.putRegion (dropRegion a.regionMap e.2.left) t)
  rw [hm] at h ⊢
  rw [dropRegion_eq h.distinct hkey]
  exact hrest.putRegion (fun e' he' => (hclear e' he').2) fun e' he' => (hclear e' he').1

/-- A region put in only when it has bins and overlaps no region lies apart from every entry,
under a first bin that is no key. -/
theorem Separated.insertRegion (hs : Separated a.regionMap) (h : Keyed lo n a.regionMap)
    (hx : Ascending t.finder.x) : Separated (a.insertRegion t).2.regionMap := by
  unfold Analysis.insertRegion
  split
  · exact hs
  rename_i hfit
  simp only [Bool.or_eq_true, not_or, Bool.not_eq_true] at hfit
  have hne : t.finder.x ≠ #[] := fun hnil => by simp [hnil] at hfit
  have hno : ∀ e ∈ a.regionMap, e.2.overlaps t.left (some t.right) = false :=
    fun e he => not_overlaps_of_overlapsOthers hfit.2 he rfl
  refine hs.putRegion (fun e he => ?_) fun e he => ?_
  · exact key_ne_of_not_overlaps (h.key e he) (h.held e he).wf.bins (h.held e he).bins hx hne
      (hno e he)
  · exact apart_of_not_overlaps (h.held e he).wf.bins (h.held e he).bins (left_not_nan hx hne)
      (right_not_nan hx hne) (hno e he)

/-- The regions of an analysis read from a document are apart: each is put in only when it
overlaps none read before it. -/
theorem ofDocument_separated (doc : Value) :
    RegionM.Runs (Analysis.ofDocument doc) n fun a k => Keyed n k a.regionMap ∧
      Separated a.regionMap :=
  ofDocument_induction (fun a k => Keyed n k a.regionMap ∧ Separated a.regionMap)
    (fun _ ha => ⟨ha ▸ .nil, ha ▸ .nil⟩)
    (fun _ _ _ _ hk hk' hcur hwf ht hfresh =>
      ⟨hcur.1.insertRegion hk' hk hwf ht hfresh, hcur.2.insertRegion hcur.1 hwf.bins⟩)
    (fun _ _ _ hk' hcur => ⟨hcur.1.mono hk', hcur.2⟩) doc

/-! ## The operations of an analysis -/

section Operations

theorem setData_separated (hs : Separated a.regionMap) (x y : Array Float)
    (bits live real name : Value) :
    Outcome.Post (a.setData x y bits live real name) fun res => Separated res.2.regionMap := by
  unfold setData
  split
  · exact .pure hs
  dsimp only
  split
  · exact .bind_forall fun _ => .pure .nil
  · exact .pure hs

theorem deleteRegion_separated (hs : Separated a.regionMap) (key : Float) :
    Separated (a.deleteRegion key).2.regionMap := by
  unfold deleteRegion
  split
  · exact hs.subset (dropRegion_sublist _ _).subset
  · exact hs

/-- New settings reach every region, which keeps its bins. -/
theorem applySettings_binsFrom (s : Settings) :
    Outcome.Post (a.applySettings s) fun t => BinsFrom a.regionMap t.regionMap := by
  have hmap : BinsFrom a.regionMap (a.regionMap.map fun (kr : Float × Region) =>
      (kr.1, { kr.2 with settings := s })) := by
    intro e' he'
    obtain ⟨e, he, rfl⟩ := List.mem_map.mp he'
    exact ⟨e, he, rfl⟩
  unfold applySettings
  refine .bind_forall fun _ => ?_
  dsimp only
  split
  · exact .bind_forall fun _ => .pure hmap
  · exact .pure hmap

/-- Replacing a peak puts the region holding it back with its bins. -/
theorem replacePeak_binsFrom (p : Peak) :
    Outcome.Post (a.replacePeak p) fun res => BinsFrom a.regionMap res.2.regionMap := by
  unfold replacePeak
  split
  · rename_i key r hparent
    have he : (key, r) ∈ a.regionMap := List.mem_of_find?_eq_some hparent
    refine .bind (replacePeak_bins rfl) fun res hres => ?_
    obtain ⟨ok, t⟩ := res
    dsimp only
    split
    · exact .pure (.refl _)
    · exact .pure ((BinsFrom.refl _).replaceRegion ⟨_, he, hres.symm⟩ _)
  · exact .pure (.refl _)

/-- Removing peaks puts every region it changes back with its bins. -/
theorem removePeaks_binsFrom (ids : List Nat) :
    Outcome.Post (a.removePeaks ids) fun res => BinsFrom a.regionMap res.2.regionMap := by
  unfold removePeaks
  dsimp only
  refine .bind (.forIn_passed (fun _ (s : Analysis × Bool) => BinsFrom a.regionMap s.1.regionMap)
    (.refl _) fun pre x rest s hxs hI => ?_) fun s hs => .pure hs
  obtain ⟨key, hmem⟩ := mem_regions.mp (hxs ▸ List.mem_append_right _ List.mem_cons_self)
  split
  · refine .bind (removePeaks_bins rfl) fun res hres => ?_
    split
    · exact .pure ⟨_, rfl, hI.replaceRegion ⟨_, hmem, hres.symm⟩ _⟩
    · exact .pure ⟨_, rfl, hI⟩
  · exact .pure ⟨_, rfl, hI⟩

/-- Fitting every region puts each back with its bins. -/
theorem autoFitRegions_binsFrom (i : Bool) :
    RegionM.Post (a.autoFitRegions i) fun res => BinsFrom a.regionMap res.2.regionMap := by
  unfold autoFitRegions
  dsimp only
  refine .bind (.forIn_mem (fun s : Analysis × Nat => BinsFrom a.regionMap s.1.regionMap) (.refl _)
    fun x hx s hs => ?_) fun s hs => .pure hs
  obtain ⟨key, hmem⟩ := mem_regions.mp hx
  have hput : ∀ t : Region, t.finder.x = x.finder.x →
      BinsFrom a.regionMap (s.1.replaceRegion (some x.left) t).regionMap :=
    fun t ht => hs.replaceRegion ⟨_, hmem, ht.symm⟩ _
  split
  · rw [pure_bind]
    split <;> exact .pure (hput x rfl)
  · refine .bind (autoFit_bins rfl) fun res hres => .bind_forall fun _ => ?_
    rw [pure_bind]
    split <;> exact .pure (hput res.2 hres)

theorem applySettings_separated (h : Keyed lo n a.regionMap) (hs : Separated a.regionMap)
    (s : Settings) : Outcome.Post (a.applySettings s) fun t => Separated t.regionMap :=
  fun t ht => hs.of_bins (applySettings_keyed h s t ht) (applySettings_binsFrom s t ht)

theorem replacePeak_separated (h : Keyed lo n a.regionMap) (hlo : lo ≤ n)
    (hs : Separated a.regionMap) (p : Peak) :
    Outcome.Post (a.replacePeak p) fun res => Separated res.2.regionMap :=
  fun res hres =>
    hs.of_bins (replacePeak_keyed h hlo p res hres).1 (replacePeak_binsFrom p res hres)

theorem removePeaks_separated (h : Keyed lo n a.regionMap) (hlo : lo ≤ n)
    (hs : Separated a.regionMap) (ids : List Nat) :
    Outcome.Post (a.removePeaks ids) fun res => Separated res.2.regionMap :=
  fun res hres =>
    hs.of_bins (removePeaks_keyed h hlo ids res hres).1 (removePeaks_binsFrom ids res hres)

theorem autoFitRegions_separated (h : Keyed lo n a.regionMap) (hlo : lo ≤ n)
    (hs : Separated a.regionMap) (i : Bool) :
    RegionM.Runs (a.autoFitRegions i) n fun res _ => Separated res.2.regionMap :=
  ((autoFitRegions_keyed h hlo i).post (autoFitRegions_binsFrom i)).mono fun _ _ _ hres =>
    hs.of_bins hres.1 hres.2

/-- A range change puts the region back only when it overlaps no other region. -/
theorem adjust_separated (h : Keyed lo n a.regionMap) (hs : Separated a.regionMap) (key : Float)
    (edit : RangeEdit) (l rt : Float) :
    Outcome.Post (a.adjust key edit l rt) fun res => Separated res.2.regionMap := by
  unfold adjust
  split
  · rename_i r hr
    obtain ⟨e, hfind, rfl⟩ := Option.map_eq_some_iff.mp hr
    have he : e ∈ a.regionMap := List.mem_of_find?_eq_some hfind
    have hput : ∀ res : Bool × Region, res.2.Held n →
        Outcome.Post (if (!res.1 || a.overlapsOthers res.2 (some e.2.left)) = true then
          pure (false, a) else pure (true, a.replaceRegion (some e.2.left) res.2))
          fun res => Separated res.2.regionMap := by
      intro res ht
      split
      · exact .pure hs
      · rename_i hkeep
        simp only [Bool.or_eq_true, Bool.not_eq_true', not_or, Bool.not_eq_false,
          Bool.not_eq_true] at hkeep
        exact .pure (hs.replaceRegion_clear h he ht hkeep.2)
    dsimp only
    cases edit
    · exact .bind (h.held e he).adjustLB fun res hres => hput res hres.1
    · exact .bind (h.held e he).adjustRB fun res hres => hput res hres.1
    · exact .bind (h.held e he).adjustBounds fun res hres => hput res hres.1
  · exact .pure hs

/-- Adding a peak widens the first region the bounds overlap and puts it back only clear of the
others, or builds a new region over the bounds, stopped before the regions beside it. -/
theorem addPeak_separated (h : Keyed lo n a.regionMap) (hx : Ascending a.finder.x)
    (hs : Separated a.regionMap) (leftBin rightBin : Float) (i : Bool) :
    RegionM.Runs (a.addPeak leftBin rightBin i) n fun res _ => Separated res.2.regionMap := by
  unfold addPeak
  split
  · exact .pure hs
  rename_i hguard
  have hlr : leftBin < rightBin := by
    simp only [Bool.or_eq_true, Bool.not_eq_true', decide_eq_false_iff_not, not_or,
      Classical.not_not] at hguard
    exact hguard.2
  split
  · -- the first region the bounds overlap takes the peak
    rename_i r hfind
    obtain ⟨key, hmem⟩ := mem_regions.mp (List.mem_of_find?_eq_some hfind)
    refine .bind (h.held _ hmem).addPeak fun res k _ hres => ?_
    obtain ⟨ok, t⟩ := res
    dsimp only
    split
    · exact .pure hs
    rename_i hkeep
    simp only [Bool.or_eq_true, Bool.not_eq_true', not_or, Bool.not_eq_false,
      Bool.not_eq_true] at hkeep
    exact .pure (Separated.replaceRegion_clear (e := (key, r)) hs h hmem hres.1 hkeep.2)
  · -- no region overlaps the bounds: a new one is cut clear of them all
    rename_i hnone
    have happ : ∀ e ∈ a.regionMap, e.2.overlaps leftBin (some rightBin) = false := by
      intro e he
      have hno := List.find?_eq_none.mp hnone e.2 (mem_regions.mpr ⟨e.1, he⟩)
      simpa using hno
    have hbins : ∀ e ∈ a.regionMap, Ascending e.2.finder.x ∧ e.2.finder.x ≠ #[] :=
      fun e he => ⟨(h.held e he).wf.bins, (h.held e he).bins⟩
    dsimp only
    split
    · exact .pure hs
    rename_i hrange
    obtain ⟨i', j', hi', hj', hij, hjs, -, hclear⟩ :=
      newRegionRange_spec hx hlr hbins happ (Int.lt_of_not_ge hrange)
    rw [hi', hj', atIndex_natCast, atIndex_natCast]
    refine .liftOutcome_bind fun o ho => ?_
    split
    rotate_left
    · exact .pure hs
    rename_i R₀
    have hcut : R₀.finder.x = a.finder.x.extract i' (j' + 1) :=
      Region.ofRange_cut hx (Nat.le_of_lt hij) hjs _ ho R₀ rfl
    obtain ⟨hR₀, -⟩ := Region.ofRange_held (n := n) _ ho R₀ rfl
    -- whichever way the fit goes, the region keeps the cut, clear of every region
    have hput : ∀ (R : Region) k, R.Held k → R.finder.x = R₀.finder.x →
        Separated (a.replaceRegion none R).regionMap := by
      intro R k hR hRx
      obtain ⟨hleft, hright⟩ := Region.ends_of_cut (hRx.trans hcut) (Nat.le_of_lt hij) hjs
      have hfar : ∀ e ∈ a.regionMap, e.2.Apart R := fun e he => by
        unfold Apart
        rw [hleft, hright]
        exact hclear e he
      exact hs.putRegion (fun e he => key_ne_of_not_overlaps (h.key e he) (hbins e he).1
        (hbins e he).2 hR.wf.bins hR.bins (not_overlaps_of_apart (hfar e he))) hfar
    refine .bind hR₀.autoFit fun res k _ hres => ?_
    obtain ⟨hR₁, -, hR₁x⟩ := hres
    refine .liftOutcome_bind fun b _ => ?_
    split
    · rw [pure_bind]
      exact .pure (hput res.2 k hR₁ hR₁x)
    · refine .bind (hR₁.addSum4Peak.post (Region.addSum4Peak_bins rfl)) fun res' k' _ hres' => ?_
      rw [pure_bind]
      exact .pure (hput res'.2 k' hres'.1.1 (hres'.2.trans hR₁x))

end Operations

end Analysis

namespace Request

open Analysis

/-- Every step of an analysis's request but the search for regions keeps its regions apart. The
cases follow the steps in the order the request lists them. -/
theorem analysisStep_separated {a : Analysis} {lo n : Nat} (h : Keyed lo n a.regionMap)
    (hlo : lo ≤ n) (hx : Ascending a.finder.x) (hs : Separated a.regionMap) {step : Value}
    {op : String} (hdo : step.get? "do" = some (.str op)) (hfind : op ≠ "find_regions") :
    RegionM.Runs (analysisStep a step) n fun res _ => Separated res.2.regionMap := by
  unfold analysisStep
  simp only [hdo]
  split
  next => -- set_data
    refine .liftOutcome_bind fun _ _ => .liftOutcome_bind fun _ _ => ?_
    split
    · exact .liftOutcome_bind fun res hres => .pure (setData_separated hs _ _ _ _ _ _ res hres)
    · exact .pure hs
  next hop => exact absurd hop hfind
  next => exact .bind (autoFitRegions_separated h hlo hs _) fun _ _ _ hres => .pure hres
  next =>
    exact .liftOutcome_bind fun _ _ => .liftOutcome_bind fun _ _ =>
      .bind (addPeak_separated h hx hs _ _ _) fun _ _ _ hres => .pure hres
  next =>
    exact .liftOutcome_bind fun _ _ => .liftOutcome_bind fun res hres =>
      .pure (removePeaks_separated h hlo hs _ res hres)
  next =>
    exact .liftOutcome_bind fun _ _ => .liftOutcome_bind fun res hres =>
      .pure (replacePeak_separated h hlo hs _ res hres)
  next => -- adjust_LB
    exact .liftOutcome_bind fun _ _ => .liftOutcome_bind fun _ _ => .liftOutcome_bind fun _ _ =>
      .liftOutcome_bind fun res hres => .pure (adjust_separated h hs _ _ _ _ res hres)
  next => -- adjust_RB
    exact .liftOutcome_bind fun _ _ => .liftOutcome_bind fun _ _ => .liftOutcome_bind fun _ _ =>
      .liftOutcome_bind fun res hres => .pure (adjust_separated h hs _ _ _ _ res hres)
  next => -- adjust_bounds
    exact .liftOutcome_bind fun _ _ => .liftOutcome_bind fun _ _ => .liftOutcome_bind fun _ _ =>
      .liftOutcome_bind fun res hres => .pure (adjust_separated h hs _ _ _ _ res hres)
  next => exact .liftOutcome_bind fun _ _ => .pure (deleteRegion_separated hs _)
  next => exact .liftOutcome_bind fun _ _ => .pure hs
  next =>
    exact .liftOutcome_bind fun _ _ => .liftOutcome_bind fun t ht =>
      .pure (applySettings_separated h hs _ t ht)
  next => exact .pure .nil
  next => exact .pure hs
  next => exact .liftOutcome_bind fun _ _ => .pure hs
  next => exact .liftOutcome_bind fun _ _ => .pure hs
  next => exact .liftOutcome_bind fun _ _ => .pure hs
  next => -- reload: the regions of the document read are apart
    split
    · split
      · exact .bind (P := fun _ _ => True) (.pure trivial) fun doc _ _ _ =>
          .bind (ofDocument_separated doc) fun _ _ _ ht => .pure ht.2
      · exact .bind (P := fun _ _ => True) (.liftOutcome fun _ _ => trivial) fun doc _ _ _ =>
          .bind (ofDocument_separated doc) fun _ _ _ ht => .pure ht.2
    · exact .bind (P := fun _ _ => True) (.liftOutcome fun _ _ => trivial) fun doc _ _ _ =>
        .bind (ofDocument_separated doc) fun _ _ _ ht => .pure ht.2
  next => -- save_load
    exact .bind (P := fun _ _ => True) (.liftOutcome fun _ _ => trivial) fun doc _ _ _ =>
      .bind (ofDocument_separated doc) fun _ _ _ ht => .pure ht.2
  next => exact .throw

end Request

namespace Analysis

variable {a : Analysis} {lo n : Nat}

/-! ## Every analysis the editing steps reach -/

/-- The analyses that a run reaches without searching for regions, with the counter they leave
it at: a new analysis, one read from a document, what every step of an analysis's request but
`find_regions` leaves, and a region built elsewhere put in when it overlaps none. -/
inductive Edited (lo : Nat) : Analysis → Nat → Prop
  | new (s : Settings) : Edited lo (Analysis.new s) lo
  | load {doc : Value} {a : Analysis} {n : Nat} :
      ((Analysis.ofDocument doc).run.run lo).run = (.ok a, n) → Edited lo a n
  | step {a : Analysis} {n n' : Nat} {step : Value} {op : String}
      {res : Except Failure (Outcome Value × Analysis)} :
      Edited lo a n → step.get? "do" = some (.str op) → op ≠ "find_regions" →
      ((Request.analysisStep a step).run.run n).run = (res, n') →
      Edited lo (afterStep a res) n'
  | insert {a : Analysis} {n k : Nat} {s : Settings} {parent : Finder} {r : Region} :
      Edited lo a n → Request.Reachable s parent r k → n ≤ k →
      (∀ i ∈ r.peakMap.map Prod.fst, n ≤ i) → Edited lo (a.insertRegion r).2 k

/-- A step other than `find_regions` run from an edited analysis reaches the analysis it
leaves. -/
theorem Edited.next (h : Edited lo a n) {step : Value} {op : String}
    (hdo : step.get? "do" = some (.str op)) (hop : op ≠ "find_regions") :
    Edited lo (stepFrom a n step).1 (stepFrom a n step).2 :=
  .step h hdo hop rfl

theorem Edited.reached (h : Edited lo a n) : Reached lo a n := by
  induction h with
  | new s => exact .new s
  | load hrun => exact .load hrun
  | step _ _ _ hrun ih => exact .step ih hrun
  | insert _ hr hle hnew ih => exact .insert ih hr hle hnew

/-- The regions of every analysis reached without searching for regions are pairwise apart. -/
theorem Edited.separated (h : Edited lo a n) : Separated a.regionMap := by
  induction h with
  | new s => exact .nil
  | load hrun => exact (ofDocument_separated _ _ _ hrun).2 _ rfl |>.2
  | @step a n n' step op res hed hdo hfind hrun ih =>
    obtain ⟨hlo, hk⟩ := hed.reached.keyed
    -- a step that fails leaves the analysis as it was
    rcases res with e | ⟨v, t⟩
    · exact ih
    · exact (Request.analysisStep_separated hk hlo hed.reached.ascending ih hdo hfind
        _ _ hrun).2 _ rfl
  | insert hed hr _ _ ih => exact ih.insertRegion hed.reached.keyed.2 hr.sound.bins

/-- Filed regions pairwise apart, taken by key, each end strictly before every later one
starts: the keys are their first bins, numbers, so a region apart from a later one ends before
it. -/
theorem Separated.regions_in_order (h : Keyed lo n a.regionMap) (hs : Separated a.regionMap) :
    a.regions.Pairwise fun r t => r.right < t.left := by
  have hnan : ∀ e ∈ a.regionMap, e.1.isNaN = false := fun e he =>
    (Float.beq_iff_units.mp (h.key e he)).1
  -- on keys that are numbers, sorting by key is sorting by their exact values
  have hsort : (a.regionMap.mergeSort fun p q => decide (p.1 ≤ q.1)) =
      a.regionMap.mergeSort fun p q => decide (p.1.units ≤ q.1.units) := by
    have hmap := List.map_mergeSort (f := id) (l := a.regionMap)
      (r := fun p q => decide (p.1 ≤ q.1)) (s := fun p q => decide (p.1.units ≤ q.1.units))
      fun p hp q hq => by simp only [id, Float.le_iff_units, hnan p hp, hnan q hq, true_and]
    simpa using hmap
  have hsorted : (a.regionMap.mergeSort fun p q => decide (p.1.units ≤ q.1.units)).Pairwise
      fun p q => decide (p.1.units ≤ q.1.units) = true :=
    List.pairwise_mergeSort
      (fun p q w hpq hqw => by simp only [decide_eq_true_eq] at hpq hqw ⊢; omega)
      (fun p q => by simp only [Bool.or_eq_true, decide_eq_true_eq]; omega) _
  have hnodup := h.regions_nodup
  unfold regions at hnodup ⊢
  rw [hsort] at hnodup ⊢
  rw [List.pairwise_map]
  refine (hsorted.and (List.pairwise_map.mp hnodup)).imp_of_mem fun {p q} hp hq hpq => ?_
  have hp' := List.mem_mergeSort.mp hp
  have hq' := List.mem_mergeSort.mp hq
  have hle : p.1.units ≤ q.1.units := by simpa using hpq.1
  rcases hs p hp' q hq' (fun heq => hpq.2 (heq ▸ rfl)) with hlt | hlt
  · exact hlt
  · -- `q` ending before `p` starts would put `q`'s first bin below `p`'s
    exfalso
    have hpk := (Float.beq_iff_units.mp (h.key p hp')).2.2
    have hqk := (Float.beq_iff_units.mp (h.key q hq')).2.2
    have hq₁ := (Float.le_iff_units.mp
      (Region.left_le_right (h.held q hq').wf.bins (h.held q hq').bins)).2.2
    have hq₂ := (Float.lt_iff_units.mp hlt).2.2
    omega

/-- Every analysis that steps other than the search for regions reach, regions built elsewhere
put in among them, files each region under its own first bin, under keys
no two of which are equal, so no region is lost to a key; and its regions taken by key are
strictly apart: each ends before every later one starts, so no bin belongs to two regions. -/
theorem regions_filed_apart (h : Edited lo a n) :
    (∀ e ∈ a.regionMap, (e.1 == e.2.left) = true) ∧
      a.regionMap.Pairwise (fun e e' => (e.1 == e'.1) = false) ∧
      a.regions.length = a.regionMap.length ∧
      a.regions.Pairwise fun r t => r.right < t.left := by
  obtain ⟨-, hk⟩ := h.reached.keyed
  refine ⟨hk.key, hk.distinct, by simp [regions], h.separated.regions_in_order hk⟩

/-- The analysis holding both halves of the ten bins is edited, and files its two regions under
their first bins 0 and 5, apart. -/
theorem withHalves_regions_filed_apart :
    Edited 1 withHalves 3 ∧ withHalves.regionMap.map Prod.fst = [0.0, 5.0] ∧
      (∀ e ∈ withHalves.regionMap, (e.1 == e.2.left) = true) ∧
      withHalves.regionMap.Pairwise (fun e e' => (e.1 == e'.1) = false) ∧
      withHalves.regions.length = withHalves.regionMap.length ∧
      withHalves.regions.Pairwise fun r t => r.right < t.left := by
  have hk : (halfRegion 0 1).2 = 2 ∧ (halfRegion 5 2).2 = 3 := by decide +kernel
  have hdata : Edited 1 halvesData.1 halvesData.2 := (Edited.new wideKernel).next rfl (by decide)
  have hleft : Edited 1 withLeft 2 := by
    rw [← hk.1]
    exact .insert hdata (halfRegion_reachable 0 1) (by decide +kernel) (by decide +kernel)
  have h : Edited 1 withHalves 3 := by
    rw [← hk.2]
    exact .insert hleft (halfRegion_reachable 5 2) (by decide +kernel) (by decide +kernel)
  exact ⟨h, by decide +kernel, regions_filed_apart h⟩

end Analysis

end GammaFit
