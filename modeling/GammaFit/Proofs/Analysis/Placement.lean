import GammaFit.Proofs.Analysis.Ranges

/-!
# Where an added peak goes

Adding a peak between two bins of an analysis's spectrum puts every bin between them into one
region (`Analysis.Placed`). When a region overlaps the bounds, the first such region takes the
peak, widening itself from the spectrum when the bounds reach past it, and goes back last in the
place of the old one; when none does, a new region is built over the bins of the bounds, widened
by at most one edge window on each side when they are too few for two, and stopped before the
regions beside it (`Analysis.NewRegion`). Every other region stays as it was.

The bins of a new region come from `newRegionRange`, which searches the regions for the nearest
ones on each side: `limitStep` is one step of that search, and the lemmas after it say that the
limits only close in, pass every region wholly on one side, and never cut into the bins of the
bounds.
-/

namespace GammaFit

open Search (Finder)
open Json

/-- An index that is a natural number reads the bin it names. -/
theorem atIndex_natCast (xs : Array Float) (i : Nat) : atIndex xs (i : Int) = xs.getD i 0.0 := by
  unfold atIndex
  rw [if_neg (by omega), Int.toNat_natCast]

namespace Region

variable {r t : Region}

/-- The first bin of a region with bins that ascend is a number. -/
theorem left_not_nan (hx : Ascending r.finder.x) (hne : r.finder.x ≠ #[]) :
    r.left.isNaN = false := by
  have hpos : 0 < r.finder.x.size := Array.size_pos_iff.mpr hne
  unfold left
  rw [if_neg (by simpa using hne)]
  exact hx.not_nan 0 hpos

/-- The last bin of a region with bins that ascend is a number. -/
theorem right_not_nan (hx : Ascending r.finder.x) (hne : r.finder.x ≠ #[]) :
    r.right.isNaN = false := by
  have hpos : 0 < r.finder.x.size := Array.size_pos_iff.mpr hne
  unfold right
  rw [if_neg (by simpa using hne)]
  exact hx.not_nan _ (by omega)

/-- A region with bins lies on one side of bounds it does not overlap. -/
theorem apart_of_not_overlaps (hx : Ascending r.finder.x) (hne : r.finder.x ≠ #[])
    {l rt : Float} (hl : l.isNaN = false) (hrt : rt.isNaN = false)
    (h : r.overlaps l (some rt) = false) : r.right < l ∨ rt < r.left := by
  unfold overlaps at h
  rw [if_neg (by simpa using hne)] at h
  simp only [ge_iff_le, Bool.and_eq_false_iff, decide_eq_false_iff_not] at h
  rcases h with h | h
  · left
    by_contra hnot
    exact h ((Float.not_lt_iff_le (right_not_nan hx hne) hl).mp hnot)
  · right
    by_contra hnot
    exact h ((Float.not_lt_iff_le hrt (left_not_nan hx hne)).mp hnot)

/-- A region on one side of bounds does not overlap them. -/
theorem not_overlaps_of_apart {l rt : Float} (h : r.right < l ∨ rt < r.left) :
    r.overlaps l (some rt) = false := by
  unfold overlaps
  split
  · rfl
  simp only [ge_iff_le, Bool.and_eq_false_iff, decide_eq_false_iff_not]
  rcases h with h | h
  · exact .inl fun hle => Float.lt_irrefl _ (Float.lt_of_lt_of_le h hle)
  · exact .inr fun hle => Float.lt_irrefl _ (Float.lt_of_lt_of_le h hle)

/-- A region that starts where a region with bins starts overlaps it. -/
theorem overlaps_of_left_beq (ho : Ascending r.finder.x) (hone : r.finder.x ≠ #[])
    (ht : Ascending t.finder.x) (htne : t.finder.x ≠ #[]) (h : (r.left == t.left) = true) :
    r.overlaps t.left (some t.right) = true := by
  unfold overlaps
  rw [if_neg (by simpa using hone)]
  simp only [ge_iff_le, Bool.and_eq_true, decide_eq_true_eq]
  exact ⟨Float.le_trans (Float.le_of_beq (Float.beq_symm h)) (left_le_right ho hone),
    Float.le_trans (Float.le_of_beq h) (left_le_right ht htne)⟩

/-- An entry filed under its region's first bin, when the region does not overlap a region `t`
with bins, is not filed under `t`'s first bin. -/
theorem key_ne_of_not_overlaps {e : Float × Region} (hkey : (e.1 == e.2.left) = true)
    (ho : Ascending e.2.finder.x) (hone : e.2.finder.x ≠ #[]) (ht : Ascending t.finder.x)
    (htne : t.finder.x ≠ #[]) (h : e.2.overlaps t.left (some t.right) = false) :
    (e.1 == t.left) = false := by
  cases hk : (e.1 == t.left)
  · rfl
  · have hsame := Float.beq_trans (Float.beq_symm hkey) hk
    rw [overlaps_of_left_beq ho hone ht htne hsame] at h
    cases h

end Region

/-! ## The range of a new region -/

namespace Analysis

variable {a : Analysis} {x : Array Float} {leftBin rightBin : Float}

/-- One step of the search for the regions that stop a new region over the bounds
`leftBin … rightBin`: a region wholly before the bounds raises the lower limit past its last bin,
one wholly after them lowers the upper limit below its first bin. -/
def limitStep (x : Array Float) (leftBin rightBin : Float) (acc : Int × Int) (e : Float × Region) :
    Int × Int :=
  if e.2.right < leftBin then (max acc.1 (Numeric.searchRight x e.2.right : Int), acc.2)
  else if e.2.left > rightBin then (acc.1, min acc.2 ((Numeric.searchLeft x e.2.left : Int) - 1))
  else acc

/-- The range of a new region, with the search for its neighbours written as a fold of
`limitStep`. -/
theorem newRegionRange_eq : a.newRegionRange leftBin rightBin =
    let x := a.finder.x
    let first : Int := Numeric.searchLeft x leftBin
    let last : Int := (Numeric.searchRight x rightBin : Int) - 1
    let samples := Settings.count a.settings.edgeSamples
    if last - first + 1 ≥ 2 * samples + 1 then (first, last) else
    let limits := a.regionMap.foldl (limitStep x leftBin rightBin) (0, (x.size : Int) - 1)
    (max limits.1 (first - samples), min limits.2 (last + samples)) := by
  unfold newRegionRange
  rfl

/-- The limits only close in: the lower never falls and the upper never rises. -/
theorem foldl_limitStep_mono (x : Array Float) (leftBin rightBin : Float)
    (m : List (Float × Region)) (acc : Int × Int) :
    acc.1 ≤ (m.foldl (limitStep x leftBin rightBin) acc).1 ∧
      (m.foldl (limitStep x leftBin rightBin) acc).2 ≤ acc.2 := by
  induction m generalizing acc with
  | nil => exact ⟨Int.le_refl _, Int.le_refl _⟩
  | cons e m ih =>
    obtain ⟨h₁, h₂⟩ := ih (limitStep x leftBin rightBin acc e)
    have hstep : acc.1 ≤ (limitStep x leftBin rightBin acc e).1 ∧
        (limitStep x leftBin rightBin acc e).2 ≤ acc.2 := by
      unfold limitStep
      split_ifs <;> simp
    exact ⟨Int.le_trans hstep.1 h₁, Int.le_trans h₂ hstep.2⟩

/-- The limits end past every region wholly on one side of the bounds. -/
theorem foldl_limitStep_past (x : Array Float) (leftBin rightBin : Float)
    (m : List (Float × Region)) (acc : Int × Int) :
    ∀ e ∈ m, (e.2.right < leftBin →
        (Numeric.searchRight x e.2.right : Int) ≤ (m.foldl (limitStep x leftBin rightBin) acc).1) ∧
      (¬e.2.right < leftBin → e.2.left > rightBin →
        (m.foldl (limitStep x leftBin rightBin) acc).2 ≤ (Numeric.searchLeft x e.2.left : Int) - 1) := by
  induction m generalizing acc with
  | nil => exact fun _ h => absurd h List.not_mem_nil
  | cons e m ih =>
    intro e' he'
    rcases List.mem_cons.mp he' with rfl | he'
    · -- the step over the region itself sets the limit, and the rest only close in
      obtain ⟨h₁, h₂⟩ := foldl_limitStep_mono x leftBin rightBin m
        (limitStep x leftBin rightBin acc e')
      refine ⟨fun hr => ?_, fun hr hl => ?_⟩
      · refine Int.le_trans ?_ h₁
        unfold limitStep
        rw [if_pos hr]
        exact Int.le_max_right _ _
      · refine Int.le_trans h₂ ?_
        unfold limitStep
        rw [if_neg hr, if_pos hl]
        exact Int.min_le_right _ _
    · exact ih _ e' he'

/-- The limits never cut into the bins between the bounds. -/
theorem foldl_limitStep_around (hx : Ascending x) (leftBin rightBin : Float)
    (m : List (Float × Region)) (acc : Int × Int)
    (h₁ : acc.1 ≤ Numeric.searchLeft x leftBin)
    (h₂ : (Numeric.searchRight x rightBin : Int) - 1 ≤ acc.2) :
    (m.foldl (limitStep x leftBin rightBin) acc).1 ≤ Numeric.searchLeft x leftBin ∧
      (Numeric.searchRight x rightBin : Int) - 1 ≤ (m.foldl (limitStep x leftBin rightBin) acc).2 := by
  induction m generalizing acc with
  | nil => exact ⟨h₁, h₂⟩
  | cons e m ih =>
    refine ih _ ?_ ?_
    · unfold limitStep
      split_ifs with hr
      · have := hx.searchRight_le_searchLeft hr
        omega
      · exact h₁
      · exact h₁
    · unfold limitStep
      split_ifs with hr hl
      · exact h₂
      · have := hx.searchRight_le_searchLeft hl
        omega
      · exact h₂

/-- The bins `i … j` a new region takes for the bounds `leftBin … rightBin` of the bins `x`, with
`first` the first bin not below `leftBin` and `last` the last not above `rightBin`: the bins from
`first` to `last` when they are at least `2 · samples + 1`, else a range reaching at most
`samples` bins past them on each side. -/
def Widened (x : Array Float) (leftBin rightBin : Float) (samples : Int) (i j : Nat) : Prop :=
  let first : Int := Numeric.searchLeft x leftBin
  let last : Int := (Numeric.searchRight x rightBin : Int) - 1
  if 2 * samples + 1 ≤ last - first + 1 then i = first ∧ j = last
  else first - samples ≤ i ∧ i ≤ first ∧ last ≤ j ∧ j ≤ last + samples

/-- The range of a new region over bounds that no region overlaps, on ascending bins, when it
holds more than one bin: the bins of the bounds, widened when too few, and clear of every region
on both sides. -/
theorem newRegionRange_spec (hx : Ascending a.finder.x) (hlr : leftBin < rightBin)
    (hbins : ∀ e ∈ a.regionMap, Ascending e.2.finder.x ∧ e.2.finder.x ≠ #[])
    (happ : ∀ e ∈ a.regionMap, e.2.overlaps leftBin (some rightBin) = false)
    (hlt : (a.newRegionRange leftBin rightBin).1 < (a.newRegionRange leftBin rightBin).2) :
    ∃ i j : Nat, (a.newRegionRange leftBin rightBin).1 = i ∧
      (a.newRegionRange leftBin rightBin).2 = j ∧ i < j ∧ j < a.finder.x.size ∧
      Widened a.finder.x leftBin rightBin (Settings.count a.settings.edgeSamples) i j ∧
      ∀ e ∈ a.regionMap, e.2.right < a.finder.x.getD i 0.0 ∨ a.finder.x.getD j 0.0 < e.2.left := by
  obtain ⟨hl, hr, -⟩ := Float.lt_iff_units.mp hlr
  have hside : ∀ e ∈ a.regionMap, e.2.right < leftBin ∨ rightBin < e.2.left := fun e he =>
    Region.apart_of_not_overlaps (hbins e he).1 (hbins e he).2 hl hr (happ e he)
  have hfl := hx.searchLeft_le_searchRight (Float.le_of_lt hlr)
  have hsl := Numeric.searchLeft_le_size a.finder.x leftBin
  have hsr := Numeric.searchRight_le_size a.finder.x rightBin
  -- the last bin not above `rightBin`
  have hlast : ∀ j, j + 1 = Numeric.searchRight a.finder.x rightBin →
      a.finder.x.getD j 0.0 ≤ rightBin := fun j hj => by
    have hnot := (hx.searchRight_spec rightBin (show j < a.finder.x.size by omega)).mp (by omega)
    exact (Float.not_lt_iff_le hr (hx.not_nan j (by omega))).mp hnot
  rw [newRegionRange_eq] at hlt ⊢
  dsimp only at hlt ⊢
  split_ifs at hlt ⊢ with hwide
  · -- enough bins between the bounds: exactly those
    refine ⟨Numeric.searchLeft a.finder.x leftBin, Numeric.searchRight a.finder.x rightBin - 1,
      rfl, by omega, by omega, by omega, ?_, fun e he => ?_⟩
    · simp only [Widened]
      split_ifs
      · exact ⟨trivial, by omega⟩
      · omega
    · rcases hside e he with h | h
      · exact .inl (Float.lt_of_lt_of_le h
          ((hx.searchLeft_spec leftBin (by omega)).mp (Nat.le_refl _)))
      · exact .inr (Float.lt_of_le_of_lt (hlast _ (by omega)) h)
  · -- too few: widened up to the limits the regions beside them set
    obtain ⟨hm₁, hm₂⟩ := foldl_limitStep_mono a.finder.x leftBin rightBin a.regionMap
      (0, (a.finder.x.size : Int) - 1)
    obtain ⟨ha₁, ha₂⟩ := foldl_limitStep_around hx leftBin rightBin a.regionMap
      (0, (a.finder.x.size : Int) - 1) (by simp) (by simp; omega)
    have hpast := foldl_limitStep_past a.finder.x leftBin rightBin a.regionMap
      (0, (a.finder.x.size : Int) - 1)
    generalize a.regionMap.foldl (limitStep a.finder.x leftBin rightBin)
      (0, (a.finder.x.size : Int) - 1) = F at hm₁ hm₂ ha₁ ha₂ hpast hlt ⊢
    dsimp only at hm₁ hm₂
    refine ⟨(max F.1 (Numeric.searchLeft a.finder.x leftBin - Settings.count a.settings.edgeSamples)).toNat,
      (min F.2 (Numeric.searchRight a.finder.x rightBin - 1 +
        Settings.count a.settings.edgeSamples)).toNat, by omega, by omega, by omega, by omega,
      ?_, fun e he => ?_⟩
    · simp only [Widened]
      split_ifs <;> omega
    · by_cases h : e.2.right < leftBin
      · refine .inl (hx.lt_of_searchRight_le (by omega) ?_)
        have := (hpast e he).1 h
        omega
      · have hafter : rightBin < e.2.left := (hside e he).resolve_left h
        refine .inr (hx.lt_of_lt_searchLeft (by omega)
          (Region.left_not_nan (hbins e he).1 (hbins e he).2) ?_)
        have := (hpast e he).2 h hafter
        omega

/-! ## Where the peak goes -/

/-- A region made for the bounds `leftBin … rightBin` where there was none: no region overlapped
the bounds, its bins are the spectrum's bins `i … j` of a range `Widened` from the bins between
the bounds, and every region lies wholly before or wholly after it. -/
structure NewRegion (a : Analysis) (leftBin rightBin : Float) (R : Region) : Prop where
  apart : ∀ e ∈ a.regionMap, e.2.overlaps leftBin (some rightBin) = false
  bins : ∃ i j, i ≤ j ∧ j < a.finder.x.size ∧ R.finder.x = a.finder.x.extract i (j + 1) ∧
    Widened a.finder.x leftBin rightBin (Settings.count a.settings.edgeSamples) i j
  clear : ∀ e ∈ a.regionMap, e.2.right < R.left ∨ R.right < e.2.left

/-- Where adding a peak between `leftBin` and `rightBin` to `a` put its bins, in the analysis
`a'` it left: one region `R` covers every bin of the spectrum between the bounds, and either `R`
took the place of an entry whose region overlapped the bounds, or `R` is new. Either way every
other region stays as it was, and `R` goes last. -/
def Placed (a : Analysis) (leftBin rightBin : Float) (a' : Analysis) : Prop :=
  ∃ R : Region, R.Covers a.finder.x leftBin rightBin ∧
    ((∃ l₁ e l₂, a.regionMap = l₁ ++ e :: l₂ ∧ e.2.overlaps leftBin (some rightBin) = true ∧
        a'.regionMap = l₁ ++ l₂ ++ [(R.left, R)]) ∨
      (a.NewRegion leftBin rightBin R ∧ a'.regionMap = a.regionMap ++ [(R.left, R)]))

/-- A region that overlaps no region other than the one under `ex` overlaps none of the other
entries. -/
theorem not_overlaps_of_overlapsOthers {t : Region} {ex : Option Float}
    (h : a.overlapsOthers t ex = false) {e : Float × Region} (he : e ∈ a.regionMap)
    (hne : (ex != some e.1) = true) : e.2.overlaps t.left (some t.right) = false := by
  unfold overlapsOthers at h
  have hno := List.any_eq_false.mp h e he
  obtain ⟨k, o⟩ := e
  simpa [hne] using hno

/-- A widened range holds the bins between the bounds. -/
theorem Widened.around {samples : Int} {i j : Nat} (h : Widened x leftBin rightBin samples i j) :
    (i : Int) ≤ Numeric.searchLeft x leftBin ∧ (Numeric.searchRight x rightBin : Int) - 1 ≤ j := by
  simp only [Widened] at h
  split_ifs at h <;> omega

variable {lo n : Nat}

/-- Adding a peak between two bins of an analysis, filed under the first bins of its regions and
with ascending bins, places every bin between them in one region when it answers `true`. -/
theorem addPeak_placed (h : Keyed lo n a.regionMap) (hx : Ascending a.finder.x) (i : Bool) :
    RegionM.Runs (a.addPeak leftBin rightBin i) n fun res _ =>
      res.1 = true → Placed a leftBin rightBin res.2 := by
  unfold addPeak
  split
  · exact .pure fun hfalse => by cases hfalse
  rename_i hguard
  have hlr : leftBin < rightBin := by
    simp only [Bool.or_eq_true, Bool.not_eq_true', decide_eq_false_iff_not, not_or,
      Classical.not_not] at hguard
    exact hguard.2
  split
  · -- the first region the bounds overlap takes the peak
    rename_i r hfind
    have hsat := List.find?_some hfind
    have hover : r.overlaps leftBin (some rightBin) = true := hsat
    obtain ⟨key, hmem⟩ := mem_regions.mp (List.mem_of_find?_eq_some hfind)
    obtain ⟨l₁, l₂, hm⟩ := List.append_of_mem hmem
    have hkey : (key == r.left) = true := by simpa using h.key _ hmem
    refine .bind ((h.held _ hmem).addPeak.post (Region.addPeak_covers hx)) fun res k _ hres => ?_
    obtain ⟨ok, t⟩ := res
    obtain ⟨⟨ht, -⟩, hcov⟩ := hres
    dsimp only
    split
    · exact .pure fun hfalse => by cases hfalse
    rename_i hkeep
    simp only [Bool.or_eq_true, Bool.not_eq_true', not_or, Bool.not_eq_false,
      Bool.not_eq_true] at hkeep
    obtain ⟨hok, hothers⟩ := hkeep
    -- the changed region overlaps no other region, so no other key is its first bin
    have hnew : ∀ e ∈ l₁ ++ l₂, (e.1 == t.left) = false := by
      intro e he
      have he' : e ∈ a.regionMap := hm ▸ mem_middle_of_mem he
      have hother : (e.1 == r.left) = false :=
        (hm ▸ h : Keyed lo n (l₁ ++ (key, r) :: l₂)).beq_left_other he
      have hne : (some r.left != some e.1) = true := by
        simp [bne, beq_false_symm hother]
      exact Region.key_ne_of_not_overlaps (h.key e he') (h.held e he').wf.bins
        (h.held e he').bins ht.wf.bins ht.bins (not_overlaps_of_overlapsOthers hothers he' hne)
    refine .pure fun _ => ⟨t, hcov hok, .inl ⟨l₁, (key, r), l₂, hm, hover, ?_⟩⟩
    show putRegion (dropRegion a.regionMap r.left) t = _
    rw [hm] at h ⊢
    rw [dropRegion_eq h.distinct hkey, putRegion_of_new hnew]
  · -- no region overlaps the bounds: a new one is cut over them
    rename_i hnone
    have happ : ∀ e ∈ a.regionMap, e.2.overlaps leftBin (some rightBin) = false := by
      intro e he
      have hno := List.find?_eq_none.mp hnone e.2 (mem_regions.mpr ⟨e.1, he⟩)
      simpa using hno
    have hbins : ∀ e ∈ a.regionMap, Ascending e.2.finder.x ∧ e.2.finder.x ≠ #[] :=
      fun e he => ⟨(h.held e he).wf.bins, (h.held e he).bins⟩
    dsimp only
    split
    · exact .pure fun hfalse => by cases hfalse
    rename_i hrange
    obtain ⟨i', j', hi', hj', hij, hjs, hwide, hclear⟩ :=
      newRegionRange_spec hx hlr hbins happ (Int.lt_of_not_ge hrange)
    rw [hi', hj', atIndex_natCast, atIndex_natCast]
    refine .liftOutcome_bind fun o ho => ?_
    split
    rotate_left
    · exact .pure fun hfalse => by cases hfalse
    rename_i R₀
    have hcut : R₀.finder.x = a.finder.x.extract i' (j' + 1) :=
      Region.ofRange_cut hx (Nat.le_of_lt hij) hjs _ ho R₀ rfl
    obtain ⟨hR₀, -⟩ := Region.ofRange_held (n := n) _ ho R₀ rfl
    -- whichever way the fit goes, the region keeps the cut and goes last
    have hplace : ∀ (R : Region) k, R.Held k → R.finder.x = R₀.finder.x →
        Placed a leftBin rightBin (a.replaceRegion none R) := by
      intro R k hR hRx
      have hRcut := hRx.trans hcut
      obtain ⟨hleft, hright⟩ := Region.ends_of_cut hRcut (Nat.le_of_lt hij) hjs
      have hclear' : ∀ e ∈ a.regionMap, e.2.right < R.left ∨ R.right < e.2.left := by
        intro e he
        rw [hleft, hright]
        exact hclear e he
      refine ⟨R, ?_, .inr ⟨⟨happ, ⟨i', j', Nat.le_of_lt hij, hjs, hRcut, hwide⟩, hclear'⟩, ?_⟩⟩
      · obtain ⟨hfirst, hlast⟩ := hwide.around
        refine Region.covers_of_cut hx hRcut (Nat.le_of_lt hij) hjs fun k hk hlo hhi => ⟨?_, ?_⟩
        · have := hx.searchLeft_le hk hlo
          omega
        · have := hx.lt_searchRight hk hhi
          omega
      · show putRegion a.regionMap R = _
        refine putRegion_of_new fun e he => ?_
        exact Region.key_ne_of_not_overlaps (h.key e he) (hbins e he).1 (hbins e he).2 hR.wf.bins
          hR.bins (Region.not_overlaps_of_apart (hclear' e he))
    refine .bind hR₀.autoFit fun res k _ hres => ?_
    obtain ⟨hR₁, -, hR₁x⟩ := hres
    refine .liftOutcome_bind fun b _ => ?_
    split
    · rw [pure_bind]
      exact .pure fun _ => hplace res.2 k hR₁ hR₁x
    · refine .bind (hR₁.addSum4Peak.post (Region.addSum4Peak_bins rfl)) fun res' k' _ hres' => ?_
      rw [pure_bind]
      exact .pure fun _ => hplace res'.2 k' hres'.1.1 (hres'.2.trans hR₁x)

/-- Adding a peak between two bins to an analysis a run reached, when it answers `true`, places
every bin of the spectrum between them in one region: the first region overlapping the bounds,
put back in its place, or a new region over the bins of the bounds, widened by at most one edge
window on each side when they are too few for two, and clear of the regions beside it. Every
other region stays as it was. -/
theorem add_peak_places_bins (h : Reached lo a n) (leftBin rightBin : Float) (i : Bool) :
    RegionM.Runs (a.addPeak leftBin rightBin i) n fun res _ =>
      res.1 = true → Placed a leftBin rightBin res.2 :=
  addPeak_placed h.keyed.2 h.ascending i

/-- A peak added over bins 6 to 8 of the analysis holding only the left half of the ten bins is
taken, and its bins are placed: in a new region beside the left half. -/
theorem withLeft_add_peak_places_bins :
    Reached 1 withLeft 2 ∧
      ((withLeft.addPeak 6.0 8.0 false).run.run 2).run.1.toOption.map
        (fun res => (res.1, res.2.regionMap.length)) = some (true, 2) ∧
      RegionM.Runs (withLeft.addPeak 6.0 8.0 false) 2 fun res _ =>
        res.1 = true → Placed withLeft 6.0 8.0 res.2 :=
  ⟨withLeft_reached, by decide +kernel, add_peak_places_bins withLeft_reached 6.0 8.0 false⟩

end Analysis

end GammaFit
