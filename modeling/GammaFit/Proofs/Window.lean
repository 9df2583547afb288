import GammaFit.Proofs.Bins

/-!
# The window of an integral around a peak

`Summation.around?` integrates a peak over the bins within `factor · fwhm` of its center, kept
strictly between the edge windows. It finds the window by two binary searches, the first bin
not below the band's lower end and the first bin above its upper end, and clamps what lies
between them to the bins between the edges.

On ascending bins this is the window a set describes (`InBand`): the bins strictly between the
edge windows that are not below the lower end and not above the upper end. The set is a run
of indices, and the integral is taken over exactly that run, from its least to its greatest
index (`around?_window`), so it never reaches into an edge window.

"Not above the upper end" is not "at most the upper end" when the upper end is NaN. A center of
`-∞` with an infinite half width gives the band `-∞ … NaN`; the search sorts NaN above every
bin, so every bin between the edges is in the window although none is at most NaN
(`around?_band_to_nan`).
-/

namespace GammaFit.Summation

variable {x y : Array Float} {lb rb : Edge}

/-- The bin `i` of `x` lies strictly between the edge windows `lb` and `rb`, not below `lo`
and not above `hi`. -/
def InBand (x : Array Float) (lb rb : Edge) (lo hi : Float) (i : Nat) : Prop :=
  lb.last < i ∧ i < rb.first ∧ i < x.size ∧ lo ≤ x.getD i 0.0 ∧ ¬hi < x.getD i 0.0

/-- On ascending bins a bin lies in the band exactly when its index lies between the first bin
not below `lo`, clamped past the left edge window, and the last bin not above `hi`, clamped
before the right edge window. -/
theorem inBand_iff (hx : Ascending x) (lo hi : Float) (i : Nat) :
    InBand x lb rb lo hi i ↔
      max (Numeric.searchLeft x lo : Int) (lb.last + 1) ≤ i ∧
        (i : Int) ≤ min ((Numeric.searchRight x hi : Int) - 1) ((rb.first : Int) - 1) := by
  constructor
  · rintro ⟨hl, hr, hsize, hlo, hhi⟩
    have hleft := (hx.searchLeft_spec lo hsize).mpr hlo
    have hright := (hx.searchRight_spec hi hsize).mpr hhi
    omega
  · intro h
    have hsize : i < x.size := by
      have := Numeric.searchRight_le_size x hi
      omega
    exact ⟨by omega, by omega, hsize, (hx.searchLeft_spec lo hsize).mp (by omega),
      (hx.searchRight_spec hi hsize).mp (by omega)⟩

/-- An integral over indices in order inside the spectrum exists. -/
theorem ofCounts?_isSome (hxy : x.size = y.size) {left right : Int} (h0 : 0 ≤ left)
    (hlr : left ≤ right) (hr : right < x.size) (b : Background) :
    (ofCounts? x y left right b lb rb).isSome := by
  unfold ofCounts?
  rw [if_neg (by omega)]
  rfl

/-- The integral around `c` with width `f` and factor `k` is taken over exactly the bins of
the band `c ± k · f` between the edge windows. It is missing exactly when the width is not
positive or no bin lies in the band; otherwise the band is a run of indices `l … r` and the
integral is the one over `l … r`. -/
theorem around?_window (hx : Ascending x) (hxy : x.size = y.size) (c f k : Float)
    (b : Background) :
    (around? x y c f b lb rb k = none ↔
      ¬f > 0.0 ∨ ∀ i, ¬InBand x lb rb (c - k * f) (c + k * f) i) ∧
    (f > 0.0 → ∀ i, InBand x lb rb (c - k * f) (c + k * f) i →
      ∃ l r : Nat, l ≤ r ∧ (∀ j, InBand x lb rb (c - k * f) (c + k * f) j ↔ l ≤ j ∧ j ≤ r) ∧
        around? x y c f b lb rb k = ofCounts? x y l r b lb rb) := by
  by_cases hf : f > 0.0
  · have hband : ∀ i, InBand x lb rb (c - k * f) (c + k * f) i ↔ _ :=
      inBand_iff hx (c - k * f) (c + k * f)
    generalize hleft : max (Numeric.searchLeft x (c - k * f) : Int) (lb.last + 1) = left at hband
    generalize hright : min ((Numeric.searchRight x (c + k * f) : Int) - 1)
      ((rb.first : Int) - 1) = right at hband
    have haround : around? x y c f b lb rb k =
        if left > right then none else ofCounts? x y left right b lb rb := by
      simp only [around?, hf, decide_true, Bool.not_true, Bool.false_eq_true, if_false, hleft,
        hright]
    have hsize := Numeric.searchRight_le_size x (c + k * f)
    rw [haround]
    split
    · -- an empty run: no bin lies in the band
      have hnone : ∀ i, ¬InBand x lb rb (c - k * f) (c + k * f) i := fun i hi => by
        have := (hband i).mp hi
        omega
      exact ⟨iff_of_true rfl (.inr hnone), fun _ i hi => absurd hi (hnone i)⟩
    · -- the run `left … right` of the band, inside the spectrum
      rename_i hlr
      have h0 : 0 ≤ left := by omega
      have hlast : right < x.size := by omega
      have hsome : (ofCounts? x y left right b lb rb).isSome :=
        ofCounts?_isSome hxy h0 (by omega) hlast b
      have hrun : ∀ j, InBand x lb rb (c - k * f) (c + k * f) j ↔
          left.toNat ≤ j ∧ j ≤ right.toNat := fun j => by
        rw [hband j]
        omega
      refine ⟨iff_of_false (by simp [Option.isSome_iff_ne_none.mp hsome]) ?_,
        fun _ _ _ => ?_⟩
      · rintro (hnot | hnone)
        · exact hnot hf
        · exact hnone left.toNat ((hrun _).mpr ⟨Nat.le_refl _, by omega⟩)
      · refine ⟨left.toNat, right.toNat, by omega, hrun, ?_⟩
        rw [Int.toNat_of_nonneg h0, Int.toNat_of_nonneg (by omega)]
  · have haround : around? x y c f b lb rb k = none := by
      simp only [around?, hf, decide_false, Bool.not_false, if_true]
    exact ⟨iff_of_true haround (.inl hf), fun h => absurd h hf⟩

/-- Eight bins with a peak in the middle. -/
def eightBins : Array Float := #[0.0, 1.0, 2.0, 3.0, 4.0, 5.0, 6.0, 7.0]

/-- The counts of the peak over the eight bins. -/
def eightCounts : Array Float := #[1.0, 1.0, 5.0, 9.0, 9.0, 5.0, 1.0, 1.0]

/-- Under edge windows of two bins at each end of the eight bins, the integral around 3.5 with
width 2 and factor 1.5 is taken over bins 2 to 5: the band 0.5 … 6.5 less the edge windows. -/
theorem around?_window_between_edges :
    ∃ lb rb b, Edge.ofSamples? eightBins eightCounts 0 1 = some lb ∧
      Edge.ofSamples? eightBins eightCounts 6 7 = some rb ∧ Background.summation lb rb = some b ∧
      Ascending eightBins ∧ eightBins.size = eightCounts.size ∧
      (around? eightBins eightCounts 3.5 2.0 b lb rb 1.5).map (fun s => (s.left, s.right)) =
        some (2, 5) ∧
      (around? eightBins eightCounts 3.5 2.0 b lb rb 1.5 = none ↔
        ¬(2.0 : Float) > 0.0 ∨ ∀ i, ¬InBand eightBins lb rb (3.5 - 1.5 * 2.0) (3.5 + 1.5 * 2.0) i) ∧
      ((2.0 : Float) > 0.0 →
        ∀ i, InBand eightBins lb rb (3.5 - 1.5 * 2.0) (3.5 + 1.5 * 2.0) i →
          ∃ l r : Nat, l ≤ r ∧
            (∀ j, InBand eightBins lb rb (3.5 - 1.5 * 2.0) (3.5 + 1.5 * 2.0) j ↔ l ≤ j ∧ j ≤ r) ∧
            around? eightBins eightCounts 3.5 2.0 b lb rb 1.5 =
              ofCounts? eightBins eightCounts l r b lb rb) := by
  have hx : Ascending eightBins := Spectrum.ascending_of_valid (y := eightCounts) (by decide +kernel)
  have hxy : eightBins.size = eightCounts.size := by decide +kernel
  exact ⟨_, _, _, rfl, rfl, rfl, hx, hxy, by decide +kernel, around?_window hx hxy 3.5 2.0 1.5 _⟩

/-- A band that ends at NaN: with the center at `-∞` and an infinite width the band runs from
`-∞` to `-∞ + ∞`, which is NaN. No bin is at most NaN, yet the integral exists: it is taken over
every bin between the edge windows. -/
theorem around?_band_to_nan :
    ∃ lb rb b, Edge.ofSamples? #[0.0, 1.0, 2.0, 3.0, 4.0, 5.0, 6.0, 7.0]
        #[1.0, 1.0, 5.0, 9.0, 9.0, 5.0, 1.0, 1.0] 0 1 = some lb ∧
      Edge.ofSamples? #[0.0, 1.0, 2.0, 3.0, 4.0, 5.0, 6.0, 7.0]
        #[1.0, 1.0, 5.0, 9.0, 9.0, 5.0, 1.0, 1.0] 6 7 = some rb ∧
      Background.summation lb rb = some b ∧
      (1.0 / 0.0 : Float) > 0.0 ∧
      (∀ i, ¬(#[0.0, 1.0, 2.0, 3.0, 4.0, 5.0, 6.0, 7.0] : Array Float).getD i 0.0 ≤
        -(1.0 / 0.0) + 1.5 * (1.0 / 0.0)) ∧
      (around? #[0.0, 1.0, 2.0, 3.0, 4.0, 5.0, 6.0, 7.0] #[1.0, 1.0, 5.0, 9.0, 9.0, 5.0, 1.0, 1.0]
        (-(1.0 / 0.0)) (1.0 / 0.0) b lb rb 1.5).map (fun s => (s.left, s.right)) =
        some (2, 5) := by
  refine ⟨_, _, _, rfl, rfl, rfl, by decide, fun i hle => ?_, by decide +kernel⟩
  have hnan : (-(1.0 / 0.0) + 1.5 * (1.0 / 0.0) : Float).isNaN = true := by decide
  rw [(Float.le_iff_units.mp hle).2.1] at hnan
  cases hnan

end GammaFit.Summation
