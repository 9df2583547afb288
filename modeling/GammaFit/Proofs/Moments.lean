import Mathlib
import GammaFit.Summation

/-!
# The moments of a summation window in exact arithmetic

`Summation.moments` gives the areas and the centroid of a window of bins. The integral takes
them in doubles; the same definition read in an ordered field is the integral in exact
arithmetic, and this module works in that reading (`exactMoments`).

* Pairwise summation adds every term once, whatever the grouping, so in exact arithmetic it is
  the plain sum (`Numeric.sum_eq_list_sum`).
* A background of at most two coefficients is a straight line. On equally spaced bins the
  trapezoid under a line between the window's end bins is the sum of the line over the window's
  bins, so the net area is the sum of the background-subtracted counts, the weights of the
  centroid (`trapezoid_eq_background_sum`).
* The centroid is the mean of the bins weighted by the background-subtracted counts. When none of
  them is negative it lies between the window's end bins, and so does the middle of the window,
  which the integral takes when the weights do not sum to a positive number
  (`centroid_within_window`). A count below the background weighs negatively and can pull the
  centroid out of the window (`centroid_outside_window`).
-/

namespace GammaFit

open Finset

namespace Numeric

variable {α : Type} [AddCommMonoid α]

/-! ## Pairwise summation adds every term once -/

/-- The left-to-right run adds the terms `i … n - 1` onto its accumulator. -/
theorem sumFrom_eq (xs : Array α) (lo n i : Nat) (acc : α) :
    sumFrom xs lo n i acc = acc + ∑ k ∈ Ico i n, xs.getD (lo + k) 0 := by
  fun_induction sumFrom xs lo n i acc with
  | case1 i acc hi ih => rw [ih, sum_eq_sum_Ico_succ_bot hi, add_assoc]
  | case2 i acc hi => rw [Ico_eq_empty (by omega), sum_empty, add_zero]

/-- The total of the eight interleaved partial sums. -/
def laneTotal (r : Array α) : α := ∑ j ∈ range 8, r.getD j 0

/-- Adding one block of eight terms, one to each lane, adds the block to the total. -/
theorem laneTotal_mapIdx {r : Array α} (hr : r.size = 8) (c : Nat → α) :
    laneTotal (r.mapIdx fun j v => v + c j) = laneTotal r + ∑ j ∈ range 8, c j := by
  unfold laneTotal
  rw [← sum_add_distrib]
  refine sum_congr rfl fun j hj => ?_
  have hj : j < r.size := hr ▸ mem_range.mp hj
  simp [Array.getD_eq_getD_getElem?, hj]

/-- The lanes over the whole blocks `i … stop - 1` add those terms to the total; the induction
follows the blocks, with eight lanes all along. -/
theorem lanes_total (xs : Array α) (lo stop i : Nat) (r : Array α) (hr : r.size = 8)
    (hi : i ≤ stop) (hd : 8 ∣ stop - i) :
    laneTotal (lanes xs lo stop i r) = laneTotal r + ∑ k ∈ Ico i stop, xs.getD (lo + k) 0 := by
  fun_induction lanes xs lo stop i r with
  | case1 i r hstep ih =>
    have hblock : ∑ k ∈ Ico i (i + 8), xs.getD (lo + k) 0 =
        ∑ j ∈ range 8, xs.getD (lo + i + j) 0 := by
      rw [sum_Ico_eq_sum_range, add_tsub_cancel_left]
      simp only [add_assoc]
    rw [ih (by rw [Array.size_mapIdx, hr]) hstep (by omega), laneTotal_mapIdx hr,
      ← sum_Ico_consecutive _ (Nat.le_add_right i 8) hstep, hblock, add_assoc]
  | case2 i r hstop =>
    rw [show stop = i by omega, Ico_self, sum_empty, add_zero]

/-- The first block fills the lanes with its own terms. -/
theorem laneTotal_start (xs : Array α) (lo : Nat) :
    laneTotal ((Array.range 8).map fun j => xs.getD (lo + j) 0) =
      ∑ k ∈ range 8, xs.getD (lo + k) 0 := by
  unfold laneTotal
  refine sum_congr rfl fun j hj => ?_
  have hj : j < 8 := mem_range.mp hj
  simp [Array.getD_eq_getD_getElem?, hj]

/-- The balanced tree over the eight lanes is their total. -/
theorem tree_eq_laneTotal (r : Array α) :
    ((r.getD 0 0 + r.getD 1 0) + (r.getD 2 0 + r.getD 3 0)) +
      ((r.getD 4 0 + r.getD 5 0) + (r.getD 6 0 + r.getD 7 0)) = laneTotal r := by
  simp only [laneTotal, sum_range_succ, sum_range_zero, zero_add]
  abel

/-- Pairwise summation of `n` terms is their sum. The induction follows the three ways the
summation takes: a short run, eight lanes, and two halves. -/
theorem pairwise_eq (xs : Array α) (lo n : Nat) :
    pairwise xs lo n = ∑ k ∈ range n, xs.getD (lo + k) 0 := by
  fun_induction pairwise xs lo n with
  | case1 lo n hn => rw [sumFrom_eq, zero_add, range_eq_Ico]
  | case2 lo n hlt hle start whole r g res =>
    -- eight lanes over the whole blocks, then the leftover terms one by one
    have hwhole : 8 ≤ whole := by omega
    have hsize : start.size = 8 := by simp [start]
    have hres : res = ∑ k ∈ Ico 0 whole, xs.getD (lo + k) 0 := by
      rw [show res = laneTotal r from tree_eq_laneTotal r,
        lanes_total xs lo _ 8 _ hsize hwhole (by omega), laneTotal_start, range_eq_Ico,
        sum_Ico_consecutive _ (Nat.zero_le 8) hwhole]
    rw [sumFrom_eq, hres, range_eq_Ico, sum_Ico_consecutive _ (Nat.zero_le _) (by omega)]
  | case3 lo n hlt hle half ih₁ ih₂ =>
    -- two halves, the first a multiple of eight long
    have hsplit : ∑ k ∈ range n, xs.getD (lo + k) 0 =
        ∑ k ∈ range half, xs.getD (lo + k) 0 +
          ∑ k ∈ range (n - half), xs.getD (lo + (half + k)) 0 := by
      rw [← sum_range_add, Nat.add_sub_cancel' (by omega)]
    rw [ih₁, ih₂, hsplit]
    simp only [add_assoc]

theorem sum_range_getD (l : List α) : ∑ k ∈ range l.length, l.getD k 0 = l.sum := by
  induction l with
  | nil => simp
  | cons a l ih =>
    rw [List.length_cons, sum_range_succ', List.sum_cons, ← ih, add_comm]
    simp

/-- In exact arithmetic the pairwise sum is the sum of the terms. -/
theorem sum_eq_list_sum (xs : Array α) : sum xs = xs.toList.sum := by
  rw [sum, pairwise_eq, zero_add, ← sum_range_getD, Array.length_toList]
  refine sum_congr rfl fun k _ => ?_
  simp [Array.getD_eq_getD_getElem?, List.getD_eq_getElem?_getD]

end Numeric

namespace Summation

/-! ## The moments' figures -/

section Figures

variable {α : Type} [Add α] [Sub α] [Mul α] [Div α] [Zero α] [OfNat α 2] [LT α] [DecidableLT α]
  {eval : α → α} {evalAll : Array α → Array α} {n : α} {xs ys : Array α}

@[simp] theorem moments_backgroundArea : (moments eval evalAll n xs ys).backgroundArea =
    n * (eval (xs.getD 0 0) + eval (xs.getD (xs.size - 1) 0)) / 2 := rfl

@[simp] theorem moments_gross : (moments eval evalAll n xs ys).gross = Numeric.sum ys := rfl

@[simp] theorem moments_net : (moments eval evalAll n xs ys).net =
    (moments eval evalAll n xs ys).gross - (moments eval evalAll n xs ys).backgroundArea := rfl

@[simp] theorem moments_signal :
    (moments eval evalAll n xs ys).signal = Array.zipWith (· - ·) ys (evalAll xs) := rfl

@[simp] theorem moments_signalSum : (moments eval evalAll n xs ys).signalSum =
    Numeric.sum (moments eval evalAll n xs ys).signal := rfl

theorem moments_centroid : (moments eval evalAll n xs ys).centroid =
    if 0 < (moments eval evalAll n xs ys).signalSum then
      Numeric.sum (Array.zipWith (· * ·) xs (moments eval evalAll n xs ys).signal) /
        (moments eval evalAll n xs ys).signalSum
    else (xs.getD 0 0 + xs.getD (xs.size - 1) 0) / 2 := rfl

end Figures

/-! ## Sums over a window -/

theorem size_extract {α : Type} (x : Array α) {l r : Nat} (hlr : l ≤ r) (hr : r < x.size) :
    (x.extract l (r + 1)).size = r - l + 1 := by
  simp only [Array.size_extract]
  omega

section Sums

variable {α : Type} [AddCommGroup α]

/-- The sum of an array is the sum of its entries by index. -/
theorem toList_sum_eq (a : Array α) : a.toList.sum = ∑ k ∈ range a.size, a.getD k 0 := by
  rw [← Numeric.sum_range_getD, Array.length_toList]
  refine sum_congr rfl fun k _ => ?_
  simp [Array.getD_eq_getD_getElem?, List.getD_eq_getElem?_getD]

/-- Entry `k` of the window `l … r` is entry `l + k` of the whole array. -/
theorem getD_extract (x : Array α) {l r k : Nat} (hlr : l ≤ r) (hr : r < x.size)
    (hk : k < r - l + 1) : (x.extract l (r + 1)).getD k 0 = x.getD (l + k) 0 := by
  have hin : l + k < x.size := by omega
  have hk' : k < min (r + 1) x.size - l := by omega
  simp [Array.getD_eq_getD_getElem?, hin, hk']

/-- Entry `k` of a combination of two arrays entry by entry. -/
theorem getD_zipWith (f : α → α → α) (a c : Array α) {k : Nat} (hk : k < a.size)
    (hc : k < c.size) : (Array.zipWith f a c).getD k 0 = f (a.getD k 0) (c.getD k 0) := by
  simp [Array.getD_eq_getD_getElem?, hk, hc]

/-- Entry `k` of an array mapped by `f`. -/
theorem getD_map (f : α → α) (a : Array α) {k : Nat} (hk : k < a.size) :
    (a.map f).getD k 0 = f (a.getD k 0) := by
  simp [Array.getD_eq_getD_getElem?, hk]

end Sums

/-! ## The background: a line -/

section Line

variable {α : Type} [Field α]

/-- A background of at most two coefficients is the line through its constant coefficient at
`x₀`, with its other coefficient as slope. -/
theorem polyAt_line {cs : List α} (hcs : cs.length ≤ 2) (x₀ v : α) :
    polyAt (fun v k => v ^ k) cs x₀ v = cs.getD 0 0 + cs.getD 1 0 * (v - x₀) := by
  match cs, hcs with
  | [], _ => simp [polyAt]
  | [c], _ => simp [polyAt]
  | [c, d], _ => simp [polyAt]

end Line

/-! ## The integral in exact arithmetic -/

section Exact

variable {α : Type} [Field α] [LinearOrder α] [IsStrictOrderedRing α]

/-- The sum of a line over `m + 1` equally spaced points is `m + 1` times the mean of its values
at the first and the last point: the trapezoid rule is exact for a line. -/
theorem sum_line (c d x₀ a h : α) (m : Nat) :
    ∑ k ∈ range (m + 1), (c + d * (a + k * h - x₀)) =
      (m + 1 : Nat) * ((c + d * (a - x₀)) + (c + d * (a + m * h - x₀))) / 2 := by
  induction m with
  | zero => simp
  | succ m ih =>
    rw [sum_range_succ, ih]
    push_cast
    ring

/-- The moments of the integral over the bins `l … r` of `x` with counts `y` above the
polynomial background `Σ cᵢ (v - x₀)^i`, in exact arithmetic: the window is cut as the integral
cuts it, and the background is taken at single bins and at every bin as the integral takes it. -/
def exactMoments (x y : Array α) (l r : Nat) (cs : List α) (x₀ : α) : Moments α :=
  let b := polyAt (fun v k => v ^ k) cs x₀
  moments b (Array.map b) ((r - l + 1 : Nat) : α) (x.extract l (r + 1)) (y.extract l (r + 1))

/-- The sum of the line `b` over the bins `l … r` of bins equally spaced by `h` is the trapezoid
under it between the window's end bins. -/
theorem sum_line_window {x : Array α} {h : α} (hx : ∀ i < x.size, x.getD i 0 = x.getD 0 0 + i * h)
    {c d x₀ : α} {l r : Nat} (hlr : l ≤ r) (hr : r < x.size) :
    ∑ i ∈ Icc l r, (c + d * (x.getD i 0 - x₀)) =
      (r - l + 1 : Nat) * ((c + d * (x.getD l 0 - x₀)) + (c + d * (x.getD r 0 - x₀))) / 2 := by
  -- every bin of the window is the first one plus a multiple of the spacing
  have hbin : ∀ k ≤ r - l, x.getD (l + k) 0 = x.getD l 0 + k * h := fun k hk => by
    rw [hx (l + k) (by omega), hx l (by omega)]
    push_cast
    ring
  have hlast : x.getD r 0 = x.getD l 0 + (r - l : Nat) * h := by
    rw [← hbin (r - l) le_rfl, Nat.add_sub_cancel' hlr]
  rw [← Finset.Ico_add_one_right_eq_Icc, sum_Ico_eq_sum_range, show r + 1 - l = r - l + 1 by omega, hlast]
  rw [← sum_line c d x₀ (x.getD l 0) h (r - l)]
  refine sum_congr rfl fun k hk => ?_
  rw [hbin k (by have := mem_range.mp hk; omega)]

/-- On bins equally spaced by `h`, the trapezoid of the integral over the bins `l … r` above a
background of at most two coefficients is the sum of the background over those bins; so the net
area is the sum of the background-subtracted counts that weights the centroid. -/
theorem trapezoid_eq_background_sum {x y : Array α} {h : α}
    (hx : ∀ i < x.size, x.getD i 0 = x.getD 0 0 + i * h) (hxy : y.size = x.size)
    {cs : List α} (hcs : cs.length ≤ 2) (x₀ : α) {l r : Nat} (hlr : l ≤ r) (hr : r < x.size) :
    (exactMoments x y l r cs x₀).backgroundArea =
        ∑ i ∈ Icc l r, polyAt (fun v k => v ^ k) cs x₀ (x.getD i 0) ∧
      (exactMoments x y l r cs x₀).net = (exactMoments x y l r cs x₀).signalSum := by
  have hxs : (x.extract l (r + 1)).size = r - l + 1 := size_extract x hlr hr
  have hys : (y.extract l (r + 1)).size = r - l + 1 := size_extract y hlr (hxy ▸ hr)
  have hwin : ∀ k ∈ range (r - l + 1), (x.extract l (r + 1)).getD k 0 = x.getD (l + k) 0 :=
    fun k hk => getD_extract x hlr hr (mem_range.mp hk)
  -- the trapezoid is the sum of the line over the window's bins
  have harea : (exactMoments x y l r cs x₀).backgroundArea =
      ∑ i ∈ Icc l r, polyAt (fun v k => v ^ k) cs x₀ (x.getD i 0) := by
    simp only [exactMoments, moments_backgroundArea, hxs, Nat.add_sub_cancel]
    rw [hwin 0 (by simp), hwin (r - l) (by simp), Nat.add_sub_cancel' hlr]
    simp only [polyAt_line hcs, Nat.add_zero]
    rw [sum_line_window hx hlr hr]
  have hbins : ∑ i ∈ Icc l r, polyAt (fun v k => v ^ k) cs x₀ (x.getD i 0) =
      ∑ k ∈ range (r - l + 1), polyAt (fun v k => v ^ k) cs x₀ ((x.extract l (r + 1)).getD k 0) := by
    rw [← Finset.Ico_add_one_right_eq_Icc, sum_Ico_eq_sum_range,
      show r + 1 - l = r - l + 1 by omega]
    exact sum_congr rfl fun k hk => by rw [hwin k hk]
  refine ⟨harea, ?_⟩
  -- the signal is the counts less the background, bin by bin
  have hsignal : (exactMoments x y l r cs x₀).signalSum =
      ∑ k ∈ range (r - l + 1), ((y.extract l (r + 1)).getD k 0 -
        polyAt (fun v k => v ^ k) cs x₀ ((x.extract l (r + 1)).getD k 0)) := by
    simp only [exactMoments, moments_signalSum, moments_signal, Numeric.sum_eq_list_sum,
      toList_sum_eq, Array.size_zipWith, Array.size_map, hxs, hys, min_self]
    refine sum_congr rfl fun k hk => ?_
    have hk : k < r - l + 1 := mem_range.mp hk
    rw [getD_zipWith _ _ _ (hys ▸ hk) (by rw [Array.size_map, hxs]; exact hk),
      getD_map _ _ (hxs ▸ hk)]
  rw [hsignal, sum_sub_distrib, ← hbins, ← harea]
  simp only [exactMoments, moments_net, moments_gross, Numeric.sum_eq_list_sum, toList_sum_eq,
    hys]

/-- Three bins one apart under the line `1 + 2x`: the trapezoid `3 · (1 + 5) / 2` is the sum
`1 + 3 + 5` of the line over the bins. -/
theorem trapezoid_on_three_bins :
    (exactMoments (#[0, 1, 2] : Array ℚ) #[1, 4, 1] 0 2 [1, 2] 0).backgroundArea =
        ∑ i ∈ Icc 0 2, polyAt (fun v k => v ^ k) [1, 2] 0 ((#[0, 1, 2] : Array ℚ).getD i 0) ∧
      (exactMoments (#[0, 1, 2] : Array ℚ) #[1, 4, 1] 0 2 [1, 2] 0).net =
        (exactMoments (#[0, 1, 2] : Array ℚ) #[1, 4, 1] 0 2 [1, 2] 0).signalSum := by
  have hx : ∀ i < (#[0, 1, 2] : Array ℚ).size,
      (#[0, 1, 2] : Array ℚ).getD i 0 = (#[0, 1, 2] : Array ℚ).getD 0 0 + i * 1 := by
    intro i hi
    simp only [List.size_toArray, List.length_cons, List.length_nil] at hi
    interval_cases i <;> norm_num
  have hxy : (#[1, 4, 1] : Array ℚ).size = (#[0, 1, 2] : Array ℚ).size := rfl
  have hcs : ([1, 2] : List ℚ).length ≤ 2 := by decide
  have hr : 2 < (#[0, 1, 2] : Array ℚ).size := by decide
  exact trapezoid_eq_background_sum hx hxy hcs 0 (Nat.zero_le 2) hr

/-- Bins weighted by weights that are not negative sum to between the least and the greatest bin
times the total weight; the induction follows the weights, each paired with the next bin. -/
theorem zipWith_mul_sum_bounds {a w : List α} (hlen : w.length ≤ a.length) (hw : ∀ s ∈ w, 0 ≤ s)
    {lo hi : α} (ha : ∀ v ∈ a, lo ≤ v ∧ v ≤ hi) :
    lo * w.sum ≤ (List.zipWith (· * ·) a w).sum ∧ (List.zipWith (· * ·) a w).sum ≤ hi * w.sum := by
  induction w generalizing a with
  | nil => simp
  | cons s w ih =>
    match a, hlen with
    | v :: a, hlen =>
      have hs : 0 ≤ s := hw s List.mem_cons_self
      have hv := ha v List.mem_cons_self
      obtain ⟨hlo, hhi⟩ := ih (by simp only [List.length_cons] at hlen; omega)
        (fun t ht => hw t (List.mem_cons_of_mem s ht)) (fun u hu => ha u (List.mem_cons_of_mem v hu))
      simp only [List.zipWith_cons_cons, List.sum_cons, mul_add]
      exact ⟨add_le_add (mul_le_mul_of_nonneg_right hv.1 hs) hlo,
        add_le_add (mul_le_mul_of_nonneg_right hv.2 hs) hhi⟩

/-- The centroid of bins that lie between the window's end bins lies between them too, when no
weight is negative or the weights do not sum to a positive number: it is then a mean of the bins
with weights that are not negative, or the middle of the window. -/
theorem centroid_between {eval : α → α} {evalAll : Array α → Array α} {n : α} {xs ys : Array α}
    (hys : ys.size ≤ xs.size) (hbins : ∀ v ∈ xs, xs.getD 0 0 ≤ v ∧ v ≤ xs.getD (xs.size - 1) 0)
    (hw : (∀ s ∈ (moments eval evalAll n xs ys).signal, 0 ≤ s) ∨
      ¬0 < (moments eval evalAll n xs ys).signalSum) :
    xs.getD 0 0 ≤ (moments eval evalAll n xs ys).centroid ∧
      (moments eval evalAll n xs ys).centroid ≤ xs.getD (xs.size - 1) 0 := by
  rw [moments_centroid]
  split_ifs with hpos
  · -- a mean with weights that are not negative
    have hsigned : ∀ s ∈ (moments eval evalAll n xs ys).signal, 0 ≤ s := hw.resolve_right (not_not.mpr hpos)
    have hlen : (moments eval evalAll n xs ys).signal.toList.length ≤ xs.toList.length := by
      simp only [moments_signal, Array.length_toList, Array.size_zipWith]
      omega
    obtain ⟨hlo, hhi⟩ := zipWith_mul_sum_bounds hlen (fun s hs => hsigned s (Array.mem_def.mpr hs))
      (fun v hv => hbins v (Array.mem_def.mpr hv))
    rw [moments_signalSum, Numeric.sum_eq_list_sum] at hpos ⊢
    rw [Numeric.sum_eq_list_sum, Array.toList_zipWith]
    exact ⟨(le_div_iff₀ hpos).mpr hlo, (div_le_iff₀ hpos).mpr hhi⟩
  · -- the middle of the window
    have hends : xs.getD 0 0 ≤ xs.getD (xs.size - 1) 0 := by
      rcases Nat.eq_zero_or_pos xs.size with hempty | hne
      · simp [Array.getD_eq_getD_getElem?, hempty]
      · exact (hbins _ (by simp [Array.getD_eq_getD_getElem?, hne])).2
    constructor <;> linarith

/-- In exact arithmetic, on ascending bins, the centroid of the integral over the bins `l … r`
lies between the window's first and last bins when none of the background-subtracted counts of
the window is negative, or when they do not sum to a positive number. -/
theorem centroid_within_window {x y : Array α}
    (hx : ∀ i j, i ≤ j → j < x.size → x.getD i 0 ≤ x.getD j 0) (hxy : y.size = x.size)
    (cs : List α) (x₀ : α) {l r : Nat} (hlr : l ≤ r) (hr : r < x.size)
    (hw : (∀ s ∈ (exactMoments x y l r cs x₀).signal, 0 ≤ s) ∨
      ¬0 < (exactMoments x y l r cs x₀).signalSum) :
    x.getD l 0 ≤ (exactMoments x y l r cs x₀).centroid ∧
      (exactMoments x y l r cs x₀).centroid ≤ x.getD r 0 := by
  have hxs : (x.extract l (r + 1)).size = r - l + 1 := size_extract x hlr hr
  have hys : (y.extract l (r + 1)).size = r - l + 1 := size_extract y hlr (hxy ▸ hr)
  have hfirst : (x.extract l (r + 1)).getD 0 0 = x.getD l 0 := by
    rw [getD_extract x hlr hr (by omega), Nat.add_zero]
  have hlast : (x.extract l (r + 1)).getD ((x.extract l (r + 1)).size - 1) 0 = x.getD r 0 := by
    rw [hxs, Nat.add_sub_cancel, getD_extract x hlr hr (by omega), Nat.add_sub_cancel' hlr]
  -- every bin of the window lies between its end bins
  have hbins : ∀ v ∈ x.extract l (r + 1), x.getD l 0 ≤ v ∧ v ≤ x.getD r 0 := by
    intro v hv
    obtain ⟨k, hk, rfl⟩ := Array.mem_extract_iff_getElem.mp hv
    have hin : l + k < x.size := by omega
    have hget : x[l + k] = x.getD (l + k) 0 := by simp [Array.getD_eq_getD_getElem?, hin]
    rw [hget]
    exact ⟨hx l (l + k) (by omega) hin, hx (l + k) r (by omega) hr⟩
  have h := centroid_between (by omega) (by rw [hfirst, hlast]; exact hbins) hw
  rw [hfirst, hlast] at h
  exact h

/-- Counts `1, 4, 1` over a zero background weigh every bin of the window `0 … 2` by a count that
is not negative, and the centroid lies in the window. -/
theorem centroid_within_window_of_counts :
    (∀ s ∈ (exactMoments (#[0, 1, 2] : Array ℚ) #[1, 4, 1] 0 2 [0] 0).signal, 0 ≤ s) ∧
      (#[0, 1, 2] : Array ℚ).getD 0 0 ≤
        (exactMoments (#[0, 1, 2] : Array ℚ) #[1, 4, 1] 0 2 [0] 0).centroid ∧
      (exactMoments (#[0, 1, 2] : Array ℚ) #[1, 4, 1] 0 2 [0] 0).centroid ≤
        (#[0, 1, 2] : Array ℚ).getD 2 0 := by
  have hx : ∀ i j, i ≤ j → j < (#[0, 1, 2] : Array ℚ).size →
      (#[0, 1, 2] : Array ℚ).getD i 0 ≤ (#[0, 1, 2] : Array ℚ).getD j 0 := by
    intro i j hij hj
    simp only [List.size_toArray, List.length_cons, List.length_nil] at hj
    interval_cases j <;> interval_cases i <;> norm_num
  have hw : ∀ s ∈ (exactMoments (#[0, 1, 2] : Array ℚ) #[1, 4, 1] 0 2 [0] 0).signal, 0 ≤ s := by
    have hsignal : (exactMoments (#[0, 1, 2] : Array ℚ) #[1, 4, 1] 0 2 [0] 0).signal = #[1, 4, 1] := by
      simp [exactMoments, polyAt]
    rw [hsignal]
    intro s hs
    simp only [List.mem_toArray, List.mem_cons, List.not_mem_nil, or_false] at hs
    rcases hs with rfl | rfl | rfl <;> norm_num
  have hxy : (#[1, 4, 1] : Array ℚ).size = (#[0, 1, 2] : Array ℚ).size := rfl
  have hr : 2 < (#[0, 1, 2] : Array ℚ).size := by decide
  exact ⟨hw, centroid_within_window hx hxy [0] 0 (Nat.zero_le 2) hr (.inl hw)⟩

/-- Weights of both signs move the centroid out of its window. Over the flat background `10`,
the counts `9, 10, 13` of the bins `3, 4, 5` leave the weights `-1, 0, 3`, which sum to `2`: the
centroid is `(-3 + 15) / 2 = 6`, past the last bin. The doubles agree: with the edge windows
`0 … 1` and `8 … 9`, whose summation background is that flat line, the integral over `3 … 5` puts
its centroid beyond its right bin, though still before the right edge window. -/
theorem centroid_outside_window :
    (exactMoments (#[0, 1, 2, 3, 4, 5, 6, 7, 8, 9] : Array ℝ)
        #[10, 10, 10, 9, 10, 13, 10, 10, 10, 10] 3 5 [10, 0] 1).centroid = 6 ∧
      ∃ lb rb b s, Edge.ofSamples? #[0.0, 1.0, 2.0, 3.0, 4.0, 5.0, 6.0, 7.0, 8.0, 9.0]
          #[10.0, 10.0, 10.0, 9.0, 10.0, 13.0, 10.0, 10.0, 10.0, 10.0] 0 1 = some lb ∧
        Edge.ofSamples? #[0.0, 1.0, 2.0, 3.0, 4.0, 5.0, 6.0, 7.0, 8.0, 9.0]
          #[10.0, 10.0, 10.0, 9.0, 10.0, 13.0, 10.0, 10.0, 10.0, 10.0] 8 9 = some rb ∧
        Background.summation lb rb = some b ∧
        ofCounts? #[0.0, 1.0, 2.0, 3.0, 4.0, 5.0, 6.0, 7.0, 8.0, 9.0]
          #[10.0, 10.0, 10.0, 9.0, 10.0, 13.0, 10.0, 10.0, 10.0, 10.0] 3 5 b lb rb = some s ∧
        s.left = 3 ∧ s.right = 5 ∧ s.rightBin < s.centroid ∧ s.centroid < rb.start := by
  constructor
  · simp [exactMoments, moments_centroid, Numeric.sum_eq_list_sum, polyAt]
    norm_num
  · refine ⟨_, _, _, _, rfl, rfl, rfl, rfl, ?_⟩
    decide +kernel

end Exact

end Summation

end GammaFit
