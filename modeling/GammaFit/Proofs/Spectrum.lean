import GammaFit.Proofs.Effects
import GammaFit.Search.Finder

/-!
# Ranges of a spectrum

A spectrum is checked once, when it is loaded; every finder over a part of it is built from a
contiguous range of its bins. A contiguous range of a spectrum is again a spectrum
(`Spectrum.valid_extract`), so the finder of such a range is always accepted
(`Search.Finder.ofData_valid`).
-/

namespace GammaFit

namespace Spectrum

theorem size_eq_of_valid {x y : Array Float} (h : valid x y = true) : x.size = y.size := by
  unfold valid at h
  simp only [Bool.and_eq_true, beq_iff_eq] at h
  exact h.1.1.1.1

theorem getD_extract (x : Array Float) {first stop i : Nat} (hi : i < min stop x.size - first) :
    (x.extract first stop).getD i 0.0 = x.getD (first + i) 0.0 := by
  have hx : first + i < x.size := by omega
  simp [Array.getD_eq_getD_getElem?, hi, hx]

theorem all_extract {p : Float → Bool} {x : Array Float} (h : x.all p = true)
    (first stop : Nat) : (x.extract first stop).all p = true := by
  rw [Array.all_eq_true_iff_forall_mem] at h ⊢
  intro v hv
  obtain ⟨k, hk, rfl⟩ := Array.mem_extract_iff_getElem.mp hv
  exact h _ (Array.getElem_mem _)

/-- The bins `first … last` of a spectrum form a spectrum. -/
theorem valid_extract {x y : Array Float} (h : valid x y = true) {first last : Nat}
    (hfl : first ≤ last) (hl : last < x.size) :
    valid (x.extract first (last + 1)) (y.extract first (last + 1)) = true := by
  unfold valid at h ⊢
  simp only [Bool.and_eq_true, bne_iff_ne, ne_eq, beq_iff_eq, List.all_eq_true,
    List.mem_range] at h ⊢
  obtain ⟨⟨⟨⟨hsize, hne⟩, hx⟩, hy⟩, hinc⟩ := h
  refine ⟨⟨⟨⟨?_, ?_⟩, all_extract hx _ _⟩, all_extract hy _ _⟩, fun k hk => ?_⟩
  · simp only [Array.size_extract]
    omega
  · simp only [Array.size_extract]
    omega
  -- neighbours in the range are neighbours in the spectrum, `first` bins further on
  simp only [Array.size_extract] at hk
  rw [getD_extract x (by omega), getD_extract x (by omega), ← Nat.add_assoc]
  exact hinc (first + k) (by omega)

end Spectrum

/-- The finder of a spectrum is accepted. -/
theorem Search.Finder.ofData_valid {s : Settings} {x y : Array Float}
    (h : Spectrum.valid x y = true) :
    Outcome.Post (Search.Finder.ofData s x y) fun r => r.1 = true := by
  unfold Search.Finder.ofData
  rw [h]
  exact .bind_forall fun _ => .pure rfl

end GammaFit
