import GammaFit.Multiplet

/-!
# The joint regression of a multiplet

`Multiplet.regressWith` hands the free parameters of every seed and of the background to a
bounded minimizer as one vector of slots, writes the point it finds back by position, and keeps
the peaks that come out physical. Whatever the minimizer finds, as long as it keeps to the box
it is given (`Minimizer.StaysInBox`), the result is what `Fits` describes
(`regressWith_none_or_fits`):

* one entry per seed, in seed order, each a physical fit of its seed or missing;
* one finite R² on every fit, and at least one fit;
* a parameter the regression does not move keeps its seed value and uncertainty, and one it
  moves stays within the bounds the seed was given: a center within `centerRange`, a width
  within `width_variation` of the seed's;
* in Gaussian-only mode every component is switched off; otherwise the switches are the seed's.

The center may take every bin not only when the slack window misses the bins but also when it
touches them in a single point, since its ends are compared by `≥` (`centerRange_of_touching`).

The proof reads the peaks and the background through their slots (`Slot.read`). Writing a
vector into the slots is a fold of updates, one slot at a time: a slot that no update names reads
as before (`read_foldl_of_not_mem`), and one that some update names reads as the last such
update left it (`read_foldl_of_mem`).
-/

namespace GammaFit

namespace Hypermet

@[simp] theorem param_modifyParam_self (h : Hypermet) (n : ParamName) (f : Param → Param) :
    (h.modifyParam n f).param n = f (h.param n) := by
  cases n <;> rfl

theorem param_modifyParam_of_ne (h : Hypermet) {n n' : ParamName} (f : Param → Param)
    (hne : n' ≠ n) : (h.modifyParam n f).param n' = h.param n' := by
  cases n <;> cases n' <;> simp only [modifyParam, param] <;> exact absurd rfl hne

@[simp] theorem param_with_rsq (h : Hypermet) (r : Float) (n : ParamName) :
    ({ h with rsq := r } : Hypermet).param n = h.param n := by
  cases n <;> rfl

end Hypermet

/-! ### Slots as a view of the peaks and the background -/

namespace Slot

/-- The parameter a slot names among peaks and a background, if there is one there. -/
def read : Slot → Array Hypermet × Background → Option Param
  | .peak k n, st => st.1[k]?.map (·.param n)
  | .coefficient j, st => st.2.coeffs[j]?

/-- Change the parameter a slot names, if there is one. -/
def update : Slot → (Param → Param) → Array Hypermet × Background →
    Array Hypermet × Background
  | .peak k n, f, st => (st.1.modify k (·.modifyParam n f), st.2)
  | .coefficient j, f, st => (st.1, { st.2 with coeffs := st.2.coeffs.modify j f })

@[simp] theorem read_update_self (slot : Slot) (f : Param → Param)
    (st : Array Hypermet × Background) : slot.read (slot.update f st) = (slot.read st).map f := by
  cases slot with
  | peak k n => simp [read, update, Array.getElem?_modify, Option.map_map, Function.comp_def]
  | coefficient j => simp [read, update]

theorem read_update_of_ne {slot slot' : Slot} (f : Param → Param)
    (st : Array Hypermet × Background) (hne : slot' ≠ slot) :
    slot'.read (slot.update f st) = slot'.read st := by
  cases slot with
  | peak k n =>
    cases slot' with
    | peak k' n' =>
      simp only [read, update, Array.getElem?_modify]
      split
      · -- the same peak, so another of its parameters
        rename_i hk
        subst hk
        have hn : n' ≠ n := fun hn => hne (hn ▸ rfl)
        simp [Option.map_map, Function.comp_def, Hypermet.param_modifyParam_of_ne _ _ hn]
      · rfl
    | coefficient j => rfl
  | coefficient j =>
    cases slot' with
    | peak k' n' => rfl
    | coefficient j' =>
      have hj : j ≠ j' := fun hj => hne (hj ▸ rfl)
      simp [read, update, hj]

/-- What every update keeps: the peaks' number, the coefficients' number and the offset. -/
theorem update_frame (slot : Slot) (f : Param → Param) (st : Array Hypermet × Background) :
    (slot.update f st).1.size = st.1.size ∧
      (slot.update f st).2.coeffs.length = st.2.coeffs.length ∧
      (slot.update f st).2.xoffset = st.2.xoffset := by
  cases slot <;> simp [update]

end Slot

/-! ### Minimizers that keep to their box -/

/-- A minimizer keeps to its box: each point it reaches has as many coordinates as its start
and lies within the box it was given. -/
def Minimizer.StaysInBox (minimize : Minimizer) : Prop :=
  ∀ f x0 box tol m, minimize f x0 box tol = .ok m → m.x.size = x0.size ∧ box.contains m.x = true

/-- The minimizer `m` with every point refused that has another number of coordinates than the
start or leaves the box. -/
def Minimizer.boxed (m : Minimizer) : Minimizer := fun f x0 box tol =>
  match m f x0 box tol with
  | .ok r =>
    if r.x.size = x0.size ∧ box.contains r.x = true then .ok r
    else .error (.invalid "the point left the box")
  | .error e => .error e

theorem Minimizer.staysInBox_boxed (m : Minimizer) : Minimizer.StaysInBox (Minimizer.boxed m) := by
  intro f x0 box tol r h
  unfold Minimizer.boxed at h
  split at h
  · split at h
    · cases h
      assumption
    · cases h
  · cases h

theorem Except.eq_ok_of_toOption {ε α : Type} {e : Except ε α} {a : α} (h : e.toOption = some a) :
    e = .ok a := by
  cases e <;> simp_all [Except.toOption]

namespace Multiplet

/-- A parameter of a prepared peak that the regression moves: one in use and free. -/
def Regressed (h : Hypermet) (n : ParamName) : Prop :=
  n ∈ h.paramNames ∧ (h.param n).free = true

instance (h : Hypermet) (n : ParamName) : Decidable (Regressed h n) :=
  inferInstanceAs (Decidable (_ ∧ _))

section Prepare

variable {g : Bool} {x : Array Float} {s : Settings} {h : Hypermet}

/-- Preparing a seed moves no value. -/
@[simp] theorem prepare_param_value (n : ParamName) :
    ((prepare g x s h).param n).value = (h.param n).value := by
  cases g <;> cases n <;> rfl

@[simp] theorem prepare_param_uncertainty (n : ParamName) :
    ((prepare g x s h).param n).uncertainty = (h.param n).uncertainty := by
  cases g <;> cases n <;> rfl

/-- In Gaussian-only mode preparing a seed switches every component off. -/
theorem prepare_param_enabled (n : ParamName) :
    ((prepare g x s h).param n).enabled =
      ((h.param n).enabled && !(g && (ParamName.component n).isSome)) := by
  cases g <;> cases n <;>
    simp [prepare, boundCore, Component.all, Hypermet.setComponent, Hypermet.param,
      ParamName.component]

theorem prepare_center_bounds :
    ((prepare g x s h).center.lower, (prepare g x s h).center.upper) =
      centerRange x s h.center.value h.width.value := by
  cases g <;> rfl

theorem prepare_width_bounds :
    (prepare g x s h).width.lower = h.width.value / Settings.float s.widthVariation ∧
      (prepare g x s h).width.upper = h.width.value * Settings.float s.widthVariation := by
  cases g <;> exact ⟨rfl, rfl⟩

end Prepare

theorem setValue_eq_update (slot : Slot) (v : Float) (peaks : Array Hypermet)
    (bg : Background) :
    setValue slot v peaks bg = slot.update (fun p => { p with value := v }) (peaks, bg) := by
  cases slot <;> rfl

theorem setUncertainty_eq_update (slot : Slot) (u : Float) (peaks : Array Hypermet)
    (bg : Background) :
    setUncertainty slot u peaks bg = slot.update (fun p => { p with uncertainty := u }) (peaks, bg) := by
  cases slot <;> rfl

/-! ### Folds of updates -/

section Fold

variable {E : Type} (key : E → Slot) (f : E → Param → Param)

/-- A slot that no update names reads as before. -/
theorem read_foldl_of_not_mem {slot : Slot} (L : List E) (st : Array Hypermet × Background)
    (hs : slot ∉ L.map key) :
    slot.read (L.foldl (fun st e => (key e).update (f e) st) st) = slot.read st := by
  induction L generalizing st with
  | nil => rfl
  | cons e L ih =>
    have hne : slot ≠ key e := fun h => hs (h ▸ List.mem_cons_self ..)
    rw [List.foldl_cons, ih _ (fun h => hs (List.mem_cons_of_mem _ h)),
      Slot.read_update_of_ne _ _ hne]

/-- A slot that some update names reads as the last of them left it, when each update
overwrites what an earlier one wrote. -/
theorem read_foldl_of_mem (hover : ∀ e e' p, f e (f e' p) = f e p) {slot : Slot} (L : List E)
    (st : Array Hypermet × Background) (hs : slot ∈ L.map key) :
    ∃ e ∈ L, key e = slot ∧
      slot.read (L.foldl (fun st e => (key e).update (f e) st) st) = (slot.read st).map (f e) := by
  induction L generalizing st with
  | nil => simp at hs
  | cons e₀ L ih =>
    rw [List.foldl_cons]
    by_cases hL : slot ∈ L.map key
    · -- a later update names the slot too, and overwrites the first one
      obtain ⟨e, he, hkey, hread⟩ := ih ((key e₀).update (f e₀) st) hL
      refine ⟨e, List.mem_cons_of_mem _ he, hkey, ?_⟩
      rw [hread]
      by_cases h₀ : slot = key e₀
      · subst h₀
        simp [Option.map_map, Function.comp_def, hover]
      · rw [Slot.read_update_of_ne _ _ h₀]
    · -- only the first update names the slot
      have h₀ : key e₀ = slot := by
        rcases List.mem_cons.mp hs with h | h
        · exact h.symm
        · exact absurd h hL
      refine ⟨e₀, List.mem_cons_self .., h₀, ?_⟩
      rw [read_foldl_of_not_mem key f L _ hL, ← h₀, Slot.read_update_self]

/-- A field that no update changes reads as before. -/
theorem read_foldl_map {α : Type} (field : Param → α) (hfield : ∀ e p, field (f e p) = field p)
    (slot : Slot) (L : List E) (st : Array Hypermet × Background) :
    (slot.read (L.foldl (fun st e => (key e).update (f e) st) st)).map field =
      (slot.read st).map field := by
  induction L generalizing st with
  | nil => rfl
  | cons e L ih =>
    rw [List.foldl_cons, ih]
    by_cases h : slot = key e
    · subst h
      simp [Option.map_map, Function.comp_def, hfield]
    · rw [Slot.read_update_of_ne _ _ h]

/-- What every update keeps, every fold of updates keeps. -/
theorem foldl_update_frame (L : List E) (st : Array Hypermet × Background) :
    (L.foldl (fun st e => (key e).update (f e) st) st).1.size = st.1.size ∧
      (L.foldl (fun st e => (key e).update (f e) st) st).2.coeffs.length =
        st.2.coeffs.length ∧
      (L.foldl (fun st e => (key e).update (f e) st) st).2.xoffset = st.2.xoffset := by
  induction L generalizing st with
  | nil => exact ⟨rfl, rfl, rfl⟩
  | cons e L ih =>
    obtain ⟨h₁, h₂, h₃⟩ := Slot.update_frame (key e) (f e) st
    rw [List.foldl_cons]
    obtain ⟨i₁, i₂, i₃⟩ := ih ((key e).update (f e) st)
    exact ⟨i₁.trans h₁, i₂.trans h₂, i₃.trans h₃⟩

end Fold

/-! ### The slots of a regression and the point written back into them -/

theorem install_eq (ss : Array (Slot × Param)) (values : Array Float) (peaks : Array Hypermet)
    (bg : Background) :
    install ss values peaks bg = (ss.toList.zip values.toList).foldl
      (fun st e => e.1.1.update (fun p => { p with value := e.2 }) st) (peaks, bg) := by
  rw [install, ← Array.foldl_toList, Array.toList_zip]
  congr 1
  funext st e
  exact setValue_eq_update e.1.1 e.2 st.1 st.2

theorem installUncertainties_eq (ss : Array (Slot × Param)) (errors : Array Float)
    (peaks : Array Hypermet) (bg : Background) :
    installUncertainties ss errors peaks bg = (ss.toList.zip errors.toList).foldl
      (fun st e => e.1.1.update (fun p => { p with uncertainty := e.2 }) st) (peaks, bg) := by
  rw [installUncertainties, ← Array.foldl_toList, Array.toList_zip]
  congr 1
  funext st e
  exact setUncertainty_eq_update e.1.1 e.2 st.1 st.2

/-- The slots are the regressed parameters of the peaks, then the free coefficients, each with
the parameter it moves. -/
theorem mem_slots {peaks : Array Hypermet} {bg : Background} {e : Slot × Param} :
    e ∈ (slots peaks bg).toList ↔
      (∃ h k, peaks[k]? = some h ∧ ∃ n, Regressed h n ∧ (.peak k n, h.param n) = e) ∨
        ∃ c j, bg.coeffs[j]? = some c ∧ c.free = true ∧ (.coefficient j, c) = e := by
  simp [slots, List.mem_flatMap, List.mem_filterMap, List.mem_zipIdx_iff_getElem?, Regressed]

/-- Every slot carries the parameter it names. -/
theorem read_of_mem_slots {peaks : Array Hypermet} {bg : Background} {e : Slot × Param}
    (he : e ∈ (slots peaks bg).toList) : e.1.read (peaks, bg) = some e.2 := by
  rcases mem_slots.mp he with ⟨h, k, hk, n, -, rfl⟩ | ⟨c, j, hj, -, rfl⟩
  · simp [Slot.read, hk]
  · exact hj

/-- A peak's parameter has a slot exactly when the regression moves it. -/
theorem peak_mem_slots_iff {peaks : Array Hypermet} {bg : Background} {k : Nat} {h : Hypermet}
    (hk : peaks[k]? = some h) (n : ParamName) :
    Slot.peak k n ∈ (slots peaks bg).toList.map Prod.fst ↔ Regressed h n := by
  constructor
  · intro hmem
    obtain ⟨e, he, hkey⟩ := List.mem_map.mp hmem
    rcases mem_slots.mp he with ⟨h', k', hk', n', hn', rfl⟩ | ⟨c, j, -, -, rfl⟩
    · -- the slot names the same peak and parameter
      simp only [Slot.peak.injEq] at hkey
      obtain ⟨rfl, rfl⟩ := hkey
      rw [hk] at hk'
      cases hk'
      exact hn'
    · cases hkey
  · intro hn
    exact List.mem_map.mpr ⟨_, mem_slots.mpr (.inl ⟨h, k, hk, n, hn, rfl⟩), rfl⟩

/-- A coefficient has a slot exactly when it is free. -/
theorem coefficient_mem_slots_iff {peaks : Array Hypermet} {bg : Background} {j : Nat}
    {c : Param} (hj : bg.coeffs[j]? = some c) :
    Slot.coefficient j ∈ (slots peaks bg).toList.map Prod.fst ↔ c.free = true := by
  constructor
  · intro hmem
    obtain ⟨e, he, hkey⟩ := List.mem_map.mp hmem
    rcases mem_slots.mp he with ⟨h', k', -, n', -, rfl⟩ | ⟨c', j', hj', hc', rfl⟩
    · cases hkey
    · simp only [Slot.coefficient.injEq] at hkey
      subst hkey
      rw [hj] at hj'
      cases hj'
      exact hc'
  · intro hc
    exact List.mem_map.mpr ⟨_, mem_slots.mpr (.inr ⟨c, j, hj, hc, rfl⟩), rfl⟩

/-- A point the minimizer found inside the box of the slots lies within each slot's bounds. -/
theorem bounds_of_contains {ss : Array (Slot × Param)} {xs : Array Float}
    (hbox : (box ss).contains xs = true) {i : Nat} (hi : i < ss.size) (hsize : xs.size = ss.size) :
    ss[i].2.lower ≤ xs.getD i 0.0 ∧ xs.getD i 0.0 ≤ ss[i].2.upper := by
  simp only [Optimize.Box.contains, List.all_eq_true, List.mem_range, Bool.and_eq_true,
    decide_eq_true_eq] at hbox
  have hin := hbox i (hsize ▸ hi)
  simpa [box, Linear.entry, hi] using hin

/-- The peaks and the background with a point and its uncertainties written into the slots. -/
def written (ss : Array (Slot × Param)) (xs errors : Array Float) (peaks : Array Hypermet)
    (bg : Background) : Array Hypermet × Background :=
  installUncertainties ss errors (install ss xs peaks bg).1 (install ss xs peaks bg).2

section Written

/-- The slot a written entry goes to. -/
abbrev slotOf (e : (Slot × Param) × Float) : Slot := e.1.1

/-- A written entry as a new value. -/
abbrev withValue (e : (Slot × Param) × Float) (p : Param) : Param := { p with value := e.2 }

/-- A written entry as a new uncertainty. -/
abbrev withUncertainty (e : (Slot × Param) × Float) (p : Param) : Param :=
  { p with uncertainty := e.2 }

variable {ss : Array (Slot × Param)} {xs errors : Array Float} {peaks : Array Hypermet}
  {bg : Background}

theorem written_eq :
    written ss xs errors peaks bg = (ss.toList.zip errors.toList).foldl
      (fun st e => e.1.1.update (fun p => { p with uncertainty := e.2 }) st)
      ((ss.toList.zip xs.toList).foldl
        (fun st e => e.1.1.update (fun p => { p with value := e.2 }) st) (peaks, bg)) := by
  rw [written, installUncertainties_eq, install_eq]

theorem mem_keys_of_mem_zip {l : List Float} {slot : Slot}
    (h : slot ∈ (ss.toList.zip l).map (fun e => e.1.1)) : slot ∈ ss.toList.map Prod.fst := by
  obtain ⟨e, he, rfl⟩ := List.mem_map.mp h
  exact List.mem_map.mpr ⟨e.1, (List.of_mem_zip he).1, rfl⟩

/-- Writing back keeps the number of peaks and of coefficients, and the offset. -/
theorem written_frame (ss : Array (Slot × Param)) (xs errors : Array Float)
    (peaks : Array Hypermet) (bg : Background) :
    (written ss xs errors peaks bg).1.size = peaks.size ∧
      (written ss xs errors peaks bg).2.coeffs.length = bg.coeffs.length ∧
      (written ss xs errors peaks bg).2.xoffset = bg.xoffset := by
  rw [written_eq]
  obtain ⟨h₁, h₂, h₃⟩ := foldl_update_frame slotOf withValue (ss.toList.zip xs.toList) (peaks, bg)
  obtain ⟨i₁, i₂, i₃⟩ := foldl_update_frame slotOf withUncertainty (ss.toList.zip errors.toList)
    ((ss.toList.zip xs.toList).foldl
      (fun st e => e.1.1.update (fun p => { p with value := e.2 }) st) (peaks, bg))
  exact ⟨i₁.trans h₁, i₂.trans h₂, i₃.trans h₃⟩

/-- A parameter without a slot is written back as it was. -/
theorem read_written_of_not_mem {slot : Slot} (hs : slot ∉ ss.toList.map Prod.fst) :
    slot.read (written ss xs errors peaks bg) = slot.read (peaks, bg) := by
  rw [written_eq, read_foldl_of_not_mem slotOf withUncertainty _ _ (fun h => hs (mem_keys_of_mem_zip h)),
    read_foldl_of_not_mem slotOf withValue _ _ (fun h => hs (mem_keys_of_mem_zip h))]

/-- Writing back switches nothing on or off. -/
theorem read_written_enabled (slot : Slot) :
    (slot.read (written ss xs errors peaks bg)).map Param.enabled =
      (slot.read (peaks, bg)).map Param.enabled := by
  rw [written_eq, read_foldl_map slotOf withUncertainty _ (fun _ _ => rfl),
    read_foldl_map slotOf withValue _ (fun _ _ => rfl)]

/-- A parameter with a slot is written back with the value of the point at the slot's
position (the last such position, were a slot there twice). -/
theorem read_written_of_mem (hsize : xs.size = ss.size) {slot : Slot}
    (hs : slot ∈ ss.toList.map Prod.fst) :
    ∃ i, ∃ hi : i < ss.size, ss[i].1 = slot ∧
      (slot.read (written ss xs errors peaks bg)).map Param.value =
        (slot.read (peaks, bg)).map fun _ => xs.getD i 0.0 := by
  have hkeys : (ss.toList.zip xs.toList).map slotOf = ss.toList.map Prod.fst := by
    rw [show slotOf = Prod.fst ∘ Prod.fst from rfl, ← List.map_map,
      List.map_fst_zip (by simp [hsize])]
  obtain ⟨e, he, hkey, hread⟩ := read_foldl_of_mem slotOf withValue (fun _ _ _ => rfl)
    (ss.toList.zip xs.toList) (peaks, bg) (hkeys ▸ hs)
  obtain ⟨i, hi⟩ := List.mem_iff_getElem?.mp he
  obtain ⟨hss, hxs⟩ := List.getElem?_zip_eq_some.mp hi
  simp only [Array.getElem?_toList] at hss hxs
  obtain ⟨hlt, hget⟩ := Array.getElem?_eq_some_iff.mp hss
  refine ⟨i, hlt, by rw [hget]; exact hkey, ?_⟩
  rw [written_eq, read_foldl_map slotOf withUncertainty _ (fun _ _ => rfl), hread, Option.map_map]
  simp [Function.comp_def, hxs]

end Written

/-! ### The end of a regression -/

theorem physical_length (rsq : Float) (peaks : Array Hypermet) :
    (physical rsq peaks).length = peaks.size := by
  simp [physical]

/-- An entry of the regression's list is a physical peak with R² set. -/
theorem physical_eq_some {rsq : Float} {peaks : Array Hypermet} {k : Nat} {h' : Hypermet}
    (hk : (physical rsq peaks)[k]? = some (some h')) :
    ∃ h, peaks[k]? = some h ∧
      (h.height.value > 0.0 ∧ h.width.value > 0.0 ∧ h.center.value.isNaN = false ∧
        h.center.value.isInf = false) ∧ h' = { h with rsq } := by
  simp only [physical, List.getElem?_map, Array.getElem?_toList] at hk
  cases hp : peaks[k]? with
  | none => simp [hp] at hk
  | some h =>
    simp only [hp, Option.map_some, Option.some.injEq] at hk
    split at hk
    · rename_i hphys
      simp only [Bool.and_eq_true, decide_eq_true_eq, Bool.not_eq_true'] at hphys
      obtain ⟨⟨⟨hh, hw⟩, hnan⟩, hinf⟩ := hphys
      exact ⟨h, rfl, ⟨hh, hw, hnan, hinf⟩, (Option.some.inj hk).symm⟩
    · cases hk

theorem rsq_of_mem_physical {rsq : Float} {peaks : Array Hypermet} {h' : Hypermet}
    (hm : some h' ∈ physical rsq peaks) : h'.rsq = rsq := by
  obtain ⟨h, -, hh⟩ := List.mem_map.mp hm
  split at hh
  · cases hh
    rfl
  · cases hh

/-- A regression that ends with a result ends with a finite R² and a physical peak. -/
theorem conclude_eq_some {x y : Array Float} {ss : Array (Slot × Param)} {peaks : Array Hypermet}
    {bg : Background} {fit : Optimize.BoxMinimum} {r : List (Option Hypermet) × Background}
    (h : conclude x y ss peaks bg fit = some r) :
    ∃ rsq : Float, rsq.isNaN = false ∧ rsq.isInf = false ∧
      (physical rsq (written ss fit.x (uncertainties y ss fit) peaks bg).1).all Option.isNone =
        false ∧
      r = (physical rsq (written ss fit.x (uncertainties y ss fit) peaks bg).1,
        (written ss fit.x (uncertainties y ss fit) peaks bg).2) := by
  unfold conclude at h
  simp only [bind, Option.bind] at h
  split at h
  · cases h
  split at h
  · cases h
  rename_i hrsq
  split at h
  · cases h
  rename_i hall
  simp only [Bool.or_eq_true, not_or, Bool.not_eq_true] at hrsq
  simp only [Bool.not_eq_true] at hall
  exact ⟨_, hrsq.1, hrsq.2, hall, (Option.some.inj h).symm⟩

/-- A regression with a result had the minimizer find a point from the slots of the prepared
seeds, in their box. -/
theorem regressWith_eq_some {minimize : Minimizer} {x y : Array Float} {seeds : List Hypermet}
    {bg : Background} {s : Settings} {g : Bool} {r : List (Option Hypermet) × Background}
    (h : regressWith minimize x y seeds bg s g = some r) :
    ∃ f tol fit, minimize f ((slots (seeds.toArray.map (prepare g x s)) bg).map (·.2.clipped))
        (box (slots (seeds.toArray.map (prepare g x s)) bg)) tol = .ok fit ∧
      conclude x y (slots (seeds.toArray.map (prepare g x s)) bg)
        (seeds.toArray.map (prepare g x s)) bg fit = some r := by
  unfold regressWith at h
  simp only [bind, Option.bind] at h
  -- the three guards, then the minimizer
  split at h
  · cases h
  split at h
  · cases h
  split at h
  · cases h
  split at h
  · cases h
  rename_i fit hfit
  exact ⟨_, _, fit, Except.eq_ok_of_toOption hfit, h⟩

/-! ### What a regression returns -/

/-- What the regression promises of the peak `h` it returns for `seed`. -/
structure FitOf (x : Array Float) (s : Settings) (g : Bool) (seed h : Hypermet) : Prop where
  /-- The peak is physical: height and width positive, the center finite. -/
  physical : h.height.value > 0.0 ∧ h.width.value > 0.0 ∧ h.center.value.isNaN = false ∧
    h.center.value.isInf = false
  /-- A parameter the regression does not move keeps the seed's value and uncertainty. -/
  kept : ∀ n, ¬Regressed (prepare g x s seed) n →
    (h.param n).value = (seed.param n).value ∧
      (h.param n).uncertainty = (seed.param n).uncertainty
  /-- A parameter it moves stays within the bounds the seed was given. -/
  moved : ∀ n, Regressed (prepare g x s seed) n →
    ((prepare g x s seed).param n).lower ≤ (h.param n).value ∧
      (h.param n).value ≤ ((prepare g x s seed).param n).upper
  /-- A moved center stays within the seed's `centerRange`. -/
  center : Regressed (prepare g x s seed) .center →
    (centerRange x s seed.center.value seed.width.value).1 ≤ h.center.value ∧
      h.center.value ≤ (centerRange x s seed.center.value seed.width.value).2
  /-- A moved width stays within `width_variation` of the seed's. -/
  width : Regressed (prepare g x s seed) .width →
    seed.width.value / Settings.float s.widthVariation ≤ h.width.value ∧
      h.width.value ≤ seed.width.value * Settings.float s.widthVariation
  /-- In Gaussian-only mode every component is off; otherwise the switches are the seed's. -/
  enabled : ∀ n, (h.param n).enabled =
    ((seed.param n).enabled && !(g && (ParamName.component n).isSome))

/-- What the regression promises of the background `bg'` it returns for `bg`. -/
structure BackgroundFit (bg bg' : Background) : Prop where
  xoffset : bg'.xoffset = bg.xoffset
  length : bg'.coeffs.length = bg.coeffs.length
  /-- A coefficient that is not free keeps its value and uncertainty. -/
  kept : ∀ (j : Nat) (c c' : Param), bg.coeffs[j]? = some c → bg'.coeffs[j]? = some c' → c.free = false →
    c'.value = c.value ∧ c'.uncertainty = c.uncertainty
  /-- A free coefficient stays within its bounds. -/
  moved : ∀ (j : Nat) (c c' : Param), bg.coeffs[j]? = some c → bg'.coeffs[j]? = some c' → c.free = true →
    c.lower ≤ c'.value ∧ c'.value ≤ c.upper

/-- What a joint regression of `seeds` and `bg` returns: one entry per seed, in seed order, each
a fit of its seed or missing, with one finite R² and at least one fit, and the background. -/
structure Fits (x : Array Float) (s : Settings) (g : Bool) (seeds : List Hypermet)
    (bg : Background) (fits : List (Option Hypermet)) (bg' : Background) : Prop where
  length : fits.length = seeds.length
  fit : ∀ (k : Nat) (seed h : Hypermet), seeds[k]? = some seed → fits[k]? = some (some h) →
    FitOf x s g seed h
  rsq : ∃ r : Float, r.isNaN = false ∧ r.isInf = false ∧ ∀ h, some h ∈ fits → h.rsq = r
  nonempty : ∃ h, some h ∈ fits
  background : BackgroundFit bg bg'

section Promises

variable {peaks : Array Hypermet} {bg : Background} {xs errors : Array Float}

/-- A slot's parameter is written back within its bounds, when the point lies in the box. -/
theorem read_written_bounded (errors : Array Float) (hsize : xs.size = (slots peaks bg).size)
    (hbox : (box (slots peaks bg)).contains xs = true) {slot : Slot} {p : Param}
    (hp : slot.read (peaks, bg) = some p) (hs : slot ∈ (slots peaks bg).toList.map Prod.fst) :
    ∃ p', slot.read (written (slots peaks bg) xs errors peaks bg) = some p' ∧
      p.lower ≤ p'.value ∧ p'.value ≤ p.upper := by
  obtain ⟨i, hi, hkey, hval⟩ := @read_written_of_mem (slots peaks bg) xs errors peaks bg hsize _ hs
  -- the slot at `i` carries `p`, and the point has its value there
  have hcarry := read_of_mem_slots (Array.getElem_mem_toList hi)
  rw [hkey, hp, Option.some.injEq] at hcarry
  rw [hp] at hval
  cases hw : slot.read (written (slots peaks bg) xs errors peaks bg) with
  | none => simp [hw] at hval
  | some p' =>
    simp only [hw, Option.map_some, Option.some.injEq] at hval
    obtain ⟨hlo, hhi⟩ := bounds_of_contains hbox hi hsize
    rw [← hcarry, ← hval] at hlo hhi
    exact ⟨p', rfl, hlo, hhi⟩

variable {x : Array Float} {s : Settings} {g : Bool}

/-- A peak a regression returns has the switches of its prepared seed, whatever the point
written back: in Gaussian-only mode every component is off, otherwise they are the seed's. -/
theorem enabled_written {ss : Array (Slot × Param)} {rsq : Float} {k : Nat} {seed h' : Hypermet}
    (hpk : peaks[k]? = some (prepare g x s seed))
    (hk : (physical rsq (written ss xs errors peaks bg).1)[k]? = some (some h')) (n : ParamName) :
    (h'.param n).enabled = ((seed.param n).enabled && !(g && (ParamName.component n).isSome)) := by
  obtain ⟨h, hwk, -, rfl⟩ := physical_eq_some hk
  have hread : ((Slot.peak k n).read (written ss xs errors peaks bg)).map Param.enabled =
      ((Slot.peak k n).read (peaks, bg)).map Param.enabled :=
    read_written_enabled _
  simp only [Slot.read, hwk, hpk, Option.map_some, Option.some.injEq] at hread
  simp [hread, prepare_param_enabled]

/-- Every peak a regression returns keeps the promises of `FitOf` for its seed. -/
theorem fitOf_written (hsize : xs.size = (slots peaks bg).size)
    (hbox : (box (slots peaks bg)).contains xs = true) {rsq : Float} {k : Nat}
    {seed h' : Hypermet} (hpk : peaks[k]? = some (prepare g x s seed))
    (hk : (physical rsq (written (slots peaks bg) xs errors peaks bg).1)[k]? = some (some h')) :
    FitOf x s g seed h' := by
  obtain ⟨h, hwk, hphys, rfl⟩ := physical_eq_some hk
  have hbefore : ∀ n, (Slot.peak k n).read (peaks, bg) =
      some ((prepare g x s seed).param n) := fun n => by
    simp [Slot.read, hpk]
  have hafter : ∀ n, (Slot.peak k n).read (written (slots peaks bg) xs errors peaks bg) =
      some (h.param n) := fun n => by
    simp [Slot.read, hwk]
  have hmoved : ∀ n, Regressed (prepare g x s seed) n →
      ((prepare g x s seed).param n).lower ≤ (h.param n).value ∧
        (h.param n).value ≤ ((prepare g x s seed).param n).upper := fun n hn => by
    obtain ⟨p', hp', hlo, hhi⟩ :=
      read_written_bounded errors hsize hbox (hbefore n) ((peak_mem_slots_iff hpk n).mpr hn)
    rw [hafter, Option.some.injEq] at hp'
    exact hp' ▸ ⟨hlo, hhi⟩
  have hcenter := prepare_center_bounds (g := g) (x := x) (s := s) (h := seed)
  have hwidth := prepare_width_bounds (g := g) (x := x) (s := s) (h := seed)
  refine ⟨hphys, fun n hn => ?_, fun n hn => ?_, fun hn => ?_, fun hn => ?_, fun n => ?_⟩
  · -- a parameter without a slot reads as prepared, and preparing moves no value
    have hread : (Slot.peak k n).read (written (slots peaks bg) xs errors peaks bg) =
        (Slot.peak k n).read (peaks, bg) :=
      read_written_of_not_mem (mt (peak_mem_slots_iff hpk n).mp hn)
    rw [hafter, hbefore, Option.some.injEq] at hread
    simp [hread]
  · simpa using hmoved n hn
  · rw [← hcenter]
    exact hmoved .center hn
  · rw [← hwidth.1, ← hwidth.2]
    exact hmoved .width hn
  · exact enabled_written hpk hk n

/-- The background a regression returns keeps the promises of `BackgroundFit`. -/
theorem backgroundFit_written (hsize : xs.size = (slots peaks bg).size)
    (hbox : (box (slots peaks bg)).contains xs = true) :
    BackgroundFit bg (written (slots peaks bg) xs errors peaks bg).2 := by
  obtain ⟨-, hlength, hoffset⟩ := written_frame (slots peaks bg) xs errors peaks bg
  refine ⟨hoffset, hlength, fun j c c' hj hj' hfree => ?_, fun j c c' hj hj' hfree => ?_⟩
  · -- a coefficient that is not free has no slot
    have hread : (Slot.coefficient j).read (written (slots peaks bg) xs errors peaks bg) =
        (Slot.coefficient j).read (peaks, bg) :=
      read_written_of_not_mem (mt (coefficient_mem_slots_iff hj).mp (by simp [hfree]))
    simp only [Slot.read] at hread
    rw [hj', hj, Option.some.injEq] at hread
    exact ⟨hread ▸ rfl, hread ▸ rfl⟩
  · obtain ⟨p', hp', hlo, hhi⟩ := read_written_bounded errors hsize hbox
      (show (Slot.coefficient j).read (peaks, bg) = some c from hj)
      ((coefficient_mem_slots_iff hj).mpr hfree)
    simp only [Slot.read] at hp'
    rw [hj', Option.some.injEq] at hp'
    exact hp' ▸ ⟨hlo, hhi⟩

/-- Every regression that ends with a result keeps the promises of `Fits`. -/
theorem fits_written {seeds : List Hypermet} {rsq : Float}
    (hsize : xs.size = (slots (seeds.toArray.map (prepare g x s)) bg).size)
    (hbox : (box (slots (seeds.toArray.map (prepare g x s)) bg)).contains xs = true)
    (hnan : rsq.isNaN = false) (hinf : rsq.isInf = false)
    (hall : (physical rsq (written (slots (seeds.toArray.map (prepare g x s)) bg) xs errors
      (seeds.toArray.map (prepare g x s)) bg).1).all Option.isNone = false) :
    Fits x s g seeds bg
      (physical rsq (written (slots (seeds.toArray.map (prepare g x s)) bg) xs errors
        (seeds.toArray.map (prepare g x s)) bg).1)
      (written (slots (seeds.toArray.map (prepare g x s)) bg) xs errors
        (seeds.toArray.map (prepare g x s)) bg).2 := by
  refine ⟨?_, fun k seed h hseed hk => ?_, ⟨rsq, hnan, hinf, fun h hm => rsq_of_mem_physical hm⟩,
    ?_, backgroundFit_written hsize hbox⟩
  · rw [physical_length, (written_frame _ _ _ _ _).1]
    simp
  · exact fitOf_written hsize hbox (by simp [hseed]) hk
  · -- some entry is not missing
    obtain ⟨o, ho, hnone⟩ := List.all_eq_false.mp hall
    cases o with
    | none => exact absurd rfl hnone
    | some h => exact ⟨h, ho⟩

end Promises

/-- The joint regression, whatever the minimizer finds as long as it keeps to its box, either
fails or returns one entry per seed in seed order, each a physical fit that keeps to the bounds
of its seed or missing, all with one finite R², at least one of them a fit, and a background
whose coefficients keep to their bounds. -/
theorem regressWith_none_or_fits {minimize : Minimizer} (hmin : Minimizer.StaysInBox minimize)
    (x y : Array Float) (seeds : List Hypermet) (bg : Background) (s : Settings) (g : Bool) :
    regressWith minimize x y seeds bg s g = none ∨
      ∃ fits bg', regressWith minimize x y seeds bg s g = some (fits, bg') ∧
        Fits x s g seeds bg fits bg' := by
  cases hr : regressWith minimize x y seeds bg s g with
  | none => exact .inl rfl
  | some r =>
    obtain ⟨f, tol, fit, hfit, hconc⟩ := regressWith_eq_some hr
    obtain ⟨hsize, hbox⟩ := hmin _ _ _ _ _ hfit
    rw [Array.size_map] at hsize
    obtain ⟨rsq, hnan, hinf, hall, rfl⟩ := conclude_eq_some hconc
    exact .inr ⟨_, _, rfl, fits_written hsize hbox hnan hinf hall⟩

/-- Whatever the minimizer returns, in its box or not, a regression that ends with a result
returns one entry per seed, and every peak it returns is physical, with the switches of its
prepared seed. -/
theorem regressWith_entries {minimize : Minimizer} {x y : Array Float} {seeds : List Hypermet}
    {bg bg' : Background} {s : Settings} {g : Bool} {fits : List (Option Hypermet)}
    (hr : regressWith minimize x y seeds bg s g = some (fits, bg')) :
    fits.length = seeds.length ∧
      ∀ (k : Nat) (seed h : Hypermet), seeds[k]? = some seed → fits[k]? = some (some h) →
        (h.height.value > 0.0 ∧ h.width.value > 0.0 ∧ h.center.value.isNaN = false ∧
          h.center.value.isInf = false) ∧
        ∀ n, (h.param n).enabled = ((seed.param n).enabled && !(g && (ParamName.component n).isSome)) := by
  obtain ⟨f, tol, fit, -, hconc⟩ := regressWith_eq_some hr
  obtain ⟨rsq, -, -, -, hfits⟩ := conclude_eq_some hconc
  cases hfits
  refine ⟨?_, fun k seed h hseed hk => ⟨?_, enabled_written (x := x) (s := s) (by simp [hseed]) hk⟩⟩
  · rw [physical_length, (written_frame _ _ _ _ _).1]
    simp
  · -- the entry is the written peak with R² set, which moves neither height, width nor center
    obtain ⟨h₀, -, hphys, rfl⟩ := physical_eq_some hk
    exact hphys

/-- A Gaussian-only peak has every component switched off. -/
theorem enabled_eq_false_of_gaussianOnly {h : Hypermet} (hg : h.gaussianOnly = true)
    (c : Component) : h.enabled c = false := by
  have hany : Component.all.any h.enabled = false := by simpa [Hypermet.gaussianOnly] using hg
  simpa using List.any_eq_false.mp hany c (by cases c <;> simp [Component.all])

/-- A peak with the switches of its prepared seed has the seed's components on and off, as long
as the regression is Gaussian-only only for a Gaussian-only seed. -/
theorem enabled_of_prepared {seed h : Hypermet} {g : Bool}
    (hparam : ∀ n, (h.param n).enabled =
      ((seed.param n).enabled && !(g && (ParamName.component n).isSome)))
    (hg : g = true → seed.gaussianOnly = true) (c : Component) : h.enabled c = seed.enabled c := by
  -- a component is switched by its amplitude
  obtain ⟨n, hn, hread⟩ : ∃ n, ParamName.component n = some c ∧
      ∀ h : Hypermet, h.enabled c = (h.param n).enabled := by
    cases c
    · exact ⟨.stepAmplitude, rfl, fun _ => rfl⟩
    · exact ⟨.tailAmplitude, rfl, fun _ => rfl⟩
    · exact ⟨.lskewAmplitude, rfl, fun _ => rfl⟩
    · exact ⟨.rskewAmplitude, rfl, fun _ => rfl⟩
  rw [hread, hparam n, hn]
  cases g
  · simp [hread]
  · rw [← hread, enabled_eq_false_of_gaussianOnly (hg rfl)]
    simp

/-- The regression of a peak on five bins over a constant background, by the trust-region
method with every point outside the box refused. -/
theorem regressWith_none_or_fits_boxed :
    Minimizer.StaysInBox (Minimizer.boxed Optimize.minimizeInBox) ∧
      (regressWith (Minimizer.boxed Optimize.minimizeInBox) #[0.0, 1.0, 2.0, 3.0, 4.0]
          #[10.0, 30.0, 60.0, 30.0, 10.0] [Hypermet.make 2.0 50.0 1.0 {}]
          ⟨[{ name := "a0", value := 10.0 }], 0.0⟩ {} false = none ∨
        ∃ fits bg', regressWith (Minimizer.boxed Optimize.minimizeInBox)
            #[0.0, 1.0, 2.0, 3.0, 4.0] #[10.0, 30.0, 60.0, 30.0, 10.0]
            [Hypermet.make 2.0 50.0 1.0 {}] ⟨[{ name := "a0", value := 10.0 }], 0.0⟩ {} false =
              some (fits, bg') ∧
          Fits #[0.0, 1.0, 2.0, 3.0, 4.0] {} false [Hypermet.make 2.0 50.0 1.0 {}]
            ⟨[{ name := "a0", value := 10.0 }], 0.0⟩ fits bg') :=
  ⟨Minimizer.staysInBox_boxed _,
    regressWith_none_or_fits (Minimizer.staysInBox_boxed _) _ _ _ _ _ _⟩

/-- A slack window that touches the bins in one point: a seed at `-1` with width `1` over the
bins `0, 1, 2` may move one width either side, to `-2 … 0`, which meets the bins only at `0`.
The ends meet, so its center is given every bin, and the regression moves it. -/
theorem centerRange_of_touching :
    (-1.0 : Float) - 1.0 * 1.0 < 0.0 ∧ ((-1.0 : Float) + 1.0 * 1.0 == 0.0) = true ∧
      ((centerRange #[0.0, 1.0, 2.0] {} (-1.0) 1.0).1 == 0.0) = true ∧
      ((centerRange #[0.0, 1.0, 2.0] {} (-1.0) 1.0).2 == 2.0) = true ∧
      Regressed (prepare false #[0.0, 1.0, 2.0] {} (Hypermet.make (-1.0) 3.0 1.0 {})) .center := by
  decide +kernel

end Multiplet

end GammaFit
