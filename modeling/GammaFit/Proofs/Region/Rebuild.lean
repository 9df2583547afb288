import GammaFit.Proofs.Regression
import GammaFit.Proofs.Region.Backgrounds

/-!
# Regressing a region again

`rebuild` regresses every Hypermet peak of a region again, jointly, over the regression
background taken again from the edge windows. The joint regression of a region (`regress`)
takes the seeds tallest first, pairs the results with the seeds by position, keeps each physical
result between the edges under its seed's identity, carries the summation peaks over and brings
every peak up to date. What it leaves is `JointFit`: the Hypermet peaks are exactly the kept
results (`regress_jointFit`), and the summation peaks are those of the region, up to date.

From a reachable region whose edges did not move under its peaks, a rebuild that succeeds
therefore keeps the range, its data, the edge windows and the summation background, keeps every
summation peak as it was, holds under each old identity the physical regressed peak when it lies
between the edges and nothing otherwise, with the component switches it had, regresses
Gaussian-only exactly when every Hypermet peak is Gaussian-only, and records one snapshot under
the given description (`rebuild_frame`).
-/

namespace GammaFit

open Search (Finder)

/-! ## Peaks put in one after another -/

section Fold

variable {α : Type} {f : List (Nat × Peak) → α → List (Nat × Peak)} {P : α → Peak → Prop}

/-- A fold that at each element keeps the map or puts in a peak that `P` allows for that element
ends with the peak an element `x` puts in, when no other element puts in one under its
identity. -/
theorem mem_foldl_insert (hf : ∀ m x, f m x = m ∨ ∃ p, P x p ∧ f m x = insertPeak m p)
    {xs : List α} {m : List (Nat × Peak)} {x : α} {p : Peak} (hx : x ∈ xs)
    (hput : ∀ m, f m x = insertPeak m p) (hne : ∀ y ∈ xs, ∀ q, P y q → q.id = p.id → y = x) :
    (p.id, p) ∈ xs.foldl f m := by
  induction xs generalizing m with
  | nil => cases hx
  | cons y ys ih =>
    rw [List.foldl_cons]
    by_cases hys : x ∈ ys
    · exact ih hys fun z hz => hne z (List.mem_cons_of_mem _ hz)
    · -- `x` is the head, and no later element takes its identity
      obtain rfl : x = y := (List.mem_cons.mp hx).resolve_right hys
      rw [hput]
      exact mem_foldl_insert_of_ne hf mem_insertPeak_self fun z hz q hq heq =>
        hys (hne z (List.mem_cons_of_mem _ hz) q hq heq ▸ hz)

/-- A fold whose step puts in the peak `step x` of each element, if it has one: the map keeps
its identities; every entry was there at the start or is the peak of an element; an entry whose
identity no element's peak takes stays; and the map ends with the peak of every element whose
identity no other element's peak takes. -/
theorem foldl_step (step : α → Option Peak) (hf : ∀ m x, f m x = (step x).elim m (insertPeak m))
    {xs : List α} {m R : List (Nat × Peak)} (hR : xs.foldl f m = R) (hm : PeakIds m) :
    PeakIds R ∧ (∀ e ∈ R, e ∈ m ∨ ∃ x ∈ xs, step x = some e.2) ∧
      (∀ e ∈ m, (∀ x ∈ xs, ∀ p, step x = some p → p.id ≠ e.1) → e ∈ R) ∧
      ∀ x ∈ xs, ∀ p, step x = some p →
        (∀ y ∈ xs, ∀ q, step y = some q → q.id = p.id → y = x) → (p.id, p) ∈ R := by
  have hcases : ∀ m x, f m x = m ∨ ∃ p, step x = some p ∧ f m x = insertPeak m p := by
    intro m x
    rw [hf]
    cases step x with
    | none => exact .inl rfl
    | some p => exact .inr ⟨p, rfl, rfl⟩
  subst hR
  have hspec : PeakIds (xs.foldl f m) ∧ ∀ e ∈ xs.foldl f m, e ∈ m ∨ ∃ x ∈ xs, step x = some e.2 :=
    foldl_insert_spec hcases hm
  obtain ⟨hids, hfrom⟩ := hspec
  refine ⟨hids, hfrom, fun e he hne => mem_foldl_insert_of_ne hcases he hne,
    fun x hx p hp hne => mem_foldl_insert hcases hx (fun m => ?_) hne⟩
  rw [hf, hp]
  rfl

end Fold

/-- The identities of the seeds of some peaks are among the identities of the peaks, in order. -/
theorem seeds_keys_sublist (ps : List Peak) :
    ((ps.filterMap fun p => p.hypermet.map (p.id, ·)).map Prod.fst).Sublist (ps.map Peak.id) := by
  induction ps with
  | nil => exact .slnil
  | cons p ps ih =>
    rcases hp : p.hypermet with _ | h
    · simpa [hp] using ih.cons p.id
    · simpa [hp] using ih.cons_cons p.id

namespace Region

variable {s : Settings} {n : Nat} {r t u : Region}

/-- The seeds of the Hypermet peaks of a region: each identity once. -/
theorem parametric_seeds_nodup (hids : PeakIds r.peakMap) :
    ((r.parametric.filterMap fun p => p.hypermet.map (p.id, ·)).map Prod.fst).Nodup :=
  (hids.byCenter_nodup.sublist (List.filter_sublist.map Peak.id)).sublist (seeds_keys_sublist _)

/-! ## The joint regression of a region -/

/-- What a joint regression of the seeds `seeds` from `r` leaves in `t`: the seeds in the order
`ordered`, regressed over the regression background of `r` into the results `fitted` and the
background `bg'`. `t` has the frame, the history and the current fit of `r` and the regressed
background; it holds, under each seed's identity, the seed's result when there is one and it lies
between the edges, and no other Hypermet peak; its other peaks are summation peaks of `r` brought
up to date, and it keeps every summation peak of `r` that is up to date. -/
structure JointFit (r : Region) (seeds : List (Nat × Hypermet)) (g : Bool)
    (ordered : List (Nat × Hypermet)) (fitted : List (Option Hypermet)) (bg' : Background)
    (t : Region) : Prop where
  perm : ordered.Perm seeds
  regress : ∃ bg, r.background = some bg ∧
    Multiplet.regress r.finder.x r.finder.y (ordered.map (·.2)) bg r.settings g = some (fitted, bg')
  frame : SameFrame r t
  history : t.history = r.history
  currentFit : t.currentFit = r.currentFit
  background : t.background = some bg'
  hypermet : ∀ i h, (∃ p, (i, p) ∈ t.peakMap ∧ p.hypermet = some h) ↔
    ∃ h₀, ((i, h₀), some h) ∈ ordered.zip fitted ∧ r.insideEdges h.center.value = .ok true
  summation : ∀ e ∈ t.peakMap, e.2.hypermet = none →
    ∃ p, (e.1, p) ∈ r.peakMap ∧ p.sum4Only = true ∧ r.recomputePeak p = .ok e.2
  summation_kept : ∀ e ∈ r.peakMap, e.2.sum4Only = true → PeakFresh r e.2 → e ∈ t.peakMap

/-- Gathering the regression results, when it returns, puts in each result that passes the test
of the edges under its seed's identity, one after the other. -/
theorem foldlM_keepRegressed {xs : List ((Nat × Hypermet) × Option Hypermet)}
    {m R : List (Nat × Peak)} (h : xs.foldlM r.keepRegressed m = .ok R) :
    R = xs.foldl (fun m x => (x.2.bind fun h =>
      if r.between h.center.value then some ({ id := x.1.1, hypermet := some h } : Peak)
      else none).elim m (insertPeak m)) m := by
  refine Outcome.foldlM_eq_ok (fun m x c hc => ?_) h
  rcases x with ⟨⟨i, sd⟩, _ | h⟩
  · exact (Outcome.pure_eq_ok.mp hc).symm
  · unfold keepRegressed at hc
    obtain ⟨b, hb, hc⟩ := Outcome.bind_eq_ok.mp hc
    cases b <;> simp [between_of_insideEdges hb, ← Outcome.pure_eq_ok.mp hc]

/-- A joint regression of seeds with distinct identities, none of them a summation peak's, that
succeeds leaves a `JointFit`. -/
theorem regress_jointFit {seeds : List (Nat × Hypermet)} {g : Bool} (hids : PeakIds r.peakMap)
    (hnodup : (seeds.map Prod.fst).Nodup)
    (hdisj : ∀ e ∈ seeds, ∀ q ∈ r.peakMap, q.2.sum4Only = true → e.1 ≠ q.1) :
    Outcome.Post (r.regress seeds g) fun o => ∀ t, o = some t →
      ∃ ordered fitted bg', JointFit r seeds g ordered fitted bg' t := by
  unfold regress
  split
  · rename_i bg hbg
    split
    · exact .pure fun _ h => by cases h
    dsimp only
    split
    · rename_i fitted bg' hreg
      generalize hord : List.mergeSort seeds _ = ordered at hreg ⊢
      refine .bind_of_ok fun R hR => ?_
      replace hR := (foldlM_keepRegressed hR).symm
      split
      · exact .pure fun _ h => by cases h
      generalize hM : List.foldl _ R (List.filter _ r.peakMap) = M
      refine .bind (P := fun r₁ =>
          ({ r with background := some bg', peakMap := M } : Region).recompute = .ok r₁)
        (fun _ h => h) fun r₁ h₁ => ?_
      refine .bind (P := fun u => ({ r₁ with phase := .fitted } : Region).render = .ok u)
        (fun _ h => h) fun u hu => .pure fun t ht => ?_
      cases ht
      obtain ⟨k, hk, rfl⟩ := recompute_eq_ok.mp h₁
      obtain ⟨gf, rnd, rfl, hgx, hgy, -⟩ := render_eq_ok hu
      -- the results, one per seed, paired with the seeds by position
      have hperm : ordered.Perm seeds := hord ▸ List.mergeSort_perm _ _
      have hlen : fitted.length = ordered.length := by
        simpa using (Multiplet.regressWith_entries hreg).1
      have hkeys : ((ordered.zip fitted).map fun x => x.1.1).Nodup := by
        rw [show (fun x : (Nat × Hypermet) × Option Hypermet => x.1.1) = Prod.fst ∘ Prod.fst
          from rfl, ← List.map_map, List.map_fst_zip (by omega)]
        exact (hperm.map Prod.fst).nodup_iff.mpr hnodup
      -- the results kept: those between the edges, under their seeds' identities
      obtain ⟨hRids, hRfrom, -, hRmem⟩ := foldl_step
        (fun x : (Nat × Hypermet) × Option Hypermet => x.2.bind fun h =>
          if r.between h.center.value then some ({ id := x.1.1, hypermet := some h } : Peak)
          else none)
        (fun _ _ => rfl) hR PeakIds.nil
      have hRhyp : ∀ e ∈ R, ∃ x ∈ ordered.zip fitted, ∃ h, x.2 = some h ∧
          e.2 = { id := x.1.1, hypermet := some h } ∧ r.insideEdges h.center.value = .ok true := by
        intro e he
        rcases hRfrom e he with hnil | ⟨x, hx, hstep⟩
        · cases hnil
        obtain ⟨h, hx2, hstep⟩ := Option.bind_eq_some_iff.mp hstep
        split at hstep
        · exact ⟨x, hx, h, hx2, (Option.some.inj hstep).symm, insideEdges_eq_ok_true_iff.mpr (by assumption)⟩
        · cases hstep
      -- the summation peaks carried over, after them
      obtain ⟨hMids, hMfrom, hMkept, hMmem⟩ :=
        foldl_step (fun x : Nat × Peak => some x.2) (fun _ _ => rfl) hM hRids
      -- every peak is brought up to date in the frame of `r`
      have hk' : r.upToDate M = .ok k := by
        rw [← (⟨rfl, rfl, rfl, rfl, rfl, rfl⟩ :
          SameFrame r { r with background := some bg', peakMap := M }).upToDate]
        exact hk
      refine ⟨ordered, fitted, bg', hperm, ⟨bg, hbg, hreg⟩, ⟨rfl, hgx, hgy, rfl, rfl, rfl⟩, rfl, rfl,
        rfl, fun i h => ⟨?_, ?_⟩, ?_, ?_⟩
      · -- a Hypermet peak comes from a kept result: a carried summation peak has no shape
        rintro ⟨p, hp, hph⟩
        obtain ⟨p₀, hp₀, hq, -⟩ := mem_upToDate hk' hp
        rw [recomputePeak_hypermet hq] at hph
        rcases hMfrom _ hp₀ with hR₀ | ⟨x, hx, hxe⟩
        · obtain ⟨x, hx, h', hx2, hp₀e, hin⟩ := hRhyp _ hR₀
          have hid := hRids.key _ hR₀
          dsimp only at hp₀e hid
          rw [hp₀e] at hid hph
          rw [Option.some.injEq] at hph
          subst hph hid
          exact ⟨x.1.2, by rw [← hx2]; exact hx, hin⟩
        · have hsum := (List.mem_filter.mp hx).2
          rw [Option.some.injEq] at hxe
          dsimp only at hxe
          simp [Peak.sum4Only, hxe, hph] at hsum
      · -- a kept result is put in under its seed's identity, which no summation peak takes
        rintro ⟨h₀, hx, hin⟩
        have hseed : (i, h₀) ∈ seeds := hperm.mem_iff.mp (List.of_mem_zip hx).1
        have hR₀ : (i, ({ id := i, hypermet := some h } : Peak)) ∈ R := by
          refine hRmem _ hx { id := i, hypermet := some h } (by simp [insideEdges_eq_ok_true_iff.mp hin])
            fun y hy q hq hqid => ?_
          obtain ⟨h', -, hq⟩ := Option.bind_eq_some_iff.mp hq
          split at hq
          · cases hq
            exact List.inj_on_of_nodup_map hkeys hy hx hqid
          · cases hq
        have hM₀ := hMkept _ hR₀ fun x hx p hxp hpid => by
          obtain ⟨hxr, hsum⟩ := List.mem_filter.mp hx
          rw [Option.some.injEq] at hxp
          rw [← hxp, hids.key x hxr] at hpid
          exact hdisj _ hseed x hxr hsum hpid.symm
        obtain ⟨q, hq, hkept⟩ := mem_upToDate_of_mem hk' hM₀
        have hqh : q.hypermet = some h := recomputePeak_hypermet hq
        exact ⟨q, hkept (dropped_of_hypermet hqh hin), hqh⟩
      · -- a peak without a shape is a summation peak of `r`, brought up to date
        intro e he hnone
        obtain ⟨p₀, hp₀, hq, -⟩ := mem_upToDate hk' he
        rcases hMfrom _ hp₀ with hR₀ | ⟨x, hx, hxe⟩
        · obtain ⟨x, -, h', -, hp₀e, -⟩ := hRhyp _ hR₀
          dsimp only at hp₀e
          rw [recomputePeak_hypermet hq, hp₀e] at hnone
          cases hnone
        · obtain ⟨hxr, hsum⟩ := List.mem_filter.mp hx
          rw [Option.some.injEq] at hxe
          dsimp only at hxe
          have hkey : x.1 = e.1 := by rw [← hids.key x hxr, hxe, hMids.key _ hp₀]
          refine ⟨p₀, ?_, hxe ▸ hsum, hq⟩
          rw [← hkey, ← hxe]
          exact hxr
      · -- an up-to-date summation peak is carried over and kept as it is
        intro e he hsum hfresh
        have hM₀ : e ∈ M := by
          have hput := hMmem e (List.mem_filter.mpr ⟨he, hsum⟩) e.2 rfl fun y hy q hyq hqid => by
            rw [Option.some.injEq] at hyq
            have hy' := (List.mem_filter.mp hy).1
            refine List.inj_on_of_nodup_map hids.nodup hy' he ?_
            rw [← hids.key y hy', ← hids.key e he, hyq, hqid]
          rwa [hids.key e he] at hput
        obtain ⟨q, hq, hkept⟩ := mem_upToDate_of_mem hk' hM₀
        rw [hfresh.current, Except.ok.injEq] at hq
        subst hq
        exact hkept hfresh.kept
    · exact .pure fun _ h => by cases h
  · exact .pure fun _ h => by cases h

/-- Every result of a joint regression, paired with its seed, is physical, and has the seed's
component switches when the regression is Gaussian-only only for Gaussian-only seeds. -/
theorem regress_entry {x y : Array Float} {bg bg' : Background} {s : Settings} {g : Bool}
    {ordered : List (Nat × Hypermet)} {fitted : List (Option Hypermet)}
    (hreg : Multiplet.regress x y (ordered.map (·.2)) bg s g = some (fitted, bg'))
    (hg : g = true → ∀ e ∈ ordered, e.2.gaussianOnly = true) {i : Nat} {h₀ h : Hypermet}
    (hx : ((i, h₀), some h) ∈ ordered.zip fitted) :
    (h.height.value > 0.0 ∧ h.width.value > 0.0 ∧ h.center.value.isNaN = false ∧
      h.center.value.isInf = false) ∧ ∀ c, h.enabled c = h₀.enabled c := by
  obtain ⟨k, hk⟩ := List.mem_iff_getElem?.mp hx
  obtain ⟨ho, hf⟩ := List.getElem?_zip_eq_some.mp hk
  have hseed : (ordered.map (·.2))[k]? = some h₀ := by simp [ho]
  obtain ⟨hphys, hparam⟩ := (Multiplet.regressWith_entries hreg).2 k h₀ h hseed hf
  exact ⟨hphys, Multiplet.enabled_of_prepared hparam fun hgt => hg hgt _ (List.mem_of_getElem? ho)⟩

/-! ## Regressing again -/

/-- The joint regression a rebuild of `r` runs: the Hypermet peaks of `r` as seeds, in the order
`ordered`, Gaussian-only exactly when every one of them is, over the regression background the
edge windows give, with the results `fitted` and the background `bg'`. Every result is physical
and has the component switches of its seed. -/
structure Refit (r : Region) (g : Bool) (ordered : List (Nat × Hypermet))
    (fitted : List (Option Hypermet)) (bg' : Background) : Prop where
  gaussianOnly : g = true ↔ ∀ p ∈ r.parametric, ∀ h, p.hypermet = some h → h.gaussianOnly = true
  seeds : ordered.Perm (r.parametric.filterMap fun p => p.hypermet.map (p.id, ·))
  regress : ∃ l rt bg, r.lb = some l ∧ r.rb = some rt ∧ Background.regression l rt = some bg ∧
    Multiplet.regress r.finder.x r.finder.y (ordered.map (·.2)) bg r.settings g = some (fitted, bg')
  physical : ∀ i h₀ h, ((i, h₀), some h) ∈ ordered.zip fitted →
    h.height.value > 0.0 ∧ h.width.value > 0.0 ∧ h.center.value.isNaN = false ∧
      h.center.value.isInf = false
  enabled : ∀ i h₀ h, ((i, h₀), some h) ∈ ordered.zip fitted → ∀ c, h.enabled c = h₀.enabled c

/-- What a rebuild of `r` under the description `d` that ends in `t` did: the range, its data,
the edge windows and the summation background are kept; the summation peaks are those of `r`,
as they were; under each identity of a Hypermet peak of `r` stands the physical result of the
joint regression when it lies between the edges, and nothing otherwise; and one snapshot is
recorded under `d`. -/
structure Rebuilt (r : Region) (d : String) (t : Region) : Prop where
  x : t.finder.x = r.finder.x
  y : t.finder.y = r.finder.y
  lb : t.lb = r.lb
  rb : t.rb = r.rb
  sum4Background : t.sum4Background = r.sum4Background
  summation : ∀ e ∈ r.peakMap, e.2.sum4Only = true → e ∈ t.peakMap
  summationOnly : ∀ e ∈ t.peakMap, e.2.hypermet = none → e ∈ r.peakMap
  refit : ∃ g ordered fitted bg', Refit r g ordered fitted bg' ∧ t.background = some bg' ∧
    ∀ i h, (∃ p, (i, p) ∈ t.peakMap ∧ p.hypermet = some h) ↔
      ∃ h₀, ((i, h₀), some h) ∈ ordered.zip fitted ∧ r.insideEdges h.center.value = .ok true
  history : ∃ snap, t.history = r.history.push snap ∧ snap.description = d

/-- The regression a rebuild runs is Gaussian-only exactly when every Hypermet peak is. -/
theorem all_gaussianOnly_iff :
    (r.parametric.all fun p => (p.hypermet.map Hypermet.gaussianOnly).getD true) = true ↔
      ∀ p ∈ r.parametric, ∀ h, p.hypermet = some h → h.gaussianOnly = true := by
  rw [List.all_eq_true]
  refine forall₂_congr fun p _ => ?_
  cases p.hypermet <;> simp

end Region

namespace Request

open Region

variable {s : Settings} {parent : Finder} {n : Nat} {r : Region}

/-- A rebuild that succeeds, from a reachable region whose edges did not move under its peaks,
keeps the range, its data, the edge windows and the summation background and every summation
peak as it was; it regresses the Hypermet peaks jointly, Gaussian-only exactly when every one of
them is, and keeps under each old identity the physical result when it lies between the edges,
with the component switches it had; and it records one snapshot under the given description. -/
theorem rebuild_frame (h : Reachable s parent r n) (hph : r.phase ≠ .stale) (d : String) :
    Outcome.Post (r.rebuild d) fun o => ∀ t, o = some t → Rebuilt r d t := by
  have hs := h.sound
  have hfresh := hs.fresh hph
  -- taking the backgrounds again from the edges keeps what bringing peaks up to date reads
  have hframe : SameFrame r r.initBackground := ⟨initBackground_settings, by simp, by simp,
    initBackground_lb, initBackground_rb, h.tied.initBackground_sum4Background⟩
  obtain ⟨hmem, hdisj⟩ := parametric_seeds hs.toWf
  unfold rebuild
  dsimp only
  split
  · exact .pure fun _ h => by cases h
  rename_i hguard
  simp only [Bool.or_eq_true, not_or, Bool.not_eq_true, Option.isNone_eq_false_iff] at hguard
  obtain ⟨⟨-, hlb⟩, hrb⟩ := hguard
  obtain ⟨l, hl⟩ := Option.isSome_iff_exists.mp hlb
  obtain ⟨rt, hr⟩ := Option.isSome_iff_exists.mp hrb
  refine .bind (regress_jointFit (r := r.initBackground) (by simpa using hs.ids)
    (parametric_seeds_nodup hs.ids) (by simpa using hdisj)) fun o ho => ?_
  rcases o with _ | u
  · exact .pure fun _ h => by cases h
  obtain ⟨ordered, fitted, bg', hj⟩ := ho u rfl
  refine .pure fun t ht => ?_
  cases ht
  -- the region rebuilt is the one regressed with one snapshot more, in the frame of `r`
  have hfr : SameFrame r (u.saveCurrentFit d) :=
    (hframe.trans hj.frame).trans ⟨rfl, rfl, rfl, rfl, rfl, rfl⟩
  refine ⟨hfr.x, hfr.y, hfr.lb, hfr.rb, hfr.sum4Background, fun e he hsum => ?_,
    fun e he hnone => ?_, ?_, ⟨u.snapshot d, by simp [hj.history], rfl⟩⟩
  · -- a summation peak is up to date, so the regression carries it over as it is
    exact hj.summation_kept e (by simpa using he) hsum ((hfresh e he).of_sameFrame hframe)
  · -- a peak without a shape is a summation peak of `r` brought up to date: itself
    obtain ⟨p, hp, -, hq⟩ := hj.summation e he hnone
    rw [initBackground_peakMap] at hp
    rw [hframe.recomputePeak, (hfresh _ hp).current, Except.ok.injEq] at hq
    dsimp only at hq
    rw [hq] at hp
    exact hp
  · obtain ⟨bg, hbg, hreg⟩ := hj.regress
    have hbg' : Background.regression l rt = some bg := by simpa [initBackground, hl, hr] using hbg
    rw [initBackground_finder, initBackground_settings] at hreg
    -- a Gaussian-only regression has Gaussian-only seeds
    have hgo : (r.parametric.all fun p => (p.hypermet.map Hypermet.gaussianOnly).getD true) = true →
        ∀ e ∈ ordered, e.2.gaussianOnly = true := by
      intro hgt e he
      obtain ⟨p, hp, hpe⟩ := List.mem_filterMap.mp (hj.perm.mem_iff.mp he)
      obtain ⟨h', hh', rfl⟩ := Option.map_eq_some_iff.mp hpe
      exact all_gaussianOnly_iff.mp hgt p hp h' hh'
    refine ⟨_, ordered, fitted, bg', ⟨all_gaussianOnly_iff, hj.perm, ⟨l, rt, bg, hl, hr, hbg', hreg⟩,
      fun i h₀ h hx => (regress_entry hreg hgo hx).1, fun i h₀ h hx => (regress_entry hreg hgo hx).2⟩,
      hj.background, fun i h => ?_⟩
    rw [← hframe.insideEdges]
    exact hj.hypermet i h

/-- The Gaussian loaded into the region of the five peaked bins is reached and not stale, and a
rebuild of it that succeeds keeps its frame as `Region.Rebuilt` says. -/
theorem middleGaussian_rebuild_frame :
    ∃ t, peakedData.1.loadFit [middleGaussian] none "Loaded" = .ok t ∧
      Reachable oneSampleEdges fivePeakedBins t 2 ∧ t.phase ≠ .stale ∧
      Outcome.Post (t.rebuild "Rebuild") fun o => ∀ u, o = some u → Rebuilt t "Rebuild" u := by
  obtain ⟨t, hload, hr, hph⟩ := middleGaussian_loaded
  exact ⟨t, hload, hr, hph, rebuild_frame hr hph "Rebuild"⟩

end Request

end GammaFit
