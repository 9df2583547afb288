import GammaFit.Proofs.Effects

/-!
# Settings documents read back

Settings are written as a document of all their fields and read back by setting each field the
document names, over the defaults, and then checking them all. The calibrations keep their
kind, coefficients, units and bits through their documents (`Calibration.ofJson_toJson`), a
resolution calibration read back being always in bins (`Calibration.resolutionOfJson_toJson`).

The bounds of the optional Hypermet parameters are a table read over the defaults: an entry the
document names replaces the default of its key (`Settings.upsert`), so the table read back
(`Settings.mergedBounds`) holds the document's entries and the defaults of the keys it does not
name (`Settings.mem_mergedBounds`). The check of the table passes on each entry on its own
(`Outcome.forIn_eq_ok_iff`), and the defaults pass their own check (`Settings.validate_default`),
so settings that passed their check pass it again with the table read back
(`Settings.validate_withBounds`).

Hence settings read back from their document are the settings themselves with the bounds table
read over the defaults (`Settings.ofJson_toJson`): the same document, up to the order of the
table, exactly when the table names every parameter with bounds.
-/

namespace GammaFit

/-! ## Loops that never stop early -/

namespace Outcome

variable {γ : Type} {l l₁ l₂ : List γ} {f : γ → PUnit → Outcome (ForInStep PUnit)}

/-- A loop over a list whose body never stops it early passes exactly when its body passes on
every element. -/
theorem forIn_eq_ok_iff (hf : ∀ x, f x ⟨⟩ ≠ .ok (.done ⟨⟩)) :
    forIn l ⟨⟩ f = .ok ⟨⟩ ↔ ∀ x ∈ l, f x ⟨⟩ = .ok (.yield ⟨⟩) := by
  induction l with
  | nil =>
    simp only [List.forIn_nil, List.not_mem_nil, IsEmpty.forall_iff, implies_true, iff_true]
    rfl
  | cons x l ih =>
    rw [List.forIn_cons, List.forall_mem_cons]
    cases hx : f x ⟨⟩ with
    | error e => simp [bind, Except.bind]
    | ok step =>
      cases step with
      | done u => exact absurd hx (hf x)
      | yield u => simp [bind, Except.bind, ih]

/-- Such a loop passes over a list of elements it passed in two other lists. -/
theorem forIn_of_mem_either (hf : ∀ x, f x ⟨⟩ ≠ .ok (.done ⟨⟩))
    (h₁ : forIn l₁ ⟨⟩ f = .ok ⟨⟩) (h₂ : forIn l₂ ⟨⟩ f = .ok ⟨⟩) (hl : ∀ x ∈ l, x ∈ l₁ ∨ x ∈ l₂) :
    forIn l ⟨⟩ f = .ok ⟨⟩ := by
  rw [forIn_eq_ok_iff hf] at h₁ h₂ ⊢
  intro x hx
  rcases hl x hx with h | h
  · exact h₁ x h
  · exact h₂ x h

end Outcome

/-! ## Calibrations -/

namespace Calibration

/-- The coefficients written in a calibration's document are read back as they were: an empty
list is false and gives none, any other is iterated item by item. -/
theorem coefficientsOf_arr (cs : List Json.Value) : coefficientsOf (.arr cs) = .ok cs := by
  cases cs <;> rfl

/-- A calibration read back from its document is itself: the model name gives back its kind. -/
theorem ofJson_toJson (c : Calibration) : ofJson c.toJson = .ok c := by
  obtain ⟨kind, coefficients, units, bits⟩ := c
  cases kind <;> simp [ofJson, toJson, modelName, Json.Value.lookupD, Json.Value.fieldD,
    Json.Value.get?, coefficientsOf_arr, bind, Except.bind, pure, Except.pure]

/-- A resolution calibration in bins read back from its document as a resolution calibration
is itself. -/
theorem resolutionOfJson_toJson {c : Calibration} (hk : c.kind = .resolution)
    (hu : c.units = .str "bin") : resolutionOfJson c.toJson = .ok c := by
  obtain ⟨kind, coefficients, units, bits⟩ := c
  subst hk hu
  simp [resolutionOfJson, toJson, Json.Value.lookupD, Json.Value.fieldD, Json.Value.get?,
    coefficientsOf_arr, bind, Except.bind, pure, Except.pure]

end Calibration

/-! ## The bounds table -/

namespace Settings

variable {α : Type}

/-- The bounds table a document's `hypermet_bounds` object gives: the defaults with each of its
entries put over them in turn. -/
def mergedBounds (t : List (String × List Json.Value)) : List (String × List Json.Value) :=
  t.foldl (fun acc e => upsert acc e.1 e.2) defaultBoundsJson

/-- An entry of a table after an upsert is the new entry or an entry of another key. -/
theorem mem_upsert {t : List (String × α)} {k : String} {v : α} {e : String × α} :
    e ∈ upsert t k v ↔ e = (k, v) ∨ e ∈ t ∧ e.1 ≠ k := by
  unfold upsert
  split
  · rename_i hk
    obtain ⟨⟨k', w⟩, hmem, hk'⟩ := List.any_eq_true.mp hk
    simp only [beq_iff_eq] at hk'
    subst hk'
    constructor
    · simp only [List.mem_map, Prod.exists]
      rintro ⟨i, w', hi, he⟩
      by_cases hik : i = k'
      · simp only [hik, beq_self_eq_true, if_true] at he
        exact .inl he.symm
      · simp only [beq_iff_eq, hik, if_false] at he
        subst he
        exact .inr ⟨hi, hik⟩
    · rintro (rfl | ⟨he, hne⟩)
      · exact List.mem_map.mpr ⟨(k', w), hmem, by simp⟩
      · exact List.mem_map.mpr ⟨e, he, by simp [beq_iff_eq, hne]⟩
  · rename_i hk
    simp only [List.any_eq_true, beq_iff_eq, not_exists, not_and] at hk
    simp only [List.mem_append, List.mem_singleton]
    constructor
    · rintro (he | rfl)
      · exact .inr ⟨he, hk e he⟩
      · exact .inl rfl
    · rintro (rfl | ⟨he, -⟩)
      · exact .inr rfl
      · exact .inl he

/-- An upsert keeps the keys of a table apart. -/
theorem nodup_upsert {t : List (String × α)} (k : String) (v : α) (ht : (t.map Prod.fst).Nodup) :
    ((upsert t k v).map Prod.fst).Nodup := by
  unfold upsert
  split
  · rw [List.map_map]
    convert ht using 2
    funext e
    simp only [Function.comp_apply]
    split <;> rfl
  · rename_i hk
    simp only [List.any_eq_true, beq_iff_eq, not_exists, not_and] at hk
    rw [List.map_append, List.nodup_append]
    refine ⟨ht, List.nodup_singleton _, fun a ha b hb => ?_⟩
    simp only [List.map_cons, List.map_nil, List.mem_singleton] at hb
    subst hb
    obtain ⟨e, he, rfl⟩ := List.mem_map.mp ha
    exact hk e he

/-- Entries put in turn over a table, their keys apart: an entry of the result is one of them,
or an entry of the table whose key none of them names. -/
theorem mem_foldl_upsert {l acc : List (String × α)} (hl : (l.map Prod.fst).Nodup)
    {e : String × α} :
    e ∈ l.foldl (fun acc e => upsert acc e.1 e.2) acc ↔
      e ∈ l ∨ e ∈ acc ∧ e.1 ∉ l.map Prod.fst := by
  induction l generalizing acc with
  | nil => simp
  | cons d l ih =>
    obtain ⟨hd, hl⟩ := List.nodup_cons.mp hl
    rw [List.foldl_cons, ih hl, mem_upsert]
    simp only [List.mem_cons, List.map_cons, not_or]
    constructor
    · rintro (he | ⟨rfl | ⟨he, hne⟩, hnot⟩)
      · exact .inl (.inr he)
      · exact .inl (.inl rfl)
      · exact .inr ⟨he, hne, hnot⟩
    · rintro ((rfl | he) | ⟨he, hne, hnot⟩)
      · -- the entry put first is not replaced later: its key is none of the later ones
        exact .inr ⟨.inl rfl, hd⟩
      · exact .inl he
      · exact .inr ⟨.inr ⟨he, hne⟩, hnot⟩

/-- Entries put in turn over a table keep its keys apart. -/
theorem nodup_foldl_upsert (l : List (String × α)) {acc : List (String × α)}
    (hacc : (acc.map Prod.fst).Nodup) :
    ((l.foldl (fun acc e => upsert acc e.1 e.2) acc).map Prod.fst).Nodup := by
  induction l generalizing acc with
  | nil => exact hacc
  | cons d l ih => exact ih (nodup_upsert d.1 d.2 hacc)

/-- The table read over the defaults holds the entries read and the defaults of the keys they
do not name. -/
theorem mem_mergedBounds {t : List (String × List Json.Value)} (ht : (t.map Prod.fst).Nodup)
    {e : String × List Json.Value} :
    e ∈ mergedBounds t ↔ e ∈ t ∨ e ∈ defaultBoundsJson ∧ e.1 ∉ t.map Prod.fst :=
  mem_foldl_upsert ht

/-- The table read over the defaults is the table read, up to order, exactly when that one
names every parameter with bounds. -/
theorem mergedBounds_perm_iff {t : List (String × List Json.Value)} (ht : (t.map Prod.fst).Nodup) :
    (mergedBounds t).Perm t ↔ ∀ k ∈ defaultBoundsJson.map Prod.fst, k ∈ t.map Prod.fst := by
  constructor
  · intro hp k hk
    by_contra hkt
    -- the default of a key the table does not name stays in the table read
    obtain ⟨e, he, rfl⟩ := List.mem_map.mp hk
    exact hkt (List.mem_map_of_mem (hp.mem_iff.mp ((mem_mergedBounds ht).mpr (.inr ⟨he, hkt⟩))))
  · intro hall
    have hdefault : (defaultBoundsJson.map Prod.fst).Nodup := by decide
    refine (List.perm_ext_iff_of_nodup (nodup_foldl_upsert t hdefault).of_map ht.of_map).mpr
      fun e => (mem_mergedBounds ht).trans ⟨?_, .inl⟩
    -- a default entry is only kept for a key the table does not name, and it names them all
    rintro (he | ⟨he, hnot⟩)
    · exact he
    · exact absurd (hall e.1 (List.mem_map_of_mem he)) hnot

/-- A bounds table written as a document, each bound as a list, is read back over the
defaults: iterating a list gives its items. -/
theorem readBounds_write (t : List (String × List Json.Value)) :
    readBounds (.obj (t.map fun e => (e.1, .arr e.2))) = .ok (mergedBounds t) := by
  have hread : (t.map fun e => (e.1, Json.Value.arr e.2)).mapM
      (fun e => do pure (e.1, ← e.2.iterate)) = .ok t := by
    induction t with
    | nil => rfl
    | cons e t ih =>
      rw [List.map_cons, List.mapM_cons, ih]
      rfl
  simp only [readBounds, hread]
  rfl

/-! ## Reading settings, field by field -/

/-- The field of `s` put into `t`: what reading the field's entry in the document of `s`
gives. -/
def Field.copy (s : Settings) : Field → Settings → Settings
  | .plain get put, t => put t (get s)
  | .calibration, t => { t with calibration := s.calibration }
  | .fwhmCalibration, t => { t with fwhmCalibration := s.fwhmCalibration }
  | .hypermetBounds, t => { t with hypermetBounds := mergedBounds s.hypermetBounds }

/-- An optional calibration read back from its document is itself. -/
theorem readCalibration_opt {read : Json.Value → Outcome Calibration} {o : Option Calibration}
    (h : ∀ c ∈ o, read c.toJson = .ok c) :
    readCalibration read (Json.Value.opt Calibration.toJson o) = .ok o := by
  cases o with
  | none => rfl
  | some c =>
    show some <$> read c.toJson = .ok (some c)
    rw [h c rfl]
    rfl

/-- Every field reads back from its entry in the document of `s` what `s` holds, the bounds
table read over the defaults, as long as a resolution calibration is one in bins. -/
theorem Field.read_write {s : Settings}
    (hf : ∀ c ∈ s.fwhmCalibration, c.kind = .resolution ∧ c.units = .str "bin")
    (f : Field) (t : Settings) : f.read t (f.write s) = .ok (f.copy s t) := by
  cases f with
  | plain get put => rfl
  | calibration =>
    simp only [Field.read, Field.write, Field.copy,
      readCalibration_opt fun c _ => Calibration.ofJson_toJson c]
    rfl
  | fwhmCalibration =>
    simp only [Field.read, Field.write, Field.copy, readCalibration_opt fun c hc =>
      Calibration.resolutionOfJson_toJson (hf c hc).1 (hf c hc).2]
    rfl
  | hypermetBounds =>
    simp only [Field.read, Field.write, Field.copy, readBounds_write]
    rfl

/-- The keys of the table are apart. -/
theorem fields_keys_nodup : (fields.map Prod.fst).Nodup := by
  decide

/-- An entry of a table whose keys are apart is found under its key. -/
theorem lookup_of_mem {l : List (String × Field)} (hl : (l.map Prod.fst).Nodup) {k : String}
    {f : Field} (h : (k, f) ∈ l) : l.lookup k = some f := by
  induction l with
  | nil => cases h
  | cons e l ih =>
    obtain ⟨he, hl⟩ := List.nodup_cons.mp hl
    rcases List.mem_cons.mp h with rfl | h
    · simp [List.lookup]
    · -- a later entry's key is not the head's
      have hk : (k == e.1) = false := by
        simpa using fun hk : k = e.1 => he (hk ▸ List.mem_map_of_mem h)
      simp [List.lookup, hk, ih hl h]

/-- A document entry under a key of the table is read into the field the key names. -/
theorem set_of_mem {s : Settings} {k : String} {f : Field} (h : (k, f) ∈ fields)
    (v : Json.Value) : s.set k v = f.read s v := by
  simp only [set, lookup_of_mem fields_keys_nodup h]

/-- Reading, over `t`, the entries a table of fields writes from `s` copies each field of `s` in
turn. -/
theorem foldlM_set_write {s : Settings}
    (hf : ∀ c ∈ s.fwhmCalibration, c.kind = .resolution ∧ c.units = .str "bin")
    (l : List (String × Field)) (hl : ∀ e ∈ l, e ∈ fields) (t : Settings) :
    (l.map fun e => (e.1, e.2.write s)).foldlM (fun u e => u.set e.1 e.2) t =
      .ok (l.foldl (fun u e => e.2.copy s u) t) := by
  induction l generalizing t with
  | nil => rfl
  | cons e l ih =>
    have he : e ∈ fields := hl e List.mem_cons_self
    rw [List.map_cons, List.foldlM_cons, set_of_mem he, Field.read_write hf]
    exact ih (fun e' h => hl e' (List.mem_cons_of_mem _ h)) _

/-- A check that answers with no failure passes: it has nothing else to answer. -/
theorem validate_of_toBool {s : Settings} (h : s.validate.toBool = true) :
    s.validate = .ok () := by
  cases hv : s.validate with
  | error e =>
    rw [hv] at h
    cases h
  | ok u => rfl

/-- The defaults pass their own check. -/
theorem validate_default : ({} : Settings).validate = .ok () :=
  validate_of_toBool (by decide +kernel)

/-- Settings that pass their check pass it with any bounds table whose entries are theirs or
defaults: the check of the table passes on each entry on its own. -/
theorem validate_withBounds {s : Settings} {t : List (String × List Json.Value)}
    (hv : s.validate = .ok ()) (ht : ∀ e ∈ t, e ∈ s.hypermetBounds ∨ e ∈ defaultBoundsJson) :
    { s with hypermetBounds := t }.validate = .ok () := by
  have hd := validate_default
  simp only [validate, Outcome.bind_eq_ok] at hv hd ⊢
  obtain ⟨_, h1, _, h2, _, h3, _, h4, _, h5, _, h6, _, h7, _, h8, _, h9, _, h10, _, h11, _, h12,
    _, hloop, -⟩ := hv
  obtain ⟨-, -, -, -, -, -, -, -, -, -, -, -, -, -, -, -, -, -, -, -, -, -, -, -, _, hdloop, -⟩ := hd
  refine ⟨_, h1, _, h2, _, h3, _, h4, _, h5, _, h6, _, h7, _, h8, _, h9, _, h10, _, h11, _, h12,
    ⟨⟩, Outcome.forIn_of_mem_either ?_ hloop hdloop ht, rfl⟩
  -- no entry stops the check early: each one fails or lets it go on
  rintro ⟨name, b⟩
  simp only [ne_eq, bind, Except.bind, throw, throwThe, MonadExceptOf.throw, pure, Except.pure]
  repeat' split
  all_goals simp only [reduceCtorEq, Except.ok.injEq, not_false_eq_true]

/-- Settings read back from their document are the settings with the bounds table read over
the defaults: each field is read back from its entry, a resolution calibration in bins comes
back as it was, and the settings pass their check again. -/
theorem ofJson_toJson {s : Settings} (hv : s.validate = .ok ())
    (hf : ∀ c ∈ s.fwhmCalibration, c.kind = .resolution ∧ c.units = .str "bin")
    (hnd : (s.hypermetBounds.map Prod.fst).Nodup) :
    ofJson s.toJson = .ok { s with hypermetBounds := mergedBounds s.hypermetBounds } := by
  have hval : { s with hypermetBounds := mergedBounds s.hypermetBounds }.validate = .ok () :=
    validate_withBounds hv fun e he => ((mem_mergedBounds hnd).mp he).imp id And.left
  -- the fields copied one by one over the defaults are the settings themselves
  have hcopy : fields.foldl (fun u e => e.2.copy s u) {} =
      { s with hypermetBounds := mergedBounds s.hypermetBounds } := by
    simp only [fields, List.foldl_cons, List.foldl_nil, Field.copy]
  have hread := foldlM_set_write hf fields (fun _ h => h) {}
  rw [hcopy] at hread
  simp only [ofJson, toJson, hread, hval, bind, Except.bind, pure, Except.pure]

/-- Settings that pass their check, their bounds a table with keys apart and a resolution
calibration in bins, come back from their document with every other field and both calibrations
as they were, and with the bounds table read over the defaults: their own entries and the
defaults of the parameters they do not name. The two documents are therefore alike, up to the
order of the table, exactly when the table names every parameter with bounds. -/
theorem settings_document_round_trip {s : Settings} (hv : s.validate = .ok ())
    (hf : ∀ c ∈ s.fwhmCalibration, c.kind = .resolution ∧ c.units = .str "bin")
    (hnd : (s.hypermetBounds.map Prod.fst).Nodup) :
    ofJson s.toJson = .ok { s with hypermetBounds := mergedBounds s.hypermetBounds } ∧
      (∀ e, e ∈ mergedBounds s.hypermetBounds ↔
        e ∈ s.hypermetBounds ∨ e ∈ defaultBoundsJson ∧ e.1 ∉ s.hypermetBounds.map Prod.fst) ∧
      ((mergedBounds s.hypermetBounds).Perm s.hypermetBounds ↔
        ∀ k ∈ defaultBoundsJson.map Prod.fst, k ∈ s.hypermetBounds.map Prod.fst) :=
  ⟨ofJson_toJson hv hf hnd, fun _ => mem_mergedBounds hnd, mergedBounds_perm_iff hnd⟩

/-- Settings with a resolution calibration in bins and narrower bounds for the tail slope. -/
def narrowTailSettings : Settings :=
  { fwhmCalibration :=
      some { kind := .resolution, coefficients := [.num 2.0, .num 0.01], units := .str "bin" }
    hypermetBounds := [("tail_slope", [.num 3.0, .num 40.0, .num 12.0])] }

theorem narrowTailSettings_document_round_trip :
    narrowTailSettings.validate = .ok () ∧
      (∀ c ∈ narrowTailSettings.fwhmCalibration, c.kind = .resolution ∧ c.units = .str "bin") ∧
      (narrowTailSettings.hypermetBounds.map Prod.fst).Nodup ∧
      ofJson narrowTailSettings.toJson =
        .ok { narrowTailSettings with
          hypermetBounds := mergedBounds narrowTailSettings.hypermetBounds } ∧
      (∀ e, e ∈ mergedBounds narrowTailSettings.hypermetBounds ↔
        e ∈ narrowTailSettings.hypermetBounds ∨
          e ∈ defaultBoundsJson ∧ e.1 ∉ narrowTailSettings.hypermetBounds.map Prod.fst) ∧
      ((mergedBounds narrowTailSettings.hypermetBounds).Perm narrowTailSettings.hypermetBounds ↔
        ∀ k ∈ defaultBoundsJson.map Prod.fst, k ∈ narrowTailSettings.hypermetBounds.map Prod.fst) := by
  have hv : narrowTailSettings.validate = .ok () := validate_of_toBool (by decide +kernel)
  have hf : ∀ c ∈ narrowTailSettings.fwhmCalibration,
      c.kind = .resolution ∧ c.units = .str "bin" := by
    simp [narrowTailSettings]
  have hnd : (narrowTailSettings.hypermetBounds.map Prod.fst).Nodup := by decide
  exact ⟨hv, hf, hnd, settings_document_round_trip hv hf hnd⟩

/-- Settings with an empty bounds table pass their check, but read back from their document
they gain the default bounds: the document read back is not the one written. -/
theorem emptyBounds_document_gains_defaults :
    ({ hypermetBounds := [] } : Settings).validate = .ok () ∧
      (ofJson ({ hypermetBounds := [] } : Settings).toJson).map toJson ≠
        .ok ({ hypermetBounds := [] } : Settings).toJson := by
  have hv : ({ hypermetBounds := [] } : Settings).validate = .ok () :=
    validate_of_toBool (by decide +kernel)
  refine ⟨hv, ?_⟩
  rw [ofJson_toJson hv (fun c hc => absurd hc (Option.not_mem_none c)) List.nodup_nil]
  intro h
  -- the bounds entries of the two documents differ: the seven defaults against none
  have hcount := congrArg (fun d : Json.Value =>
    (d.get? "hypermet_bounds").bind fun b => b.iterate.toOption.map List.length) (Except.ok.inj h)
  exact absurd hcount (by decide +kernel)

end Settings

end GammaFit
