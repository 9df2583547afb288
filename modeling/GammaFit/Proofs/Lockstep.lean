import GammaFit.Proofs.Effects

/-!
# Two runs side by side

A property that compares what one computation does from two states is a relation between two
runs. `Outcome.Rel R o₁ o₂` lifts a relation `R` on values to outcomes: both fail with the same
failure, or both return values related by `R`. `RegionM.Rel R m₁ m₂` says the same of two
computations that hand out identities: from every value of the counter the two runs end
related, and they leave the counter at the same place, so whatever follows them hands out the
same identities.

The rules are those of a relational program logic: returns of related values, binds whose first
stages are related and whose continuations are related at every pair of related values, and
loops over one list whose two bodies keep a relation of the two states. A computation is related
to itself by any reflexive relation, which covers the stages two runs share.
-/

namespace GammaFit

/-- Two outcomes alike: the same failure, or values related by `R`. -/
def Outcome.Rel {α β : Type} (R : α → β → Prop) : Outcome α → Outcome β → Prop
  | .ok a, .ok b => R a b
  | .error e₁, .error e₂ => e₁ = e₂
  | _, _ => False

namespace Outcome.Rel

variable {α β γ δ : Type} {R : α → β → Prop} {S : γ → δ → Prop}

theorem pure {a : α} {b : β} (h : R a b) : Outcome.Rel R (Pure.pure a) (Pure.pure b) := h

theorem refl {R : α → α → Prop} (hR : ∀ a, R a a) (o : Outcome α) : Outcome.Rel R o o := by
  cases o with
  | error e => exact rfl
  | ok a => exact hR a

theorem mono {R' : α → β → Prop} (hRR : ∀ a b, R a b → R' a b) {o₁ : Outcome α}
    {o₂ : Outcome β} (h : Outcome.Rel R o₁ o₂) : Outcome.Rel R' o₁ o₂ := by
  cases o₁ <;> cases o₂
  · exact h
  · exact h.elim
  · exact h.elim
  · exact hRR _ _ h

theorem bind {o₁ : Outcome α} {o₂ : Outcome β} {f : α → Outcome γ} {g : β → Outcome δ}
    (h : Outcome.Rel R o₁ o₂) (hfg : ∀ a b, R a b → Outcome.Rel S (f a) (g b)) :
    Outcome.Rel S (o₁ >>= f) (o₂ >>= g) := by
  cases o₁ <;> cases o₂
  · exact h
  · exact h.elim
  · exact h.elim
  · exact hfg _ _ h

theorem map {f : α → γ} {g : β → δ} {o₁ : Outcome α} {o₂ : Outcome β}
    (h : Outcome.Rel R o₁ o₂) (hfg : ∀ a b, R a b → S (f a) (g b)) :
    Outcome.Rel S (f <$> o₁) (g <$> o₂) := by
  cases o₁ <;> cases o₂
  · exact h
  · exact h.elim
  · exact h.elim
  · exact hfg _ _ h

/-- A relation of two outcomes holds together with what the values of the first satisfy. -/
theorem and_post {P : α → Prop} {o₁ : Outcome α} {o₂ : Outcome β} (h : Outcome.Rel R o₁ o₂)
    (hp : Outcome.Post o₁ P) : Outcome.Rel (fun a b => R a b ∧ P a) o₁ o₂ := by
  cases o₁ <;> cases o₂
  · exact h
  · exact h.elim
  · exact h.elim
  · exact ⟨h, hp _ rfl⟩

/-- Two outcomes related by equality are equal. -/
theorem eq {o₁ o₂ : Outcome α} (h : Outcome.Rel Eq o₁ o₂) : o₁ = o₂ := by
  cases o₁ <;> cases o₂
  · exact congrArg Except.error h
  · exact h.elim
  · exact h.elim
  · exact congrArg Except.ok h

end Outcome.Rel

/-- Two computations alike from every value of the counter: they end in outcomes related by
`R` and leave the counter at the same place. -/
def RegionM.Rel {α β : Type} (R : α → β → Prop) (m₁ : RegionM α) (m₂ : RegionM β) : Prop :=
  ∀ n, Outcome.Rel R (m₁.run.run n).run.1 (m₂.run.run n).run.1 ∧
    (m₁.run.run n).run.2 = (m₂.run.run n).run.2

/-- Two steps of a loop alike: both go on, or both stop, with states related by `I`. -/
def ForInStep.Rel {β₁ β₂ : Type} (I : β₁ → β₂ → Prop) : ForInStep β₁ → ForInStep β₂ → Prop
  | .done a, .done b => I a b
  | .yield a, .yield b => I a b
  | _, _ => False

namespace RegionM.Rel

variable {α β γ δ : Type} {R : α → β → Prop} {S : γ → δ → Prop}

theorem pure {a : α} {b : β} (h : R a b) : RegionM.Rel R (Pure.pure a) (Pure.pure b) :=
  fun _ => ⟨h, rfl⟩

theorem refl {R : α → α → Prop} (hR : ∀ a, R a a) (m : RegionM α) : RegionM.Rel R m m :=
  fun _ => ⟨Outcome.Rel.refl hR _, rfl⟩

theorem mono {R' : α → β → Prop} (hRR : ∀ a b, R a b → R' a b) {m₁ : RegionM α}
    {m₂ : RegionM β} (h : RegionM.Rel R m₁ m₂) : RegionM.Rel R' m₁ m₂ :=
  fun n => ⟨(h n).1.mono hRR, (h n).2⟩

/-- A relation of two runs holds together with what the values of the first satisfy. -/
theorem and_post {P : α → Prop} {m₁ : RegionM α} {m₂ : RegionM β} (h : RegionM.Rel R m₁ m₂)
    (hp : RegionM.Post m₁ P) : RegionM.Rel (fun a b => R a b ∧ P a) m₁ m₂ := by
  intro n
  obtain ⟨hrel, hcount⟩ := h n
  refine ⟨?_, hcount⟩
  rcases h₁ : (m₁.run.run n).run with ⟨o₁, k₁⟩
  rw [h₁] at hrel
  cases o₁ <;> cases h₂ : (m₂.run.run n).run.1 <;> rw [h₂] at hrel
  · exact hrel
  · exact hrel.elim
  · exact hrel.elim
  · exact ⟨hrel, hp n _ k₁ h₁⟩

theorem bind {m₁ : RegionM α} {m₂ : RegionM β} {f : α → RegionM γ} {g : β → RegionM δ}
    (h : RegionM.Rel R m₁ m₂) (hfg : ∀ a b, R a b → RegionM.Rel S (f a) (g b)) :
    RegionM.Rel S (m₁ >>= f) (m₂ >>= g) := by
  intro n
  obtain ⟨hrel, hcount⟩ := h n
  -- both continuations run from the counter the first stages leave, which is the same
  rcases h₁ : (m₁.run.run n).run with ⟨o₁, k₁⟩
  rcases h₂ : (m₂.run.run n).run with ⟨o₂, k₂⟩
  rw [h₁, h₂] at hrel hcount
  cases hcount
  cases o₁ <;> cases o₂
  · simp only [ExceptT.run_bind, StateT.run_bind, Id.run_bind, h₁, h₂, StateT.run_pure,
      Id.run_pure]
    exact ⟨hrel, trivial⟩
  · exact hrel.elim
  · exact hrel.elim
  · simp only [ExceptT.run_bind, StateT.run_bind, Id.run_bind, h₁, h₂]
    exact hfg _ _ hrel k₁

theorem throw {e : Failure} :
    RegionM.Rel R (MonadExcept.throw e : RegionM α) (MonadExcept.throw e : RegionM β) :=
  fun _ => ⟨rfl, rfl⟩

theorem liftOutcome {o₁ : Outcome α} {o₂ : Outcome β} (h : Outcome.Rel R o₁ o₂) :
    RegionM.Rel R (GammaFit.liftOutcome o₁) (GammaFit.liftOutcome o₂) := by
  cases o₁ <;> cases o₂
  · cases h
    exact throw
  · exact h.elim
  · exact h.elim
  · exact pure h

/-- Two computations run with their failures kept as values return outcomes related as the
computations' are. -/
theorem attempt {m₁ : RegionM α} {m₂ : RegionM β} (h : RegionM.Rel R m₁ m₂) :
    RegionM.Rel (Outcome.Rel R) (GammaFit.attempt m₁) (GammaFit.attempt m₂) := by
  intro n
  obtain ⟨hrel, hcount⟩ := h n
  simp only [GammaFit.attempt, ExceptT.run_lift, StateT.run_map, Id.run_map]
  exact ⟨hrel, hcount⟩

/-- Two loops over one list keep a relation of their states that every pair of passes keeps. -/
theorem forIn {xs : List γ} {init₁ : α} {init₂ : β} {f₁ : γ → α → RegionM (ForInStep α)}
    {f₂ : γ → β → RegionM (ForInStep β)} (I : α → β → Prop) (h0 : I init₁ init₂)
    (hf : ∀ x b₁ b₂, I b₁ b₂ → RegionM.Rel (ForInStep.Rel I) (f₁ x b₁) (f₂ x b₂)) :
    RegionM.Rel I (ForIn.forIn xs init₁ f₁) (ForIn.forIn xs init₂ f₂) := by
  induction xs generalizing init₁ init₂ with
  | nil => exact pure h0
  | cons x xs ih =>
    rw [List.forIn_cons, List.forIn_cons]
    refine bind (hf x init₁ init₂ h0) fun s₁ s₂ hs => ?_
    cases s₁ <;> cases s₂
    · exact pure hs
    · exact hs.elim
    · exact hs.elim
    · exact ih hs

end RegionM.Rel

end GammaFit
