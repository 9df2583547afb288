import Mathlib
import GammaFit.Region.Basic

/-!
# What successful runs satisfy

The library computes in two monads: `Outcome`, which may fail, and `RegionM`, which may fail
and also hands out peak identities from a counter. A property of the value a computation
returns, whenever it returns one, is `Outcome.Post` and `RegionM.Post`: partial correctness,
saying nothing about failures and, for `RegionM`, holding from every value of the counter.

The rules below are the usual ones of a program logic for such a postcondition: a returned
value must satisfy it, a bind satisfies it when the continuation does at every value the first
stage may return, and a loop satisfies an invariant that every pass of its body keeps. Proofs
about the library's requests are built from these rules, one per step of the code, and never
unfold the monads.
-/

namespace GammaFit

/-- Every value the computation returns satisfies `Q`. -/
def Outcome.Post {α : Type} (o : Outcome α) (Q : α → Prop) : Prop :=
  ∀ a, o = .ok a → Q a

/-- Every value the computation returns, from any value of the identity counter, satisfies
`Q`. -/
def RegionM.Post {α : Type} (m : RegionM α) (Q : α → Prop) : Prop :=
  ∀ n a n', (m.run.run n).run = (.ok a, n') → Q a

namespace Outcome

/-- A bind returns a value exactly when its first stage returns one that the continuation takes
to it. -/
theorem bind_eq_ok {α β : Type} {o : Outcome β} {f : β → Outcome α} {a : α} :
    o >>= f = .ok a ↔ ∃ b, o = .ok b ∧ f b = .ok a := by
  cases o with
  | error e => exact ⟨fun h => (nomatch h), fun ⟨_, h, _⟩ => (nomatch h)⟩
  | ok b => exact ⟨fun h => ⟨b, rfl, h⟩, fun ⟨_, h, hf⟩ => by cases h; exact hf⟩

theorem pure_eq_ok {α : Type} {a b : α} : (pure a : Outcome α) = .ok b ↔ a = b :=
  ⟨fun h => Except.ok.inj h, fun h => h ▸ rfl⟩

theorem ok_bind {α β : Type} (a : α) (f : α → Outcome β) : (Except.ok a >>= f : Outcome β) = f a :=
  rfl

/-- A fold whose steps may fail returns, when it returns, what the fold of pure steps returns
that agree with every step that returns. -/
theorem foldlM_eq_ok {α β : Type} {g : β → α → Outcome β} {f : β → α → β}
    (hg : ∀ b x c, g b x = .ok c → c = f b x) {xs : List α} {b c : β}
    (h : xs.foldlM g b = .ok c) : c = xs.foldl f b := by
  induction xs generalizing b with
  | nil => exact (pure_eq_ok.mp h).symm
  | cons x xs ih =>
    rw [List.foldlM_cons] at h
    obtain ⟨b', hb', h⟩ := bind_eq_ok.mp h
    rw [List.foldl_cons, ← hg b x b' hb']
    exact ih h

end Outcome

namespace Outcome.Post

variable {α β γ : Type} {Q : α → Prop}

theorem pure {a : α} (h : Q a) : Outcome.Post (Pure.pure a) Q := by
  rintro b ⟨⟩
  exact h

theorem bind {o : Outcome β} {f : β → Outcome α} {P : β → Prop} (h : Outcome.Post o P)
    (hf : ∀ b, P b → Outcome.Post (f b) Q) : Outcome.Post (o >>= f) Q := by
  intro a ha
  cases o with
  | error e => cases ha
  | ok b => exact hf b (h b rfl) a ha

/-- A bind whose continuation satisfies `Q` whatever the first stage returns. -/
theorem bind_forall {o : Outcome β} {f : β → Outcome α} (h : ∀ b, Outcome.Post (f b) Q) :
    Outcome.Post (o >>= f) Q :=
  bind (fun _ _ => trivial : Outcome.Post o fun _ => True) fun b _ => h b

/-- A bind whose continuation satisfies `Q` at every value the first stage returns. -/
theorem bind_of_ok {o : Outcome β} {f : β → Outcome α} (hf : ∀ b, o = .ok b → Outcome.Post (f b) Q) :
    Outcome.Post (o >>= f) Q :=
  bind (fun _ h => h) hf

theorem mono {o : Outcome α} {P : α → Prop} (h : Outcome.Post o P) (hpq : ∀ a, P a → Q a) :
    Outcome.Post o Q :=
  fun a ha => hpq a (h a ha)

/-- A loop over a list keeps an invariant that every pass of its body keeps, whether the pass
goes on or stops the loop. -/
theorem forIn {xs : List γ} {init : β} {f : γ → β → Outcome (ForInStep β)} (P : β → Prop)
    (h0 : P init) (hf : ∀ x b, P b → Outcome.Post (f x b) fun s => P s.value) :
    Outcome.Post (ForIn.forIn xs init f) P := by
  induction xs generalizing init with
  | nil => exact pure h0
  | cons x xs ih =>
    rw [List.forIn_cons]
    refine bind (hf x init h0) fun s hs => ?_
    cases s with
    | done b => exact pure hs
    | yield b => exact ih hs

/-- A loop over a list whose every pass goes on keeps an invariant of the elements passed so
far and its state: at the end it holds of the whole list. -/
theorem forIn_passed {xs : List γ} {init : β} {f : γ → β → Outcome (ForInStep β)}
    (I : List γ → β → Prop) (h0 : I [] init)
    (hf : ∀ pre x rest b, pre ++ x :: rest = xs → I pre b →
      Outcome.Post (f x b) fun s => ∃ b', s = .yield b' ∧ I (pre ++ [x]) b') :
    Outcome.Post (ForIn.forIn xs init f) (I xs) := by
  -- the induction runs over the elements left, those passed being carried by the invariant
  suffices h : ∀ rest pre (b : β), pre ++ rest = xs → I pre b →
      Outcome.Post (ForIn.forIn rest b f) (I xs) from h xs [] init rfl h0
  intro rest
  induction rest with
  | nil =>
    intro pre b hxs hI
    rw [List.append_nil] at hxs
    subst hxs
    exact pure hI
  | cons x rest ih =>
    intro pre b hxs hI
    rw [List.forIn_cons]
    refine bind (hf pre x rest b hxs hI) fun s hs => ?_
    obtain ⟨b', rfl, hI'⟩ := hs
    exact ih (pre ++ [x]) b' (by rw [List.append_assoc]; exact hxs) hI'

end Outcome.Post

/-! ## Failures that carry a state

Some operations change their state in stages and fail with the state as far as it got.
`Except.Post o Q E` says what such a computation leaves: every value it returns satisfies `Q`
and every failure it ends in, with its state, satisfies `E`. -/

/-- Every value `o` returns satisfies `Q`, and every failure it ends in satisfies `E`. -/
def Except.Post {ε α : Type} (o : Except ε α) (Q : α → Prop) (E : ε → Prop) : Prop :=
  match o with
  | .ok a => Q a
  | .error e => E e

namespace Except.Post

variable {ε α β : Type} {Q : α → Prop} {E : ε → Prop}

theorem pure {a : α} (h : Q a) : Except.Post (Pure.pure a : Except ε α) Q E := h

theorem bind {o : Except ε β} {f : β → Except ε α} {P : β → Prop} (h : Except.Post o P E)
    (hf : ∀ b, P b → Except.Post (f b) Q E) : Except.Post (o >>= f) Q E := by
  cases o with
  | error e => exact h
  | ok b => exact hf b h

/-- A stage that may only fail, its failure tagged with a state that `E` allows. -/
theorem mapError {o : Outcome α} {g : Failure → ε} (h : Outcome.Post o Q) (hg : ∀ e, E (g e)) :
    Except.Post (o.mapError g) Q E := by
  cases o with
  | error e => exact hg e
  | ok a => exact h a rfl

theorem ok_of_eq {o : Except ε α} {a : α} (h : Except.Post o Q E) (ho : o = .ok a) : Q a := by
  subst ho
  exact h

theorem error_of_eq {o : Except ε α} {e : ε} (h : Except.Post o Q E) (ho : o = .error e) : E e := by
  subst ho
  exact h

/-- A loop over a list keeps an invariant that every pass of its body keeps, whether the pass
goes on or stops the loop; a failure of a pass is a failure of the loop. -/
theorem forIn {γ : Type} {xs : List γ} {init : β} {f : γ → β → Except ε (ForInStep β)}
    (I : β → Prop) (h0 : I init) (hf : ∀ x b, I b → Except.Post (f x b) (fun s => I s.value) E) :
    Except.Post (ForIn.forIn xs init f) I E := by
  induction xs generalizing init with
  | nil => exact pure h0
  | cons x xs ih =>
    rw [List.forIn_cons]
    refine bind (hf x init h0) fun s hs => ?_
    cases s with
    | done b => exact pure hs
    | yield b => exact ih hs

end Except.Post

namespace RegionM.Post

variable {α β : Type} {Q : α → Prop}

theorem pure {a : α} (h : Q a) : RegionM.Post (Pure.pure a) Q := by
  intro n b n' hr
  simp only [ExceptT.run_pure, StateT.run_pure, Id.run_pure, Prod.mk.injEq,
    Except.ok.injEq] at hr
  exact hr.1 ▸ h

theorem of_forall {m : RegionM α} (h : ∀ a, Q a) : RegionM.Post m Q :=
  fun _ a _ _ => h a

theorem mono {m : RegionM α} {P : α → Prop} (h : RegionM.Post m P) (hpq : ∀ a, P a → Q a) :
    RegionM.Post m Q :=
  fun n a n' hr => hpq a (h n a n' hr)

theorem bind {m : RegionM β} {f : β → RegionM α} {P : β → Prop} (h : RegionM.Post m P)
    (hf : ∀ b, P b → RegionM.Post (f b) Q) : RegionM.Post (m >>= f) Q := by
  intro n a n' hr
  -- the continuation runs from the counter the first stage leaves behind
  rcases hm : (m.run.run n).run with ⟨_ | b, k⟩
  · simp [ExceptT.run_bind, hm] at hr
  · simp only [ExceptT.run_bind, StateT.run_bind, Id.run_bind, hm] at hr
    exact hf b (h n b k hm) k a n' hr

/-- A bind whose continuation satisfies `Q` whatever the first stage returns. -/
theorem bind_forall {m : RegionM β} {f : β → RegionM α} (h : ∀ b, RegionM.Post (f b) Q) :
    RegionM.Post (m >>= f) Q :=
  bind (of_forall fun _ => trivial) fun b _ => h b

theorem throw {e : Failure} : RegionM.Post (MonadExcept.throw e : RegionM α) Q := by
  intro n a n' hr
  simp at hr

theorem liftOutcome {o : Outcome α} (h : Outcome.Post o Q) :
    RegionM.Post (GammaFit.liftOutcome o) Q := by
  cases o with
  | error e => exact throw
  | ok a => exact pure (h a rfl)

/-- A loop over a list keeps an invariant of its state that every pass of its body keeps. -/
theorem forIn {γ : Type} {xs : List γ} {init : β} {f : γ → β → RegionM (ForInStep β)}
    (I : β → Prop) (h0 : I init) (hf : ∀ x b, I b → RegionM.Post (f x b) fun s => I s.value) :
    RegionM.Post (ForIn.forIn xs init f) I := by
  induction xs generalizing init with
  | nil => exact pure h0
  | cons x xs ih =>
    rw [List.forIn_cons]
    refine bind (hf x init h0) fun s hs => ?_
    cases s with
    | done b => exact pure hs
    | yield b => exact ih hs

/-- A loop over a list keeps an invariant of its state that every pass of its body keeps, each
pass at one of the list's elements. -/
theorem forIn_mem {γ : Type} {xs : List γ} {init : β} {f : γ → β → RegionM (ForInStep β)}
    (I : β → Prop) (h0 : I init) (hf : ∀ x ∈ xs, ∀ b, I b → RegionM.Post (f x b) fun s => I s.value) :
    RegionM.Post (ForIn.forIn xs init f) I := by
  induction xs generalizing init with
  | nil => exact pure h0
  | cons x xs ih =>
    rw [List.forIn_cons]
    refine bind (hf x List.mem_cons_self init h0) fun s hs => ?_
    cases s with
    | done b => exact pure hs
    | yield b => exact ih hs fun y hy => hf y (List.mem_cons_of_mem x hy)

/-- A computation run with its failure kept as a value: a value it returns satisfies what the
values of the computation satisfy. -/
theorem attempt {m : RegionM β} {P : β → Prop} (h : RegionM.Post m P) :
    RegionM.Post (GammaFit.attempt m) fun o => ∀ b, o = .ok b → P b := by
  intro n o n' hr
  rcases hm : (m.run.run n).run with ⟨o', k⟩
  simp only [GammaFit.attempt, ExceptT.run_lift, StateT.run_map, Id.run_map, hm,
    Prod.mk.injEq, Except.ok.injEq] at hr
  obtain ⟨rfl, -⟩ := hr
  exact fun b hb => h n b k (hb ▸ hm)

end RegionM.Post

/-! ## Runs that hand out identities

Identities handed out by the counter are fresh only while every identity in use lies below it.
`RegionM.Runs m n Q` follows the counter: every run of `m` from `n` leaves a counter at least
`n`, failing or not, and a value it returns satisfies `Q` with the counter it leaves. -/

/-- Every run of `m` from the counter `n` leaves a counter at least `n`, and a value it returns
satisfies `Q` with the counter it leaves. -/
def RegionM.Runs {α : Type} (m : RegionM α) (n : Nat) (Q : α → Nat → Prop) : Prop :=
  ∀ res n', (m.run.run n).run = (res, n') → n ≤ n' ∧ ∀ a, res = .ok a → Q a n'

namespace RegionM.Runs

variable {α β γ : Type} {n : Nat} {Q : α → Nat → Prop}

theorem pure {a : α} (h : Q a n) : RegionM.Runs (Pure.pure a) n Q := by
  intro res n' hr
  simp only [ExceptT.run_pure, StateT.run_pure, Id.run_pure, Prod.mk.injEq] at hr
  obtain ⟨rfl, rfl⟩ := hr
  exact ⟨Nat.le_refl n, fun b hb => by cases hb; exact h⟩

theorem mono {m : RegionM α} {P : α → Nat → Prop} (h : RegionM.Runs m n P)
    (hpq : ∀ a k, n ≤ k → P a k → Q a k) : RegionM.Runs m n Q := by
  intro res n' hr
  obtain ⟨hle, hok⟩ := h res n' hr
  exact ⟨hle, fun a ha => hpq a n' hle (hok a ha)⟩

/-- Two specifications of one computation hold together. -/
theorem both {m : RegionM α} {P : α → Nat → Prop} (hp : RegionM.Runs m n P)
    (hq : RegionM.Runs m n Q) : RegionM.Runs m n fun a k => P a k ∧ Q a k := by
  intro res n' hr
  obtain ⟨hle, hP⟩ := hp res n' hr
  exact ⟨hle, fun a ha => ⟨hP a ha, (hq res n' hr).2 a ha⟩⟩

/-- What every value of a computation satisfies holds along with a specification of its runs. -/
theorem post {m : RegionM α} {P : α → Nat → Prop} {R : α → Prop} (h : RegionM.Runs m n P)
    (hr : RegionM.Post m R) : RegionM.Runs m n fun a k => P a k ∧ R a := by
  intro res n' hrun
  obtain ⟨hle, hP⟩ := h res n' hrun
  exact ⟨hle, fun a ha => ⟨hP a ha, hr n a n' (ha ▸ hrun)⟩⟩

theorem bind {m : RegionM β} {f : β → RegionM α} {P : β → Nat → Prop} (h : RegionM.Runs m n P)
    (hf : ∀ b k, n ≤ k → P b k → RegionM.Runs (f b) k Q) : RegionM.Runs (m >>= f) n Q := by
  intro res n' hr
  rcases hm : (m.run.run n).run with ⟨_ | b, k⟩
  · -- a failure of the first stage is the failure of the whole, at the counter it left
    obtain ⟨hle, -⟩ := h _ _ hm
    simp only [ExceptT.run_bind, StateT.run_bind, Id.run_bind, hm, StateT.run_pure, Id.run_pure,
      Prod.mk.injEq] at hr
    obtain ⟨rfl, rfl⟩ := hr
    exact ⟨hle, fun a ha => nomatch ha⟩
  · obtain ⟨hle, hok⟩ := h _ _ hm
    simp only [ExceptT.run_bind, StateT.run_bind, Id.run_bind, hm] at hr
    obtain ⟨hle', hQ⟩ := hf b k hle (hok b rfl) res n' hr
    exact ⟨Nat.le_trans hle hle', hQ⟩

theorem throw {e : Failure} : RegionM.Runs (MonadExcept.throw e : RegionM α) n Q := by
  intro res n' hr
  simp only [ExceptT.run_throw, StateT.run_pure, Id.run_pure, Prod.mk.injEq] at hr
  obtain ⟨rfl, rfl⟩ := hr
  exact ⟨Nat.le_refl n, fun a ha => nomatch ha⟩

theorem liftOutcome {o : Outcome α} (h : Outcome.Post o fun a => Q a n) :
    RegionM.Runs (GammaFit.liftOutcome o) n Q := by
  cases o with
  | error e => exact throw
  | ok a => exact pure (h a rfl)

/-- A fresh identity is the counter, which moves on by one. -/
theorem nextPeakId {Q : Nat → Nat → Prop} (h : Q n (n + 1)) :
    RegionM.Runs GammaFit.nextPeakId n Q := by
  intro res n' hr
  simp only [GammaFit.nextPeakId, bind_pure_comp, ExceptT.run_bind, ExceptT.run_map,
    StateT.run_bind, Id.run_bind] at hr
  obtain ⟨rfl, rfl⟩ := hr
  exact ⟨Nat.le_succ n, fun a ha => by cases ha; exact h⟩

/-- A loop over a list keeps an invariant of its state and the counter that every pass of its
body keeps from any later counter. -/
theorem forIn {xs : List γ} {init : β} {f : γ → β → RegionM (ForInStep β)} (I : β → Nat → Prop)
    (h0 : I init n)
    (hf : ∀ x b k, n ≤ k → I b k → RegionM.Runs (f x b) k fun s k' => I s.value k') :
    RegionM.Runs (ForIn.forIn xs init f) n I := by
  induction xs generalizing init n with
  | nil => exact pure h0
  | cons x xs ih =>
    rw [List.forIn_cons]
    refine bind (hf x init n (Nat.le_refl n) h0) fun s k hk hs => ?_
    cases s with
    | done b => exact pure hs
    | yield b => exact ih hs fun y c j hj hc => hf y c j (Nat.le_trans hk hj) hc

/-- A loop over a list whose every pass goes on keeps an invariant of the elements passed so
far, its state and the counter: at the end it holds of the whole list. It describes a loop
whose state is a function of the elements it has seen. -/
theorem forIn_passed {xs : List γ} {init : β} {f : γ → β → RegionM (ForInStep β)}
    (I : List γ → β → Nat → Prop) (h0 : I [] init n)
    (hf : ∀ pre x rest b k, pre ++ x :: rest = xs → I pre b k →
      RegionM.Runs (f x b) k fun s k' => ∃ b', s = .yield b' ∧ I (pre ++ [x]) b' k') :
    RegionM.Runs (ForIn.forIn xs init f) n fun b k => I xs b k := by
  -- the induction runs over the elements left, those passed being carried by the invariant
  suffices h : ∀ rest pre (b : β) k, pre ++ rest = xs → I pre b k →
      RegionM.Runs (ForIn.forIn rest b f) k fun b k => I xs b k from h xs [] init n rfl h0
  intro rest
  induction rest with
  | nil =>
    intro pre b k hxs hI
    rw [List.append_nil] at hxs
    subst hxs
    exact pure hI
  | cons x rest ih =>
    intro pre b k hxs hI
    rw [List.forIn_cons]
    refine bind (hf pre x rest b k hxs hI) fun s k' _ hs => ?_
    obtain ⟨b', rfl, hI'⟩ := hs
    exact ih (pre ++ [x]) b' k' (by rw [List.append_assoc]; exact hxs) hI'

theorem map {m : RegionM β} {g : β → α} (h : RegionM.Runs m n fun b k => Q (g b) k) :
    RegionM.Runs (g <$> m) n Q := by
  rw [map_eq_pure_bind]
  exact bind h fun _ _ _ hb => pure hb

/-- A first stage that may only fail hands out no identity: what follows runs from the same
counter. -/
theorem liftOutcome_bind {o : Outcome β} {f : β → RegionM α}
    (hf : ∀ b, o = .ok b → RegionM.Runs (f b) n Q) : RegionM.Runs (GammaFit.liftOutcome o >>= f) n Q :=
  bind (P := fun b k => k = n ∧ o = .ok b) (liftOutcome fun _ hb => ⟨rfl, hb⟩)
    fun b _ _ ⟨hk, hb⟩ => hk ▸ hf b hb

/-- A computation run with its failure kept as a value leaves the counter where the computation
leaves it, failing or not, and a value it returns satisfies what the values of the computation
satisfy. -/
theorem attempt {m : RegionM β} {P : β → Nat → Prop} (h : RegionM.Runs m n P) :
    RegionM.Runs (GammaFit.attempt m) n fun o k => ∀ b, o = .ok b → P b k := by
  intro res n' hr
  rcases hm : (m.run.run n).run with ⟨o, k⟩
  obtain ⟨hle, hok⟩ := h _ _ hm
  simp only [GammaFit.attempt, ExceptT.run_lift, StateT.run_map, Id.run_map, hm] at hr
  obtain ⟨rfl, rfl⟩ := Prod.mk.inj hr
  exact ⟨hle, fun o ho b hb => by cases ho; exact hok b hb⟩

end RegionM.Runs

/-! ## Runs that return

A computation that keeps the failures of its stages as values always returns. Its
specification is then total: `RegionM.Returns m n Q` says that the run of `m` from `n` returns a
value, and what it satisfies. -/

/-- The run of `m` from the counter `n` returns a value, which satisfies `Q` with the counter
it leaves, at least `n`. -/
def RegionM.Returns {α : Type} (m : RegionM α) (n : Nat) (Q : α → Nat → Prop) : Prop :=
  ∃ a n', (m.run.run n).run = (.ok a, n') ∧ n ≤ n' ∧ Q a n'

namespace RegionM.Returns

variable {α β : Type} {n : Nat} {Q : α → Nat → Prop}

theorem pure {a : α} (h : Q a n) : RegionM.Returns (Pure.pure a) n Q :=
  ⟨a, n, rfl, Nat.le_refl n, h⟩

theorem mono {m : RegionM α} {P : α → Nat → Prop} (h : RegionM.Returns m n P)
    (hpq : ∀ a k, n ≤ k → P a k → Q a k) : RegionM.Returns m n Q := by
  obtain ⟨a, k, hrun, hle, hp⟩ := h
  exact ⟨a, k, hrun, hle, hpq a k hle hp⟩

theorem bind {m : RegionM β} {f : β → RegionM α} {P : β → Nat → Prop}
    (h : RegionM.Returns m n P) (hf : ∀ b k, n ≤ k → P b k → RegionM.Returns (f b) k Q) :
    RegionM.Returns (m >>= f) n Q := by
  obtain ⟨b, k, hm, hle, hp⟩ := h
  obtain ⟨a, n', hfb, hle', hq⟩ := hf b k hle hp
  refine ⟨a, n', ?_, Nat.le_trans hle hle', hq⟩
  simp only [ExceptT.run_bind, StateT.run_bind, Id.run_bind, hm]
  exact hfb

/-- A computation run with its failure kept as a value returns what the computation's run
gives, failure or value, at the counter that run leaves. -/
theorem attempt {m : RegionM β} {P : β → Nat → Prop} (h : RegionM.Runs m n P) :
    RegionM.Returns (GammaFit.attempt m) n fun o k => (m.run.run n).run = (o, k) := by
  refine ⟨(m.run.run n).run.1, (m.run.run n).run.2, ?_, (h _ _ rfl).1, rfl⟩
  simp only [GammaFit.attempt, ExceptT.run_lift, StateT.run_map, Id.run_map]

/-- A run that returns is in particular one of the runs `RegionM.Runs` speaks of. -/
theorem runs {m : RegionM α} (h : RegionM.Returns m n Q) : RegionM.Runs m n Q := by
  intro res n' hr
  obtain ⟨a, k, hrun, hle, hq⟩ := h
  rw [hrun, Prod.mk.injEq] at hr
  obtain ⟨rfl, rfl⟩ := hr
  exact ⟨hle, fun b hb => by cases hb; exact hq⟩

end RegionM.Returns

end GammaFit
