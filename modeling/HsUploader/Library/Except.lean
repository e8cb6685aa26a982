import Mathlib.Logic.Basic

/-!
# Computations that may raise

A computation in `Except ε` that ends with a value got a value from each of its steps.

`Except.bind_eq_ok` says so of one step and is the way into every such computation: the step's value
is named, and what follows it is left.  The rest is the same for lists that are walked step by
step: a value of the walk has one value of each item, in their order, and a walk whose items all
have values has one.
-/

set_option autoImplicit false

namespace Except

variable {ε α β : Type}

theorem bind_eq_ok {x : Except ε α} {f : α → Except ε β} {b : β} :
    x >>= f = .ok b ↔ ∃ a, x = .ok a ∧ f a = .ok b := by
  constructor
  · intro h
    cases x with
    | error e => cases h
    | ok a => exact ⟨a, rfl, h⟩
  · rintro ⟨a, rfl, h⟩
    exact h

theorem pure_eq_ok {a b : α} : (pure a : Except ε α) = .ok b ↔ a = b :=
  ⟨fun h ↦ by cases h; rfl, fun h ↦ by rw [h]; rfl⟩

theorem throw_bind {e : ε} {f : α → Except ε β} : (throw e : Except ε α) >>= f = throw e := rfl

theorem throw_ne_ok {e : ε} {a : α} : (throw e : Except ε α) ≠ .ok a := fun h ↦ by cases h

theorem ok_bind {a : α} {f : α → Except ε β} : (Except.ok a : Except ε α) >>= f = f a := rfl

/-! ## Over a list -/

theorem mapM_cons_eq_ok {f : α → Except ε β} {a : α} {l : List α} {bs : List β} :
    (a :: l).mapM f = .ok bs ↔ ∃ b bs', f a = .ok b ∧ l.mapM f = .ok bs' ∧ bs = b :: bs' := by
  simp only [List.mapM_cons, bind_eq_ok, pure_eq_ok]
  constructor
  · rintro ⟨b, hb, bs', hbs, rfl⟩
    exact ⟨b, bs', hb, hbs, rfl⟩
  · rintro ⟨b, bs', hb, hbs, rfl⟩
    exact ⟨b, hb, bs', hbs, rfl⟩

/-- The computation over a list ends with values exactly when each of its steps does. -/
theorem mapM_ok_iff {f : α → Except ε β} {l : List α} :
    (∃ bs, l.mapM f = .ok bs) ↔ ∀ a ∈ l, ∃ b, f a = .ok b := by
  induction l with
  | nil => simp [pure_eq_ok]
  | cons a l ih =>
    simp only [mapM_cons_eq_ok, List.forall_mem_cons, ← ih]
    constructor
    · rintro ⟨_, b, bs, hb, hbs, -⟩
      exact ⟨⟨b, hb⟩, bs, hbs⟩
    · rintro ⟨⟨b, hb⟩, bs, hbs⟩
      exact ⟨_, b, bs, hb, hbs, rfl⟩

theorem exists_of_mapM {f : α → Except ε β} {l : List α} {bs : List β} (h : l.mapM f = .ok bs) :
    (∀ a ∈ l, ∃ b ∈ bs, f a = .ok b) ∧ ∀ b ∈ bs, ∃ a ∈ l, f a = .ok b := by
  induction l generalizing bs with
  | nil =>
    rw [List.mapM_nil, pure_eq_ok] at h
    subst h
    exact ⟨fun a ha ↦ absurd ha List.not_mem_nil, fun b hb ↦ absurd hb List.not_mem_nil⟩
  | cons a l ih =>
    obtain ⟨b, bs', hb, hbs, rfl⟩ := mapM_cons_eq_ok.mp h
    obtain ⟨hleft, hright⟩ := ih hbs
    constructor
    · rw [List.forall_mem_cons]
      refine ⟨⟨b, List.mem_cons_self, hb⟩, fun x hx ↦ ?_⟩
      obtain ⟨y, hy, hxy⟩ := hleft x hx
      exact ⟨y, List.mem_cons_of_mem _ hy, hxy⟩
    · rw [List.forall_mem_cons]
      refine ⟨⟨a, List.mem_cons_self, hb⟩, fun y hy ↦ ?_⟩
      obtain ⟨x, hx, hxy⟩ := hright y hy
      exact ⟨x, List.mem_cons_of_mem _ hx, hxy⟩

/-- What is seen of the results is what is seen of the items. -/
theorem map_of_mapM {γ : Type} {f : α → Except ε β} {view : β → γ} {seen : α → γ}
    {l : List α} (hf : ∀ a ∈ l, ∀ b, f a = .ok b → view b = seen a) {bs : List β}
    (h : l.mapM f = .ok bs) : bs.map view = l.map seen := by
  induction l generalizing bs with
  | nil =>
    obtain rfl := pure_eq_ok.mp h
    rfl
  | cons a l ih =>
    obtain ⟨b, bs', hb, hbs, rfl⟩ := mapM_cons_eq_ok.mp h
    rw [List.forall_mem_cons] at hf
    rw [List.map_cons, List.map_cons, hf.1 b hb, ih hf.2 hbs]

end Except
