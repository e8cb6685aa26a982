import HsUploader.Library.Prog

/-!
# Two runs side by side

`Both T R p q` compares the runs of two programs, from any two states that `T` relates: each of
them returns or raises, `R` relates how, and `T` relates the states they leave.  With `p` and `q`
the same program it says what the program makes of a difference between two states.

Where both go the same way the rules follow the program; a program that is run while the other
stands still is `Alone`, and two such are put together by `Both.of_alone`.

`InStep T V p q` compares two runs that take the same steps: the programs end the same way, raise
the same, are stopped at one step, or run on for ever together, and `T` relates the states they
leave.

## What is here

* `Both`, with `Both.bind` and the rules for the steps — programs that return or raise, as two
  processes that may take a different number of steps.
* `Alike` — the usual relation of their ends: equal up to `R`, or one exception.
* `Alone` — one of them runs while the other stands still.
* `InStep`, with the same rules and one for loops — programs that take the same steps, also when
  they are stopped or run on for ever.
-/

set_option autoImplicit false

/-- How a program ended, when it returned or raised. -/
def Res.toExcept {ε α : Type} : Res ε α → Option (Except ε α)
  | .ok a => some (.ok a)
  | .raised e => some (.error e)
  | .stopped | .diverged => none

namespace Prog

variable {σ τ ε α α' β β' : Type}

/-- What a program comes to that is not stopped. -/
theorem exists_of_wp {P : Except ε α → σ → Prop} {p : Prog σ ε α} {s : σ}
    (h : wp p (fun a ↦ P (.ok a)) (fun e ↦ P (.error e)) (fun _ ↦ False) s) :
    ∃ x, (p s).1.toExcept = some x ∧ P x (p s).2 := by
  unfold wp at h
  rcases hp : p s with ⟨a | e | _ | _, s'⟩ <;> rw [hp] at h
  · exact ⟨.ok a, rfl, h⟩
  · exact ⟨.error e, rfl, h⟩
  · exact h.elim
  · exact h.elim

/-- From states that `T` relates the programs end as `R` says, in states that `T` relates. -/
def Both (T : σ → τ → Prop) (R : Except ε α → Except ε β → Prop) (p : Prog σ ε α) (q : Prog τ ε β) :
    Prop :=
  ∀ s t, T s t → ∃ x y, (p s).1.toExcept = some x ∧ (q t).1.toExcept = some y ∧ R x y ∧
    T (p s).2 (q t).2

/-- Both return, with values that `R` relates, or both raise the same. -/
def Alike (R : α → β → Prop) : Except ε α → Except ε β → Prop
  | .ok a, .ok b => R a b
  | .error e, .error e' => e = e'
  | _, _ => False

namespace Both

variable {T : σ → τ → Prop} {R R' : Except ε α → Except ε β → Prop}
  {S : Except ε α' → Except ε β' → Prop} {p : Prog σ ε α} {q : Prog τ ε β} {V : α → β → Prop}

theorem pure {a : α} {b : β} (h : R (.ok a) (.ok b)) :
    Both T R (Pure.pure a) (Pure.pure b) :=
  fun _ _ hT ↦ ⟨.ok a, .ok b, rfl, rfl, h, hT⟩

theorem raise {e e' : ε} (h : R (.error e) (.error e')) : Both T R (Prog.raise e) (Prog.raise e') :=
  fun _ _ hT ↦ ⟨.error e, .error e', rfl, rfl, h, hT⟩

theorem ofExcept {x : Except ε α} {y : Except ε β} (h : R x y) :
    Both T R (Prog.ofExcept x) (Prog.ofExcept y) := by
  intro s t hT
  refine ⟨x, y, ?_, ?_, h, ?_⟩
  · cases x <;> rfl
  · cases y <;> rfl
  · cases x <;> cases y <;> exact hT

theorem mono (h : Both T R p q) (hR : ∀ x y, R x y → R' x y) : Both T R' p q := fun s t hT ↦ by
  obtain ⟨x, y, hx, hy, hxy, hT'⟩ := h s t hT
  exact ⟨x, y, hx, hy, hR x y hxy, hT'⟩

/-- An exception is handed over as a value. -/
theorem attempt (h : Both T R p q) : Both T (Alike R) (Prog.attempt p) (Prog.attempt q) := by
  intro s t hT
  obtain ⟨x, y, hx, hy, hxy, hT'⟩ := h s t hT
  refine ⟨.ok x, .ok y, ?_, ?_, hxy, ?_⟩ <;> simp only [Prog.attempt]
  · rcases hp : p s with ⟨_ | _ | _ | _, s'⟩ <;> rw [hp] at hx <;> cases hx <;> rfl
  · rcases hq : q t with ⟨_ | _ | _ | _, t'⟩ <;> rw [hq] at hy <;> cases hy <;> rfl
  · rcases hp : p s with ⟨_ | _ | _ | _, s'⟩ <;> rcases hq : q t with ⟨_ | _ | _ | _, t'⟩ <;>
      rw [hp, hq] at hT' <;> exact hT'

/-- Two programs that end alike go on as they end. -/
theorem bind {f : α → Prog σ ε α'} {g : β → Prog τ ε β'} (h : Both T (Alike V) p q)
    (hf : ∀ a b, V a b → Both T S (f a) (g b)) (herr : ∀ e, S (.error e) (.error e)) :
    Both T S (p >>= f) (q >>= g) := by
  intro s t hT
  obtain ⟨x, y, hx, hy, hxy, hT'⟩ := h s t hT
  simp only [Bind.bind]
  rcases hp : p s with ⟨a | e | _ | _, s'⟩ <;> rw [hp] at hx hT' <;> cases hx <;>
    rcases hq : q t with ⟨b | e' | _ | _, t'⟩ <;> rw [hq] at hy hT' <;> cases hy
  · exact hf a b hxy s' t' hT'
  · exact hxy.elim
  · exact hxy.elim
  · obtain rfl : e = e' := hxy
    exact ⟨.error e, .error e, rfl, rfl, herr e, hT'⟩

end Both

/-- The left program, run alone, ends as `P` says, and `T` still relates the state it leaves. -/
def Alone (T : σ → τ → Prop) (P : Except ε α → Prop) (p : Prog σ ε α) : Prop :=
  ∀ s t, T s t → ∃ x, (p s).1.toExcept = some x ∧ P x ∧ T (p s).2 t

namespace Alone

variable {T : σ → τ → Prop} {P P' : Except ε α → Prop} {Q : Except ε β → Prop} {p : Prog σ ε α}

theorem pure {a : α} (h : P (.ok a)) : Alone T P (Pure.pure a) := fun _ _ hT ↦ ⟨.ok a, rfl, h, hT⟩

theorem mono (h : Alone T P p) (hP : ∀ x, P x → P' x) : Alone T P' p := fun s t hT ↦ by
  obtain ⟨x, hx, hPx, hT'⟩ := h s t hT
  exact ⟨x, hx, hP x hPx, hT'⟩

theorem bind {f : α → Prog σ ε β} (h : Alone T P p) (hf : ∀ a, P (.ok a) → Alone T Q (f a))
    (herr : ∀ e, P (.error e) → Q (.error e)) : Alone T Q (p >>= f) := by
  intro s t hT
  obtain ⟨x, hx, hPx, hT'⟩ := h s t hT
  simp only [Bind.bind]
  rcases hp : p s with ⟨a | e | _ | _, s'⟩ <;> rw [hp] at hx hT' <;> cases hx
  · exact hf a hPx s' t hT'
  · exact ⟨.error e, rfl, herr e hPx, hT'⟩

end Alone

/-- Two programs that each end alone end together. -/
theorem Both.of_alone {T : σ → τ → Prop} {T' : τ → σ → Prop} {P : Except ε α → Prop}
    {Q : Except ε β → Prop} {R : Except ε α → Except ε β → Prop} {p : Prog σ ε α} {q : Prog τ ε β}
    (hp : Alone T P p) (hq : Alone T' Q q) (hT : ∀ s t, T s t ↔ T' t s)
    (h : ∀ x y, P x → Q y → R x y) : Both T R p q := by
  intro s t hs
  obtain ⟨x, hx, hPx, hs'⟩ := hp s t hs
  obtain ⟨y, hy, hQy, ht'⟩ := hq t _ ((hT _ _).mp hs')
  exact ⟨x, y, hx, hy, h x y hPx hQy, (hT _ _).mpr ht'⟩

end Prog

/-! ## In step -/

/-- Two programs ended the same way: with values that `V` relates, with one exception, by a stop, or
not at all. -/
def Res.Same {ε α β : Type} (V : α → β → Prop) : Res ε α → Res ε β → Prop
  | .ok a, .ok b => V a b
  | .raised e, .raised e' => e = e'
  | .stopped, .stopped => True
  | .diverged, .diverged => True
  | _, _ => False

theorem Res.Same.mono {ε α β : Type} {V V' : α → β → Prop} {r : Res ε α} {r' : Res ε β}
    (h : r.Same V r') (hV : ∀ a b, V a b → V' a b) : r.Same V' r' := by
  cases r <;> cases r' <;> first | exact hV _ _ h | exact h

namespace Prog

variable {σ τ ε α α' β β' : Type}

/-- Run from states that `T` relates the programs end the same way, in states that `T` relates. -/
def InStep (T : σ → τ → Prop) (V : α → β → Prop) (p : Prog σ ε α) (q : Prog τ ε β) : Prop :=
  ∀ s t, T s t → (p s).1.Same V (q t).1 ∧ T (p s).2 (q t).2

namespace InStep

variable {T : σ → τ → Prop} {V V' : α → β → Prop} {W : α' → β' → Prop} {p : Prog σ ε α}
  {q : Prog τ ε β}

theorem pure {a : α} {b : β} (h : V a b) :
    InStep T V (Pure.pure a : Prog σ ε α) (Pure.pure b : Prog τ ε β) := fun _ _ hT ↦ ⟨h, hT⟩

theorem raise (e : ε) : InStep T V (Prog.raise e : Prog σ ε α) (Prog.raise e : Prog τ ε β) :=
  fun _ _ hT ↦ ⟨rfl, hT⟩

theorem mono (h : InStep T V p q) (hV : ∀ a b, V a b → V' a b) : InStep T V' p q := fun s t hT ↦
  ⟨(h s t hT).1.mono hV, (h s t hT).2⟩

theorem bind {f : α → Prog σ ε α'} {g : β → Prog τ ε β'} (h : InStep T V p q)
    (hf : ∀ a b, V a b → InStep T W (f a) (g b)) : InStep T W (p >>= f) (q >>= g) := fun s t hT ↦ by
  obtain ⟨hend, hT'⟩ := h s t hT
  simp only [Bind.bind]
  rcases hp : p s with ⟨a | e | _ | _, s'⟩ <;> rcases hq : q t with ⟨b | e' | _ | _, t'⟩ <;>
    rw [hp, hq] at hend hT' <;>
    first | exact hf a b hend s' t' hT' | exact False.elim hend | exact ⟨hend, hT'⟩

/-- One action more on the left. -/
theorem act_left {g : α → σ → α' × σ} {W : α' → β → Prop} (h : InStep T V p q)
    (hg : ∀ a b s t, V a b → T s t → W (g a s).1 b ∧ T (g a s).2 t) :
    InStep T W (p >>= fun a ↦ Prog.act (g a)) q := fun s t hT ↦ by
  obtain ⟨hend, hT'⟩ := h s t hT
  simp only [Bind.bind]
  rcases hp : p s with ⟨a | e | _ | _, s'⟩ <;> rcases hq : q t with ⟨b | e' | _ | _, t'⟩ <;>
    rw [hp, hq] at hend hT' <;>
    first | exact hg a b s' t' hend hT' | exact False.elim hend | exact ⟨hend, hT'⟩

/-- What both return is one value. -/
theorem bind_eq {q : Prog τ ε α} {f : α → Prog σ ε α'} {g : α → Prog τ ε β'}
    (h : InStep T (· = ·) p q) (hf : ∀ a, InStep T W (f a) (g a)) :
    InStep T W (p >>= f) (q >>= g) :=
  h.bind fun a b hab ↦ by
    subst hab
    exact hf a

theorem ofExcept {x : Except ε α} {y : Except ε β} (h : Alike V x y) :
    InStep T V (Prog.ofExcept x : Prog σ ε α) (Prog.ofExcept y : Prog τ ε β) := fun _ _ hT ↦ by
  cases x <;> cases y <;> exact ⟨h, hT⟩

theorem attempt (h : InStep T V p q) :
    InStep T (Alike V) (Prog.attempt p) (Prog.attempt q) := fun s t hT ↦ by
  obtain ⟨hend, hT'⟩ := h s t hT
  simp only [Prog.attempt]
  rcases hp : p s with ⟨a | e | _ | _, s'⟩ <;> rcases hq : q t with ⟨b | e' | _ | _, t'⟩ <;>
    rw [hp, hq] at hend hT' <;> exact ⟨hend, hT'⟩

theorem tryCatch {f : ε → Prog σ ε α} {g : ε → Prog τ ε β} (h : InStep T V p q)
    (hf : ∀ e, InStep T V (f e) (g e)) : InStep T V (Prog.tryCatch p f) (Prog.tryCatch q g) :=
  fun s t hT ↦ by
    obtain ⟨hend, hT'⟩ := h s t hT
    simp only [Prog.tryCatch]
    rcases hp : p s with ⟨a | e | _ | _, s'⟩ <;> rcases hq : q t with ⟨b | e' | _ | _, t'⟩ <;>
      rw [hp, hq] at hend hT' <;> first | exact False.elim hend | exact ⟨hend, hT'⟩ | skip
    obtain rfl : e = e' := hend
    exact hf e s' t' hT'

theorem refl (p : Prog σ ε α) : InStep (· = ·) (· = ·) p p := fun s t hst ↦ by
  subst hst
  rcases p s with ⟨_ | _ | _ | _, s'⟩ <;> exact ⟨by trivial, rfl⟩

theorem zoom {σ' τ' : Type} {U : σ' → τ' → Prop} {get : σ' → σ} {put : σ → σ' → σ'} {get' : τ' → τ}
    {put' : τ → τ' → τ'} (h : InStep T V p q) (hget : ∀ x y, U x y → T (get x) (get' y))
    (hput : ∀ x y s t, U x y → T s t → U (put s x) (put' t y)) :
    InStep U V (Prog.zoom get put p) (Prog.zoom get' put' q) := fun x y hU ↦ by
  obtain ⟨hend, hT⟩ := h _ _ (hget x y hU)
  exact ⟨hend, hput x y _ _ hU hT⟩

/-- **The loop rule**: what keeps each round in step keeps the loop in step. -/
theorem loop {B : β → β' → Prop} {body : β → Prog σ ε (β ⊕ α)} {body' : β' → Prog τ ε (β' ⊕ α')}
    {W : α → α' → Prop}
    (hbody : ∀ b b', B b b' → InStep T (Sum.LiftRel B W) (body b) (body' b')) (n : ℕ) {b : β}
    {b' : β'} (hB : B b b') : InStep T W (Prog.loop body n b) (Prog.loop body' n b') := by
  induction n generalizing b b' with
  | zero => exact fun _ _ hT ↦ ⟨trivial, hT⟩
  | succ n ih =>
    refine (hbody b b' hB).bind fun r r' hr ↦ ?_
    cases hr with
    | inl h => exact ih h
    | inr h => exact pure h

end InStep

end Prog
