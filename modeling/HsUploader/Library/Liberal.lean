import HsUploader.Library.Relational

/-!
# Programs that need not return

`wlp p Q X` is the weakest liberal precondition of `p`: a run that comes to a value ends as `Q`
says, and of the state any other run leaves, `X` holds.  That includes a run without an end, so
that, unlike `wp`, no rule asks for a measure, and nothing is learnt about termination.

`Stays P p` is the common case of one property before and after, and `InStep.keeping` adds what one
of two programs keeps to what relates them.

## What is here

* `wlp` and its rules — an action that may raise, a value of an `Except`, a program on a part of the
  state.
* `wlp_mono` — consequence.
* `Stays` and `stays_iff` — one property before and after.
* `InStep.keeping` — what one of two programs in step keeps is kept beside their relation.
-/

set_option autoImplicit false

namespace Prog

variable {σ τ ε α β : Type}

/-- The weakest liberal precondition of `p` for the postconditions `Q`, of a value, and `X`, of
every other end. -/
def wlp (p : Prog σ ε α) (Q : α → σ → Prop) (X : σ → Prop) (s : σ) : Prop :=
  match p s with
  | (.ok a, s') => Q a s'
  | (_, s') => X s'

section rules

variable {p : Prog σ ε α} {f : α → Prog σ ε β} {Q Q' : α → σ → Prop} {R : β → σ → Prop}
  {X X' : σ → Prop} {s : σ}

@[simp] theorem wlp_pure (a : α) : wlp (pure a : Prog σ ε α) Q X s = Q a s := rfl

@[simp] theorem wlp_raise (e : ε) : wlp (raise e : Prog σ ε α) Q X s = X s := rfl

@[simp] theorem wlp_modify (g : σ → σ) {T : Unit → σ → Prop} :
    wlp (modify g : Prog σ ε Unit) T X s = T () (g s) := rfl

@[simp] theorem wlp_act (g : σ → α × σ) : wlp (act g : Prog σ ε α) Q X s = Q (g s).1 (g s).2 := rfl

theorem wlp_actE (g : σ → Except ε (α × σ)) :
    wlp (actE g) Q X s = (match g s with | .ok r => Q r.1 r.2 | .error _ => X s) := by
  simp only [wlp, actE]
  cases g s <;> rfl

theorem wlp_ofExcept (x : Except ε α) :
    wlp (ofExcept x) Q X s = (match x with | .ok a => Q a s | .error _ => X s) := by
  cases x <;> rfl

@[simp] theorem wlp_bind : wlp (p >>= f) R X s = wlp p (fun a ↦ wlp (f a) R X) X s := by
  simp only [wlp, Bind.bind]
  rcases p s with ⟨_ | _ | _ | _, s'⟩ <;> rfl

theorem wlp_zoom (g : σ → τ) (put : τ → σ → σ) (q : Prog τ ε α) :
    wlp (zoom g put q) Q X s =
      wlp q (fun a t ↦ Q a (put t s)) (fun t ↦ X (put t s)) (g s) := by
  simp only [wlp, zoom]
  rcases q (g s) with ⟨_ | _ | _ | _, s'⟩ <;> rfl

/-- **Consequence.** -/
theorem wlp_mono (h : wlp p Q X s) (hQ : ∀ a s, Q a s → Q' a s) (hX : ∀ s, X s → X' s) :
    wlp p Q' X' s := by
  unfold wlp at h ⊢
  rcases hp : p s with ⟨_ | _ | _ | _, s'⟩ <;> rw [hp] at h
  · exact hQ _ _ h
  all_goals exact hX _ h

/-- Consequence in the value postcondition alone. -/
theorem wlp_mono_ok (h : wlp p Q X s) (hQ : ∀ a s, Q a s → Q' a s) : wlp p Q' X s :=
  wlp_mono h hQ fun _ hX ↦ hX

/-- What holds of every state holds of the one that is left. -/
theorem wlp_of_forall (hQ : ∀ a s, Q a s) (hX : ∀ s, X s) : wlp p Q X s := by
  unfold wlp
  rcases p s with ⟨_ | _ | _ | _, s'⟩
  · exact hQ _ _
  all_goals exact hX _

end rules

/-- What holds before the program holds of the state it leaves, however it ends. -/
def Stays (P : σ → Prop) (p : Prog σ ε α) : Prop := ∀ s, P s → P (p s).2

theorem stays_iff {P : σ → Prop} {p : Prog σ ε α} :
    Stays P p ↔ ∀ s, P s → wlp p (fun _ ↦ P) P s := by
  refine forall_congr' fun s ↦ imp_congr_right fun _ ↦ ?_
  unfold wlp
  rcases p s with ⟨_ | _ | _ | _, s'⟩ <;> rfl

/-- Two programs in step, and what the left one keeps. -/
theorem InStep.keeping {T : σ → τ → Prop} {V : α → β → Prop} {p : Prog σ ε α} {q : Prog τ ε β}
    {P : σ → Prop} (h : InStep T V p q) (hP : Stays P p) :
    InStep (fun s t ↦ T s t ∧ P s) V p q :=
  fun s t hT ↦ ⟨(h s t hT.1).1, (h s t hT.1).2, hP s hT.2⟩

end Prog
