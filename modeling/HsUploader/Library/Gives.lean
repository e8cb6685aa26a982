import HsUploader.Library.Prog

/-!
# Programs whose answer does not hang on the state

`Gives p r`: from whatever state, `p` ends with the value or the exception `r`.  What it does to the
state is left open, so that a program that keeps books beside its work gives what the work gives:
the books may choose what else is done, as long as all of it `Finishes`, with a value that is not
used (`Gives.after`).

## What is here

* `Gives` and `Finishes` — the two judgements.
* `Gives.bind` and `Gives.after` — a value is handed on; and a program whose value nobody uses may
  be run before another.
* `Gives.run_eq` — from the judgement back to a run, so that two programs that give the same answer
  the same from two states.
-/

set_option autoImplicit false

namespace Prog

variable {σ ε α β : Type} {p : Prog σ ε α} {f : α → Prog σ ε β}

/-- From whatever state, the program ends with this value or with this exception. -/
def Gives (p : Prog σ ε α) (r : Except ε α) : Prop :=
  ∀ s, wp p (fun a _ ↦ r = .ok a) (fun e _ ↦ r = .error e) (fun _ ↦ False) s

/-- From whatever state, the program ends with a value. -/
def Finishes (p : Prog σ ε α) : Prop :=
  ∀ s, wp p (fun _ _ ↦ True) (fun _ _ ↦ False) (fun _ ↦ False) s

namespace Gives

theorem pure (a : α) : Gives (Pure.pure a : Prog σ ε α) (.ok a) := fun _ ↦ rfl

theorem ofExcept (x : Except ε α) : Gives (Prog.ofExcept x : Prog σ ε α) x := fun s ↦ by
  rw [wp_ofExcept]
  cases x <;> rfl

theorem bind {x : Except ε α} {r : α → Except ε β} (hp : Gives p x)
    (hf : ∀ a, x = .ok a → Gives (f a) (r a)) : Gives (p >>= f) (x >>= r) := fun s ↦ by
  rw [wp_bind]
  refine wp_mono (hp s) (fun a s' hx ↦ ?_) (fun e s' hx ↦ ?_) fun _ h ↦ h
  · rw [hx]
    exact hf a hx s'
  · rw [hx]
    rfl

/-- A step that comes to a value nothing reads. -/
theorem after {r : Except ε β} (hp : Finishes p) (hf : ∀ a, Gives (f a) r) : Gives (p >>= f) r :=
  fun s ↦ by
    rw [wp_bind]
    exact wp_mono (hp s) (fun a s' _ ↦ hf a s') (fun _ _ h ↦ h.elim) fun _ h ↦ h

theorem tryCatch {x : Except ε α} {h : ε → Prog σ ε α} {r : ε → Except ε α} (hp : Gives p x)
    (hh : ∀ e, Gives (h e) (r e)) :
    Gives (Prog.tryCatch p h) (x.tryCatch r) := fun s ↦ by
  rw [wp_tryCatch]
  refine wp_mono (hp s) (fun a s' hx ↦ ?_) (fun e s' hx ↦ ?_) fun _ h ↦ h
  · rw [hx]
    rfl
  · rw [hx]
    exact hh e s'

/-- What the run of such a program comes to. -/
theorem run_eq {a : α} (hp : Gives p (.ok a)) (s : σ) : (p s).1 = .ok a := by
  have h := hp s
  unfold wp at h
  rcases hs : p s with ⟨b | _ | _ | _, s'⟩ <;> rw [hs] at h
  · cases h
    rfl
  · cases h
  · exact h.elim
  · exact h.elim

end Gives

namespace Finishes

/-- A program without an answer of its own that comes to a value gives it. -/
theorem gives {p : Prog σ ε Unit} (hp : Finishes p) : Gives p (.ok ()) := fun s ↦
  wp_mono (hp s) (fun _ _ _ ↦ rfl) (fun _ _ h ↦ h.elim) fun _ h ↦ h

theorem pure (a : α) : Finishes (Pure.pure a : Prog σ ε α) := fun _ ↦ trivial

theorem modify (g : σ → σ) : Finishes (Prog.modify g : Prog σ ε Unit) := fun _ ↦ trivial

theorem act (g : σ → α × σ) : Finishes (Prog.act g : Prog σ ε α) := fun _ ↦ trivial

theorem get : Finishes (Prog.get : Prog σ ε σ) := fun _ ↦ trivial

theorem bind (hp : Finishes p) (hf : ∀ a, Finishes (f a)) : Finishes (p >>= f) := fun s ↦ by
  rw [wp_bind]
  exact wp_mono (hp s) (fun a s' _ ↦ hf a s') (fun _ _ h ↦ h) fun _ h ↦ h

end Finishes

end Prog
