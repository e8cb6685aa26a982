import Mathlib.Data.Nat.Notation
import Mathlib.Logic.Basic

/-!
# Interruptible programs

A program over a state that may finish with a value, raise an exception, be stopped from outside
between two of its steps, or fail to return.  `Prog σ ε α` is the shallow embedding: a function
from the state to the way the program ended and the state it left behind.  Unlike an exception
monad in which a failure throws the state away, every ending keeps the state, because what a
stopped program has already written is exactly what one wants to reason about.

`wp p Q E S` is the weakest precondition of `p` for three postconditions at once: `Q` for a value,
`E` for an exception and `S` for a stop.  A run that does not return meets none of them, so a proof
of `wp` is also a proof of termination.  The rules are equations or implications in the direction
of use, one for each way of building a program:

* `wp_pure`, `wp_bind`, `wp_raise`, `wp_modify`, `wp_tryCatch` for the straight-line part;
* `wp_zoom` for a program that runs on a part of the state;
* `wp_loop` for a loop, from an invariant and a measure that falls.

`Triple` is the form in which one program's specification is stated and then used inside another.
-/

set_option autoImplicit false

/-- How a program ended: with a value, with an exception, stopped from outside, or not at all. -/
inductive Res (ε α : Type) where
  | ok (a : α)
  | raised (e : ε)
  | stopped
  | diverged

/-- The exception a program ended with. -/
def Res.exception {ε α : Type} : Res ε α → Option ε
  | .raised e => some e
  | _ => none

theorem Res.eq_raised {ε α : Type} {r : Res ε α} {e : ε} (h : r.exception = some e) :
    r = .raised e := by
  cases r <;> cases h
  rfl

/-- The value a program ended with. -/
def Res.value {ε α : Type} : Res ε α → Option α
  | .ok a => some a
  | _ => none

theorem Res.eq_ok {ε α : Type} {r : Res ε α} {a : α} (h : r.value = some a) : r = .ok a := by
  cases r <;> cases h
  rfl

/-- A program over the state `σ` that raises exceptions `ε` and returns an `α`. -/
def Prog (σ ε α : Type) : Type := σ → Res ε α × σ

namespace Prog

variable {σ τ ε α β : Type}

instance : Monad (Prog σ ε) where
  pure a := fun s ↦ (.ok a, s)
  bind p f := fun s ↦
    match p s with
    | (.ok a, s') => f a s'
    | (.raised e, s') => (.raised e, s')
    | (.stopped, s') => (.stopped, s')
    | (.diverged, s') => (.diverged, s')

/-- Raise an exception. -/
def raise (e : ε) : Prog σ ε α := fun s ↦ (.raised e, s)

/-- Be stopped here. -/
def stop : Prog σ ε α := fun s ↦ (.stopped, s)

/-- Never return. -/
def diverge : Prog σ ε α := fun s ↦ (.diverged, s)

/-- Read the state. -/
def get : Prog σ ε σ := fun s ↦ (.ok s, s)

/-- Change the state. -/
def modify (f : σ → σ) : Prog σ ε Unit := fun s ↦ (.ok (), f s)

/-- One action on the state. -/
def act (f : σ → α × σ) : Prog σ ε α := fun s ↦ (.ok (f s).1, (f s).2)

/-- One action on the state that may raise, leaving the state as it was. -/
def actE (f : σ → Except ε (α × σ)) : Prog σ ε α := fun s ↦
  match f s with
  | .ok r => (.ok r.1, r.2)
  | .error e => (.raised e, s)

/-- The value of an `Except`, raising its error. -/
def ofExcept : Except ε α → Prog σ ε α
  | .ok a => pure a
  | .error e => raise e

/-- Run `p`; if it raises, run the handler.  A stop is not an exception and is not caught. -/
def tryCatch (p : Prog σ ε α) (h : ε → Prog σ ε α) : Prog σ ε α := fun s ↦
  match p s with
  | (.raised e, s') => h e s'
  | r => r

/-- Run `p` and hand its exception over as a value. -/
def attempt (p : Prog σ ε α) : Prog σ ε (Except ε α) := fun s ↦
  match p s with
  | (.ok a, s') => (.ok (.ok a), s')
  | (.raised e, s') => (.ok (.error e), s')
  | (.stopped, s') => (.stopped, s')
  | (.diverged, s') => (.diverged, s')

/-- Run a program on the part of the state that `get` reads and `put` writes. -/
def zoom (get : σ → τ) (put : τ → σ → σ) (p : Prog τ ε α) : Prog σ ε α := fun s ↦
  let r := p (get s)
  (r.1, put r.2 s)

theorem bind_assoc {γ : Type} (p : Prog σ ε α) (f : α → Prog σ ε β) (g : β → Prog σ ε γ) :
    (p >>= f >>= g) = (p >>= fun a ↦ f a >>= g) := by
  funext s
  simp only [Bind.bind]
  rcases p s with ⟨_ | _ | _ | _, s'⟩ <;> rfl

theorem bind_of_ok {p : Prog σ ε α} {f : α → Prog σ ε β} {a : α} {s s' : σ} (h : p s = (.ok a, s')) :
    (p >>= f) s = f a s' := by
  simp only [Bind.bind, h]

theorem bind_of_raised {p : Prog σ ε α} {f : α → Prog σ ε β} {e : ε} {s s' : σ}
    (h : p s = (.raised e, s')) : (p >>= f) s = (.raised e, s') := by
  simp only [Bind.bind, h]

/-- A sequence that came to a value came to one with each of its parts. -/
theorem exists_of_bind_run {p : Prog σ ε α} {f : α → Prog σ ε β} {b : β} {s t : σ}
    (h : (p >>= f) s = (.ok b, t)) : ∃ a s', p s = (.ok a, s') ∧ f a s' = (.ok b, t) := by
  simp only [Bind.bind] at h
  rcases hp : p s with ⟨a | _ | _ | _, s'⟩ <;> rw [hp] at h
  · exact ⟨a, s', rfl, h⟩
  all_goals cases h

theorem ofExcept_eq_ok {x : Except ε α} {a : α} {s t : σ} :
    ofExcept x s = (.ok a, t) ↔ x = .ok a ∧ s = t := by
  cases x with
  | error e => exact iff_of_false (fun h ↦ by cases h) fun h ↦ by cases h.1
  | ok a' =>
    refine ⟨fun h ↦ by cases h; exact ⟨rfl, rfl⟩, ?_⟩
    rintro ⟨h, rfl⟩
    cases h
    rfl

/-- Two programs that go on alike after the ends `p` comes to. -/
theorem bind_congr {p : Prog σ ε α} {f g : α → Prog σ ε β} {s : σ}
    (h : ∀ a s', p s = (.ok a, s') → f a s' = g a s') : (p >>= f) s = (p >>= g) s := by
  simp only [Bind.bind]
  rcases hp : p s with ⟨a | _ | _ | _, s'⟩
  · exact h a s' hp
  all_goals rfl

/-- A mapped `Except` that is a value comes from a value. -/
theorem exists_of_map_eq_ok {x : Except ε α} {f : α → β} {b : β} (h : x.map f = .ok b) :
    ∃ a, x = .ok a ∧ f a = b := by
  cases x with
  | error e => cases h
  | ok a => exact ⟨a, rfl, Except.ok.inj h⟩

/-- A bound `Except` that is a value comes from two values. -/
theorem exists_of_bind_eq_ok {x : Except ε α} {f : α → Except ε β} {b : β}
    (h : x >>= f = .ok b) : ∃ a, x = .ok a ∧ f a = .ok b := by
  cases x with
  | error e => cases h
  | ok a => exact ⟨a, rfl, h⟩

/-- What a traversal that does not raise answers comes from the elements. -/
theorem exists_of_mem_mapM {f : α → Except ε β} {xs : List α} {ys : List β}
    (h : xs.mapM f = .ok ys) : ∀ y ∈ ys, ∃ x ∈ xs, f x = .ok y := by
  induction xs generalizing ys with
  | nil =>
    cases h
    simp
  | cons x xs ih =>
    rw [List.mapM_cons] at h
    obtain ⟨y, hy, h⟩ := exists_of_bind_eq_ok h
    obtain ⟨ys', hys', h⟩ := exists_of_bind_eq_ok h
    cases h
    intro y' hy'
    rcases List.mem_cons.mp hy' with rfl | hy'
    · exact ⟨x, List.mem_cons_self, hy⟩
    · obtain ⟨x', hx', hf⟩ := ih hys' y' hy'
      exact ⟨x', List.mem_cons_of_mem x hx', hf⟩

/-- Repeat `body` from `b` until it answers `inr`.  The number bounds the rounds; `wp_loop` shows
that a bound is never reached. -/
def loop (body : β → Prog σ ε (β ⊕ α)) : ℕ → β → Prog σ ε α
  | 0, _ => diverge
  | n + 1, b => do
    match ← body b with
    | .inl b' => loop body n b'
    | .inr a => pure a

/-! ## Weakest preconditions -/

/-- The weakest precondition of `p` for the postconditions `Q` (a value), `E` (an exception) and
`S` (a stop).  No postcondition holds of a run that does not return. -/
def wp (p : Prog σ ε α) (Q : α → σ → Prop) (E : ε → σ → Prop) (S : σ → Prop) (s : σ) : Prop :=
  match p s with
  | (.ok a, s') => Q a s'
  | (.raised e, s') => E e s'
  | (.stopped, s') => S s'
  | (.diverged, _) => False

/-- From any state that satisfies `P`, the program ends as `Q`, `E` and `S` say. -/
def Triple (P : σ → Prop) (p : Prog σ ε α) (Q : α → σ → Prop) (E : ε → σ → Prop)
    (S : σ → Prop) : Prop :=
  ∀ s, P s → wp p Q E S s

variable {p : Prog σ ε α} {f : α → Prog σ ε β} {Q Q' : α → σ → Prop} {R : β → σ → Prop}
  {E E' : ε → σ → Prop} {S S' : σ → Prop} {s : σ}

@[simp] theorem wp_pure (a : α) : wp (pure a : Prog σ ε α) Q E S s = Q a s := rfl

@[simp] theorem wp_raise (e : ε) : wp (raise e : Prog σ ε α) Q E S s = E e s := rfl

@[simp] theorem wp_stop : wp (stop : Prog σ ε α) Q E S s = S s := rfl

@[simp] theorem wp_get {T : σ → σ → Prop} : wp (get : Prog σ ε σ) T E S s = T s s := rfl

@[simp] theorem wp_modify (g : σ → σ) {T : Unit → σ → Prop} :
    wp (modify g : Prog σ ε Unit) T E S s = T () (g s) := rfl

@[simp] theorem wp_act (g : σ → α × σ) : wp (act g : Prog σ ε α) Q E S s = Q (g s).1 (g s).2 := rfl

theorem wp_actE (g : σ → Except ε (α × σ)) :
    wp (actE g) Q E S s = (match g s with | .ok r => Q r.1 r.2 | .error e => E e s) := by
  simp only [wp, actE]
  cases g s <;> rfl

@[simp] theorem wp_bind : wp (p >>= f) R E S s = wp p (fun a ↦ wp (f a) R E S) E S s := by
  simp only [wp, Bind.bind]
  rcases p s with ⟨_ | _ | _ | _, s'⟩ <;> rfl

@[simp] theorem wp_map (g : α → β) : wp (g <$> p) R E S s = wp p (fun a ↦ R (g a)) E S s := by
  simp only [wp, Functor.map]
  rcases p s with ⟨_ | _ | _ | _, s'⟩ <;> rfl

theorem wp_tryCatch (h : ε → Prog σ ε α) :
    wp (tryCatch p h) Q E S s = wp p Q (fun e ↦ wp (h e) Q E S) S s := by
  simp only [wp, tryCatch]
  rcases p s with ⟨_ | _ | _ | _, s'⟩ <;> rfl

theorem wp_attempt {T : Except ε α → σ → Prop} :
    wp (attempt p) T E S s = wp p (fun a ↦ T (.ok a)) (fun e ↦ T (.error e)) S s := by
  simp only [wp, attempt]
  rcases p s with ⟨_ | _ | _ | _, s'⟩ <;> rfl

theorem wp_ofExcept (x : Except ε α) :
    wp (ofExcept x) Q E S s = (match x with | .ok a => Q a s | .error e => E e s) := by
  cases x <;> rfl

theorem wp_zoom (g : σ → τ) (put : τ → σ → σ) (q : Prog τ ε α) :
    wp (zoom g put q) Q E S s =
      wp q (fun a t ↦ Q a (put t s)) (fun e t ↦ E e (put t s)) (fun t ↦ S (put t s)) (g s) := by
  simp only [wp, zoom]
  rcases q (g s) with ⟨_ | _ | _ | _, s'⟩ <;> rfl

/-- **Consequence**: each postcondition may be weakened. -/
theorem wp_mono (h : wp p Q E S s) (hQ : ∀ a s, Q a s → Q' a s) (hE : ∀ e s, E e s → E' e s)
    (hS : ∀ s, S s → S' s) : wp p Q' E' S' s := by
  unfold wp at h ⊢
  rcases hp : p s with ⟨_ | _ | _ | _, s'⟩ <;> rw [hp] at h
  · exact hQ _ _ h
  · exact hE _ _ h
  · exact hS _ h
  · exact h

/-- Consequence in the value postcondition alone, the common case. -/
theorem wp_mono_ok (h : wp p Q E S s) (hQ : ∀ a s, Q a s → Q' a s) : wp p Q' E S s :=
  wp_mono h hQ (fun _ _ he ↦ he) fun _ hs ↦ hs

/-- The one end a program can come to is the end of its run. -/
theorem eq_of_wp {a : α} {t : σ}
    (h : wp p (fun b s' ↦ b = a ∧ s' = t) (fun _ _ ↦ False) (fun _ ↦ False) s) : p s = (.ok a, t) := by
  unfold wp at h
  split at h
  · rename_i hrun
    rw [hrun, h.1, h.2]
  all_goals exact h.elim

/-- What every end of a program satisfies holds of the state it leaves. -/
theorem snd_of_wp {P : σ → Prop} (h : wp p (fun _ ↦ P) (fun _ ↦ P) P s) : P (p s).2 := by
  unfold wp at h
  split at h
  all_goals
    rename_i hrun
    rw [hrun]
  · exact h
  · exact h
  · exact h
  · exact h.elim

/-- Two specifications of one program hold together. -/
theorem wp_and (h : wp p Q E S s) (h' : wp p Q' E' S' s) :
    wp p (fun a s ↦ Q a s ∧ Q' a s) (fun e s ↦ E e s ∧ E' e s) (fun s ↦ S s ∧ S' s) s := by
  unfold wp at h h' ⊢
  rcases hp : p s with ⟨_ | _ | _ | _, s'⟩ <;> simp only [hp] at h h' ⊢
  · exact ⟨h, h'⟩
  · exact ⟨h, h'⟩
  · exact ⟨h, h'⟩

/-- A program that ends with a value or an exception ends as its run says. -/
theorem wp_self (h : wp p (fun _ _ ↦ True) (fun _ _ ↦ True) (fun _ ↦ False) s) :
    wp p (fun a s' ↦ p s = (.ok a, s')) (fun e s' ↦ p s = (.raised e, s')) (fun _ ↦ False) s := by
  unfold wp at h ⊢
  rcases hp : p s with ⟨_ | _ | _ | _, s'⟩ <;> simp only [hp] at h ⊢

/-- A program that ends with a value has a run. -/
theorem exists_run (h : wp p Q (fun _ _ ↦ False) (fun _ ↦ False) s) : ∃ a t, p s = (.ok a, t) := by
  unfold wp at h
  rcases hp : p s with ⟨a | _ | _ | _, s'⟩ <;> rw [hp] at h
  · exact ⟨a, s', rfl⟩
  all_goals exact h.elim

/-- What a weakest precondition says of a run that came to a value. -/
theorem wp_ok {a : α} {t : σ} (h : wp p Q E S s) (hrun : p s = (.ok a, t)) : Q a t := by
  rw [wp, hrun] at h
  exact h

/-- Every end of the program stands in the relation to its start, and it has one. -/
def Ends (R : σ → σ → Prop) (p : Prog σ ε α) : Prop :=
  ∀ s, wp p (fun _ s' ↦ R s s') (fun _ s' ↦ R s s') (fun _ ↦ False) s

namespace Ends

variable {R : σ → σ → Prop}

theorem pure (hrefl : ∀ s, R s s) (a : α) : Ends R (Pure.pure a : Prog σ ε α) := hrefl

theorem bind {f : α → Prog σ ε β} (htrans : ∀ {s t u}, R s t → R t u → R s u) (hp : Ends R p)
    (hf : ∀ a, Ends R (f a)) : Ends R (p >>= f) := fun s ↦ by
  rw [wp_bind]
  refine wp_mono_ok (hp s) fun a s' hs ↦ ?_
  exact wp_mono (hf a s') (fun _ _ h ↦ htrans hs h) (fun _ _ h ↦ htrans hs h) fun _ h ↦ h

theorem attempt (hp : Ends R p) : Ends R (attempt p) := fun s ↦ by
  rw [wp_attempt]
  exact hp s

theorem ofExcept (hrefl : ∀ s, R s s) (x : Except ε α) : Ends R (ofExcept x : Prog σ ε α) :=
  fun s ↦ by
    rw [wp_ofExcept]
    cases x <;> exact hrefl s

end Ends

/-- A run that came to a value, from the value alone. -/
theorem run_ok {a : α} (h : (p s).1.value = some a) : p s = (.ok a, (p s).2) :=
  Prod.ext (Res.eq_ok h) rfl

/-- A run that came to an exception, from the exception alone. -/
theorem run_raised {e : ε} (h : (p s).1.exception = some e) : p s = (.raised e, (p s).2) :=
  Prod.ext (Res.eq_raised h) rfl

/-- What a weakest precondition says of a run that came to an exception. -/
theorem wp_raised {e : ε} {t : σ} (h : wp p Q E S s) (hrun : p s = (.raised e, t)) : E e t := by
  rw [wp, hrun] at h
  exact h

/-- A specification used inside a longer program. -/
theorem Triple.use {P : σ → Prop} (h : Triple P p Q E S) (hP : P s)
    (hQ : ∀ a s, Q a s → Q' a s) : wp p Q' E S s :=
  wp_mono_ok (h s hP) hQ

/-- **The loop rule.**  If `Inv` holds on entry, each round keeps it and lowers the measure `m`,
and the bound on the rounds lies above the measure, then the loop returns and what its last round
established holds. -/
theorem wp_loop {body : β → Prog σ ε (β ⊕ α)} (Inv : β → σ → Prop) (m : β → σ → ℕ)
    (hbody : ∀ b s, Inv b s →
      wp (body b) (fun r s' ↦ match r with
        | .inl b' => Inv b' s' ∧ m b' s' < m b s
        | .inr a => Q a s') E S s)
    {n : ℕ} {b : β} (hI : Inv b s) (hm : m b s < n) : wp (loop body n b) Q E S s := by
  induction n generalizing b s with
  | zero => exact absurd hm (Nat.not_lt_zero _)
  | succ n ih =>
    rw [loop, wp_bind]
    refine wp_mono_ok (hbody b s hI) fun r s' hr ↦ ?_
    cases r with
    | inl b' => exact ih hr.1 (by omega)
    | inr a => exact hr

/-- The program returns from any state: with a value, with an exception, or stopped. -/
def Returns (p : Prog σ ε α) : Prop := ∀ s, wp p (fun _ _ ↦ True) (fun _ _ ↦ True) (fun _ ↦ True) s

/-- A program that returns ends as any postconditions say that hold of every end. -/
theorem Returns.wp (hp : Returns p) (hQ : ∀ a s, Q a s) (hE : ∀ e s, E e s) (hS : ∀ s, S s) :
    wp p Q E S s :=
  wp_mono (hp s) (fun a s _ ↦ hQ a s) (fun e s _ ↦ hE e s) fun s _ ↦ hS s

/-! ## What a program leaves alone -/

/-- A run of `p` that returns leaves what `g` reads of the state as it was. -/
def Keeps {γ : Type} (p : Prog σ ε α) (g : σ → γ) : Prop :=
  ∀ s a s', p s = (.ok a, s') → g s' = g s

namespace Keeps

variable {γ : Type} {g : σ → γ}

theorem pure (a : α) : Keeps (Pure.pure a : Prog σ ε α) g := fun s b s' h ↦ by
  cases h
  rfl

theorem raise (e : ε) : Keeps (Prog.raise e : Prog σ ε α) g := fun s b s' h ↦ by cases h

theorem ofExcept (x : Except ε α) : Keeps (Prog.ofExcept x : Prog σ ε α) g := by
  cases x with
  | error e => exact raise e
  | ok a => exact pure a

theorem bind (hp : Keeps p g) (hf : ∀ a, Keeps (f a) g) : Keeps (p >>= f) g := fun s b s' h ↦ by
  simp only [Bind.bind] at h
  split at h
  · rename_i a t hp'
    exact (hf a t b s' h).trans (hp s a t hp')
  all_goals cases h

theorem act {k : σ → α × σ} (h : ∀ s, g (k s).2 = g s) : Keeps (Prog.act k : Prog σ ε α) g :=
  fun s a s' hk ↦ by
    cases hk
    exact h s

theorem actE {k : σ → Except ε (α × σ)} (h : ∀ s r, k s = .ok r → g r.2 = g s) :
    Keeps (Prog.actE k) g := fun s a s' hk ↦ by
  rw [Prog.actE] at hk
  split at hk
  · rename_i r hr
    cases hk
    exact h s r hr
  · cases hk

theorem zoom {get : σ → τ} {put : τ → σ → σ} (q : Prog τ ε α) (h : ∀ t s, g (put t s) = g s) :
    Keeps (Prog.zoom get put q) g := fun s a s' hk ↦ by
  simp only [Prog.zoom, Prod.mk.injEq] at hk
  rw [← hk.2, h]

/-- What a program leaves alone may be added to any postcondition of it. -/
theorem wp (hp : Keeps p g) (h : Prog.wp p Q E S s) :
    Prog.wp p (fun a s' ↦ Q a s' ∧ g s' = g s) E S s := by
  unfold Prog.wp at h ⊢
  rcases hs : p s with ⟨a | _ | _ | _, s'⟩ <;> rw [hs] at h
  · exact ⟨h, hp s a s' hs⟩
  · exact h
  · exact h
  · exact h

end Keeps

end Prog
