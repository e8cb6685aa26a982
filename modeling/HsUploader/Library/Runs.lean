import Mathlib.Data.List.Count
import Mathlib.Data.List.Induction

/-!
# Runs of a system that takes labelled steps

`step s e` is what the system makes of `e` in the state `s`, or nothing where `e` cannot happen
there.  `runs step s es` takes the steps of `es` one after the other.

`runs_rule` carries what holds of the state and of the steps taken so far.  `countP_add_le` bounds
how often steps of a kind are taken: each of them spends some of a potential that only steps of
another kind raise.  `Rests` says that nothing of a kind can happen.

## What is here

* `runs` — the state after the steps, `none` where one of them cannot be taken.
* `runs_rule` — an invariant of the state and of the steps so far.
* `countP_add_le` — the account: what was granted and what was there at first, less what was spent.
* `Rests` — the end of the work of a kind.
-/

set_option autoImplicit false

namespace Runs

variable {σ ε : Type} {step : σ → ε → Option σ} {s t u : σ} {e : ε} {es fs : List ε}

/-- The steps are taken one after the other. -/
def runs (step : σ → ε → Option σ) : σ → List ε → Option σ
  | s, [] => some s
  | s, e :: es => (step s e).bind fun t ↦ runs step t es

/-- None of the steps that `inside` picks can be taken. -/
def Rests (step : σ → ε → Option σ) (inside : ε → Prop) (s : σ) : Prop :=
  ∀ e, inside e → step s e = none

theorem runs_cons_eq_some :
    runs step s (e :: es) = some t ↔ ∃ u, step s e = some u ∧ runs step u es = some t := by
  rw [runs, Option.bind_eq_some_iff]

theorem runs_append_eq_some :
    runs step s (es ++ fs) = some t ↔ ∃ u, runs step s es = some u ∧ runs step u fs = some t := by
  induction es generalizing s with
  | nil => simp [runs]
  | cons e es ih =>
    rw [List.cons_append, runs_cons_eq_some]
    constructor
    · rintro ⟨v, hv, hrest⟩
      obtain ⟨u, hu, ht⟩ := ih.mp hrest
      exact ⟨u, runs_cons_eq_some.mpr ⟨v, hv, hu⟩, ht⟩
    · rintro ⟨u, hu, ht⟩
      obtain ⟨v, hv, hrest⟩ := runs_cons_eq_some.mp hu
      exact ⟨v, hv, ih.mpr ⟨u, hrest, ht⟩⟩

/-- **The rule for runs**: what a step keeps, going by the steps taken so far, holds in the end. -/
theorem runs_rule {I : List ε → σ → Prop} (hstep : ∀ fs e t u, fs ++ [e] <+: es → I fs t →
      step t e = some u → I (fs ++ [e]) u)
    (hstart : I [] s) (h : runs step s es = some t) : I es t := by
  induction es using List.reverseRecOn generalizing t with
  | nil =>
    obtain rfl := Option.some.inj h
    exact hstart
  | append_singleton es e ih =>
    obtain ⟨u, hes, he⟩ := runs_append_eq_some.mp h
    obtain ⟨v, hv, hend⟩ := runs_cons_eq_some.mp he
    obtain rfl := Option.some.inj hend
    refine hstep es e u v List.prefix_rfl (ih (fun fs f t u hf ↦ ?_) hes) hv
    exact hstep fs f t u (hf.trans (List.prefix_append es [e]))

/-- The same of an invariant of the state alone. -/
theorem runs_keep {I : σ → Prop} (hstep : ∀ e ∈ es, ∀ t u, I t → step t e = some u → I u)
    (hstart : I s) (h : runs step s es = some t) : I t := by
  refine runs_rule (I := fun _ t ↦ I t) (fun fs e t u hf ↦ hstep e ?_ t u) hstart h
  exact hf.subset (List.mem_append_right fs List.mem_cons_self)

/-- **The rule for potentials**: steps that each spend some of what only other steps grant are taken
no more often than it has been granted. -/
theorem countP_add_le {I : σ → Prop} (spends grants : ε → Bool) (potential : σ → ℕ)
    (hstep : ∀ e ∈ es, ∀ t u, I t → step t e = some u → I u ∧
      (if spends e then 1 else 0) + potential u ≤ (if grants e then 1 else 0) + potential t)
    (hstart : I s) (h : runs step s es = some t) :
    I t ∧ es.countP spends + potential t ≤ es.countP grants + potential s := by
  refine runs_rule (I := fun fs t ↦ I t ∧
    fs.countP spends + potential t ≤ fs.countP grants + potential s)
    (fun fs e t u hf hle hu ↦ ?_) ⟨hstart, by simp⟩ h
  have hmem : e ∈ es := hf.subset (List.mem_append_right fs List.mem_cons_self)
  obtain ⟨hI, hone⟩ := hstep e hmem t u hle.1 hu
  rw [List.countP_append, List.countP_append, List.countP_singleton, List.countP_singleton]
  exact ⟨hI, by omega⟩

end Runs
