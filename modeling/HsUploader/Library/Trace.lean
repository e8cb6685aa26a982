import Mathlib.Data.List.Basic
import Mathlib.Data.List.Induction

/-!
# Order in a trace

A trace is a list of entries in the order in which they were made.  `Preceded P Q t` says of each
entry that `P` picks that `Q` holds of what comes before it: a safety property, checked entry by
entry as the trace grows (`preceded_concat`).  `Since good bad t` says that something `good` has
happened after the last `bad` thing, which is the usual `Q` of a permission that each use spends.

## What is here

* `Preceded` and `preceded_concat` — the property, and how it goes on with one entry more.
* `Since` — a permission that is given and spent.
* `countP_le_of_preceded` — from the order to the count: no more is spent than was given.
-/

set_option autoImplicit false

namespace Trace

variable {ε : Type} {P : ε → Prop} {Q : List ε → Prop} {good bad : ε → Prop} {t : List ε} {e : ε}

/-- Before each entry that `P` picks the trace is as `Q` says. -/
def Preceded (P : ε → Prop) (Q : List ε → Prop) (t : List ε) : Prop :=
  ∀ i (h : i < t.length), P t[i] → Q (t.take i)

instance [DecidablePred P] [DecidablePred Q] : Decidable (Preceded P Q t) :=
  inferInstanceAs (Decidable (∀ i (h : i < t.length), P t[i] → Q (t.take i)))

theorem preceded_nil : Preceded P Q [] := fun _ h ↦ absurd h (Nat.not_lt_zero _)

theorem preceded_concat : Preceded P Q (t ++ [e]) ↔ Preceded P Q t ∧ (P e → Q t) := by
  constructor
  · intro h
    constructor
    · intro i hi hP
      have hi' : i < (t ++ [e]).length := by simp; omega
      have hQ := h i hi' (by rwa [List.getElem_append_left hi])
      rwa [List.take_append_of_le_length (Nat.le_of_lt hi)] at hQ
    · intro hP
      have hQ := h t.length (by simp) (by simpa using hP)
      rwa [List.take_left] at hQ
  · rintro ⟨h, he⟩ i hi hP
    by_cases hlt : i < t.length
    · rw [List.take_append_of_le_length (Nat.le_of_lt hlt)]
      exact h i hlt (by rwa [List.getElem_append_left hlt] at hP)
    · obtain rfl : i = t.length := by simp at hi; omega
      rw [List.take_left]
      exact he (by simpa using hP)

theorem Preceded.take (h : Preceded P Q t) (n : Nat) : Preceded P Q (t.take n) := by
  intro i hi hP
  rw [List.length_take] at hi
  rw [List.getElem_take] at hP
  rw [List.take_take, Nat.min_eq_left (by omega)]
  exact h i (by omega) hP

/-- What comes before an entry that `P` picks is as `Q` says. -/
theorem Preceded.before {a b : List ε} (h : Preceded P Q (a ++ e :: b)) (he : P e) : Q a := by
  have hQ := h a.length (by simp) (by simpa using he)
  rwa [List.take_left] at hQ

/-- An entry that `P` does not pick adds nothing. -/
theorem Preceded.concat (h : Preceded P Q t) (he : ¬ P e) : Preceded P Q (t ++ [e]) :=
  preceded_concat.mpr ⟨h, fun hP ↦ absurd hP he⟩

/-- Something good has happened after the last bad thing. -/
def Since (good bad : ε → Prop) (t : List ε) : Prop :=
  ∃ a e b, t = a ++ e :: b ∧ good e ∧ ∀ x ∈ b, ¬ bad x

theorem since_concat_good (he : good e) : Since good bad (t ++ [e]) :=
  ⟨t, e, [], rfl, he, fun _ h ↦ nomatch h⟩

theorem Since.concat (h : Since good bad t) (he : ¬ bad e) : Since good bad (t ++ [e]) := by
  obtain ⟨a, x, b, rfl, hx, hb⟩ := h
  refine ⟨a, x, b ++ [e], by simp, hx, fun y hy ↦ ?_⟩
  rcases List.mem_append.mp hy with hy | hy
  · exact hb y hy
  · rwa [List.mem_singleton.mp hy]

theorem Since.append {t' : List ε} (h : Since good bad t) (ht : ∀ x ∈ t', ¬ bad x) :
    Since good bad (t ++ t') := by
  obtain ⟨a, e, b, rfl, he, hb⟩ := h
  refine ⟨a, e, b ++ t', by simp, he, fun x hx ↦ ?_⟩
  exact (List.mem_append.mp hx).elim (hb x) (ht x)

/-- Entries that `P` does not pick add nothing. -/
theorem Preceded.append {t' : List ε} (h : Preceded P Q t) (ht : ∀ x ∈ t', ¬ P x) :
    Preceded P Q (t ++ t') := by
  induction t' using List.reverseRecOn with
  | nil => rwa [List.append_nil]
  | append_singleton t' e ih =>
    rw [← List.append_assoc]
    refine (ih fun x hx ↦ ht x (List.mem_append_left _ hx)).concat (ht e ?_)
    exact List.mem_append_right _ (List.mem_singleton_self e)

/-- What an entry more makes of it. -/
theorem since_concat :
    Since good bad (t ++ [e]) ↔ good e ∨ Since good bad t ∧ ¬ bad e := by
  refine ⟨?_, fun h ↦ h.elim since_concat_good fun h ↦ h.1.concat h.2⟩
  rintro ⟨a, x, b, heq, hx, hb⟩
  rcases List.eq_nil_or_concat b with rfl | ⟨b, y, rfl⟩
  · obtain ⟨-, heq⟩ := List.append_inj' heq rfl
    cases heq
    exact .inl hx
  · rw [List.concat_eq_append, ← List.cons_append, ← List.append_assoc] at heq
    obtain ⟨rfl, hlast⟩ := List.append_inj' heq rfl
    obtain rfl := List.singleton_inj.mp hlast
    exact .inr ⟨⟨a, x, b, rfl, hx, fun z hz ↦ hb z (by simp [hz])⟩, hb _ (by simp)⟩

/-- **Each bad thing spends a good one**: where something good stands before every bad thing, since
the bad thing before it, there are no more bad things than good ones, and fewer as long as the last
good thing is not spent. -/
theorem countP_le_of_preceded [DecidablePred good] [DecidablePred bad]
    (hne : ∀ x, good x → ¬ bad x) (h : Preceded bad (Since good bad) t) :
    t.countP (bad ·) ≤ t.countP (good ·) ∧
      (Since good bad t → t.countP (bad ·) < t.countP (good ·)) := by
  induction t using List.reverseRecOn with
  | nil =>
    refine ⟨Nat.le_refl _, ?_⟩
    rintro ⟨a, e, b, heq, -, -⟩
    simp at heq
  | append_singleton t e ih =>
    obtain ⟨ht, he⟩ := preceded_concat.mp h
    obtain ⟨hle, hlt⟩ := ih ht
    rw [List.countP_append, List.countP_append, List.countP_singleton, List.countP_singleton,
      since_concat]
    by_cases hbad : bad e
    · have hgood : ¬ good e := fun hg ↦ hne e hg hbad
      have hspent := hlt (he hbad)
      rw [decide_eq_true hbad, decide_eq_false hgood, if_pos rfl, if_neg Bool.false_ne_true]
      exact ⟨hspent, fun h ↦ absurd hbad (h.resolve_left hgood).2⟩
    · rw [decide_eq_false hbad, if_neg Bool.false_ne_true]
      by_cases hgood : good e
      · rw [decide_eq_true hgood, if_pos rfl]
        exact ⟨by omega, fun _ ↦ by omega⟩
      · rw [decide_eq_false hgood, if_neg Bool.false_ne_true]
        exact ⟨hle, fun h ↦ hlt (h.resolve_left hgood).1⟩

end Trace
