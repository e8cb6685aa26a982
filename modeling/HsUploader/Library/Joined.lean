import Mathlib.Data.List.Basic

/-!
# Lines joined with a separator

What a joined line was made of can be read off it as far as its parts do not have the separator
themselves: up to the first separator (`cut_first`), after the last one (`cut_last`), and altogether
where no part has it (`intercalate_inj`).

## What is here

* `cut_first` and `cut_last` — two joins that are equal have equal first parts, or last parts, where
  these have no separator.
* `intercalate_inj` — joins of parts without a separator are equal only if the parts are.
* `count_intercalate` — a join has one separator less than parts.

A part may be empty, and a separator is one letter.
-/

set_option autoImplicit false

namespace Joined

variable {α : Type*} {sep : α}

theorem intercalate_cons (part next : List α) (parts : List (List α)) :
    List.intercalate [sep] (part :: next :: parts) =
      part ++ sep :: List.intercalate [sep] (next :: parts) := by
  rw [List.intercalate_cons_cons, List.append_assoc, List.singleton_append]

/-- A part at the end. -/
theorem intercalate_concat {parts : List (List α)} (h : parts ≠ []) (last : List α) :
    List.intercalate [sep] (parts ++ [last]) = List.intercalate [sep] parts ++ sep :: last := by
  induction parts with
  | nil => exact absurd rfl h
  | cons part parts ih =>
    cases parts with
    | nil =>
      rw [List.singleton_append, intercalate_cons, List.intercalate_singleton,
        List.intercalate_singleton]
    | cons next parts =>
      have hrest := ih (List.cons_ne_nil _ _)
      rw [List.cons_append] at hrest
      rw [List.cons_append, List.cons_append, intercalate_cons, hrest, intercalate_cons,
        List.append_assoc, List.cons_append]

/-- A line is told apart at its first separator. -/
theorem cut_first {xs xs' ys ys' : List α} (h : sep ∉ xs) (h' : sep ∉ xs')
    (heq : xs ++ sep :: ys = xs' ++ sep :: ys') : xs = xs' ∧ ys = ys' := by
  induction xs generalizing xs' with
  | nil =>
    cases xs' with
    | nil => exact ⟨rfl, (List.cons.inj heq).2⟩
    | cons a xs' =>
      obtain ⟨rfl, -⟩ := List.cons.inj heq
      exact absurd List.mem_cons_self h'
  | cons a xs ih =>
    cases xs' with
    | nil =>
      obtain ⟨rfl, -⟩ := List.cons.inj heq
      exact absurd List.mem_cons_self h
    | cons b xs' =>
      obtain ⟨rfl, hrest⟩ := List.cons.inj heq
      obtain ⟨rfl, rfl⟩ := ih (fun hmem ↦ h (List.mem_cons_of_mem _ hmem))
        (fun hmem ↦ h' (List.mem_cons_of_mem _ hmem)) hrest
      exact ⟨rfl, rfl⟩

/-- A line is told apart at its last separator. -/
theorem cut_last {xs xs' ys ys' : List α} (h : sep ∉ ys) (h' : sep ∉ ys')
    (heq : xs ++ sep :: ys = xs' ++ sep :: ys') : xs = xs' ∧ ys = ys' := by
  have hreverse := congrArg List.reverse heq
  simp only [List.reverse_append, List.reverse_cons, List.append_assoc,
    List.singleton_append] at hreverse
  obtain ⟨hys, hxs⟩ := cut_first (by rwa [List.mem_reverse]) (by rwa [List.mem_reverse]) hreverse
  exact ⟨List.reverse_injective hxs, List.reverse_injective hys⟩

theorem mem_intercalate_sep (part next : List α) (parts : List (List α)) :
    sep ∈ List.intercalate [sep] (part :: next :: parts) := by
  rw [intercalate_cons]
  exact List.mem_append_right _ List.mem_cons_self

/-- **The parts of a joined line** can be read off it, where none of them has the separator. -/
theorem intercalate_inj {ps qs : List (List α)} (hne : ps ≠ []) (hne' : qs ≠ [])
    (h : ∀ p ∈ ps, sep ∉ p) (h' : ∀ q ∈ qs, sep ∉ q)
    (heq : List.intercalate [sep] ps = List.intercalate [sep] qs) : ps = qs := by
  induction ps generalizing qs with
  | nil => exact absurd rfl hne
  | cons p ps ih =>
    obtain ⟨q, qs, rfl⟩ := List.exists_cons_of_ne_nil hne'
    rw [List.forall_mem_cons] at h h'
    match ps, qs with
    | [], [] =>
      rw [List.intercalate_singleton, List.intercalate_singleton] at heq
      rw [heq]
    | [], next :: qs =>
      rw [List.intercalate_singleton] at heq
      exact absurd (heq ▸ mem_intercalate_sep q next qs) h.1
    | next :: ps, [] =>
      rw [List.intercalate_singleton] at heq
      exact absurd (heq ▸ mem_intercalate_sep p next ps) h'.1
    | next :: ps, next' :: qs =>
      rw [intercalate_cons, intercalate_cons] at heq
      obtain ⟨rfl, hrest⟩ := cut_first h.1 h'.1 heq
      rw [ih (List.cons_ne_nil _ _) (List.cons_ne_nil _ _) h.2 h'.2 hrest]

/-- A joined line has one separator less than it has parts, where none of them has it. -/
theorem count_intercalate [DecidableEq α] {ps : List (List α)} (hne : ps ≠ [])
    (h : ∀ p ∈ ps, sep ∉ p) : (List.intercalate [sep] ps).count sep + 1 = ps.length := by
  induction ps with
  | nil => exact absurd rfl hne
  | cons p ps ih =>
    rw [List.forall_mem_cons] at h
    match ps with
    | [] =>
      rw [List.intercalate_singleton, List.count_eq_zero_of_not_mem h.1, List.length_singleton]
    | next :: ps =>
      rw [intercalate_cons, List.count_append, List.count_cons_self,
        List.count_eq_zero_of_not_mem h.1, Nat.zero_add, ih (List.cons_ne_nil _ _) h.2]
      rfl

end Joined
