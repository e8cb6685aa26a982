import Mathlib.Data.List.Basic

/-!
# Fields of a line

A line is split at the letters that satisfy a predicate, and the empty pieces between them are
dropped.  The fields of a line that was joined with a blank are the fields of its cells, one cell
after another (`fields_intercalate`), so that where a field stands is a matter of how many fields
each cell before it has.

## What is here

* `fields` and `Word` — the fields of a line, and the texts that are one field.
* `fields_intercalate` — the fields of a joined line, cell after cell.

Nothing is said of how the cells came to be: a cell of two words gives two fields, an empty one
none.
-/

set_option autoImplicit false

namespace Fields

variable {α : Type*} (p : α → Bool)

/-- The fields of a line. -/
def fields (l : List α) : List (List α) := (l.splitOnP p).filter fun piece ↦ !piece.isEmpty

/-- One field: not empty and not split. -/
def Word (w : List α) : Prop := w ≠ [] ∧ ∀ a ∈ w, p a = false

variable {p}

@[simp] theorem fields_nil : fields p [] = [] := by simp [fields]

/-- A line is split at a letter between two of its parts. -/
theorem fields_append_cons {xs ys : List α} {sep : α} (h : p sep = true) :
    fields p (xs ++ sep :: ys) = fields p xs ++ fields p ys := by
  rw [fields, List.splitOnP_append_cons xs ys h, List.filter_append, fields, fields]

theorem fields_cons_sep {ys : List α} {sep : α} (h : p sep = true) :
    fields p (sep :: ys) = fields p ys := @fields_append_cons _ _ [] _ _ h

theorem fields_of_word {w : List α} (h : Word p w) : fields p w = [w] := by
  rw [fields, List.splitOnP_eq_singleton h.2]
  simp [h.1]

/-- Letters that split before a line make no field. -/
theorem fields_replicate_append {sep : α} (h : p sep = true) (n : ℕ) (xs : List α) :
    fields p (List.replicate n sep ++ xs) = fields p xs := by
  induction n with
  | zero => rfl
  | succ n ih => rw [List.replicate_succ, List.cons_append, fields_cons_sep h, ih]

/-- Letters that split after a line make no field. -/
theorem fields_append_replicate {sep : α} (h : p sep = true) (n : ℕ) (xs : List α) :
    fields p (xs ++ List.replicate n sep) = fields p xs := by
  cases n with
  | zero => rw [List.replicate_zero, List.append_nil]
  | succ n =>
    have hblank : fields p (List.replicate n sep) = [] := by
      simpa using fields_replicate_append h n []
    rw [List.replicate_succ, fields_append_cons h, hblank, List.append_nil]

/-- **The fields of a joined line** are those of its cells. -/
theorem fields_intercalate {sep : α} (h : p sep = true) (cells : List (List α)) :
    fields p (List.intercalate [sep] cells) = cells.flatMap (fields p) := by
  induction cells with
  | nil => simp [List.intercalate]
  | cons c cells ih =>
    cases cells with
    | nil => simp [List.intercalate]
    | cons d cells =>
      rw [List.intercalate_cons_cons, List.append_assoc, List.singleton_append,
        fields_append_cons h, ih, ← List.flatMap_cons]

/-- The pieces between the letters that split have none of them. -/
theorem forall_mem_splitOnP (l : List α) : ∀ piece ∈ l.splitOnP p, ∀ a ∈ piece, p a = false := by
  induction l with
  | nil => simp
  | cons x l ih =>
    rw [List.splitOnP_cons_eq_if_modifyHead]
    split_ifs with hx
    · simpa using ih
    · cases hl : l.splitOnP p with
      | nil => simp
      | cons piece rest =>
        rw [hl] at ih
        rw [List.modifyHead_cons, List.forall_mem_cons, List.forall_mem_cons]
        have hrest := List.forall_mem_cons.mp ih
        exact ⟨⟨by simpa using hx, hrest.1⟩, hrest.2⟩

/-- Each field is a word. -/
theorem word_of_mem_fields {l w : List α} (h : w ∈ fields p l) : Word p w := by
  obtain ⟨hpiece, hne⟩ := List.mem_filter.mp h
  exact ⟨by simpa using hne, forall_mem_splitOnP l w hpiece⟩

end Fields
