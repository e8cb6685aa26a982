import Mathlib.Data.List.DropRight
import Mathlib.Data.List.Sort
import HsUploader.Library.Table

/-!
# Tables that count their rows

A `RowTable` keeps its rows by row ids it gives out itself, each one above all it has ever given
out: an `INTEGER PRIMARY KEY AUTOINCREMENT`.  `insert` adds a row and `trim n` deletes all but the
`n` rows with the largest ids, by ranking the ids as `ORDER BY rowid DESC LIMIT -1 OFFSET n` does.
Since the ids only grow, what `trim` leaves is what came last (`contents_trim`), and so it is after
any number of insertions with a trim behind each (`contents_foldl_record`).

## What is here

* `RowTable` — its fields state that the ids grow along the rows and that none is above the largest
  one given out.
* `insert`, `trim`, `delete` — the statements, each keeping the fields.
* `rows_trim` — the ranking by ids, descending, leaves the last rows.
* `record` and `contents_foldl_record` — a ring of the last `n` rows, over any run.
-/

set_option autoImplicit false

namespace HsUploader

/-- Rows by their ids, and the largest id that was given out. -/
structure RowTable (α : Type) where
  rows : List (ℕ × α)
  seq : ℕ
  increasing : Table.Increasing Prod.fst rows
  le_seq : ∀ r ∈ rows, r.1 ≤ seq

namespace RowTable

variable {α : Type}

/-- The table before its first row. -/
def empty : RowTable α := ⟨[], 0, .nil, fun _ h ↦ nomatch h⟩

/-- `INSERT`: the row takes the next id. -/
def insert (t : RowTable α) (row : α) : RowTable α where
  rows := t.rows ++ [(t.seq + 1, row)]
  seq := t.seq + 1
  increasing := by
    refine t.increasing.append (List.pairwise_singleton _ _) fun r hr r' hr' ↦ ?_
    rw [List.mem_singleton.mp hr']
    exact Nat.lt_succ_of_le (t.le_seq r hr)
  le_seq r hr := by
    rcases List.mem_append.mp hr with hr | hr
    · exact (t.le_seq r hr).trans (Nat.le_succ _)
    · rw [List.mem_singleton.mp hr]

/-- The rows, the one with the largest id first: `SELECT * ORDER BY rowid DESC`. -/
def rowsDesc (t : RowTable α) : List (ℕ × α) := t.rows.mergeSort fun r s ↦ s.1 ≤ r.1

/-- The row ids, the largest first: `SELECT rowid ORDER BY rowid DESC`. -/
def idsDesc (t : RowTable α) : List ℕ := t.rowsDesc.map Prod.fst

/-- Delete every row but those with the `n` largest ids. -/
def trim (n : ℕ) (t : RowTable α) : RowTable α where
  rows := t.rows.filter fun r ↦ r.1 ∉ t.idsDesc.drop n
  seq := t.seq
  increasing := t.increasing.filter _
  le_seq r hr := t.le_seq r (List.mem_filter.mp hr).1

/-- `DELETE WHERE rowid = ?`. -/
def delete (t : RowTable α) (id : ℕ) : RowTable α where
  rows := t.rows.filter fun r ↦ r.1 ≠ id
  seq := t.seq
  increasing := t.increasing.filter _
  le_seq r hr := t.le_seq r (List.mem_filter.mp hr).1

/-- The rows without their ids, in the order of the ids. -/
def contents (t : RowTable α) : List α := t.rows.map Prod.snd

@[simp] theorem contents_empty : (empty : RowTable α).contents = [] := rfl

@[simp] theorem contents_insert (t : RowTable α) (row : α) :
    (t.insert row).contents = t.contents ++ [row] := by
  rw [contents, insert, List.map_append]
  rfl

theorem nodup_ids (t : RowTable α) : (t.rows.map Prod.fst).Nodup :=
  List.pairwise_map.mpr (t.increasing.imp fun h ↦ h.ne)

/-- Rows sorted by falling ids are the rows from the last one on. -/
theorem rowsDesc_eq (t : RowTable α) : t.rowsDesc = t.rows.reverse := by
  have hdesc : t.rows.reverse.Pairwise fun r s ↦ s.1 < r.1 := List.pairwise_reverse.mpr t.increasing
  have htrans : ∀ a b c : ℕ × α, decide (b.1 ≤ a.1) = true → decide (c.1 ≤ b.1) = true →
      decide (c.1 ≤ a.1) = true := fun a b c hab hbc ↦
    decide_eq_true ((of_decide_eq_true hbc).trans (of_decide_eq_true hab))
  have htotal : ∀ a b : ℕ × α, (decide (b.1 ≤ a.1) || decide (a.1 ≤ b.1)) = true := fun a b ↦ by
    rw [Bool.or_eq_true, decide_eq_true_eq, decide_eq_true_eq]
    exact le_total b.1 a.1
  have hsorted : t.rowsDesc.Pairwise fun r s ↦ s.1 ≤ r.1 :=
    (List.pairwise_mergeSort htrans htotal _).imp fun h ↦ of_decide_eq_true h
  have hperm : t.rowsDesc.Perm t.rows.reverse :=
    (List.mergeSort_perm _ _).trans (List.reverse_perm _).symm
  refine hperm.eq_of_pairwise (fun r s hr hs hle hlt ↦ ?_) hsorted (hdesc.imp fun h ↦ h.le)
  have hr' : r ∈ t.rows := (List.mergeSort_perm _ _).mem_iff.mp hr
  exact t.increasing.eq_of_key_eq hr' (List.mem_reverse.mp hs) (le_antisymm hlt hle)

theorem idsDesc_eq (t : RowTable α) : t.idsDesc = (t.rows.map Prod.fst).reverse := by
  rw [idsDesc, rowsDesc_eq, List.map_reverse]

/-- **A trim leaves the rows that came last.** -/
theorem rows_trim (n : ℕ) (t : RowTable α) : (t.trim n).rows = t.rows.rtake n := by
  obtain ⟨old, new, hold, hnew⟩ : ∃ old new, t.rows.rdrop n = old ∧ t.rows.rtake n = new :=
    ⟨_, _, rfl, rfl⟩
  have hsplit : t.rows = old ++ new := by
    rw [← hold, ← hnew]
    exact (List.take_append_drop _ _).symm
  have hdrop : t.idsDesc.drop n = (old.map Prod.fst).reverse := by
    rw [idsDesc_eq, ← hold, ← List.map_reverse, ← List.map_drop, ← List.map_reverse,
      List.rdrop_eq_reverse_drop_reverse, List.reverse_reverse]
  have hdisjoint := t.nodup_ids
  rw [hsplit, List.map_append, List.nodup_append] at hdisjoint
  simp only [trim, hdrop, List.mem_reverse]
  rw [hnew, hsplit, List.filter_append, List.filter_eq_nil_iff.mpr, List.filter_eq_self.mpr,
    List.nil_append]
  · intro r hr
    rw [decide_eq_true_eq]
    exact fun hr' ↦ hdisjoint.2.2 r.1 hr' r.1 (List.mem_map_of_mem hr) rfl
  · intro r hr
    rw [decide_eq_true_eq, not_not]
    exact List.mem_map_of_mem hr

theorem contents_trim (n : ℕ) (t : RowTable α) : (t.trim n).contents = t.contents.rtake n := by
  rw [contents, rows_trim, List.rtake, List.map_drop, contents, List.rtake, List.length_map]

/-- Cutting to the last `n`, adding rows and cutting again is adding them and cutting once. -/
theorem rtake_rtake_append (n : ℕ) (l l' : List α) (h : l' ≠ []) :
    (l.rtake n ++ l').rtake n = (l ++ l').rtake n := by
  have hpos := List.length_pos_iff.mpr h
  simp only [List.rtake, List.length_append, List.length_drop, List.drop_append, List.drop_drop]
  congr 1
  · congr 1
    omega
  · congr 1
    omega

/-- Insert a row and trim behind it. -/
def record (n : ℕ) (t : RowTable α) (row : α) : RowTable α := (t.insert row).trim n

theorem contents_record (n : ℕ) (t : RowTable α) (row : α) :
    (t.record n row).contents = (t.contents ++ [row]).rtake n := by
  rw [record, contents_trim, contents_insert]

/-- **After any number of rows the table holds the last `n` of all there were.** -/
theorem contents_foldl_record (n : ℕ) (t : RowTable α) (rows : List α) (row : α) :
    ((rows ++ [row]).foldl (record n) t).contents = (t.contents ++ (rows ++ [row])).rtake n := by
  induction rows using List.reverseRecOn generalizing row with
  | nil => exact contents_record n t row
  | append_singleton rows last ih =>
    rw [List.foldl_append, List.foldl_cons, List.foldl_nil, contents_record, ih last,
      rtake_rtake_append n _ _ (List.cons_ne_nil _ _), List.append_assoc]

theorem rows_foldl_delete (t : RowTable α) (ids : List ℕ) :
    (ids.foldl delete t).rows = t.rows.filter fun r ↦ r.1 ∉ ids := by
  induction ids generalizing t with
  | nil => simp
  | cons id ids ih =>
    rw [List.foldl_cons, ih, delete, List.filter_filter]
    refine List.filter_congr fun r _ ↦ ?_
    simp [Bool.and_comm]

theorem contents_foldl_insert (t : RowTable α) (rows : List α) :
    (rows.foldl insert t).contents = t.contents ++ rows := by
  induction rows generalizing t with
  | nil => simp
  | cons row rows ih => rw [List.foldl_cons, ih, contents_insert, List.append_assoc]; rfl

theorem mem_foldl_insert {t : RowTable α} (rows : List α) {r : ℕ × α} (h : r ∈ t.rows) :
    r ∈ (rows.foldl insert t).rows := by
  induction rows generalizing t with
  | nil => exact h
  | cons row rows ih => exact ih (List.mem_append_left _ h)

end RowTable

end HsUploader
