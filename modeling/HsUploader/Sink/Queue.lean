import HsUploader.Core.Types
import HsUploader.Library.Table

/-!
# The queue of the sink

`pending_uploads`, the table that writers fill and sources read.  Row ids come from AUTOINCREMENT:
they increase strictly and are never used again, also after a row is deleted.  A file written by an
old version may lack the `producer` and the `local` column until some writer calls
`ensure_columns`; a row stored before that reads as having the column's default.

`Queue` carries these facts, so that no operation on it has to be told about them again.  `SinkOp`
is what other processes do to the sink: writers create the queue, add the columns and insert rows,
and other sources or a janitor delete rows.

## What is here

* `Row` and `NewRow` — a stored row, and what a writer brings.
* `Queue` — the table with its largest id; its fields state that ids increase strictly along the
  rows and that a file without a column holds no row that would need it.
* `insert`, `delete`, `ensureColumns` — the three statements, each keeping the fields.
* `Sink` and `SinkOp` — the file, which may not be there yet, and what others do to it.
* `Grows` — what writers leave of a sink: the rows in front, and larger ids behind.
-/

set_option autoImplicit false

namespace HsUploader

/-- One row of `pending_uploads`. -/
structure Row where
  id : ℤ
  targetDb : String
  targetTable : String
  schemaVersion : ℤ
  payloadJson : Payload
  queuedAt : String
  producer : String := ""
  /-- `local`: the row stays in the sink. -/
  isLocal : Bool := false

/-- What a writer inserts: a row without its id. -/
structure NewRow where
  targetDb : String
  targetTable : String
  schemaVersion : ℤ := 0
  payloadJson : Payload
  queuedAt : String := ""
  producer : String := ""
  isLocal : Bool := false

/-- The table `pending_uploads`. -/
structure Queue where
  rows : List Row
  /-- The largest id given out so far. -/
  seq : ℤ
  /-- The file has the `producer` column. -/
  hasProducer : Bool
  /-- The file has the `local` column. -/
  hasLocal : Bool
  seq_nonneg : 0 ≤ seq
  increasing : Table.Increasing Row.id rows
  bounded : ∀ r ∈ rows, 0 < r.id ∧ r.id ≤ seq
  producer_default : hasProducer = false → ∀ r ∈ rows, r.producer = ""
  local_default : hasLocal = false → ∀ r ∈ rows, r.isLocal = false

namespace Queue

/-- The queue as `PENDING_UPLOADS_DDL` creates it. -/
def empty : Queue where
  rows := []
  seq := 0
  hasProducer := true
  hasLocal := true
  seq_nonneg := le_rfl
  increasing := List.Pairwise.nil
  bounded := fun _ h ↦ nomatch h
  producer_default := fun _ _ h ↦ nomatch h
  local_default := fun _ _ h ↦ nomatch h

/-- The row an insert stores: `gap` ids have been used up since the last row, by rows that are gone
or that were never committed. -/
def stored (q : Queue) (gap : ℕ) (r : NewRow) : Row where
  id := q.seq + 1 + gap
  targetDb := r.targetDb
  targetTable := r.targetTable
  schemaVersion := r.schemaVersion
  payloadJson := r.payloadJson
  queuedAt := r.queuedAt
  producer := if q.hasProducer then r.producer else ""
  isLocal := q.hasLocal && r.isLocal

@[simp] theorem id_stored (q : Queue) (gap : ℕ) (r : NewRow) :
    (q.stored gap r).id = q.seq + 1 + gap := rfl

/-- `INSERT INTO pending_uploads`. -/
def insert (q : Queue) (gap : ℕ) (r : NewRow) : Queue where
  rows := q.rows ++ [q.stored gap r]
  seq := q.seq + 1 + gap
  hasProducer := q.hasProducer
  hasLocal := q.hasLocal
  seq_nonneg := by
    have := q.seq_nonneg
    omega
  increasing := q.increasing.append (List.pairwise_singleton _ _) fun a ha b hb ↦ by
    have := (q.bounded a ha).2
    rw [List.mem_singleton.mp hb, id_stored]
    omega
  bounded := fun a ha ↦ by
    have hseq := q.seq_nonneg
    rcases List.mem_append.mp ha with ha | ha
    · have := q.bounded a ha
      omega
    · rw [List.mem_singleton.mp ha, id_stored]
      omega
  producer_default := fun h a ha ↦ by
    rcases List.mem_append.mp ha with ha | ha
    · exact q.producer_default h a ha
    · rw [List.mem_singleton.mp ha, stored, h]
      rfl
  local_default := fun h a ha ↦ by
    rcases List.mem_append.mp ha with ha | ha
    · exact q.local_default h a ha
    · rw [List.mem_singleton.mp ha, stored, h]
      rfl

/-- `DELETE FROM pending_uploads WHERE ...`, of the rows that satisfy `hit`. -/
def delete (q : Queue) (hit : Row → Bool) : Queue where
  rows := q.rows.filter fun r ↦ !hit r
  seq := q.seq
  hasProducer := q.hasProducer
  hasLocal := q.hasLocal
  seq_nonneg := q.seq_nonneg
  increasing := q.increasing.filter _
  bounded := fun a ha ↦ q.bounded a (List.mem_filter.mp ha).1
  producer_default := fun h a ha ↦ q.producer_default h a (List.mem_filter.mp ha).1
  local_default := fun h a ha ↦ q.local_default h a (List.mem_filter.mp ha).1

/-- `ensure_columns`: add the columns an older file lacks.  No row changes. -/
def ensureColumns (q : Queue) : Queue :=
  { q with
    hasProducer := true
    hasLocal := true
    producer_default := nofun
    local_default := nofun }

end Queue

/-- The sink file: the queue, once some writer has created it. -/
abbrev Sink := Option Queue

/-- What another process does to the sink. -/
inductive SinkOp where
  /-- A writer opens the sink: `CREATE TABLE IF NOT EXISTS`. -/
  | create
  /-- A writer adds the columns an older file lacks. -/
  | ensureColumns
  /-- A writer inserts a row. -/
  | insert (gap : ℕ) (row : NewRow)
  /-- Another source, or the janitor, deletes rows. -/
  | delete (hit : Row → Bool)

namespace SinkOp

/-- The sink after another process's act.  Before the queue exists only `create` does anything. -/
def apply : SinkOp → Sink → Sink
  | create, none => some .empty
  | create, some q => some q
  | ensureColumns, s => s.map Queue.ensureColumns
  | insert gap row, s => s.map fun q ↦ q.insert gap row
  | delete hit, s => s.map fun q ↦ q.delete hit

/-- The act is one of a writer that finds the columns in place: it creates the queue or inserts. -/
def IsWrite : SinkOp → Prop
  | create | insert _ _ => True
  | ensureColumns | delete _ => False

end SinkOp

namespace Sink

/-- The rows of the sink, none before the queue exists. -/
def rows : Sink → List Row
  | none => []
  | some q => q.rows

/-- The largest id given out so far. -/
def seq : Sink → ℤ
  | none => 0
  | some q => q.seq

/-- `PRAGMA table_info(pending_uploads)` lists `producer`. -/
def hasProducer : Sink → Bool
  | none => false
  | some q => q.hasProducer

/-- `PRAGMA table_info(pending_uploads)` lists `local`. -/
def hasLocal : Sink → Bool
  | none => false
  | some q => q.hasLocal

/-- The sink after a `DELETE` of this process. -/
def delete (s : Sink) (hit : Row → Bool) : Sink := s.map fun q ↦ q.delete hit

@[simp] theorem rows_delete (s : Sink) (hit : Row → Bool) :
    (s.delete hit).rows = s.rows.filter fun r ↦ !hit r := by
  cases s <;> rfl

@[simp] theorem seq_delete (s : Sink) (hit : Row → Bool) : (s.delete hit).seq = s.seq := by
  cases s <;> rfl

@[simp] theorem isSome_delete (s : Sink) (hit : Row → Bool) :
    (s.delete hit).isSome = s.isSome := by
  cases s <;> rfl

@[simp] theorem hasProducer_delete (s : Sink) (hit : Row → Bool) :
    (s.delete hit).hasProducer = s.hasProducer := by
  cases s <;> rfl

@[simp] theorem hasLocal_delete (s : Sink) (hit : Row → Bool) :
    (s.delete hit).hasLocal = s.hasLocal := by
  cases s <;> rfl

theorem increasing (s : Sink) : Table.Increasing Row.id s.rows := by
  cases s with
  | none => exact List.Pairwise.nil
  | some q => exact q.increasing

theorem bounded {s : Sink} {r : Row} (h : r ∈ s.rows) : 0 < r.id ∧ r.id ≤ s.seq := by
  cases s with
  | none => cases h
  | some q => exact q.bounded r h

/-- The columns of the table, or those it will be created with. -/
def columns : Sink → Bool × Bool
  | none => (true, true)
  | some q => (q.hasProducer, q.hasLocal)

@[simp] theorem columns_delete (s : Sink) (hit : Row → Bool) :
    (s.delete hit).columns = s.columns := by
  cases s <;> rfl

theorem columns_of_isSome {s : Sink} (h : s.isSome) : s.columns = (s.hasProducer, s.hasLocal) := by
  cases s with
  | none => cases h
  | some q => rfl

/-- The sink has grown: the rows that were there stay in front, whatever is new lies past every id
given out before, and the columns are the same. -/
structure Grows (s s' : Sink) : Prop where
  rows : ∃ new, s'.rows = s.rows ++ new ∧ ∀ r ∈ new, s.seq < r.id
  seq_le : s.seq ≤ s'.seq
  isSome : s.isSome → s'.isSome
  columns : s'.columns = s.columns

namespace Grows

variable {s s' s'' : Sink}

theorem refl (s : Sink) : Grows s s where
  rows := ⟨[], (List.append_nil _).symm, fun _ h ↦ nomatch h⟩
  seq_le := le_rfl
  isSome := id
  columns := rfl

theorem trans (h : Grows s s') (h' : Grows s' s'') : Grows s s'' where
  rows := by
    obtain ⟨new, hrows, hnew⟩ := h.rows
    obtain ⟨new', hrows', hnew'⟩ := h'.rows
    refine ⟨new ++ new', by rw [hrows', hrows, List.append_assoc], fun r hr ↦ ?_⟩
    rcases List.mem_append.mp hr with hr | hr
    · exact hnew r hr
    · exact h.seq_le.trans_lt (hnew' r hr)
  seq_le := h.seq_le.trans h'.seq_le
  isSome := h'.isSome ∘ h.isSome
  columns := h'.columns.trans h.columns

/-- The rows that are there stay there. -/
theorem mem_rows (h : Grows s s') {r : Row} (hr : r ∈ s.rows) : r ∈ s'.rows := by
  obtain ⟨new, hrows, -⟩ := h.rows
  rw [hrows]
  exact List.mem_append_left _ hr

/-- A write makes the sink grow. -/
theorem apply {op : SinkOp} (h : op.IsWrite) (s : Sink) : Grows s (op.apply s) := by
  cases op with
  | create =>
    cases s with
    | none => exact ⟨⟨[], rfl, fun _ h ↦ nomatch h⟩, le_rfl, nofun, rfl⟩
    | some q => exact refl _
  | insert gap row =>
    cases s with
    | none => exact refl _
    | some q =>
      refine ⟨⟨[q.stored gap row], rfl, fun r hr ↦ ?_⟩, ?_, fun _ ↦ rfl, rfl⟩
      · rw [List.mem_singleton.mp hr, Queue.id_stored, seq]
        omega
      · change q.seq ≤ q.seq + 1 + gap
        omega
  | ensureColumns => exact h.elim
  | delete hit => exact h.elim

end Grows

end Sink

end HsUploader
