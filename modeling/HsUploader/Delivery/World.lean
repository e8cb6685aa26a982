import HsUploader.Core.PumpRules
import HsUploader.Library.Outbox
import HsUploader.Sources.Selection
import HsUploader.Sources.SqliteSpec
import HsUploader.Transports.Unspecified

/-!
# Delivering queue rows

One pipeline from a source of queue rows to a transport that leaves its answers open, and the words
in which its guarantees are stated: the rows that were delivered, the rows that commits deleted, the
cursor of the send record.

`SqliteSource.protocol` is the same pipeline as `Outbox` sees it.  A read there is what the batch
query selects, so what `Outbox` asks of reads is asked of the query.

## What is here

* `PipelineSettings` and `SqliteSource.pipeline` — a pipeline from a source of queue rows to a
  transport whose every answer the environment chooses.
* `Event.delivered` and `deliveredRows` — what was delivered, read off the answers: the rows of a
  payload that was acked, and up to the accepted cursor those of one that was acked in part.
* `deletedRows`, `everStored`, `storedCursor` — what commits deleted, what was ever inserted, and
  where the send record stands.
* `Fresh` — the start: a source that has just been built, no record and no retry.
* `Meets` and `Statement.IsGood` — a condition on the reads of a run, for any property of a table, a
  cursor and a selection, and on its partial acks.
* `Covers` — the property by which a read leaves out no row of a kind.
-/

set_option autoImplicit false

namespace HsUploader

/-- The settings of a pipeline other than its source. -/
structure PipelineSettings where
  name : String
  client : String := ""
  retry : RetryPolicy := {}
  batchLimit : ℤ := 1000
  maxRecordsPerPump : Option ℤ := none
  transportName : String
  primaryTable : String
  batchPolicy : BatchPolicy := {}
  ships : Bool := true
  /-- The length of a retry payload in bytes. -/
  size : List QueuedRecord → ℕ := List.length

/-- The limit a pump passes to the source. -/
def PipelineSettings.limit (set : PipelineSettings) : ℤ :=
  min set.batchLimit set.batchPolicy.maxRecords

/-- The world of a pipeline over the queue. -/
abbrev QueueWorld := World (Outside SqliteMem) Act QueuedRecord (List QueuedRecord)

/-- Where a pump of such a pipeline is. -/
abbrev QueuePhase := Phase (Outside SqliteMem) Act QueuedRecord (List QueuedRecord)

/-- The pipeline from a source to a transport that leaves its answers open. -/
def PipelineSettings.pipeline {μ : Type} (set : PipelineSettings)
    (source : Source (Outside μ) Act QueuedRecord) :
    Pipeline (Outside μ) Act QueuedRecord (List QueuedRecord) where
  name := set.name
  source := source
  transport := .unspecified set.transportName set.primaryTable set.batchPolicy set.ships set.size
  retry := set.retry
  batchLimit := set.batchLimit
  maxRecordsPerPump := set.maxRecordsPerPump
  client := set.client

/-- The pipeline from a source of queue rows. -/
def SqliteSource.pipeline (src : SqliteSource) (set : PipelineSettings) :
    Pipeline (Outside SqliteMem) Act QueuedRecord (List QueuedRecord) :=
  set.pipeline src.source

/-! ## What was delivered, what was deleted -/

/-- The rows of a list of records. -/
def rowsOf (records : List QueuedRecord) : List Row := records.map QueuedRecord.row

/-- The row lies at or below the cursor an outcome has accepted. -/
def Outcome.accepts (o : Outcome QueuedRecord) (b : RecordBatch QueuedRecord) (r : Row) : Bool :=
  match cursorFromBytes (o.acceptedOr b.cursorAfter) with
  | .ok n => r.id ≤ n
  | .error _ => false

/-- The rows an entry of the trace delivers: those of an acked payload, and of a batch acked in part
those up to the accepted cursor. -/
def Event.delivered : Event QueuedRecord (List QueuedRecord) → List Row
  | .shipped b o =>
    match o.kind with
    | .acked => rowsOf b.records
    | .partialAck => (rowsOf b.records).filter (o.accepts b)
    | _ => []
  | .replayed d o => if o.kind = .acked then rowsOf d.payloadBlob else []
  | .gate _ | .shipping _ | .replaying _ => []

/-- The rows delivered, in the order in which their payloads were acked. -/
def deliveredRows (trace : List (Event QueuedRecord (List QueuedRecord))) : List Row :=
  trace.flatMap Event.delivered

/-- The rows commits have deleted. -/
def deletedRows (log : List Statement) : List Row :=
  log.flatMap fun st ↦ if st.kind = .delete then st.hit else []

/-- The id the send record's cursor stands at, 0 without a record. -/
def storedCursor (pipe : Pipeline (Outside SqliteMem) Act QueuedRecord (List QueuedRecord))
    (s : Store (List QueuedRecord)) : Except Exn ℤ := do
  let c ← s.getCursor pipe.key
  cursorFromBytes c

/-- No send record, no retry of this pipeline, and a source object that has just been built. -/
structure Fresh (src : SqliteSource) (set : PipelineSettings) (w : QueueWorld) : Prop where
  mem : w.sys.here.mem = src.freshMem
  log : w.sys.here.log = []
  trace : w.trace = []
  record : Table.lookup (src.pipeline set).key w.store.watermarks = none
  queue : ∀ d ∈ w.store.deliverables, d.pipeline ≠ set.name

theorem Fresh.storedCursor {src : SqliteSource} {set : PipelineSettings} {w : QueueWorld}
    (h : Fresh src set w) : storedCursor (src.pipeline set) w.store = .ok 0 := by
  rw [HsUploader.storedCursor, Store.getCursor, h.record]
  rfl

@[simp] theorem deliveredRows_append (t t' : List (Event QueuedRecord (List QueuedRecord))) :
    deliveredRows (t ++ t') = deliveredRows t ++ deliveredRows t' :=
  List.flatMap_append

@[simp] theorem deliveredRows_singleton (e : Event QueuedRecord (List QueuedRecord)) :
    deliveredRows [e] = e.delivered := by
  rw [deliveredRows, List.flatMap_cons, List.flatMap_nil, List.append_nil]

theorem deletedRows_append (l l' : List Statement) :
    deletedRows (l ++ l') = deletedRows l ++ deletedRows l' :=
  List.flatMap_append

theorem deletedRows_of_select {l : List Statement} (h : ∀ st ∈ l, st.kind ≠ .delete) :
    deletedRows l = [] := by
  refine List.flatMap_eq_nil_iff.mpr fun st hst ↦ ?_
  rw [if_neg (h st hst)]

/-- The rows the sink has, and those that commits have deleted. -/
def everStored (o : Outside SqliteMem) : List Row := o.sink.rows ++ deletedRows o.log

/-! ## The cursor after an advance -/

theorem compareCursors_cursorIsAfter {c stored : Bytes} {n m : ℤ} (hc : cursorFromBytes c = .ok m)
    (hs : cursorFromBytes stored = .ok n) (hm : 0 < m) :
    ∃ before, Store.compareCursors SqliteSource.cursorIsAfter c stored =
      .ok (decide (n < m), before) := by
  have hcne : c.isEmpty = false := by
    rw [List.isEmpty_eq_false_iff]
    rintro rfl
    obtain rfl : 0 = m := Except.ok.inj hc
    exact lt_irrefl _ hm
  have hafter : SqliteSource.cursorIsAfter c stored = .ok (decide (n < m)) := by
    rw [SqliteSource.cursorIsAfter]
    split
    · rename_i hnil
      rw [List.isEmpty_iff] at hnil
      subst hnil
      obtain rfl : 0 = n := Except.ok.inj hs
      rw [decide_eq_true hm]
    · rw [hc, hs]
  have hbefore : SqliteSource.cursorIsAfter stored c = .ok (decide (m < n)) := by
    rw [SqliteSource.cursorIsAfter, hcne, if_neg Bool.false_ne_true, hs, hc]
  rw [Store.compareCursors, hafter, hbefore]
  by_cases hstop : (decide (n < m) || decide (c = stored)) = true
  · exact ⟨false, by simp only [bind, Except.bind, hstop]; rfl⟩
  · exact ⟨decide (m < n), by simp only [bind, Except.bind, hstop]; rfl⟩

/-- **An advance moves the cursor forward only.** -/
theorem storedCursor_advanceCursor {src : SqliteSource} {set : PipelineSettings}
    {s : Store (List QueuedRecord)} {c : Bytes} {n m : ℤ} (t : Stamp)
    (hs : storedCursor (src.pipeline set) s = .ok n) (hc : cursorFromBytes c = .ok m)
    (hm : 0 < m) :
    storedCursor (src.pipeline set) (s.advanceCursor (src.pipeline set).key c t
      (isAfterFor (src.pipeline set).source)).2 = .ok (max n m) := by
  rw [storedCursor] at hs
  obtain ⟨stored, hget, hn⟩ := Prog.exists_of_bind_eq_ok hs
  obtain ⟨before, hcmp⟩ := compareCursors_cursorIsAfter hc hn hm
  have hnew : stored = [] → decide (n < m) = true := by
    rintro rfl
    obtain rfl : 0 = n := Except.ok.inj hn
    exact decide_eq_true hm
  rw [storedCursor, isAfterFor]
  change (((s.advanceCursor _ c t SqliteSource.cursorIsAfter).2.getCursor _) >>= _) = _
  rw [Store.getCursor_advanceCursor t hget hcmp hnew]
  by_cases hlt : n < m
  · rw [decide_eq_true hlt, if_pos rfl, max_eq_right hlt.le]
    exact hc
  · rw [decide_eq_false hlt, if_neg Bool.false_ne_true, max_eq_left (not_lt.mp hlt)]
    exact hn

/-! ## The condition on a run -/

/-- A partial ack in this entry accepts the whole batch. -/
def Event.FullyAccepted : Event QueuedRecord (List QueuedRecord) → Prop
  | .shipped b o => o.kind = .partialAck →
    (cursorFromBytes (o.acceptedOr b.cursorAfter)).toOption =
      (cursorFromBytes b.cursorAfter).toOption
  | _ => True

instance : DecidablePred Event.FullyAccepted
  | .shipped b o => inferInstanceAs (Decidable (o.kind = .partialAck →
    (cursorFromBytes (o.acceptedOr b.cursorAfter)).toOption =
      (cursorFromBytes b.cursorAfter).toOption))
  | .gate _ | .shipping _ | .replaying _ | .replayed _ _ => isTrue trivial

/-- If the statement is a batch query that gave a batch, it is a good one, as the table it ran on,
its cursor and the rows it selected go. -/
def Statement.IsGood (good : List Row → ℤ → List Row → Prop) (st : Statement) : Prop :=
  match st.kind with
  | .select cur _ => objectRows st.hit ≠ [] → good st.rows cur st.hit
  | .selectCycle _ | .delete => True

/-- Every read of the run that gave a batch is a good one, and every partial ack accepts the whole
batch. -/
structure Meets (good : List Row → ℤ → List Row → Prop) (w : QueueWorld) : Prop where
  reads : ∀ st ∈ w.sys.here.log, st.IsGood good
  accepted : ∀ e ∈ w.trace, e.FullyAccepted

/-- A read that leaves out no wanted row between its cursor and the last row it selects: each of them
is selected and gives a record. -/
def Covers (want : Row → Prop) (table : List Row) (cur : ℤ) (hit : List Row) : Prop :=
  ∀ r ∈ table, want r → cur < r.id → (∀ x ∈ hit.getLast?, r.id ≤ x.id) →
    r.id ∈ (objectRows hit).map Row.id

instance (good : List Row → ℤ → List Row → Prop) [∀ table cur hit, Decidable (good table cur hit)]
    (st : Statement) : Decidable (st.IsGood good) :=
  match h : st.kind with
  | .select cur _ => decidable_of_iff
      (¬ (objectRows st.hit).isEmpty = true → good st.rows cur st.hit) (by
        rw [Statement.IsGood, h, List.isEmpty_iff])
  | .selectCycle _ | .delete => isTrue (by rw [Statement.IsGood, h]; trivial)

instance (want : Row → Prop) [DecidablePred want] (table : List Row) (cur : ℤ) (hit : List Row) :
    Decidable (Covers want table cur hit) :=
  inferInstanceAs (Decidable (∀ r ∈ table, want r → cur < r.id →
    (∀ x ∈ hit.getLast?, r.id ≤ x.id) → r.id ∈ (objectRows hit).map Row.id))

instance (good : List Row → ℤ → List Row → Prop) [∀ table cur hit, Decidable (good table cur hit)]
    (w : QueueWorld) : Decidable (Meets good w) :=
  decidable_of_iff ((∀ st ∈ w.sys.here.log, st.IsGood good) ∧ ∀ e ∈ w.trace, e.FullyAccepted)
    ⟨fun h ↦ ⟨h.1, h.2⟩, fun h ↦ ⟨h.1, h.2⟩⟩

theorem Meets.anti {good : List Row → ℤ → List Row → Prop} {w w' : QueueWorld}
    (h : Meets good w') (hlog : w.sys.here.log <+: w'.sys.here.log) (htrace : w.trace <+: w'.trace) :
    Meets good w :=
  ⟨fun st hst ↦ h.reads st (hlog.subset hst), fun e he ↦ h.accepted e (htrace.subset he)⟩

/-! ## The protocol behind it -/

/-- The pipeline as a delivery protocol: a read takes the rows the batch query selects. -/
def SqliteSource.protocol (src : SqliteSource) (columns : Bool × Bool) (limit : ℤ)
    (good : List Row → ℤ → List Row → Prop) (crashes : Prop) : Outbox.Rules Row ℤ where
  key := Row.id
  Reads table cur b := Table.Increasing Row.id table ∧ ∃ ceiling hit x,
    src.selectRows columns.1 columns.2 ceiling cur limit table = .ok hit ∧
    hit.getLast? = some x ∧ x.id = b.upTo ∧ b.rows = objectRows hit ∧ b.rows ≠ [] ∧
    good table cur hit
  Removes r := src.deleteOnCommit = true ∧ Passes (src.presentClauses columns.1 columns.2) r
  crashes := crashes
  upTo_mem h := by
    obtain ⟨-, ceiling, hit, x, hsel, hx, hid, -⟩ := h
    exact ⟨x, (sublist_of_selectRows hsel).subset (List.mem_of_getLast? hx), hid⟩

theorem SqliteSource.complete_of_covers (src : SqliteSource) (columns : Bool × Bool) (limit : ℤ)
    (want : Row → Prop) (crashes : Prop) :
    (src.protocol columns limit (Covers want) crashes).Complete want := by
  rintro table c b ⟨hinc, ceiling, hit, x, hsel, hx, hid, hrows, -, hgood⟩ r hr hw hc hle
  have hmem : r.id ∈ (objectRows hit).map Row.id := hgood r hr hw hc fun y hy ↦ by
    obtain rfl : x = y := Option.some.inj (hx.symm.trans hy)
    exact hid ▸ hle
  obtain ⟨y, hy, hyid⟩ := List.mem_map.mp hmem
  have hytable : y ∈ table := (sublist_of_selectRows hsel).subset (mem_objectRows.mp hy).1
  rw [hrows, ← hinc.eq_of_key_eq hytable hr hyid]
  exact hy

/-! ## A small pipeline -/

/-- A source of spots without any of the options. -/
def spotSource : SqliteSource where
  database := "psk"
  table := "spots"
  acceptedSchemaVersions := [1]
  deleteOnCommit := false
  parseIso := fun _ ↦ none

/-- The settings of a pipeline for it. -/
def spotSettings : PipelineSettings where
  name := "spots"
  transportName := "server"
  primaryTable := "psk.spots"

/-- A spot with this payload. -/
def spot (payload : Json) : NewRow where
  targetDb := "psk"
  targetTable := "spots"
  schemaVersion := 1
  payloadJson := .ofJson payload

/-- A sink into which these rows were inserted, from id 1 on. -/
def sinkOf (rows : List NewRow) : Sink := some (rows.foldl (fun q r ↦ q.insert 0 r) .empty)

/-- The world before the first pump of a source over these rows.  An environment of moves `{}` leaves
everything alone and acks everything. -/
def freshWorld (src : SqliteSource) (rows : List NewRow) (env : ℕ → Choice Act QueuedRecord) :
    QueueWorld where
  sys := { here := { sink := sinkOf rows, mem := src.freshMem }, env := env }
  store := {}

theorem fresh_freshWorld (src : SqliteSource) (set : PipelineSettings) (rows : List NewRow)
    (env : ℕ → Choice Act QueuedRecord) : Fresh src set (freshWorld src rows env) :=
  ⟨rfl, rfl, rfl, rfl, fun _ h ↦ nomatch h⟩

end HsUploader
