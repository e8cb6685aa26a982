import Mathlib.Data.List.GetD
import HsUploader.Sources.LocalRows

/-!
# The source of queue rows

`SqliteSource`: the read side of `pending_uploads`.  The rows of one logical table, in the order of
their ids, past a cursor that is the id of the last row read; a commit deletes the rows up to the
id its token names.

Two statements decide everything that is proved about it, and they are written separately in the
source, as they are here: `selectRows` chooses what a batch is made of, `deleteClauses` what a
commit removes.

## What is here

* `Scope`, `ExtraWhere`, `Dedup`, `SqliteSource` — the options, and what the constructor makes
  sure of as fields.
* `SqliteMem` — what the object remembers: its connection, whether the columns were there, the
  start.
* `scopeClauses`, `filters`, `deleteClauses`, `staleClauses`, `presentClauses` — the five `WHERE`s.
* `dedupWinners` and `selectRows` — the window function, and the batch query around it.
* `recordOf` and `buildRecords` — from rows to records; a payload that gives none is passed by.
* `iterOneBatch`, `iterBatches`, `commit`, `cursorIsAfter` — the methods, statement by statement.
-/

set_option autoImplicit false

namespace HsUploader

open Prog

/-! ## Cursors -/

/-- `_Cursor.from_bytes`. -/
def cursorFromBytes (blob : Bytes) : Except Exn ℤ :=
  if blob.isEmpty then .ok 0
  else match blob.toInt with
    | some n => .ok n
    | none => .error (.valueError ("SqliteSource cursor must be ASCII int, got " ++ blob.repr))

@[simp] theorem cursorFromBytes_ofInt (n : ℤ) : cursorFromBytes (Bytes.ofInt n) = .ok n := by
  have h : (Bytes.ofInt n).isEmpty = false := by
    rw [List.isEmpty_eq_false_iff]
    exact Bytes.ofInt_ne_nil n
  rw [cursorFromBytes, h, if_neg Bool.false_ne_true, Bytes.toInt_ofInt]

/-! ## Configuration -/

/-- The producer a source is scoped to, and the receiver within it. -/
structure Scope where
  producer : String
  radiodId : Option String := none
  producer_ne : producer ≠ ""
  radiodId_ne : radiodId ≠ some ""

/-- The operators `extra_where` allows. -/
inductive ExtraOp where
  | eq
  | ne
  | lt
  | gt
  | le
  | ge
  | isIn
  | notIn
  deriving DecidableEq, Repr

/-- The operator as SQL writes it. -/
def ExtraOp.text : ExtraOp → String
  | eq => "="
  | ne => "!="
  | lt => "<"
  | gt => ">"
  | le => "<="
  | ge => ">="
  | isIn => "IN"
  | notIn => "NOT IN"

/-- The value of an `extra_where` entry: one, or a list. -/
inductive ExtraValue where
  | one (v : SqlValue)
  | many (vs : List SqlValue)

/-- One entry of `extra_where`. -/
structure ExtraWhere where
  col : String
  op : ExtraOp
  value : ExtraValue

/-- `dedup_partition_by` and `dedup_order_by_desc`, which are set together or not at all. -/
structure Dedup where
  partitionBy : List String
  orderByDesc : String
  partitionBy_ne : partitionBy ≠ []

/-- The configuration of a `SqliteSource`. -/
structure SqliteSource where
  database : String
  table : String
  acceptedSchemaVersions : List ℤ
  selectColumns : List String := []
  extraWhere : List ExtraWhere := []
  /-- `start_at` is set. -/
  startAt : Bool := false
  deleteOnCommit : Bool := true
  dedup : Option Dedup := none
  /-- `ceiling_column`, set together with the ceiling provider. -/
  ceilingColumn : Option String := none
  /-- A sink file is configured: `config is not None`. -/
  configured : Bool := true
  scope : Option Scope := none
  /-- `_parse_iso`, the standard library's reader of ISO 8601 texts; `none` where it raises. -/
  parseIso : String → Option Instant

/-- `health()`. -/
inductive Health where
  | ok
  | unreachable
  | staleSchema
  | noop
  deriving DecidableEq, Repr

/-- What a `SqliteSource` object holds in memory.  A connection is the number of the call that
opened it. -/
structure SqliteMem where
  conn : Option ℕ := none
  opened : ℕ := 0
  /-- The table had the `local` column when the connection was opened.  A ghost. -/
  onColumn : Bool := false
  hasProducerColumn : Option Bool := none
  localRows : LocalRowFilter := {}
  schemaChecked : Bool := false
  startAtCursor : Option ℤ := none
  health : Health := .ok

/-- A record of a batch, beside the row it was made from. -/
structure QueuedRecord where
  row : Row
  record : Record

/-- A program of the source. -/
abbrev SqliteM := SqlM SqliteMem QueuedRecord

/-! ## Clauses -/

/-- `_D12_MODE`: the row's mode, trimmed and folded, empty when it has none. -/
def d12Mode (r : Row) : Except Exn String :=
  (r.payloadJson.jsonExtract "mode").map fun v ↦ sqlLower (sqlTrim (v.asText.getD ""))

/-- `_D12_BY_PRODUCER`: the clause that assigns a row naming no producer. -/
def d12ByProducer (producer : String) : Option Clause :=
  if producer = "meteor-scatter" then some fun r ↦ (d12Mode r).map fun m ↦ some (m = "msk144")
  else if producer = "psk-recorder" then some fun r ↦ (d12Mode r).map fun m ↦ some (m ≠ "msk144")
  else none

/-- `(producer = ? OR (producer = '' AND <d12>))`. -/
def producerClause (producer : String) (d12 : Clause) : Clause := fun r ↦
  if r.producer = producer then .ok (some true)
  else if r.producer = "" then d12 r
  else .ok (some false)

/-- `_scope_clauses`, from whether the file has the `producer` column. -/
def scopeClauses (hasProducer : Bool) : Option Scope → List Clause
  | none => []
  | some sc =>
    (match hasProducer, d12ByProducer sc.producer with
      | true, some d12 => producerClause sc.producer d12
      | true, none => .column fun r ↦ r.producer = sc.producer
      | false, some d12 => d12
      | false, none => .column fun _ ↦ false) ::
    match sc.radiodId with
    | none => []
    | some rid => [.json "radiod_id" fun v ↦ v.eq (.text rid)]

/-- `id > ?`. -/
def afterCursor (cur : ℤ) : Clause := .column fun r ↦ cur < r.id

/-- `target_db = ?` and `target_table = ?`. -/
def targetClauses (database table : String) : List Clause :=
  [.column fun r ↦ r.targetDb = database, .column fun r ↦ r.targetTable = table]

/-- `schema_version IN (...)`, left out when no version is listed. -/
def schemaClauses (accepted : List ℤ) : List Clause :=
  if accepted.isEmpty then [] else [.column fun r ↦ accepted.contains r.schemaVersion]

/-- `json_extract(payload_json, '$.<ceiling_column>') <= ?`. -/
def ceilingClauses (column ceiling : Option String) : List Clause :=
  match column, ceiling with
  | some col, some c =>
    [.json col fun v ↦ (v.compare (.text c)).map (· != .gt)]
  | _, _ => []

/-- A comparison of `extra_where`, three-valued. -/
def ExtraOp.test (op : ExtraOp) (x : SqlValue) (y : SqlValue) : Option Bool :=
  (x.compare y).map fun o ↦
    match op with
    | eq | isIn => o == .eq
    | ne | notIn => o != .eq
    | lt => o == .lt
    | gt => o == .gt
    | le => o != .gt
    | ge => o != .lt

/-- The clause of one `extra_where` entry; a value of the wrong shape raises. -/
def ExtraWhere.clause (x : ExtraWhere) : Except Exn Clause :=
  match x.op, x.value with
  | .isIn, .many (v :: vs) => .ok (.json x.col fun y ↦ y.isIn (v :: vs))
  | .notIn, .many (v :: vs) => .ok (.json x.col fun y ↦ (y.isIn (v :: vs)).map not)
  | .isIn, _ | .notIn, _ =>
    .error (.valueError ("extra_where '" ++ x.col ++ "' " ++ x.op.text ++
      " needs a non-empty list/tuple"))
  | op, .one v => .ok (.json x.col fun y ↦ op.test y v)
  | _, .many _ => .error (.other "ProgrammingError" "type 'list' is not supported")

namespace SqliteSource

variable (src : SqliteSource)

/-- The clauses of `_build_query` other than the leading `id > ?`. -/
def filters (hasProducer hasLocal : Bool) (ceiling : Option String) : Except Exn (List Clause) := do
  let extra ← src.extraWhere.mapM ExtraWhere.clause
  pure (targetClauses src.database src.table ++ scopeClauses hasProducer src.scope ++
    (if hasLocal then [localClause] else []) ++ schemaClauses src.acceptedSchemaVersions ++
    ceilingClauses src.ceilingColumn ceiling ++ extra)

/-! ## De-duplication -/

end SqliteSource

/-- A row with the values the window function ranks it by. -/
structure Ranked where
  row : Row
  /-- The `PARTITION BY` tuple. -/
  part : List SqlKey
  /-- `CAST(json_extract(...) AS REAL)`; NULL lies below every number. -/
  order : WithBot ℚ

namespace Dedup

variable (d : Dedup)

/-- The values a row is ranked by. -/
def rank (r : Row) : Except Exn Ranked := do
  let part ← d.partitionBy.mapM fun f ↦ (r.payloadJson.jsonExtract f).map SqlValue.key
  let order ← (r.payloadJson.jsonExtract d.orderByDesc).map SqlValue.castReal
  pure ⟨r, part, order⟩

end Dedup

namespace Ranked

/-- `a` stands before `b` in the order of the window: `<order> DESC, id ASC`. -/
def Before (a b : Ranked) : Prop :=
  b.order < a.order ∨ a.order = b.order ∧ a.row.id < b.row.id

instance : DecidableRel Before := fun a b ↦
  inferInstanceAs (Decidable (b.order < a.order ∨ a.order = b.order ∧ a.row.id < b.row.id))

/-- `rn = 1`: no row of the partition stands before `a`. -/
def First (pool : List Ranked) (a : Ranked) : Prop :=
  ∀ b ∈ pool, b.part = a.part → ¬ b.Before a

instance (pool : List Ranked) : DecidablePred (First pool) := fun a ↦
  inferInstanceAs (Decidable (∀ b ∈ pool, b.part = a.part → ¬ b.Before a))

/-- `partition_min_id > ?`: every row of the partition lies past the cursor. -/
def Unvisited (pool : List Ranked) (cur : ℤ) (a : Ranked) : Prop :=
  ∀ b ∈ pool, b.part = a.part → cur < b.row.id

instance (pool : List Ranked) (cur : ℤ) : DecidablePred (Unvisited pool cur) := fun a ↦
  inferInstanceAs (Decidable (∀ b ∈ pool, b.part = a.part → cur < b.row.id))

end Ranked

/-- The outer `SELECT` of `_build_dedup_query`, before its `LIMIT`. -/
def dedupWinners (pool : List Ranked) (cur : ℤ) : List Row :=
  (pool.filter fun a ↦ decide (a.First pool ∧ cur < a.row.id ∧ a.Unvisited pool cur)).map
    Ranked.row

namespace SqliteSource

variable (src : SqliteSource)

/-- The query of one batch, `_build_query` and its execution. -/
def selectRows (hasProducer hasLocal : Bool) (ceiling : Option String) (cur limit : ℤ)
    (rows : List Row) : Except Exn (List Row) := do
  let cs ← src.filters hasProducer hasLocal ceiling
  match src.dedup with
  | none => firstMatching (afterCursor cur :: cs) (sqlLimit limit) rows
  | some d =>
    let pool ← matching cs rows
    let ranked ← pool.mapM d.rank
    pure (takeLimit (sqlLimit limit) (dedupWinners ranked cur))

/-- The clauses of the `DELETE` in `commit`. -/
def deleteClauses (hasProducer hasLocal : Bool) (lastId : ℤ) : List Clause :=
  .column (fun r ↦ r.id ≤ lastId) ::
    (targetClauses src.database src.table ++ scopeClauses hasProducer src.scope ++
      if hasLocal then [localClause] else [])

/-- The clauses of the probe in `_check_stale_schema`. -/
def staleClauses (hasProducer : Bool) : List Clause :=
  targetClauses src.database src.table ++ scopeClauses hasProducer src.scope ++
    [.column fun r ↦ !src.acceptedSchemaVersions.contains r.schemaVersion]

/-- The clauses of the statement in `_present_position`. -/
def presentClauses (hasProducer hasLocal : Bool) : List Clause :=
  targetClauses src.database src.table ++ scopeClauses hasProducer src.scope ++
    if hasLocal then [localClause] else []

/-! ## Records -/

/-- `_extract_record_time`. -/
def extractRecordTime (now : ℚ) (payload : List (String × Json)) (queuedAt : String) : Instant :=
  let field (key : String) : Option Instant :=
    match Json.get payload key with
    | some (.str s) => src.parseIso s
    | _ => none
  match ["time", "decode_time", "utc"].findSome? field with
  | some t => t
  | none => (src.parseIso queuedAt).getD (fromTimestamp now)

/-- `_project_columns`. -/
def projectColumns (payload : List (String × Json)) : List (String × Json) :=
  if src.selectColumns.isEmpty then Json.dict payload
  else src.selectColumns.map fun k ↦ (k, (Json.get payload k).getD .null)

/-- One turn of the loop over the selected rows: a corrupt payload gives no record, and a payload
that is no object has no `get`. -/
def recordOf (now : ℚ) (r : Row) : Except Exn (Option QueuedRecord) :=
  match r.payloadJson.loads with
  | .corrupt _ => .ok none
  | .refused e => .error e
  | .value (.obj payload) =>
    .ok (some ⟨r, {
      table := src.database ++ "." ++ src.table
      time := src.extractRecordTime now payload r.queuedAt
      columns := src.projectColumns payload }⟩)
  | .value j =>
    .error (.attributeError ("'" ++ j.pyType ++ "' object has no attribute 'get'"))

/-- The loop over the selected rows: the records, and the id of the last row. -/
def buildRecords (now : ℚ) : List Row → ℤ → Except Exn (List QueuedRecord × ℤ)
  | [], lastId => .ok ([], lastId)
  | r :: rs, _ => do
    let q ← src.recordOf now r
    let (qs, lastId) ← buildRecords now rs r.id
    pure (q.toList ++ qs, lastId)

/-! ## The methods -/

/-- `source_id()`. -/
def sourceId : String :=
  let base := "sqlite:" ++ src.database ++ "." ++ src.table
  match src.scope with
  | none => base
  | some sc =>
    base ++ "@" ++ sc.producer ++
      match sc.radiodId with
      | none => ""
      | some rid => "/" ++ rid

/-- `_connect`. -/
def connect : SqliteM ℕ := do
  let m ← mem
  match m.conn with
  | some c => pure c
  | none =>
    let onColumn ← query fun s ↦ .ok s.hasLocal
    setMem fun m ↦
      { m with conn := some m.opened, opened := m.opened + 1, onColumn, hasProducerColumn := none }
    pure m.opened

/-- `_ensure_ready`. -/
def ensureReady : SqliteM Bool := do
  let m ← mem
  if m.schemaChecked then pure true
  else
    let _ ← connect
    let ready ← query fun s ↦ .ok s.isSome
    if ready then
      setMem fun m ↦ { m with schemaChecked := true }
      pure true
    else pure false

/-- The probe in `_scope_clauses`: whether the file has the `producer` column, asked once per
connection and only by a source with a producer. -/
def probeProducer : SqliteM Bool := do
  match src.scope with
  | none => pure false
  | some _ =>
    let m ← mem
    match m.hasProducerColumn with
    | some b => pure b
    | none =>
      let b ← query fun s ↦ .ok s.hasProducer
      setMem fun m ↦ { m with hasProducerColumn := some b }
      pure b

/-- `self._local_rows.clause(conn)`. -/
def probeLocal (conn : ℕ) : SqliteM Bool := do
  let m ← mem
  let f ← m.localRows.probe conn
  setMem fun m ↦ { m with localRows := f }
  pure f.hasLocal

/-- The batch query as a statement. -/
def select (hasProducer hasLocal : Bool) (ceiling : Option String) (cur limit : ℤ) :
    SqliteM (List Row) :=
  statement fun o ↦
    (src.selectRows hasProducer hasLocal ceiling cur limit o.sink.rows).map fun hit ↦
      (hit, { o with log := o.log ++
        [{ kind := .select cur ceiling, rows := o.sink.rows, localColumn := o.sink.hasLocal
           sight := ⟨o.mem.onColumn, o.mem.localRows.found⟩, hit }] })

/-- `_check_stale_schema`. -/
def checkStaleSchema : SqliteM Unit :=
  if src.acceptedSchemaVersions.isEmpty then pure ()
  else do
    let hasProducer ← src.probeProducer
    let stale ← query fun s ↦ firstMatching (src.staleClauses hasProducer) (some 1) s.rows
    if stale.isEmpty then pure ()
    else setMem fun m ↦ { m with health := .staleSchema }

/-- The provider's answer, `some none` for a source without a ceiling. -/
def askCeiling : SqliteM (Option (Option String)) :=
  match src.ceilingColumn with
  | none => pure (some none)
  | some _ => do
    let c ← statement fun o ↦ .ok (o.ceiling, o)
    -- nothing is complete enough to ship yet
    pure (c.map some)

/-- `_iter_one_batch`. -/
def iterOneBatch (cur limit : ℤ) : SqliteM (Option (RecordBatch QueuedRecord)) := do
  let conn ← connect
  match ← src.askCeiling with
  | none => pure none
  | some ceiling =>
    let hasProducer ← src.probeProducer
    let hasLocal ← probeLocal conn
    let rows ← src.select hasProducer hasLocal ceiling cur limit
    if rows.isEmpty then
      src.checkStaleSchema
      pure none
    else
      let now ← clock
      let (records, lastId) ← ofExcept (src.buildRecords now rows cur)
      pure (some { records, cursorAfter := .ofInt lastId, commitToken := .ofInt lastId })

/-- `_cursor_from_start_at`: the highest id in scope, fixed at the first call. -/
def cursorFromStartAt : SqliteM ℤ := do
  let m ← mem
  match m.startAtCursor with
  | some c => pure c
  | none =>
    let conn ← connect
    let hasProducer ← src.probeProducer
    let hasLocal ← probeLocal conn
    let present ← query fun s ↦ matching (src.presentClauses hasProducer hasLocal) s.rows
    let c := (present.map Row.id).foldr max 0
    setMem fun m ↦ { m with startAtCursor := some c }
    pure c

/-- `iter_batches`. -/
def iterBatches (cursor : Bytes) (limit : ℤ) :
    SqliteM (List (SqliteM (Option (RecordBatch QueuedRecord)))) :=
  if !src.configured then pure []
  else do
    match ← attempt ensureReady with
    | .error _ | .ok false =>
      setMem fun m ↦ { m with health := .unreachable }
      pure []
    | .ok true =>
      setMem fun m ↦ { m with health := .ok }
      let cur ← ofExcept (cursorFromBytes cursor)
      if cursor.isEmpty && src.startAt then
        let cur ← src.cursorFromStartAt
        pure [src.iterOneBatch cur limit]
      else pure [src.iterOneBatch cur limit]

/-- The `DELETE` of a commit as a statement. -/
def deleteUpTo (hasProducer hasLocal : Bool) (lastId : ℤ) : SqliteM Unit :=
  statement fun o ↦
    (matching (src.deleteClauses hasProducer hasLocal lastId) o.sink.rows).map fun hit ↦
      ((), { o with
        sink := o.sink.delete fun r ↦ decide (Passes (src.deleteClauses hasProducer hasLocal lastId) r)
        log := o.log ++
          [{ kind := .delete, rows := o.sink.rows, localColumn := o.sink.hasLocal
             sight := ⟨o.mem.onColumn, o.mem.localRows.found⟩, hit }] })

/-- `commit`.  Whatever goes wrong in it is logged and left. -/
def commit (commitToken : Bytes) : SqliteM Unit :=
  if !src.configured || commitToken.isEmpty then pure ()
  else if !src.deleteOnCommit then pure ()
  else match commitToken.toInt with
    | none => pure ()
    | some lastId =>
      tryCatch (do
        let conn ← connect
        let hasProducer ← src.probeProducer
        let hasLocal ← probeLocal conn
        src.deleteUpTo hasProducer hasLocal lastId) fun _ ↦ pure ()

/-- `cursor_is_after`. -/
def cursorIsAfter (new stored : Bytes) : Except Exn Bool :=
  if stored.isEmpty then .ok true
  else match cursorFromBytes new, cursorFromBytes stored with
    | .ok a, .ok b => .ok (decide (b < a))
    | _, _ => .ok true

/-- The source as the uploader sees it. -/
def source : Source (Outside SqliteMem) Act QueuedRecord where
  sourceId := src.sourceId
  iterBatches := src.iterBatches
  commit := src.commit
  cursorIsAfter := some cursorIsAfter

/-- What a source object holds when it is built. -/
def freshMem : SqliteMem := { health := if src.configured then .ok else .noop }

/-- What a restart of the process does to the outside: the source object is built anew. -/
def restart (o : Outside SqliteMem) : Outside SqliteMem := { o with mem := src.freshMem }

end SqliteSource

end HsUploader
