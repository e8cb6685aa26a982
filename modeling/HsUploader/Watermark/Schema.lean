import HsUploader.Watermark
import HsUploader.Sources.Sqlite
import HsUploader.Library.Prog
import Mathlib.Data.List.Sort

/-!
# Migrating the watermark store

`migrate` brings a store file to the schema version of the code: it runs the migrations above the
file's version, copies the shared pskreporter record to each producer key that holds none, and
decides over the retries that still stand under the old pipeline's name.  All of it is one
transaction of several statements, each of which may fail.  `check` reads the file and says what
`migrate` would do.

A line of a report is kept as what it says; the words around it are left out.
-/

set_option autoImplicit false

namespace HsUploader

namespace Schema

variable {π α : Type}

/-! ## The file -/

/-- A file that holds a watermark store; a table that is missing is `none`. -/
structure StoreFile (π : Type) where
  /-- `PRAGMA user_version`. -/
  userVersion : ℤ
  watermarks : List (SendKey × SendRecord)
  deliverables : Option (List (Deliverable π))
  deadLetter : List (DeadLetter π)
  /-- The names of the columns of `attempts`, and its rows. -/
  attempts : Option (List String × List Attempt)
  lastSend : Option (List ((String × String) × LastSend))
  /-- Each old key beside a new one, and when it was migrated. -/
  supersededKeys : Option (List ((SendKey × SendKey) × Stamp))

/-- The retries of a file. -/
def StoreFile.retries (s : StoreFile π) : List (Deliverable π) := s.deliverables.getD []

/-- What SQLite keeps of every table with a primary key. -/
structure StoreFile.Keyed (s : StoreFile π) : Prop where
  watermarks : (s.watermarks.map Prod.fst).Nodup
  deliverables : (s.retries.map Deliverable.id).Nodup

/-- The sink at `sink_path`. -/
inductive SinkDb where
  | unreadable (message : String)
  /-- The ids of the `psk.spots` rows of `pending_uploads`. -/
  | holding (ids : List ℤ)

/-- `MigrateContext`. -/
structure MigrateContext where
  sinkPath : Option String := none
  keepRetryFor : Option String := none

/-- What a call of `migrate` meets outside the file. -/
structure Surroundings where
  sink : SinkDb
  /-- The exception the statement of this number raises. -/
  fails : ℕ → Option Exn := fun _ ↦ none
  /-- The clock in `_split_pskreporter`. -/
  splitAt : Stamp := 0
  /-- The clock in `_fill_missing_producer_keys`. -/
  fillAt : Stamp := 0

/-- `OLD_PSKREPORTER_PIPELINE`. -/
def oldPskreporterPipeline : String := "psk-pskreporter"

/-- `OLD_PSK_SOURCE`. -/
def oldPskSource : String := "sqlite:psk.spots"

/-- `NEW_PSKREPORTER_PIPELINES`. -/
def newPskreporterPipelines : List (String × String) :=
  [("psk-recorder-pskreporter", "sqlite:psk.spots@psk-recorder"),
    ("meteor-scatter-pskreporter", "sqlite:psk.spots@meteor-scatter")]

/-- `NEW_PSKREPORTER_PIPELINES.values()`. -/
def newSources : List String := newPskreporterPipelines.map Prod.snd

/-! ## Reports -/

/-- What the retry pass does with a retry. -/
inductive Action where
  | delete
  | move (toPipeline toSource : String)
  | stay
  deriving DecidableEq

/-- `_RetryAction`, less its reason. -/
structure RetryAction where
  id : ℤ
  cursorAfter : Bytes
  action : Action
  deriving DecidableEq

/-- A line of a report; `done` tells "copied" from "would copy". -/
inductive ReportLine where
  | copy (done : Bool) (old new : SendKey) (cursor : Cell) (lastAck : Stamp)
  | keep (done : Bool) (old new : SendKey) (existing : Cell)
  | nothingToCopy
  | column (done : Bool) (name : String)
  | lastSendTable (done : Bool)
  | retry (done : Bool) (a : RetryAction)
  deriving DecidableEq

/-- `MigrateReport`. -/
structure MigrateReport where
  fromVersion : ℤ
  toVersion : ℤ
  applied : List ℤ := []
  pending : List ℤ := []
  lines : List ReportLine := []
  wouldWrite : Bool := false

/-! ## Reading -/

/-- `dest_id LIKE 'pskreporter%'`: LIKE folds the letters of ASCII. -/
def likePskreporter (destId : String) : Bool :=
  (destId.toList.take 11).map Char.toLower = "pskreporter".toList

/-- `ORDER BY dest_id, table_name`. -/
def keyLe (a b : SendKey × SendRecord) : Prop :=
  a.1.destId < b.1.destId ∨
    (a.1.destId = b.1.destId ∧ (a.1.table < b.1.table ∨ a.1.table = b.1.table))

instance : DecidableRel keyLe := fun a b ↦ by
  unfold keyLe
  infer_instance

/-- `_old_pskreporter_records(conn)`. -/
def oldRecords (s : StoreFile π) : List (SendKey × SendRecord) :=
  (s.watermarks.filter fun p ↦
    p.1.sourceId = oldPskSource && likePskreporter p.1.destId).insertionSort keyLe

/-- `_has_record(conn, ..)`. -/
def hasRecord (s : StoreFile π) (key : SendKey) : Bool := (Table.lookup key s.watermarks).isSome

/-- `_fills(version)`. -/
def fills (version : ℤ) : Bool := 2 ≤ version && version ≤ 3

/-- `_Cursor.from_bytes(bytes(raw)).last_id`, where there is one. -/
def lastId : Cell → Option ℤ
  | .text _ => none
  | .blob b => if b.isEmpty then none else (cursorFromBytes b).toOption

/-- The send records a retry names: its source, and its destination and table where it has them. -/
def namedRecords (s : StoreFile π) (sourceId destId table : String) : List (SendKey × SendRecord) :=
  s.watermarks.filter fun p ↦
    p.1.sourceId = (if sourceId = "" then oldPskSource else sourceId) &&
      likePskreporter p.1.destId && (destId = "" || p.1.destId = destId) && (table = "" || p.1.table = table)

/-- `_old_last_id(conn, ..)`: the row id the record names, and the record's destination and
table. -/
def oldLastId (s : StoreFile π) (d : Deliverable π) : Option ℤ × (String × String) :=
  match namedRecords s d.sourceId d.destId d.table with
  | [(key, r)] => (lastId r.cursor, (key.destId, key.table))
  | _ => (none, ("", ""))

/-- `_sink_holds(sink_path, last_id)`. -/
def sinkHolds (ctx : MigrateContext) (sink : SinkDb) (lastId : ℤ) : Except Exn Bool :=
  match ctx.sinkPath, sink with
  | none, _ => .ok false
  | some _, .unreadable _ => .ok false
  | some _, .holding ids =>
    -- sqlite3 binds 64 bits; OverflowError is no sqlite3.Error
    if lastId < -2 ^ 63 ∨ 2 ^ 63 ≤ lastId then
      .error (.overflowError "Python int too large to convert to SQLite INTEGER")
    else .ok (ids.any fun id ↦ id ≤ lastId)

/-- `_missing_producer_keys(conn, ..)`. -/
def missingProducerKeys (s : StoreFile π) (destId table : String) : List String :=
  newSources.filter fun src ↦ !hasRecord s ⟨src, destId, table⟩

/-- The rows of a retry may be read again: the sink holds them and, unless that is assumed, each
producer has a record. -/
def holds (ctx : MigrateContext) (sink : SinkDb) (assumeFilled : Bool) (s : StoreFile π)
    (d : Deliverable π) : Except Exn Bool :=
  match oldLastId s d with
  | (none, _) => .ok false
  | (some n, (destId, table)) => do
    let held ← sinkHolds ctx sink n
    .ok (held && (assumeFilled || (missingProducerKeys s destId table).isEmpty))

/-- What happens to a retry, by whether its rows may be read again. -/
def actionFor (ctx : MigrateContext) (held : Bool) : Action :=
  if held then .delete
  else match ctx.keepRetryFor with
    | some pipeline => .move pipeline ((Table.lookup pipeline newPskreporterPipelines).getD "")
    | none => .stay

/-- `_plan_retries` for one retry. -/
def planRetry (ctx : MigrateContext) (sink : SinkDb) (assumeFilled : Bool) (s : StoreFile π)
    (d : Deliverable π) : Except Exn RetryAction :=
  (holds ctx sink assumeFilled s d).map fun held ↦ ⟨d.id, d.cursorAfter, actionFor ctx held⟩

/-- The retries under the old name, `ORDER BY id`. -/
def oldRetries (s : StoreFile π) : List (Deliverable π) :=
  (s.retries.filter fun d ↦ d.pipeline = oldPskreporterPipeline).insertionSort fun a b ↦ a.id ≤ b.id

/-- `_plan_retries(conn, ctx)`. -/
def planRetries (ctx : MigrateContext) (sink : SinkDb) (assumeFilled : Bool) (s : StoreFile π) :
    Except Exn (List RetryAction) :=
  (oldRetries s).mapM (planRetry ctx sink assumeFilled s)

/-- `_retry_lines(plan)`. -/
def retryLines (done : Bool) (plan : List RetryAction) : List ReportLine :=
  plan.map (ReportLine.retry done)

/-! ## Statements -/

/-- A connection: the file as it reads it, and how many statements it has run. -/
structure Connection (π : Type) where
  file : StoreFile π
  statements : ℕ := 0

/-- A program over a connection. -/
abbrev Sql (π α : Type) := Prog (Connection π) Exn α

/-- One statement. -/
def execute (o : Surroundings) (f : StoreFile π → Except Exn (α × StoreFile π)) : Sql π α := fun c ↦
  match o.fails c.statements with
  | some e => (.raised e, { c with statements := c.statements + 1 })
  | none =>
    match f c.file with
    | .error e => (.raised e, { c with statements := c.statements + 1 })
    | .ok (a, s) => (.ok a, ⟨s, c.statements + 1⟩)

/-- Statements that read: where one of them fails, so does this. -/
def select (o : Surroundings) (f : StoreFile π → Except Exn α) : Sql π α :=
  execute o fun s ↦ (f s).map (·, s)

/-- A statement that writes. -/
def write (o : Surroundings) (f : StoreFile π → Except Exn (StoreFile π)) : Sql π Unit :=
  execute o fun s ↦ (f s).map ((), ·)

/-- The statements and `COMMIT`. -/
def committed (o : Surroundings) (body : Sql π α) : Sql π α := do
  let a ← body
  write o .ok
  pure a

/-- What raises leads to `ROLLBACK`. -/
def orRollback (p : Sql π α) : Sql π α := fun c ↦
  match p c with
  | (.raised e, c') => (.raised e, { c' with file := c.file })
  | r => r

/-- `BEGIN IMMEDIATE`, the statements, `COMMIT`; or `ROLLBACK`. -/
def transaction (o : Surroundings) (body : Sql π α) : Sql π α := do
  write o .ok
  orRollback (committed o body)

/-- `_SUPERSEDED_KEYS_DDL`. -/
def createSuperseded (s : StoreFile π) : StoreFile π :=
  { s with supersededKeys := some (s.supersededKeys.getD []) }

/-- `INSERT INTO watermarks`. -/
def insertRecord (key : SendKey) (r : SendRecord) (s : StoreFile π) : Except Exn (StoreFile π) :=
  if hasRecord s key then .error (.other "IntegrityError" "UNIQUE constraint failed")
  else .ok { s with watermarks := s.watermarks ++ [(key, r)] }

/-- `INSERT OR IGNORE INTO superseded_keys`. -/
def insertSuperseded (old new : SendKey) (now : Stamp) (s : StoreFile π) :
    Except Exn (StoreFile π) :=
  match s.supersededKeys with
  | none => .error (.operationalError "no such table: superseded_keys")
  | some rows =>
    if (Table.lookup (old, new) rows).isSome then .ok s
    else .ok { s with supersededKeys := some (rows ++ [((old, new), now)]) }

/-! ## The migrations -/

/-- An old record beside a producer's key for it. -/
structure Pair where
  old : SendKey
  new : SendKey
  record : SendRecord

/-- Every old record with each producer's key. -/
def pairs (olds : List (SendKey × SendRecord)) : List Pair :=
  olds.flatMap fun p ↦ newSources.map fun src ↦ ⟨p.1, { p.1 with sourceId := src }, p.2⟩

/-- The loop body of `_split_pskreporter`. -/
def splitPair (o : Surroundings) (p : Pair) : Sql π ReportLine := do
  let existing ← select o fun s ↦ .ok (Table.lookup p.new s.watermarks)
  match existing with
  | none =>
    write o (insertRecord p.new p.record)
    write o (insertSuperseded p.old p.new o.splitAt)
    pure (.copy true p.old p.new p.record.cursor p.record.lastAck)
  | some r =>
    write o (insertSuperseded p.old p.new o.splitAt)
    pure (.keep true p.old p.new r.cursor)

/-- The loop of `_split_pskreporter`. -/
def splitPairs (o : Surroundings) : List Pair → Sql π (List ReportLine)
  | [] => pure []
  | p :: ps => do
    let line ← splitPair o p
    let rest ← splitPairs o ps
    pure (line :: rest)

/-- `_split_pskreporter(conn, ctx)`. -/
def splitPskreporter (o : Surroundings) : Sql π (List ReportLine) := do
  write o fun s ↦ .ok (createSuperseded s)
  let olds ← select o fun s ↦ .ok (oldRecords s)
  let lines ← splitPairs o (pairs olds)
  pure (if olds.isEmpty then [.nothingToCopy] else lines)

/-- `_preview_split(conn, ctx)`. -/
def previewSplit (s : StoreFile π) : List ReportLine :=
  if (oldRecords s).isEmpty then [.nothingToCopy]
  else (pairs (oldRecords s)).map fun p ↦
    match Table.lookup p.new s.watermarks with
    | none => .copy false p.old p.new p.record.cursor p.record.lastAck
    | some r => .keep false p.old p.new r.cursor

/-- The columns of `_V3_ATTEMPT_COLUMNS` that `attempts` has not. -/
def missingColumns (s : StoreFile π) : List String :=
  ["pipeline", "client"].filter fun name ↦ name ∉ (s.attempts.map Prod.fst).getD []

/-- `ALTER TABLE attempts ADD COLUMN`. -/
def addColumn (name : String) (s : StoreFile π) : Except Exn (StoreFile π) :=
  match s.attempts with
  | none => .error (.operationalError "no such table: attempts")
  | some (columns, rows) => .ok { s with attempts := some (columns ++ [name], rows) }

/-- The loop of `_add_send_log_names`. -/
def addColumns (o : Surroundings) : List String → Sql π (List ReportLine)
  | [] => pure []
  | name :: names => do
    write o (addColumn name)
    let rest ← addColumns o names
    pure (.column true name :: rest)

/-- `_add_send_log_names(conn, ctx)`. -/
def addSendLogNames (o : Surroundings) : Sql π (List ReportLine) := do
  let missing ← select o fun s ↦ .ok (missingColumns s)
  let columns ← addColumns o missing
  let hasTable ← select o fun s ↦ .ok s.lastSend.isSome
  if hasTable then pure columns
  else do
    write o fun s ↦ .ok { s with lastSend := some [] }
    pure (columns ++ [.lastSendTable true])

/-- `_preview_send_log_names(conn, ctx)`. -/
def previewSendLogNames (s : StoreFile π) : List ReportLine :=
  (missingColumns s).map (ReportLine.column false) ++
    (if s.lastSend.isSome then [] else [.lastSendTable false])

/-- `Migration`, less its summary. -/
structure Migration (π : Type) where
  version : ℤ
  apply : Surroundings → Sql π (List ReportLine)
  preview : StoreFile π → List ReportLine

/-- `MIGRATIONS`. -/
def migrations (π : Type) : List (Migration π) :=
  [⟨1, fun _ ↦ pure [], fun _ ↦ []⟩, ⟨2, splitPskreporter, previewSplit⟩,
    ⟨3, addSendLogNames, previewSendLogNames⟩]

/-! ## Filling the producer keys -/

/-- The table is made once. -/
def makeTable (o : Surroundings) (made : Bool) : Sql π Unit :=
  if made then pure () else write o fun s ↦ .ok (createSuperseded s)

/-- The loop body of `_fill_missing_producer_keys`; the flag is `made_table`. -/
def fillPair (o : Surroundings) (made : Bool) (p : Pair) : Sql π (Bool × List ReportLine) := do
  let there ← select o fun s ↦ .ok (hasRecord s p.new)
  if there then pure (made, [])
  else do
    makeTable o made
    write o (insertRecord p.new p.record)
    write o (insertSuperseded p.old p.new o.fillAt)
    pure (true, [.copy true p.old p.new p.record.cursor p.record.lastAck])

/-- The loop of `_fill_missing_producer_keys`. -/
def fillPairs (o : Surroundings) : Bool → List Pair → Sql π (List ReportLine)
  | _, [] => pure []
  | made, p :: ps => do
    let (made, line) ← fillPair o made p
    let rest ← fillPairs o made ps
    pure (line ++ rest)

/-- `_fill_missing_producer_keys(conn, write=True)`. -/
def fillMissingProducerKeys (o : Surroundings) : Sql π (List ReportLine) := do
  let olds ← select o fun s ↦ .ok (oldRecords s)
  fillPairs o false (pairs olds)

/-- `_fill_missing_producer_keys(conn, write=False)`. -/
def previewFill (s : StoreFile π) : List ReportLine :=
  ((pairs (oldRecords s)).filter fun p ↦ !hasRecord s p.new).map fun p ↦
    .copy false p.old p.new p.record.cursor p.record.lastAck

/-! ## The retry pass -/

/-- `_apply_retries` for one retry. -/
def applyRetry (a : RetryAction) (s : StoreFile π) : StoreFile π :=
  match a.action with
  | .delete => { s with deliverables := s.deliverables.map (·.filter fun d ↦ d.id ≠ a.id) }
  | .move pipeline source =>
    { s with deliverables := s.deliverables.map (·.map fun d ↦
        if d.id = a.id then { d with pipeline, sourceId := source } else d) }
  | .stay => s

/-- The statement for one retry; none for one that stays. -/
def executeRetry (o : Surroundings) (a : RetryAction) : Sql π Unit :=
  match a.action with
  | .stay => pure ()
  | _ => write o fun s ↦ .ok (applyRetry a s)

/-- `_apply_retries(conn, plan)`. -/
def applyRetries (o : Surroundings) : List RetryAction → Sql π Unit
  | [] => pure ()
  | a :: plan => do
    executeRetry o a
    applyRetries o plan

/-! ## `migrate` -/

/-- `_validate(ctx)`. -/
def validate (ctx : MigrateContext) : Except Exn Unit :=
  match ctx.keepRetryFor with
  | none => .ok ()
  | some pipeline =>
    if (Table.lookup pipeline newPskreporterPipelines).isSome then .ok ()
    else .error (.valueError ("--keep-retry-for '" ++ pipeline ++
      "': must name one of psk-recorder-pskreporter, meteor-scatter-pskreporter"))

/-- The loop over the migrations. -/
def runMigrations (o : Surroundings) :
    List (Migration π) → ℤ → Sql π (ℤ × List ℤ × List ReportLine)
  | [], version => pure (version, [], [])
  | m :: ms, version =>
    if m.version ≤ version then runMigrations o ms version
    else do
      let lines ← m.apply o
      write o fun s ↦ .ok { s with userVersion := m.version }
      let (version, applied, rest) ← runMigrations o ms m.version
      pure (version, m.version :: applied, lines ++ rest)

/-- The fill, at the versions that get it. -/
def fillAfter (o : Surroundings) (version : ℤ) : Sql π (List ReportLine) :=
  if fills version then fillMissingProducerKeys o else pure []

/-- The statements between `BEGIN IMMEDIATE` and `COMMIT`. -/
def migrateBody (o : Surroundings) (ctx : MigrateContext) : Sql π MigrateReport := do
  let start ← select o fun s ↦ .ok s.userVersion
  let (version, applied, lines) ← runMigrations o (migrations π) start
  let filled ← fillAfter o version
  -- the retry pass, decided again under the lock
  let plan ← select o (planRetries ctx o.sink false)
  applyRetries o plan
  pure {
    fromVersion := start
    toVersion := version
    applied
    lines := lines ++ filled ++ retryLines true plan }

/-- Nothing is pending, nothing is to be filled, and every retry stays. -/
def nothingToDo (current : ℤ) (plan : List RetryAction) (s : StoreFile π) : Bool :=
  !((migrations π).any fun m ↦ current < m.version) &&
    !(fills current && !(previewFill s).isEmpty) && plan.all fun a ↦ a.action = .stay

/-- `migrate(path, ctx=ctx)`, of a file that holds a `watermarks` table. -/
def migrate (o : Surroundings) (ctx : MigrateContext) : Sql π MigrateReport := do
  let _ ← Prog.ofExcept (validate ctx)
  let current ← select o fun s ↦ .ok s.userVersion
  let plan ← select o (planRetries ctx o.sink (fills current))
  let done ← select o fun s ↦ .ok (nothingToDo current plan s)
  if done then
    pure { fromVersion := current, toVersion := current, lines := retryLines true plan }
  else transaction o (migrateBody o ctx)

/-- `_check(db, ctx)`, after `_validate`. -/
def check (ctx : MigrateContext) (sink : SinkDb) (s : StoreFile π) : Except Exn MigrateReport := do
  validate ctx
  let current := s.userVersion
  let pending := (migrations π).filter fun m ↦ current < m.version
  let final := (current :: pending.map Migration.version).foldl max current
  let fill :=
    if fills final && !pending.any fun m ↦ m.version = 2 then previewFill s else []
  let plan ← planRetries ctx sink (fills final) s
  .ok {
    fromVersion := current
    toVersion := current
    pending := pending.map Migration.version
    lines := pending.flatMap (fun m ↦ m.preview s) ++ fill ++ retryLines false plan
    wouldWrite := !pending.isEmpty || !fill.isEmpty || plan.any fun a ↦ a.action ≠ .stay }

end Schema

end HsUploader
