import Mathlib.Data.List.Sort
import HsUploader.Sources.Sqlite

/-!
# The source of WSPR cycles

`WsprCycleSource`: the spots and the noise rows of one WSPR cycle as one batch, oldest cycle first.
The cursor is the text of the last cycle shipped, and cycles are ordered as texts.  With a set of
expected receivers the newest cycle to ship is the one `shippable_ceiling` answers; without one it
is the last before the two-minute slot in progress.

With `include_psk` the psk rows of the cycle's two minutes ride along, those of producers whose sink
switch reads `upload`.
-/

set_option autoImplicit false

namespace HsUploader

open Prog

/-! ## Times as texts -/

/-- A number of at least two digits. -/
def pad2 (n : ℤ) : String := if 0 ≤ n ∧ n < 10 then "0" ++ toString n else toString n

/-- The year, month and day of a day counted from 1970-01-01. -/
def civilFromDays (days : ℤ) : ℤ × ℤ × ℤ :=
  -- years are counted from March, in eras of 400 years
  let z := days + 719468
  let era := z / 146097
  let doe := z % 146097
  let yoe := (doe - doe / 1460 + doe / 36524 - doe / 146096) / 365
  let doy := doe - (365 * yoe + yoe / 4 - yoe / 100)
  let mp := (5 * doy + 2) / 153
  let month := if mp < 10 then mp + 3 else mp - 9
  (yoe + era * 400 + (if month ≤ 2 then 1 else 0), month, doy - (153 * mp + 2) / 5 + 1)

/-- `strftime("%Y-%m-%dT%H:%M:%SZ")`. -/
def isoZ (t : Instant) : String :=
  let secs := t / 1000000
  let (year, month, day) := civilFromDays (secs / 86400)
  let s := secs % 86400
  toString year ++ "-" ++ pad2 month ++ "-" ++ pad2 day ++ "T" ++ pad2 (s / 3600) ++ ":" ++
    pad2 (s / 60 % 60) ++ ":" ++ pad2 (s % 60) ++ "Z"

example : isoZ 1709251199000000 = "2024-02-29T23:59:59Z" := by decide +kernel

/-- The microseconds of a WSPR cycle. -/
def wsprCycle : ℤ := 120000000

/-- `_current_cycle_floor`: the start of the cycle in progress. -/
def currentCycleFloor (now : Instant) : Instant := now - now % wsprCycle

/-! ## Configuration -/

/-- The configuration of a `WsprCycleSource`. -/
structure WsprCycleSource where
  shipBufferSec : ℤ := 0
  /-- `start_at` is `"beginning"`. -/
  fromBeginning : Bool := false
  expectedReporters : List String := []
  backstopSec : ℚ := 90
  includePsk : Bool := false
  /-- `datetime.fromisoformat(text.replace("Z", "+00:00"))`; `none` where it raises `ValueError`. -/
  parseIso : String → Option Instant
  /-- `datetime.strptime(text, "%Y-%m-%dT%H:%M:%SZ")`, likewise. -/
  strptime : String → Option Instant

/-- What a `WsprCycleSource` object holds in memory. -/
structure WsprMem where
  conn : Option ℕ := none
  opened : ℕ := 0
  /-- The table had the `local` column when the connection was opened.  A ghost. -/
  onColumn : Bool := false
  /-- `_producer_col`: the connection it was probed on, and the answer. -/
  producerCol : Option (ℕ × Bool) := none
  startAtAnchor : Option String := none
  localRows : LocalRowFilter := {}

/-- A program of the source. -/
abbrev WsprM := SqlM WsprMem QueuedRecord

/-! ## Clauses -/

/-- `target_db = 'wspr' AND target_table IN ('spots', 'noise')`. -/
def wsprClauses : List Clause :=
  [.column fun r ↦ r.targetDb = "wspr",
    .column fun r ↦ r.targetTable = "spots" || r.targetTable = "noise"]

/-- `json_extract(payload_json, '$.time') <op> ?`. -/
def timeClause (op : Ordering → Bool) (t : String) : Clause :=
  .json "time" fun v ↦ (v.compare (.text t)).map op

/-- The clauses of the statement that lists cycles. -/
def cycleListClauses (hasLocal : Bool) (cursor ceiling : String) (inclusive : Bool) : List Clause :=
  wsprClauses ++ (if hasLocal then [localClause] else []) ++
    [timeClause (· == .gt) cursor,
      timeClause (fun o ↦ o == .lt || inclusive && o == .eq) ceiling]

/-- The clauses of the statement that selects the rows of one cycle. -/
def cycleClauses (hasLocal : Bool) (cycle : String) : List Clause :=
  wsprClauses ++ (if hasLocal then [localClause] else []) ++ [timeClause (· == .eq) cycle]

/-- The clauses of the statement that selects the psk rows of a cycle. -/
def riderClauses (hasLocal : Bool) (cycle next : String) : List Clause :=
  [.column fun r ↦ r.targetDb = "psk", .column fun r ↦ r.targetTable = "spots"] ++
    (if hasLocal then [localClause] else []) ++
    [timeClause (· != .lt) cycle, timeClause (· == .lt) next]

/-- `SELECT DISTINCT json_extract(payload_json, '$.time') AS cycle ... ORDER BY cycle`, of rows whose
times have been compared with texts and are texts. -/
def distinctCycles (rows : List Row) : List String :=
  ((rows.filterMap fun r ↦ match r.payloadJson.jsonExtract "time" with
    | .ok (.text s) => some s
    | _ => none).dedup).insertionSort fun a b ↦ compare a b ≠ .gt

namespace WsprCycleSource

variable (src : WsprCycleSource)

/-- `source_id()`. -/
def sourceId (_ : WsprCycleSource) : String := "sqlite:wspr.cycle"

/-- `_connect`. -/
def connect : WsprM ℕ := do
  let m ← mem
  match m.conn with
  | some c => pure c
  | none =>
    let onColumn ← query fun s ↦ .ok s.hasLocal
    setMem fun m ↦ { m with conn := some m.opened, opened := m.opened + 1, onColumn }
    pure m.opened

/-- `_ensure_ready`, which is not cached. -/
def ensureReady : WsprM Bool := query fun s ↦ .ok s.isSome

/-- `self._local_rows.clause(conn)`. -/
def probeLocal (conn : ℕ) : WsprM Bool := do
  let m ← mem
  let f ← m.localRows.probe conn
  setMem fun m ↦ { m with localRows := f }
  pure f.hasLocal

/-- `_has_producer`. -/
def hasProducer (conn : ℕ) : WsprM Bool := do
  let m ← mem
  match m.producerCol with
  | some (c, b) => if c = conn then pure b else probe
  | none => probe
where
  /-- The probe of a connection that has not been asked. -/
  probe : WsprM Bool := do
    let b ← query fun s ↦ .ok s.hasProducer
    setMem fun m ↦ { m with producerCol := some (conn, b) }
    pure b

/-- `_effective_cursor`. -/
def effectiveCursor (cursor : Bytes) : WsprM String :=
  if !cursor.isEmpty then
    match cursor.decodeAscii with
    | some cs => pure (String.ofList cs)
    | none => raise (.other "UnicodeDecodeError" "ordinal not in range(128)")
  else if src.fromBeginning then pure ""
  else do
    let m ← mem
    match m.startAtAnchor with
    | some a => pure a
    | none =>
      let now ← clock
      -- the cycle before the floor, so that the cycle in progress still ships
      let a := isoZ (currentCycleFloor (fromTimestamp now) - wsprCycle)
      setMem fun m ↦ { m with startAtAnchor := some a }
      pure a

/-- `_cycle_floor_iso`. -/
def cycleFloorIso (now : ℚ) : String :=
  isoZ (currentCycleFloor (fromTimestamp now) - src.shipBufferSec * 1000000)

/-! ## The completion gate -/

/-- The clauses of the statement in `cycle_complete`. -/
def noiseClauses (cycle : String) : List Clause :=
  [.column fun r ↦ r.targetDb = "wspr", .column fun r ↦ r.targetTable = "noise",
    timeClause (· == .eq) cycle]

/-- `expected.issubset(present)`, where `present` holds what the rows name as their receiver. -/
def allPresent (rows : List Row) : Bool :=
  src.expectedReporters.all fun e ↦
    e ≠ "" && rows.any fun r ↦ match r.payloadJson.jsonExtract "rx_call" with
      | .ok (.text s) => s = e
      | _ => false

/-- `cycle_complete`: every expected receiver has a noise row of the cycle. -/
def cycleComplete (cycle : String) : WsprM Bool :=
  if src.expectedReporters.isEmpty then pure true
  else do
    let rows ← query fun s ↦ matching (noiseClauses cycle) s.rows
    pure (src.allPresent rows)

/-- The walk of `shippable_ceiling`, oldest cycle first: it stops at the first cycle that is neither
complete nor past the backstop. -/
def walkCycles (forceBefore : Instant) : List String → Option String → WsprM (Option String)
  | [], ceiling => pure ceiling
  | cycle :: rest, ceiling => do
    if ← src.cycleComplete cycle then walkCycles forceBefore rest (some cycle)
    else match src.strptime cycle with
      -- a cycle key that cannot be read does not wedge the prefix
      | none => walkCycles forceBefore rest (some cycle)
      | some t => if t < forceBefore then walkCycles forceBefore rest (some cycle) else pure ceiling

/-- `shippable_ceiling`. -/
def shippableCeiling (cursor : String) : WsprM (Option String) := do
  let now ← clock
  let now := fromTimestamp now
  let cycles ← query fun s ↦ (matching
    (cycleListClauses false cursor (isoZ (currentCycleFloor now)) false) s.rows).map distinctCycles
  if cycles.isEmpty then pure none
  else src.walkCycles (now - wsprCycle - roundHalfEven (src.backstopSec * 1000000)) cycles none

/-- The newest cycle to ship. -/
def askCeiling (cursor : String) : WsprM (Option String) :=
  if src.expectedReporters.isEmpty then do
    let now ← clock
    pure (some (src.cycleFloorIso now))
  else src.shippableCeiling cursor

/-! ## One cycle -/

/-- The statement that selects the rows to send of a cycle. -/
def selectCycle (cycle : String) (clauses : List Clause) : WsprM (List Row) :=
  statement fun o ↦ (matching clauses o.sink.rows).map fun hit ↦
    (hit, { o with log := o.log ++
      [{ kind := .selectCycle cycle, rows := o.sink.rows, localColumn := o.sink.hasLocal
         sight := ⟨o.mem.onColumn, o.mem.localRows.found⟩, hit }] })

/-- The time of the cycle, for a row whose own time cannot be read. -/
def cycleTime (cycle : String) : Except Exn Instant :=
  match src.parseIso cycle with
  | some t => .ok t
  | none => .error (.valueError ("Invalid isoformat string: '" ++ cycle ++ "'"))

/-- `payload["time"]` as a time; for a rider a value without `replace` counts as unreadable. -/
def recordTime (cycle : String) (rider : Bool) (payload : List (String × Json)) :
    Except Exn Instant :=
  match Json.get payload "time" with
  | none => src.cycleTime cycle
  | some (.str s) =>
    match src.parseIso s with
    | some t => .ok t
    | none => src.cycleTime cycle
  | some j =>
    if rider then src.cycleTime cycle
    else .error (.attributeError ("'" ++ j.pyType ++ "' object has no attribute 'replace'"))

/-- `payload["time"]` on a payload that is no dict. -/
def notSubscriptable : Json → Exn
  | .arr _ => .typeError "list indices must be integers or slices, not str"
  | .str _ => .typeError "string indices must be integers, not 'str'"
  | j => .typeError ("'" ++ j.pyType ++ "' object is not subscriptable")

/-- One record, of a row whose payload has been read. -/
def recordOf (cycle table : String) (rider : Bool) (r : Row) : Json → Except Exn QueuedRecord
  | .obj payload => do
    let time ← src.recordTime cycle rider payload
    .ok ⟨r, { table, time, columns := Json.dict payload }⟩
  | j => .error (notSubscriptable j)

/-- The loop over the spots and the noise rows of a cycle. -/
def wsprRecords (cycle : String) : List Row → Except Exn (List QueuedRecord)
  | [] => .ok []
  | r :: rs =>
    match r.payloadJson.loads with
    | .corrupt _ => wsprRecords cycle rs
    | .refused e => .error e
    | .value j => do
      let q ← src.recordOf cycle ("wspr." ++ r.targetTable) false r j
      let qs ← wsprRecords cycle rs
      .ok (q :: qs)

/-- The rows among these whose payload can be read, each with its payload: the first loop over the
riders. -/
def readable : List Row → Except Exn (List (Row × Json))
  | [] => .ok []
  | r :: rs =>
    match r.payloadJson.loads with
    | .corrupt _ => readable rs
    | .refused e => .error e
    | .value j => do
      let rest ← readable rs
      .ok ((r, j) :: rest)

/-- The characters `str.strip` strips. -/
def isStripped (c : Char) : Bool :=
  isPySpace c || [0x85, 0xa0, 0x1680, 0x2028, 0x2029, 0x202f, 0x205f, 0x3000].contains c.toNat ||
    (0x2000 ≤ c.toNat && c.toNat ≤ 0x200a)

/-- `str.lower`, as far as it can make an ASCII letter or digit. -/
def pyLower (c : Char) : Char := if c.toNat = 0x212a then 'k' else c.toLower

/-- `infer_producer("psk", "spots", payload)`. -/
def inferProducer (payload : Json) : String :=
  let mode := match payload with
    | .obj members =>
      match Json.get members "mode" with
      | some (.str s) => some (((s.toList.dropWhile isStripped).rdropWhile isStripped).map pyLower)
      | _ => none
    | _ => none
  if mode = some "msk144".toList then "meteor-scatter" else "psk-recorder"

/-- Whether each rider rides, while the marker stands; the verdict on a producer is made once. -/
def judge : List (String × Bool) → List (String × Json) → WsprM (List Bool)
  | _, [] => pure []
  | verdict, (producer, payload) :: rest => do
    let producer := if producer = "" then inferProducer payload else producer
    match verdict.find? fun v ↦ v.1 = producer with
    | some v => do
      let out ← judge verdict rest
      pure (v.2 :: out)
    | none => do
      let _ ← Sys.breathe
      let sw ← Sys.inMemory fun o ↦ (o.switches, o)
      let state ← ofExcept (sw.effective producer)
      let out ← judge ((producer, state == "upload") :: verdict) rest
      pure ((state == "upload") :: out)

/-- `_judge_riders`: a check that raises leaves every rider out. -/
def judgeRiders (riders : List (String × Json)) : WsprM (List Bool) :=
  if riders.isEmpty then pure []
  else do
    let verdict ← attempt (do
      let _ ← Sys.breathe
      let sw ← Sys.inMemory fun o ↦ (o.switches, o)
      if sw.marker then judge [] riders else pure (riders.map fun _ ↦ true))
    pure (match verdict with
      | .ok rides => rides
      | .error _ => riders.map fun _ ↦ false)

/-- The text of the next cycle, the cycle's own where its time cannot be read. -/
def nextCycle (cycle : String) : String :=
  match src.parseIso cycle with
  | some t => isoZ (t + wsprCycle)
  | none => cycle

/-- The psk records of a cycle, none without `include_psk`. -/
def pskRecords (conn : ℕ) (hasLocal : Bool) (cycle : String) : WsprM (List QueuedRecord) :=
  if src.includePsk then do
    let producerColumn ← hasProducer conn
    let rows ← selectCycle cycle (riderClauses hasLocal cycle (src.nextCycle cycle))
    let riders ← ofExcept (readable rows)
    let rides ← judgeRiders (riders.map fun p ↦ (if producerColumn then p.1.producer else "", p.2))
    ofExcept (((riders.zip rides).filter Prod.snd).mapM fun p ↦
      src.recordOf cycle "psk.spots" true p.1.1 p.1.2)
  else pure []

/-- `_build_batch_for_cycle`. -/
def buildBatchForCycle (conn : ℕ) (cycle : String) : WsprM (Option (RecordBatch QueuedRecord)) := do
  let hasLocal ← probeLocal conn
  let rows ← selectCycle cycle (cycleClauses hasLocal cycle)
  let records ← ofExcept (src.wsprRecords cycle rows)
  let psk ← src.pskRecords conn hasLocal cycle
  if (records ++ psk).isEmpty then pure none
  else if cycle.toList.all fun c ↦ c.toNat < 128 then
    pure (some { records := records ++ psk, cursorAfter := .ofAscii cycle.toList })
  else raise (.other "UnicodeEncodeError" "ordinal not in range(128)")

/-! ## The methods -/

/-- `iter_batches`: one resumption for each cycle to ship. -/
def iterBatches (cursor : Bytes) (_limit : ℤ) :
    WsprM (List (WsprM (Option (RecordBatch QueuedRecord)))) := do
  let conn ← connect
  if ← ensureReady then
    let cursorIso ← src.effectiveCursor cursor
    match ← src.askCeiling cursorIso with
    | none => pure []
    | some ceiling =>
      let hasLocal ← probeLocal conn
      let cycles ← query fun s ↦ (matching
        (cycleListClauses hasLocal cursorIso ceiling (!src.expectedReporters.isEmpty))
          s.rows).map distinctCycles
      pure (cycles.map (src.buildBatchForCycle conn))
  else pure []

/-- `commit`, which leaves the rows to the janitor. -/
def commit (_token : Bytes) : WsprM Unit := pure ()

/-- `cursor_is_after`. -/
def cursorIsAfter (new stored : Bytes) : Except Exn Bool :=
  if stored.isEmpty then .ok true
  else match new.decodeAscii, stored.decodeAscii with
    | some a, some b => .ok (compare (String.ofList a) (String.ofList b) == .gt)
    | _, _ => .ok true

/-- The source as the uploader sees it. -/
def source : Source (Outside WsprMem) Act QueuedRecord where
  sourceId := src.sourceId
  iterBatches := src.iterBatches
  commit := commit
  cursorIsAfter := some cursorIsAfter

/-- What a restart of the process does to the outside: the source object is built anew. -/
def restart (_ : WsprCycleSource) (o : Outside WsprMem) : Outside WsprMem := { o with mem := {} }

end WsprCycleSource

end HsUploader
