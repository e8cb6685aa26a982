import HsUploader.Daemon.Layout

/-!
# The writer of the sink

`Writer` buffers the rows a recorder inserts and stores them in `pending_uploads`, a batch at a
time.  `insert`, `flush` and `close` hold one lock from start to end, so a run of a writer is a
sequence of calls, whichever threads make them.

What a call finds outside is its `Moment`: what SQLite answers to each step of a flush, what the
clocks read, and the switch files.  A stored row is kept beside the object it was made from.

## What is here

* `PyObj`, `JsonLimits`, `encode`, `dumps` — rows as objects, and the encoder with the limits of
  its interpreter.  An integer of too many digits, a container too deep and an object that
  `default` does not know raise, each with its own exception.
* `inferProducer` — the client of a row that names none.
* `SwitchFile`, `effectiveState`, `SwitchView` — what the check of one insert finds.
* `judgeRow`, `noteVerdict`, `judge` — the check: each producer is asked for once in a batch,
  drops are counted up to a cap, and a failure keeps all rows.
* `flush` — connect, create, encode all, insert all, commit; what raises leaves the buffer.
* `insert` — the check, the buffer's limit, then the two triggers of a flush, in this order.
-/

set_option autoImplicit false

namespace HsUploader

open WsprCycleSource (isStripped pyLower)

/-! ## Rows as Python objects -/

/-- The key of a dict: a text, or what `json.dumps` writes for a float, a bool or `None` in its place;
an integer; or a key of another type, which it refuses. -/
inductive PyKey where
  | str (s : String)
  | int (n : ℤ)
  | other (type : String)
  deriving DecidableEq

/-- A Python object, as far as `json.dumps` and `infer_producer` look at it.  A float carries the
text `json.dumps` writes for it; a `datetime` its `isoformat()`. -/
inductive PyObj where
  | none
  | bool (b : Bool)
  | int (n : ℤ)
  | float (text : String)
  | str (s : String)
  | list (items : List PyObj)
  | dict (members : List (PyKey × PyObj))
  | datetime (text : String) (aware : Bool)
  | bytes (octets : Bytes)
  | other (type : String)

/-- What of the interpreter limits `json.dumps`. -/
structure JsonLimits where
  /-- `sys.get_int_max_str_digits()`; 0 stands for no limit. -/
  intDigits : ℕ := 4300
  /-- How many lists, dicts and results of `default` the stack has room for, one in another. -/
  depth : ℕ := 900

namespace PyObj

/-- The digit in base 16, in lower case. -/
def hexDigit (n : ℕ) : Char := Nat.digitChar (n % 16)

/-- `bytes.hex()`. -/
def hex (octets : Bytes) : String :=
  String.ofList (octets.flatMap fun b ↦ [hexDigit (b.toNat / 16), hexDigit b.toNat])

/-- `"\\u%04x"`. -/
def escapeUnit (n : ℕ) : List Char :=
  ['\\', 'u', hexDigit (n / 4096), hexDigit (n / 256), hexDigit (n / 16), hexDigit n]

/-- What `json.dumps` writes for a character, in ASCII. -/
def escapeChar (c : Char) : List Char :=
  if c = '"' then ['\\', '"']
  else if c = '\\' then ['\\', '\\']
  else if c = '\n' then ['\\', 'n']
  else if c = '\r' then ['\\', 'r']
  else if c = '\t' then ['\\', 't']
  else if c.toNat = 0x0c then ['\\', 'f']
  else if c.toNat = 0x08 then ['\\', 'b']
  else if 0x20 ≤ c.toNat ∧ c.toNat < 0x7f then [c]
  else if c.toNat < 0x10000 then escapeUnit c.toNat
  else
    -- two units of UTF-16
    escapeUnit (0xd800 + (c.toNat - 0x10000) / 0x400) ++
      escapeUnit (0xdc00 + (c.toNat - 0x10000) % 0x400)

/-- A text between quotes. -/
def quoted (s : String) : String :=
  String.ofList ('"' :: s.toList.flatMap escapeChar ++ ['"'])

/-- `_json_default(obj)`: the text of a time, the digits of bytes. -/
def jsonDefault : PyObj → Except Exn String
  | datetime text aware => .ok (if aware then text else text ++ "+00:00")
  | bytes octets => .ok (hex octets)
  | other type => .error (.typeError (type ++ " not JSON-serializable"))
  | _ => .error (.typeError "not JSON-serializable")

section encode

variable (lim : JsonLimits)

/-- The exception of an encoding that goes too deep. -/
def tooDeep : Exn :=
  .other "RecursionError" "maximum recursion depth exceeded while encoding a JSON object"

/-- `int.__repr__(n)`, which refuses an integer of too many digits. -/
def intText (n : ℤ) : Except Exn String :=
  if lim.intDigits ≠ 0 ∧ lim.intDigits < (Nat.toDigits 10 n.natAbs).length then
    .error (.valueError ("Exceeds the limit (" ++ toString lim.intDigits ++
      " digits) for integer string conversion"))
  else .ok (toString n)

/-- The text of a dict's key. -/
def keyText : PyKey → Except Exn String
  | .str s => .ok s
  | .int n => intText lim n
  | .other type => .error (.typeError ("keys must be str, int, float, bool or None, not " ++ type))

/-- What `default` makes of an object is encoded in its place, one level down. -/
def encodeDefault (depth : ℕ) (obj : PyObj) : Except Exn String := do
  let text ← jsonDefault obj
  if depth = 0 then .error tooDeep else .ok (quoted text)

mutual

/-- What the encoder writes for an object, with room for so many levels. -/
def encode : ℕ → PyObj → Except Exn String
  | _, none => .ok "null"
  | _, bool b => .ok (if b then "true" else "false")
  | _, int n => intText lim n
  | _, float text => .ok text
  | _, str s => .ok (quoted s)
  | 0, list _ => .error tooDeep
  | depth + 1, list items => do
    let texts ← encodeItems depth items
    .ok ("[" ++ String.intercalate ", " texts ++ "]")
  | 0, dict _ => .error tooDeep
  | depth + 1, dict members => do
    let texts ← encodeMembers depth members
    .ok ("\x7b" ++ String.intercalate ", " texts ++ "\x7d")
  | depth, datetime text aware => encodeDefault depth (datetime text aware)
  | depth, bytes octets => encodeDefault depth (bytes octets)
  | depth, other type => encodeDefault depth (other type)

/-- The texts of a list's items. -/
def encodeItems : ℕ → List PyObj → Except Exn (List String)
  | _, [] => .ok []
  | depth, x :: xs => do
    let text ← encode depth x
    let rest ← encodeItems depth xs
    .ok (text :: rest)

/-- The texts of a dict's members. -/
def encodeMembers : ℕ → List (PyKey × PyObj) → Except Exn (List String)
  | _, [] => .ok []
  | depth, (key, x) :: ms => do
    let name ← keyText lim key
    let text ← encode depth x
    let rest ← encodeMembers depth ms
    .ok ((quoted name ++ ": " ++ text) :: rest)

end

end encode

/-- `json.dumps(obj, default=_json_default)`. -/
def dumps (lim : JsonLimits) (obj : PyObj) : Except Exn String := encode lim lim.depth obj

end PyObj

namespace Writer

/-- `_PRODUCER_BY_DB`. -/
def producerByDb : List (String × String) :=
  [("wspr", "wspr-recorder"), ("codar", "codar-sounder"), ("superdarn", "superdarn-sounder"),
    ("hfdl", "hfdl-recorder"), ("timestd", "hf-timestd")]

/-- `infer_producer(target_db, target_table, payload)`. -/
def inferProducer (targetDb : String) (payload : PyObj) : String :=
  if targetDb = "psk" then
    let mode : Option PyObj := match payload with
      | .dict members => Table.lookup (.str "mode") members
      | _ => none
    match mode with
    | some (.str s) =>
      if ((s.toList.dropWhile isStripped).rdropWhile isStripped).map pyLower = "msk144".toList then
        "meteor-scatter"
      else "psk-recorder"
    | _ => "psk-recorder"
  else (Table.lookup targetDb producerByDb).getD ""

end Writer

/-! ## The switch files -/

/-- The state a switch file names. -/
inductive SwitchState where
  | off
  | fill
  | upload
  deriving DecidableEq, Repr

namespace SwitchState

/-- `STATES.index(state)`: strictness order, loosest last. -/
def index : SwitchState → ℕ
  | off => 0
  | fill => 1
  | upload => 2

/-- `STATES[min(STATES.index(a), STATES.index(b))]`. -/
def stricter (a b : SwitchState) : SwitchState := if a.index ≤ b.index then a else b

/-- The state of this name. -/
def ofName : String → Option SwitchState
  | "off" => some off
  | "fill" => some fill
  | "upload" => some upload
  | _ => none

end SwitchState

/-- What stands at the path of a switch file. -/
inductive SwitchFile where
  | missing
  | unreadable (message : String)
  | unparsable (message : String)
  /-- A table, by what it holds under `state`. -/
  | holding (state : Option Toml)

/-- What `read_switch` answers. -/
structure SwitchRead where
  state : Option SwitchState
  missing : Bool
  error : String
  deriving DecidableEq

/-- `_parse(path)`, and what `read_switch` answers where it cannot look at the file. -/
def SwitchFile.read (path : String) : SwitchFile → SwitchRead
  | .missing => ⟨none, true, ""⟩
  | .unreadable message => ⟨none, false, path ++ ": unreadable: " ++ message⟩
  | .unparsable message => ⟨none, false, path ++ ": parse error: " ++ message⟩
  | .holding state =>
    let named := match state with
      | some (.str s) => SwitchState.ofName s
      | _ => none
    match named with
    | some st => ⟨some st, false, ""⟩
    | none =>
      let shown := match state with
        | some v => v.repr
        | none => "None"
      ⟨none, false, path ++ ": state " ++ shown ++ " is not one of off/fill/upload"⟩

/-- What `effective_state` answers. -/
structure Effective where
  state : SwitchState
  clientState : Option SwitchState := none
  siteState : Option SwitchState := none
  errors : List String
  clientMissing : Bool := false
  clientError : String := ""
  siteError : String := ""
  deriving DecidableEq

/-- `effective_state(client)`: the stricter of the client's file and `site.toml`. -/
def effectiveState (client : String) (file site : SwitchRead) : Effective :=
  if !Daemon.validClientName client then
    let message := "bad client name " ++ Toml.reprText client ++ ": reading as off"
    { state := .off, errors := [message], clientError := message }
  else
    let state :=
      if file.missing || file.error ≠ "" || site.error ≠ "" then .off
      else if site.missing then file.state.getD .off
      else (file.state.getD .off).stricter (site.state.getD .off)
    { state
      clientState := file.state
      siteState := site.state
      errors := [file.error, site.error].filter (· ≠ "")
      clientMissing := file.missing
      clientError := file.error
      siteError := site.error }

/-- What the switch check of one `insert` finds. -/
structure SwitchView where
  /-- `hs_uploader.sinkswitch` can be imported and has every name the check needs. -/
  library : Bool := true
  /-- `marker_stands(marker)`. -/
  marker : Except Exn Bool := .ok false
  /-- What reading the client's file and `site.toml` comes to when this producer is judged. -/
  files : String → Except Exn (SwitchRead × SwitchRead) := fun _ ↦
    .ok (⟨none, true, ""⟩, ⟨none, true, ""⟩)
  /-- `time.monotonic()` when the check fails. -/
  failedAt : ℚ := 0

/-! ## The writer -/

/-- What `__init__` fixes. -/
structure Writer where
  database : String
  table : String
  schemaVersion : ℤ := 0
  producer : String := ""
  isLocal : Bool := false
  batchRows : ℤ := 1000
  autoFlushSeconds : ℚ := 30
  /-- The path of the sink; a writer without one does nothing. -/
  config : Option String
  /-- The limits of the interpreter it runs in. -/
  limits : JsonLimits := {}

/-- `health`. -/
inductive WriterHealth where
  | ok
  | unreachable
  | degraded
  | noop
  deriving DecidableEq, Repr

/-- The columns of one row of the `INSERT`. -/
structure InsertParams where
  targetDb : String
  targetTable : String
  schemaVersion : ℤ
  payloadJson : String
  queuedAt : String
  producer : String
  isLocal : Bool
  deriving DecidableEq

/-- A row that was committed, beside the object it was made from. -/
structure StoredRow where
  row : PyObj
  params : InsertParams

/-- What a writer holds, and what it has stored. -/
structure WriterState where
  buffer : List PyObj := []
  /-- `_conn` is a connection. -/
  connected : Bool := false
  schemaInitialized : Bool := false
  health : WriterHealth
  lastFlushMonotonic : ℚ
  dropped : List (String × ℕ) := []
  dropping : List (String × Bool) := []
  capSaid : Bool := false
  checkFailed : List (String × ℚ) := []
  /-- The rows its commits have added to `pending_uploads`. -/
  stored : List StoredRow := []

/-- What a call of a writer finds outside. -/
structure Moment where
  switch : SwitchView := {}
  /-- `time.monotonic()` in the age trigger of `insert`. -/
  monotonic : ℚ := 0
  /-- `datetime.now(timezone.utc).isoformat()` in `flush`. -/
  nowIso : String := ""
  /-- `time.monotonic()` after a commit. -/
  flushedAt : ℚ := 0
  connect : Except Exn Unit := .ok ()
  /-- The statements of `_init_schema`. -/
  schema : Except Exn Unit := .ok ()
  executemany : Except Exn Unit := .ok ()
  commit : Except Exn Unit := .ok ()

/-- `buffer[:k]`. -/
def sliceTo {α : Type} (k : ℤ) (l : List α) : List α :=
  if 0 ≤ k then l.take k.toNat else l.take (l.length - k.natAbs)

/-- `type(e).__name__`. -/
def Exn.typeName : Exn → String
  | .valueError _ => "ValueError"
  | .attributeError _ => "AttributeError"
  | .typeError _ => "TypeError"
  | .runtimeError _ => "RuntimeError"
  | .overflowError _ => "OverflowError"
  | .operationalError _ => "OperationalError"
  | .other type _ => type

namespace Writer

variable (w : Writer)

/-- `_PRODUCER_CAP`. -/
def producerCap : ℕ := 1024

/-- `_REMIND_S`. -/
def remindS : ℚ := 6 * 3600

/-- `is_noop`. -/
def isNoop : Bool := w.config.isNone

/-- `_buffer_max`. -/
def bufferMax : ℤ := w.batchRows * 2

/-- The state after `__init__`, at this reading of the monotonic clock. -/
def init (now : ℚ) : WriterState where
  health := if w.isNoop then .noop else .ok
  lastFlushMonotonic := now

/-- The client a row belongs to: the writer's, else the one inferred. -/
def producerOf (row : PyObj) : String :=
  if w.producer ≠ "" then w.producer else inferProducer w.database row

/-! ### The switch check -/

/-- `_reads_off`. -/
def readsOff (v : SwitchView) (producer : String) : Except Exn Bool :=
  if producer = "" || !Daemon.validClientName producer then .ok false
  else do
    let (file, site) ← v.files producer
    let eff := effectiveState producer file site
    .ok (if eff.clientMissing then false else eff.state = .off)

/-- What the loop over a batch has come to. -/
structure Judged where
  verdict : List (String × Bool) := []
  drops : List (String × ℕ) := []
  kept : List PyObj := []

/-- The verdict on a producer: the batch's, or the one the switch gives now. -/
def ask (v : SwitchView) (enforced : Bool) (verdict : List (String × Bool)) (producer : String) :
    Except Exn Bool :=
  match Table.lookup producer verdict with
  | some drop => .ok drop
  | none => if enforced then readsOff v producer else .ok false

/-- The loop of `_judge` for one row. -/
def judgeRow (v : SwitchView) (enforced : Bool) (j : Judged) (row : PyObj) : Except Exn Judged := do
  let producer := w.producerOf row
  let drop ← ask v enforced j.verdict producer
  let verdict := Table.upsert producer drop j.verdict
  if drop then
    .ok { j with
      verdict
      drops := Table.upsert producer ((Table.lookup producer j.drops).getD 0 + 1) j.drops }
  else .ok { j with verdict, kept := j.kept ++ [row] }

/-- `_note_verdict`, with `_track`. -/
def noteVerdict (s : WriterState) (producer : String) (drop : Bool) : WriterState :=
  if (Table.lookup producer s.dropping).getD false = drop then s
  else if (Table.lookup producer s.dropping).isNone ∧ ¬ s.dropping.length < producerCap then
    { s with capSaid := true }
  else { s with dropping := Table.upsert producer drop s.dropping }

/-- The rows a producer dropped are counted, unless it is past the cap. -/
def countDrops (s : WriterState) (producer : String) (n : ℕ) : WriterState :=
  if (Table.lookup producer s.dropping).isSome then
    { s with
      dropped := Table.upsert producer ((Table.lookup producer s.dropped).getD 0 + n) s.dropped }
  else s

/-- A check that failed: one line for each type of exception, and a reminder now and then. -/
def noteFailure (s : WriterState) (now : ℚ) (e : Exn) : WriterState :=
  match Table.lookup e.typeName s.checkFailed with
  | none =>
    if s.checkFailed.length < producerCap then
      { s with checkFailed := Table.upsert e.typeName now s.checkFailed }
    else s
  | some last =>
    if remindS ≤ now - last then
      { s with checkFailed := Table.upsert e.typeName now s.checkFailed }
    else s

/-- `_judge(rows)`: the rows to store. -/
def judge (v : SwitchView) (rows : List PyObj) (s : WriterState) : List PyObj × WriterState :=
  if w.isLocal || !v.library then (rows, s)
  else match v.marker with
    | .error e => (rows, noteFailure s v.failedAt e)
    | .ok enforced =>
      if !enforced && !s.dropping.any Prod.snd then (rows, s)
      else match rows.foldlM (w.judgeRow v enforced) {} with
        | .error e => (rows, noteFailure s v.failedAt e)
        | .ok j =>
          let s := j.verdict.foldl (fun s p ↦ noteVerdict s p.1 p.2) s
          (j.kept, j.drops.foldl (fun s p ↦ countDrops s p.1 p.2) s)

/-! ### Storing -/

/-- The parameters of one row. -/
def params (nowIso : String) (row : PyObj) : Except Exn StoredRow := do
  let payloadJson ← row.dumps w.limits
  .ok {
    row
    params := {
      targetDb := w.database
      targetTable := w.table
      schemaVersion := w.schemaVersion
      payloadJson
      queuedAt := nowIso
      producer := w.producerOf row
      isLocal := w.isLocal } }

/-- A step that is made once. -/
def unlessDone (done : Bool) (step : Except Exn Unit) : Except Exn Unit :=
  if done then .ok () else step

/-- The body of `flush`, up to its commit. -/
def store (m : Moment) (s : WriterState) : Except Exn (List StoredRow) := do
  unlessDone s.connected m.connect
  unlessDone s.schemaInitialized m.schema
  let rows ← s.buffer.mapM (w.params m.nowIso)
  m.executemany
  m.commit
  .ok rows

/-- `flush()`. -/
def flush (m : Moment) (s : WriterState) : WriterState :=
  if w.isNoop || s.buffer.isEmpty then s
  else match w.store m s with
    | .ok rows =>
      { s with
        connected := true
        schemaInitialized := true
        buffer := []
        lastFlushMonotonic := m.flushedAt
        health := .ok
        stored := s.stored ++ rows }
    | .error _ =>
      -- the handle is dropped, so that a stale or locked file is opened again
      { s with
        connected := false
        schemaInitialized := false
        health := if s.health = .degraded then .degraded else .unreachable }

/-- `close()`. -/
def close (m : Moment) (s : WriterState) : WriterState := { w.flush m s with connected := false }

/-- The exception of a full buffer. -/
def bufferFull (buffered : ℕ) : Exn :=
  .other "BufferFull" ("hamsci_sink buffer overflow: " ++ toString buffered ++ " rows pending, max "
    ++ toString w.bufferMax ++ " (SQLite unwritable at " ++ w.config.getD "?" ++ ")")

/-- The buffer holds rows, and has not been stored for long. -/
def overdue (m : Moment) (s : WriterState) : Bool :=
  0 < w.autoFlushSeconds && !s.buffer.isEmpty &&
    w.autoFlushSeconds ≤ m.monotonic - s.lastFlushMonotonic

/-- `insert(rows)`. -/
def insert (m : Moment) (rows : List PyObj) (s : WriterState) : Except Exn Unit × WriterState :=
  if w.isNoop || rows.isEmpty then (.ok (), s)
  else
    let (kept, s) := w.judge m.switch rows s
    let s := { s with buffer := s.buffer ++ kept }
    if w.bufferMax < s.buffer.length then
      (.error (w.bufferFull s.buffer.length),
        { s with health := .degraded, buffer := sliceTo w.bufferMax s.buffer })
    else if w.batchRows ≤ s.buffer.length || w.overdue m s then (.ok (), w.flush m s)
    else (.ok (), s)

end Writer

end HsUploader
