import Mathlib.Data.List.Infix
import HsUploader.Library.RowTable
import HsUploader.Watermark

/-!
# The backlog summary

`backlog.summarize` reads a store's tables and counts.  The reading happens inside a catch-all,
and whatever fails there makes the answer unreadable; the counting happens outside it, on what the
tables hold.

A `TEXT NOT NULL` column holds texts and blobs, since a number is turned into its text when it is
stored: a `Cell`.  `pipeline_state.name` is a `TEXT PRIMARY KEY`, which SQLite lets be NULL.  A
`BLOB` column holds what it is given.  Python compares two texts or two blobs, and raises at any
other pair.
-/

set_option autoImplicit false

namespace HsUploader
namespace Backlog

/-! ## What the tables hold -/

/-- A value of a `BLOB NOT NULL` column. -/
inductive Stored where
  | integer (n : ℤ)
  | real (x : ℚ)
  | infinity (negative : Bool)
  | text (s : String)
  | blob (b : Bytes)
  deriving DecidableEq

/-- What SQLite's `=` compares: an integer and a real are equal as numbers. -/
def Stored.compared : Stored → Stored
  | .integer n => .real n
  | v => v

/-- One row of `dead_letter`, less its row id. -/
structure DeadLetterRow where
  pipeline : Cell
  ts : Cell
  payload : Stored

/-- One row of the `watermarks` query. -/
structure CursorRow where
  sourceId : Cell
  destId : Cell
  tableName : Cell
  lastAck : Cell
  cursorLen : ℤ
  deriving DecidableEq

/-- One row of the `superseded_keys` query. -/
structure SupersededRow where
  oldSourceId : Cell
  oldDestId : Cell
  oldTable : Cell
  newSourceId : Cell

/-- One row of the `pipeline_state` query. -/
structure StateRow where
  name : Option Cell
  client : Cell
  refusedReason : Cell

/-- One row of the `last_send` query. -/
structure LastSendRow where
  client : Cell
  pipeline : Cell
  outcome : Cell
  ts : Cell
  records : Option Stored

/-- What stands at the path: what opening it, each query and closing it come to. -/
structure File where
  connect : Except Exn Unit := .ok ()
  watermarks : Except Exn (List CursorRow)
  /-- The `pipeline` of each deliverable. -/
  deliverables : Except Exn (List Cell)
  deadLetter : Except Exn (RowTable DeadLetterRow)
  superseded : Except Exn (List SupersededRow)
  states : Except Exn (List StateRow)
  lastSend : Except Exn (List LastSendRow)
  close : Except Exn Unit := .ok ()

/-! ## The reading -/

/-- One row of the dead-letter query. -/
structure DeadRow where
  pipeline : Cell
  ts : Cell
  datasetId : ℕ

/-- Two dead letters of one pipeline with one payload. -/
def DeadLetterRow.same (d d' : DeadLetterRow) : Bool :=
  d.pipeline = d'.pipeline && d.payload.compared = d'.payload.compared

/-- The least row id with this row's pipeline and payload: the row itself has one. -/
def datasetId (t : RowTable DeadLetterRow) (d : ℕ × DeadLetterRow) : ℕ :=
  (((t.rows.filter fun d' ↦ d'.2.same d.2).map Prod.fst).min?).getD d.1

/-- `SELECT pipeline, ts, (SELECT MIN(d2.rowid) ...) AS dataset_id FROM dead_letter d1`. -/
def deadRows (t : RowTable DeadLetterRow) : List DeadRow :=
  t.rows.map fun d ↦ ⟨d.2.pipeline, d.2.ts, datasetId t d⟩

/-- `SELECT pipeline, COUNT(*) FROM deliverables GROUP BY pipeline`. -/
def deliverableCounts (pipelines : List Cell) : List (Cell × ℕ) :=
  pipelines.dedup.map fun p ↦ (p, pipelines.count p)

/-- `_optional_rows`: no rows where there is no such table. -/
def optionalRows {α : Type} : Except Exn (List α) → Except Exn (List α)
  | .error (.operationalError message) =>
    if "no such table".toList <:+: message.toList then .ok []
    else .error (.operationalError message)
  | r => r

/-- What was read. -/
structure Reading where
  cursors : List CursorRow
  deliverables : List Cell
  dead : RowTable DeadLetterRow
  superseded : List SupersededRow
  states : List StateRow
  lastSend : List LastSendRow

/-- The queries, one after the other. -/
def queries (f : File) : Except Exn Reading := do
  let cursors ← f.watermarks
  let deliverables ← f.deliverables
  let dead ← f.deadLetter
  let superseded ← optionalRows f.superseded
  let states ← optionalRows f.states
  let lastSend ← optionalRows f.lastSend
  pure ⟨cursors, deliverables, dead, superseded, states, lastSend⟩

/-- The part inside the catch-all: `conn.close()` runs whatever the queries came to, and what it
raises comes first. -/
def read (f : File) : Except Exn Reading := do
  f.connect
  let r := queries f
  f.close
  r

/-! ## The counting -/

/-- `a < b`. -/
def less : Option Cell → Option Cell → Except Exn Bool
  | some (.text s), some (.text s') => .ok (s < s')
  | some (.blob b), some (.blob b') => .ok (b < b')
  | _, _ => .error (.typeError "'<' not supported between these instances")

/-- Place a value in a sorted list. -/
def place (x : Option Cell) : List (Option Cell) → Except Exn (List (Option Cell))
  | [] => .ok [x]
  | y :: ys => do
    if ← less x y then pure (x :: y :: ys)
    else do
      let zs ← place x ys
      pure (y :: zs)

/-- `sorted(xs)` of distinct values.  Which of them are compared is the interpreter's; values of two
kinds cannot be sorted without one of these being compared with one of those. -/
def sorted : List (Option Cell) → Except Exn (List (Option Cell))
  | [] => .ok []
  | x :: xs => do
    let ys ← sorted xs
    place x ys

/-- A `datetime`, in microseconds, and what its zone is ahead of UTC. -/
structure Datetime where
  clock : ℤ
  offset : Option ℤ

/-- The instant, in UTC where the zone is not told. -/
def Datetime.instant (t : Datetime) : ℤ := t.clock - t.offset.getD 0

section

variable (fromisoformat : String → Option Datetime)

/-- `_is_recent(ts, cutoff)`: an age that cannot be read is recent, and a blob's cannot. -/
def isRecent (ts : Cell) (cutoff : ℤ) : Bool :=
  match ts with
  | .blob _ => true
  | .text s =>
    match fromisoformat s with
    | none => true
    | some t => cutoff ≤ t.instant

/-- The dicts the dead letters are counted in. -/
structure Tally where
  counts : List (Cell × ℕ) := []
  recent : List (Cell × ℕ) := []
  newest : List (Cell × Cell) := []
  sets : List (Cell × List ℕ) := []
  setsRecent : List (Cell × List ℕ) := []

/-- `d[name] = d.get(name, 0) + 1`. -/
def count (name : Cell) (d : List (Cell × ℕ)) : List (Cell × ℕ) :=
  Table.upsert name ((Table.lookup name d).getD 0 + 1) d

/-- `d.setdefault(name, set()).add(x)`. -/
def add {α β : Type} [DecidableEq α] [DecidableEq β] (name : α) (x : β) (d : List (α × List β)) :
    List (α × List β) :=
  Table.upsert name (((Table.lookup name d).getD []).insert x) d

/-- `name not in dead_letter_newest or ts > dead_letter_newest[name]`. -/
def isNewest (newest : List (Cell × Cell)) (row : DeadRow) : Except Exn Bool :=
  match Table.lookup row.pipeline newest with
  | none => .ok true
  | some ts => less (some ts) (some row.ts)

/-- One round of the loop over the dead letters. -/
def tally (cutoff : ℤ) (t : Tally) (row : DeadRow) : Except Exn Tally := do
  let recent := isRecent fromisoformat row.ts cutoff
  let newest ← isNewest t.newest row
  pure
    { counts := count row.pipeline t.counts
      sets := add row.pipeline row.datasetId t.sets
      recent := if recent then count row.pipeline t.recent else t.recent
      setsRecent := if recent then add row.pipeline row.datasetId t.setsRecent else t.setsRecent
      newest := if newest then Table.upsert row.pipeline row.ts t.newest else t.newest }

/-- `successors`: what each key was split into. -/
def successors (rows : List SupersededRow) : List ((Cell × Cell × Cell) × List Cell) :=
  rows.foldl (fun d r ↦ add (r.oldSourceId, r.oldDestId, r.oldTable) r.newSourceId d) []

/-- One cursor of the answer. -/
structure CursorReport where
  row : CursorRow
  supersededBy : List (Option Cell)

/-- One pipeline of the answer. -/
structure PipelineReport where
  name : Option Cell
  client : Cell
  refusedReason : Cell
  deliverableCount : ℕ
  deadLetterCount : ℕ
  deadLetterRecentCount : ℕ
  deadLetterDatasets : ℕ
  deadLetterRecentDatasets : ℕ
  deadLetterNewest : Option Cell

/-- The dict `summarize` answers. -/
inductive Summary where
  | unreadable (e : Exn)
  | readable (pipelines : List PipelineReport) (cursors : List CursorReport) (orphaned : ℕ)
      (lastSend : List LastSendRow)

/-- The cursors, each with what superseded it. -/
def cursorReport (next : List ((Cell × Cell × Cell) × List Cell)) (row : CursorRow) :
    Except Exn CursorReport := do
  let supersededBy ←
    sorted (((Table.lookup (row.sourceId, row.destId, row.tableName) next).getD []).map some)
  pure ⟨row, supersededBy⟩

/-- `set(deliverable_counts) | set(dead_letter_counts) | set(known)`. -/
def pipelineNames (r : Reading) (t : Tally) : List (Option Cell) :=
  ((deliverableCounts r.deliverables).map (some ·.1) ++ t.counts.map (some ·.1) ++
    r.states.map StateRow.name).dedup

/-- `known[name]`: of two rows the later one. -/
def known (states : List StateRow) (name : Option Cell) : Option StateRow :=
  states.reverse.find? fun s ↦ s.name = name

/-- `d.get(name, 0)`. -/
def getCount {α β : Type} [DecidableEq α] (size : β → ℕ) (d : List (α × β)) (name : Option α) : ℕ :=
  match name with
  | none => 0
  | some name => ((Table.lookup name d).map size).getD 0

/-- One pipeline of the answer. -/
def pipelineReport (r : Reading) (t : Tally) (name : Option Cell) : PipelineReport where
  name := name
  client := ((known r.states name).map StateRow.client).getD (.text "")
  refusedReason := ((known r.states name).map StateRow.refusedReason).getD (.text "")
  deliverableCount := getCount id (deliverableCounts r.deliverables) name
  deadLetterCount := getCount id t.counts name
  deadLetterRecentCount := getCount id t.recent name
  deadLetterDatasets := getCount List.length t.sets name
  deadLetterRecentDatasets := getCount List.length t.setsRecent name
  deadLetterNewest := name.bind fun name ↦ Table.lookup name t.newest

/-- The dead letters whose pipeline has no row in `pipeline_state`; none where there are no rows. -/
def orphaned (r : Reading) (t : Tally) : ℕ :=
  if r.states.isEmpty then 0
  else ((t.counts.filter fun c ↦ (known r.states (some c.1)).isNone).map Prod.snd).sum

/-- The part after the catch-all. -/
def assemble (cutoff : ℤ) (r : Reading) : Except Exn Summary := do
  let t ← (deadRows r.dead).foldlM (tally fromisoformat cutoff) {}
  let cursors ← r.cursors.mapM (cursorReport (successors r.superseded))
  let names ← sorted (pipelineNames r t)
  pure (.readable (names.map (pipelineReport r t)) cursors (orphaned r t) r.lastSend)

/-- `summarize(path, now)`: `cutoff` is `now` less a day. -/
def summarize (cutoff : ℤ) (f : File) : Except Exn Summary :=
  match read f with
  | .error e => .ok (.unreadable e)
  | .ok r => assemble fromisoformat cutoff r

end

end Backlog
end HsUploader
