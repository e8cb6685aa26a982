import HsUploader.Daemon.Assemble

/-!
# The rebuilder

The daemon's running set, and the rebuild between two pumps.  `make` builds and commits nothing;
`rebuild` commits in the order of the source: the build and the signature, then the starting
records and the switch report, and the running set last.

The log lines are left out, and with them what the rebuilder remembers having said.

## What is here

* `Rebuilder` and `State` — the recorded build with its signature, the running set, the rows of
  `pipeline_state`, and the send records.
* `markerStands`, `startingPass`, `markerCheck` — the carry-over marker, and the records written for
  pipelines that start at now while it stands.
* `make`, `prepare`, `commit`, `rebuild` — the build, the two halves of a rebuild and their sum.
  The statements of `commit` stand in the order of the source, since what is left when one of them
  raises depends on it.
* `replacePipelines` — what the removed pipelines hold and no new one does is closed, each object
  once, on the thread of its pipeline.
* `start` and `due` — the first build, and whether the directory has moved since the last one.
-/

set_option autoImplicit false

namespace HsUploader
namespace Daemon

open Prog

/-- What the rebuilder holds: `Rebuilder`. -/
structure Rebuilder where
  manifest : Manifest
  /-- A marker path was given. -/
  marker : Bool := true
  signature : Option Signature := none
  build : Build := {}
  running : List Pipeline := []
  rows : List (String × String × String) := []
  markerSeen : Bool := false

/-- The daemon's state: its rebuilder, the uploader's running set, and the send records. -/
structure State where
  world : World := {}
  self : Rebuilder
  pumping : List Pipeline := []
  records : List (Key × Bytes) := []

/-- A program of the daemon. -/
abbrev DaemonM := Prog State Exn

/-- A step of the daemon's that touches neither its records nor the store. -/
def onWorld {α : Type} (p : Prog World Exn α) : DaemonM α :=
  zoom State.world (fun w s ↦ { s with world := w }) p

/-- Change what the rebuilder holds. -/
def setSelf (f : Rebuilder → Rebuilder) : DaemonM Unit := modify fun s ↦ { s with self := f s.self }

/-! ## The marker and the starting records -/

def SINK_GATE_ORIGIN : String := "pipelines.d/sigmond.toml"

def HEARTBEAT_CLIENT : String := "sigmond"

/-- `exempt_rule(pipe)`. -/
def exemptRule (p : Pipeline) : ℕ :=
  if !p.governed && p.origin = SINK_GATE_ORIGIN then 1
  else if p.origin = LEGACY && (p.client = HEARTBEAT_CLIENT || p.heartbeat) then 2
  else 0

/-- Whether anything stands at the marker's path: an error other than its absence counts. -/
def standing : Except OsError Unit → Bool
  | .error .notFound => false
  | .error (.other type _) => type ≠ "NotADirectoryError"
  | .ok () => true

/-- `marker_stands(marker)`. -/
def markerStands (h : Host) : DaemonM Bool := onWorld (look fun n ↦ standing (h.marker n))

/-- The record a starting record is written beside: none, or one that reads as empty. -/
def State.emptyRecord (s : State) (key : Key) : Bool :=
  (Table.lookup key s.records).all (·.isEmpty)

/-- `store.start_cursor(key, cursor)`: insert only where the key holds no row. -/
def State.startCursor (s : State) (key : Key) (cursor : Bytes) : State :=
  match Table.lookup key s.records with
  | some _ => s
  | none => { s with records := s.records ++ [(key, cursor)] }

/-- The starting record of one pipeline. -/
def writeStartingRecord (h : Host) (p : Pipeline) : DaemonM Unit :=
  if !p.initial || exemptRule p ≠ 0 then pure ()
  else do
    let key ← ofExcept p.key
    onWorld (call h.store)
    let s ← get
    if !s.emptyRecord key then pure ()
    else do
      match ← onWorld (call fun n ↦ h.initialCursor n p.id) with
      | none => pure ()
      | some cursor =>
        if cursor.isEmpty then pure ()
        else do
          onWorld (call h.store)
          modify fun s ↦ s.startCursor key cursor

/-- `write_starting_records(pipelines, store)`: what fails for one pipeline skips that one. -/
def writeStartingRecords (h : Host) : List Pipeline → DaemonM Unit
  | [] => pure ()
  | p :: ps => do
    let _ ← attempt (writeStartingRecord h p)
    writeStartingRecords h ps

/-- `_starting_pass(pipes)`. -/
def startingPass (h : Host) (pipes : List Pipeline) : DaemonM Unit := do
  let s ← get
  if s.self.marker then do
    let seen ← markerStands h
    setSelf fun r ↦ { r with markerSeen := seen }
    if seen then writeStartingRecords h pipes else pure ()
  else pure ()

/-- The governed clients of a build, sorted. -/
def Build.clients (b : Build) : List String :=
  ((b.pipelines.filter fun p ↦ p.client ≠ "" && p.governed).map Pipeline.client).dedup
    |>.insertionSort (· ≤ ·)

/-- Read the switch of each client, for the report. -/
def readSwitches (h : Host) : List String → DaemonM Unit
  | [] => pure ()
  | client :: clients => do
    let _ ← onWorld (call fun n ↦ h.switch n client)
    readSwitches h clients

/-- `report_switches()`. -/
def reportSwitches (h : Host) : DaemonM Unit := do
  let s ← get
  if s.self.marker then do
    let _ ← markerStands h
  let sinks ← onWorld (call h.sinks)
  if sinks then readSwitches h s.self.build.clients else pure ()

/-! ## Building -/

/-- `_PRODUCER_STORE_VERSION`. -/
def PRODUCER_STORE_VERSION : ℕ := 2

/-- `split_refused(pipelines, store_version)`: the pipelines that may run, and why the others may
not, by name. -/
def splitRefused (version : ℕ) (pipelines : List Pipeline) :
    List Pipeline × List (String × String) :=
  let held (p : Pipeline) := p.producer && version < PRODUCER_STORE_VERSION
  let reason := s!"store is at schema version {version}; producer pipelines need version "
    ++ s!"{PRODUCER_STORE_VERSION} (run `hs-uploader migrate`)"
  (pipelines.filter fun p ↦ !held p,
    ((pipelines.filter held).map Pipeline.name).foldl (fun d n ↦ Table.upsert n reason d) [])

/-- What `_make` returns. -/
structure Draft where
  signature : Signature
  build : Build
  running : List Pipeline
  rows : List (String × String × String)

/-- The rows of `pipeline_state`: one for each pipeline built, one for each refused file. -/
def stateRows (build : Build) (storeRefused : List (String × String)) :
    List (String × String × String) :=
  build.pipelines.map (fun p ↦ (p.name, p.client, (Table.lookup p.name storeRefused).getD ""))
    ++ build.refused.map fun r ↦ (r.rowName, r.client, r.reason)

/-- `_make(previous, strict=strict)`. -/
def make (h : Host) (manifest : Manifest) (previous : Option Build) (strict : Bool) :
    Prog World Exn Draft := do
  let layout ← loadLayout h manifest
  let build ← assemble h layout previous strict
  match ← attempt (call h.schemaVersion) with
  | .error e => do
    closeQuietly build.fresh
    raise e
  | .ok version =>
    let r := splitRefused version build.pipelines
    pure { signature := layout.signature, build, running := r.1, rows := stateRows build r.2 }

/-- `due()`: whether `pipelines.d/` moved since the last build. -/
def due (h : Host) : DaemonM Bool := do
  let signature ← onWorld (pipelinesSignature h)
  let s ← get
  pure (decide (some signature ≠ s.self.signature))

/-- `start()`, and the uploader made of what it returns. -/
def start (h : Host) : DaemonM Unit := do
  let s ← get
  let draft ← onWorld (make h s.self.manifest none true)
  onWorld (call h.recordStates)
  setSelf fun r ↦ { r with
    build := draft.build, running := draft.running, rows := draft.rows
    signature := some draft.signature }
  startingPass h draft.running
  reportSwitches h
  modify fun s ↦ { s with pumping := draft.running }

/-- The objects of the removed pipelines, each with its pipeline's thread. -/
def removedParts (pumping new : List Pipeline) : List (Obj × Thread) :=
  let keep := new.map Pipeline.id
  (pumping.filter fun p ↦ !keep.contains p.id).flatMap fun p ↦
    p.objects.map fun o ↦ (o, .pump p.id)

/-- What is closed of them: each object once, and none that is held. -/
def closeEach (held : List Obj) : List (Obj × Thread) → List Obj → List (Obj × Thread)
  | [], _ => []
  | c :: cs, closed =>
    if held.contains c.1 || closed.contains c.1 then closeEach held cs closed
    else c :: closeEach held cs (c.1 :: closed)

/-- `uploader.replace_pipelines(new)`: what the removed pipelines hold and no new one does is closed,
and the set changes.  A failure to close is logged and passed over. -/
def replacePipelines (h : Host) (new : List Pipeline) : DaemonM Unit := do
  let s ← get
  onWorld (call h.swap)
  let closed := closeEach (new.flatMap Pipeline.objects) (removedParts s.pumping new) []
  modify fun s ↦ { s with
    world := { s.world with closed := s.world.closed ++ closed }
    pumping := new }

/-- The steps of `rebuild` before anything is committed: the new build, and whether the running
set or the rows changed. -/
def prepare (h : Host) : DaemonM (Draft × Bool) := do
  let s ← get
  let draft ← onWorld (make h s.self.manifest (some s.self.build) false)
  let changed := !(draft.rows = s.self.rows &&
    draft.running.map Pipeline.id = s.self.running.map Pipeline.id)
  if changed then do
    match ← attempt (onWorld (call h.recordStates)) with
    | .ok () => pure (draft, changed)
    | .error e => do
      onWorld (closeQuietly draft.build.fresh)
      raise e
  else pure (draft, changed)

/-- The steps of `rebuild` from the first commit on. -/
def commit (h : Host) (previous : Build) (draft : Draft) (changed : Bool) : DaemonM Bool := do
  setSelf fun r ↦ { r with build := draft.build, signature := some draft.signature }
  startingPass h draft.running
  reportSwitches h
  let s ← get
  let pumped := s.pumping.map Pipeline.id
  let kept := draft.build.pipelines.map Pipeline.id
  onWorld (closeQuietly (previous.pipelines.filter fun p ↦
    !kept.contains p.id && !pumped.contains p.id))
  if changed then do
    setSelf fun r ↦ { r with rows := draft.rows }
    replacePipelines h draft.running
    setSelf fun r ↦ { r with running := draft.running }
    pure true
  else pure false

/-- `rebuild(uploader)`. -/
def rebuild (h : Host) : DaemonM Bool := do
  let s ← get
  let r ← prepare h
  commit h s.self.build r.1 r.2

/-- `marker_check()`. -/
def markerCheck (h : Host) : DaemonM Unit := do
  let s ← get
  if s.self.marker then do
    let stands ← markerStands h
    setSelf fun r ↦ { r with markerSeen := stands }
    if stands && !s.self.markerSeen then do
      writeStartingRecords h s.self.running
      reportSwitches h
    else if stands ≠ s.self.markerSeen then reportSwitches h
    else pure ()
  else pure ()

end Daemon
end HsUploader
