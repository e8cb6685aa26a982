import HsUploader.Daemon.Rebuilder
import HsUploader.Library.Trace
import HsUploader.Sink.Writer

/-!
# The sink gate

`SinkGate.decide` answers whether a pipeline may send, and keeps a journal while it does: a line for
each change between held and sending, an `ERROR` line for each fault with reminders while it lasts,
a line for each recovery.  What it has said, when each fault last logged, which faults a clean
decision has cleared and which pipelines are owed a recovery line are tables of its own, each with a
cap.

What a decision finds outside the gate is its `Sight`, any part of which may raise.  The clock is
read as often as the source reads it, and answers what it will.

## What is here

* `FaultKey` and `SaidKey` — what a fault, and a line that is said once, is known by.
* `Line` — the lines of the journal, each with what the source formats into it.
* `first`, `once`, `clear`, `stamp`, `fault`, `recur` — the tables, each with its cap.
* `fileFaults` and `warnUngoverned` — what is said on the way to an answer.
* `rules` — the five rules in their order; `why` — the reason of the last one.
* `transition`, `failed`, `decide` — the line for a change, what an exception comes to, and a whole
  decision.
-/

set_option autoImplicit false

namespace HsUploader
namespace SinkGate

open Prog

/-- `str(e)`. -/
def message : Exn → String
  | .valueError m | .attributeError m | .typeError m | .runtimeError m | .overflowError m
  | .operationalError m | .other _ m => m

/-- `_key(pipe)`: the origin and the name. -/
abbrev PipeKey := String × String

def pipeKey (p : Daemon.Pipeline) : PipeKey := (p.origin, p.name)

/-- The key of a fault. -/
inductive FaultKey where
  /-- `("fault", "client", client)` -/
  | client (client : String)
  /-- `("fault", "site")` -/
  | site
  /-- `("fault", "no-sinks")` -/
  | noSinks
  /-- `("fault", _key(pipe), type(e).__name__)` -/
  | raised (pipe : PipeKey) (type : String)
  deriving DecidableEq

/-- A key of `_said`. -/
inductive SaidKey where
  | ungoverned (pipe : PipeKey)
  | noClient (pipe : PipeKey)
  | fault (key : FaultKey)
  deriving DecidableEq

/-- What `_fault` answers. -/
inductive Say where
  | first
  | remind
  /-- `""` -/
  | nothing
  deriving DecidableEq

/-- `Decision`. -/
structure Decision where
  send : Bool
  /-- 1 to 5, and 0 for a fault inside the gate. -/
  rule : ℕ
  reason : String
  deriving DecidableEq

/-- One line of the journal. -/
inductive Line where
  | ungoverned (pipe : PipeKey)
  | noClient (pipe : PipeKey)
  | saidCapped
  | lastCapped
  | noSinks (say : Say)
  | switchFault (error : String) (say : Say)
  /-- "pipeline %s held: the sink gate failed (%s)%s" -/
  | failed (pipe : PipeKey) (type message : String) (say : Say) (time : ℚ)
  /-- "pipeline %s sending: the sink gate recovered", or "held", with the reason -/
  | recovered (pipe : PipeKey) (send : Bool) (reason : String)
  /-- "pipeline %s sending: %s", or "held" -/
  | turned (pipe : PipeKey) (send : Bool) (reason : String)

def SAID_CAP : ℕ := 1024

/-- Seconds. -/
def REMIND_S : ℚ := 6 * 3600

/-- The gate, its journal and its clock. -/
structure Gate where
  said : List SaidKey := []
  capped : Bool := false
  last : List (PipeKey × Bool) := []
  faultAt : List (FaultKey × ℚ) := []
  excKeys : List (PipeKey × List FaultKey) := []
  cleared : List FaultKey := []
  owed : List PipeKey := []
  lastCapped : Bool := false
  journal : List Line := []
  /-- How often the clock was read. -/
  readings : ℕ := 0
  /-- What it last said. -/
  now : ℚ := 0

/-- What one decision finds outside the gate. -/
structure Sight where
  /-- The pipeline's own attributes are read. -/
  attributes : Except Exn Unit := .ok ()
  /-- `marker_stands(self.marker)` -/
  marker : Except Exn Bool
  /-- `effective_state(pipe.client, sinks_dir=self.sinks_dir)` -/
  effective : Except Exn Effective
  /-- `self.sinks_dir.is_dir()` -/
  isDir : Except Exn Bool

/-- A program of the gate. -/
abbrev GateM := Prog Gate Exn

/-- `log.info`, `log.warning`, `log.error`. -/
def write (l : Line) : GateM Unit := modify fun g ↦ { g with journal := g.journal ++ [l] }

/-- `x` as an element of a set. -/
def insertKey {κ : Type} [DecidableEq κ] (x : κ) (s : List κ) : List κ :=
  if x ∈ s then s else s ++ [x]

section

variable (clock : ℕ → ℚ)

/-- `self._clock()`. -/
def readClock : GateM ℚ :=
  act fun g ↦ (clock g.readings, { g with readings := g.readings + 1, now := clock g.readings })

/-- `_first(key)`: true the first time a key is seen, as long as there is room. -/
def first (key : SaidKey) : GateM Bool := do
  let g ← get
  if key ∈ g.said then pure false
  else if SAID_CAP ≤ g.said.length then do
    if g.capped then pure false
    else do
      modify fun g ↦ { g with capped := true }
      write .saidCapped
      pure false
  else do
    modify fun g ↦ { g with said := g.said ++ [key] }
    pure true

/-- A line that is logged once: `if self._first(key): log...`. -/
def once (key : SaidKey) (line : Line) : GateM Unit := do
  if ← first key then write line else pure ()

/-- `_clear(key)`. -/
def clear (key : FaultKey) : GateM Unit :=
  modify fun g ↦
    if (Table.lookup key g.faultAt).isSome then
      { g with
        faultAt := g.faultAt.filter fun x ↦ x.1 ≠ key
        said := g.said.filter fun k ↦ k ≠ .fault key }
    else g

/-- `self._fault_at[key] = now`. -/
def stamp (key : FaultKey) (now : ℚ) : GateM Unit :=
  modify fun g ↦ { g with faultAt := Table.upsert key now g.faultAt }

/-- `_fault(key, first_logs)`. -/
def fault (key : FaultKey) (firstLogs : Bool) : GateM Say := do
  let now ← readClock clock
  let g ← get
  match Table.lookup key g.faultAt with
  | some at' =>
    if now - at' < REMIND_S then pure .nothing
    else do
      stamp key now
      pure .remind
  | none =>
    if ← first (.fault key) then do
      stamp key now
      pure (if firstLogs then .first else .nothing)
    else pure .nothing

/-- `_recur(fkey)`. -/
def recur (key : FaultKey) : GateM (Option Say) := do
  let now ← readClock clock
  let g ← get
  if key ∉ g.cleared then pure none
  else do
    modify fun g ↦ { g with cleared := g.cleared.filter fun k ↦ k ≠ key }
    if now - (Table.lookup key g.faultAt).getD (now - REMIND_S) < REMIND_S then pure (some .nothing)
    else do
      stamp key now
      pure (some .first)

/-- One fault of `_file_faults`: its key, whether it stands, whether its first sight is logged here,
and its line. -/
def fileFault (key : FaultKey) (stands firstLogs : Bool) (line : Say → Line) : GateM Unit :=
  if !stands then clear key
  else do
    let say ← fault clock key firstLogs
    if say = .nothing then pure () else write (line say)

/-- `eff.client_missing and not self.sinks_dir.is_dir()`. -/
def sinksMissing (v : Sight) (eff : Effective) : GateM Bool :=
  if eff.clientMissing then ofExcept (v.isDir.map (!·)) else pure false

/-- `_file_faults(client, eff)`. -/
def fileFaults (v : Sight) (client : String) (eff : Effective) : GateM Unit :=
  if Daemon.validClientName client then do
    let noSinks ← sinksMissing v eff
    fileFault clock (.client client) (eff.clientError ≠ "") false (.switchFault eff.clientError)
    fileFault clock .site (eff.siteError ≠ "") false (.switchFault eff.siteError)
    fileFault clock .noSinks noSinks true .noSinks
  else fileFault clock (.client client) (eff.clientError ≠ "") false (.switchFault eff.clientError)

/-- `_VERB[state]`. -/
def verb : SwitchState → String
  | .off => "off"
  | .fill => "filling"
  | .upload => "uploading"

/-- `_order_by(eff)`. -/
def orderBy (eff : Effective) : String :=
  match eff.siteState, eff.clientState with
  | some site, some client => if site.index ≤ client.index then "site" else "client"
  | _, _ => "client"

/-- `_why(client, eff)`. -/
def why (client : String) (eff : Effective) : String :=
  if !Daemon.validClientName client then "bad client name"
  else if eff.clientMissing then "no switch file (client)"
  else if eff.clientError ≠ "" then "switch unreadable (client)"
  else if eff.siteError ≠ "" then "switch unreadable (site)"
  else "sink " ++ verb eff.state ++ " (" ++ orderBy eff ++ ")"

/-- Only one origin may say `governed = false`. -/
def warnUngoverned (p : Daemon.Pipeline) : GateM Unit :=
  if p.governed then pure () else once (.ungoverned (pipeKey p)) (.ungoverned (pipeKey p))

/-- `_decide(pipe)`. -/
def rules (p : Daemon.Pipeline) (v : Sight) : GateM Decision := do
  ofExcept v.attributes
  if Daemon.exemptRule p = 1 then pure ⟨true, 1, "ungoverned"⟩
  else do
    warnUngoverned p
    if Daemon.exemptRule p = 2 then pure ⟨true, 2, "legacy heartbeat"⟩
    else do
      let stands ← ofExcept v.marker
      if !stands then pure ⟨true, 3, "no carry-over marker"⟩
      else if p.client = "" then do
        once (.noClient (pipeKey p)) (.noClient (pipeKey p))
        pure ⟨true, 4, "no client"⟩
      else do
        let eff ← ofExcept v.effective
        fileFaults clock v p.client eff
        if eff.state = .upload then pure ⟨true, 5, "sink uploading"⟩
        else pure ⟨false, 5, why p.client eff⟩

/-- `_clear_exceptions(pipe, d)`. -/
def clearExceptions (p : Daemon.Pipeline) (d : Decision) : GateM Unit := do
  let k := pipeKey p
  let g ← get
  modify fun g ↦
    { g with
      excKeys := g.excKeys.filter fun x ↦ x.1 ≠ k
      cleared := ((Table.lookup k g.excKeys).getD []).foldl (fun s x ↦ insertKey x s) g.cleared
      owed := g.owed.filter fun x ↦ x ≠ k }
  if k ∈ g.owed then write (.recovered k d.send d.reason) else pure ()

/-- What is to be said of an exception: `_recur`, and `_fault` where that answers `None`. -/
def report (key : FaultKey) : GateM Say := do
  match ← recur clock key with
  | some say => pure say
  | none => fault clock key true

/-- What `decide` does with an exception. -/
def failed (p : Daemon.Pipeline) (e : Exn) : GateM Decision := do
  let k := pipeKey p
  let text := e.typeName ++ ": " ++ message e
  let fkey := FaultKey.raised k e.typeName
  let say ← report clock fkey
  modify fun g ↦
    { g with
      excKeys :=
        if (Table.lookup fkey g.faultAt).isSome then
          Table.upsert k (insertKey fkey ((Table.lookup k g.excKeys).getD [])) g.excKeys
        else g.excKeys
      owed := if say ≠ .nothing ∧ g.owed.length < SAID_CAP then insertKey k g.owed else g.owed }
  if say = .nothing then pure ()
  else do
    let g ← get
    write (.failed k e.typeName text say g.now)
  pure ⟨false, 0, "gate fault: " ++ text⟩

/-- `_transition(pipe, d)`. -/
def transition (p : Daemon.Pipeline) (d : Decision) : GateM Unit :=
  if d.rule = 0 then pure ()
  else do
    let k := pipeKey p
    let g ← get
    match Table.lookup k g.last with
    | none =>
      if SAID_CAP ≤ g.last.length then
        -- past the cap: the decision stands, and no transition is logged
        if g.lastCapped then pure ()
        else do
          modify fun g ↦ { g with lastCapped := true }
          write .lastCapped
      else do
        modify fun g ↦ { g with last := Table.upsert k d.send g.last }
        if d.send then pure () else write (.turned k false d.reason)
    | some prev => do
      modify fun g ↦ { g with last := Table.upsert k d.send g.last }
      if prev = d.send then pure () else write (.turned k d.send d.reason)

/-- `decide(pipe)`: an exception holds the pipeline. -/
def decide (p : Daemon.Pipeline) (v : Sight) : GateM Decision := do
  let d ← tryCatch (do
    let d ← rules clock p v
    clearExceptions p d
    pure d) (failed clock p)
  transition p d
  pure d

/-- One decision after the other. -/
def decideAll : List (Daemon.Pipeline × Sight) → Gate → Gate
  | [], g => g
  | (p, v) :: rest, g => decideAll rest (decide clock p v g).2

end

end SinkGate
end HsUploader
