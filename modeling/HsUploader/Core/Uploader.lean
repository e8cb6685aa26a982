import HsUploader.Library.Prog
import HsUploader.Watermark

/-!
# The uploader

One pipeline's pump, as `Uploader._pump_one` runs it: replay the retries that are due, then drain
the source, advancing the send record and committing to the source after each ack.

The world a pump runs in has three parts.  `Sys` is everything outside the uploader and its store:
the queue or the files a source reads, what the source and the transport keep in memory, and the
environment.  `Store` is the persisted state.  The trace is a ghost: it records the calls made to
the gate and the transport, and the answers, and no definition reads it.

Every database statement, transport call, gate call and clock reading is one step, and before each
step the environment moves (`breathe`): other processes act on the outside, and the process may be
stopped.  The environment also fixes what the gate, the clock and an unspecified transport answer.
Since it is an arbitrary stream, a statement about every environment covers every interleaving,
every stopping point and every sequence of answers.

## What is here

* `Choice` and `Surroundings` — a move of the environment: whether the process stops, what the other
  processes do, what the gate answers, what the clock shows and what the transport says.
* `Source`, `Transport`, `Pipeline` — the objects a pump calls.  A source's generator is the list of
  its resumptions, so that the queue may move between two batches of one generator.
* `World` and `Event` — the outside, the store and the trace of calls.
* `maySend`, `advance`, `handleFirstAttempt`, `handleOutcome` — the methods of the source text, each
  under its own name, with the order of their database statements.
* `drainDeliverables`, `drainSource`, `pumpOne` — the two loops and the pump.  Their number of
  rounds is bounded by the rows on the queue and by the record budget.
* `cycle` and `run` — pump after pump, with a restart after a stop.
-/

set_option autoImplicit false

namespace HsUploader

open Prog

variable {σ ω ρ π α : Type}

/-! ## The outside -/

/-- How the outside reacts to what another process does to it. -/
class Surroundings (ω σ : Type) where
  /-- The outside after another process's act. -/
  react : ω → σ → σ

/-- The environment's move before one step of the process. -/
structure Choice (ω ρ : Type) where
  /-- The process is stopped before this step. -/
  stop : Bool := false
  /-- What other processes do before this step. -/
  ops : List ω := []
  /-- What the gate answers, if this step asks it. -/
  gate : Except Exn Bool := .ok true
  /-- What the clock reads, if this step reads it. -/
  now : Reading := 0
  /-- What a transport answers, if this step is a call of one that leaves its answer open. -/
  outcome : Except Exn (Outcome ρ) := .ok .acked

/-- Everything outside the uploader and its store. -/
structure Sys (σ ω ρ : Type) where
  /-- What the source and the transport read and write. -/
  here : σ
  /-- The environment's moves. -/
  env : ℕ → Choice ω ρ
  /-- How many moves have been made. -/
  tick : ℕ := 0

/-- A program of a source or a transport. -/
abbrev SysM (σ ω ρ : Type) := Prog (Sys σ ω ρ) Exn

namespace Sys

/-- The environment's next move. -/
def choice (s : Sys σ ω ρ) : Choice ω ρ := s.env s.tick

/-- The outside after the environment's next move. -/
def next [Surroundings ω σ] (s : Sys σ ω ρ) : Sys σ ω ρ :=
  { s with
    here := s.choice.ops.foldl (fun x op ↦ Surroundings.react op x) s.here
    tick := s.tick + 1 }

/-- Let the environment move; it answers with its choice, or stops the process. -/
def breathe [Surroundings ω σ] : SysM σ ω ρ (Choice ω ρ) := fun s ↦
  if s.choice.stop then (.stopped, s.next) else (.ok s.choice, s.next)

/-- Read or change what is held in memory: no step of its own. -/
def inMemory (f : σ → α × σ) : SysM σ ω ρ α :=
  Prog.act fun s ↦ ((f s.here).1, { s with here := (f s.here).2 })

end Sys

/-! ## Sources, transports and pipelines -/

/-- `Source`.  `iterBatches` answers the generator as the list of its resumptions: each one, when
it is run, yields a batch or nothing. -/
structure Source (σ ω ρ : Type) where
  sourceId : String
  iterBatches : Bytes → ℤ → SysM σ ω ρ (List (SysM σ ω ρ (Option (RecordBatch ρ))))
  commit : Bytes → SysM σ ω ρ Unit
  /-- `cursor_is_after`; `none` for a source without the method. -/
  cursorIsAfter : Option (Bytes → Bytes → Except Exn Bool)

/-- `Transport`. -/
structure Transport (σ ω ρ π : Type) where
  name : String
  primaryTable : String
  batchPolicy : BatchPolicy := {}
  /-- `getattr(transport, "ships", True)`. -/
  ships : Bool := true
  ship : RecordBatch ρ → SysM σ ω ρ (Outcome ρ)
  serializeForRetry : RecordBatch ρ → SysM σ ω ρ π
  replay : π → SysM σ ω ρ (Outcome ρ)
  /-- `len(payload)`. -/
  payloadLen : π → ℕ

/-- `Pipeline`: one source bound to one transport. -/
structure Pipeline (σ ω ρ π : Type) where
  name : String
  source : Source σ ω ρ
  transport : Transport σ ω ρ π
  retry : RetryPolicy := {}
  batchLimit : ℤ := 1000
  maxRecordsPerPump : Option ℤ := none
  client : String := ""

/-- The key of the pipeline's send record. -/
def Pipeline.key (pipe : Pipeline σ ω ρ π) : SendKey :=
  ⟨pipe.source.sourceId, pipe.transport.name, pipe.transport.primaryTable⟩

/-- The `limit` a pump passes to `iter_batches`. -/
def Pipeline.limit (pipe : Pipeline σ ω ρ π) : ℤ :=
  min pipe.batchLimit pipe.transport.batchPolicy.maxRecords

/-- The pump may ship more records than `shipped`: `budget is None or shipped < budget`. -/
def Pipeline.budgetLeft (pipe : Pipeline σ ω ρ π) (shipped : ℤ) : Bool :=
  match pipe.maxRecordsPerPump with
  | none => true
  | some budget => shipped < budget

/-- `Uploader`, the part of it one pipeline's pump reads: whether a gate is set. -/
structure Uploader where
  gated : Bool := false

/-! ## The world of a pump -/

/-- One entry of the trace. -/
inductive Event (ρ π : Type) where
  /-- The gate answered. -/
  | gate (answer : Bool)
  /-- `ship` was called. -/
  | shipping (batch : RecordBatch ρ)
  /-- `ship` returned. -/
  | shipped (batch : RecordBatch ρ) (outcome : Outcome ρ)
  /-- `replay` was called. -/
  | replaying (d : Deliverable π)
  /-- `replay` returned. -/
  | replayed (d : Deliverable π) (outcome : Outcome ρ)

/-- The world a pump runs in. -/
structure World (σ ω ρ π : Type) where
  sys : Sys σ ω ρ
  store : Store π
  trace : List (Event ρ π) := []

/-- The world after the environment's next move. -/
def World.next [Surroundings ω σ] (w : World σ ω ρ π) : World σ ω ρ π := { w with sys := w.sys.next }

/-- The world with an entry more in its trace. -/
def World.noted (w : World σ ω ρ π) (e : Event ρ π) : World σ ω ρ π :=
  { w with trace := w.trace ++ [e] }

/-- The world with another store. -/
def World.stored (w : World σ ω ρ π) (s : Store π) : World σ ω ρ π := { w with store := s }

/-- A program of the uploader. -/
abbrev UM (σ ω ρ π : Type) := Prog (World σ ω ρ π) Exn

section pump

variable [Surroundings ω σ]

/-- Run a program of the source or the transport. -/
def onSys (p : SysM σ ω ρ α) : UM σ ω ρ π α :=
  Prog.zoom World.sys (fun s w ↦ { w with sys := s }) p

/-- Run one method of the store that raises nothing. -/
def onStore (f : Store π → α × Store π) : UM σ ω ρ π α := do
  let _ ← onSys Sys.breathe
  Prog.act fun w ↦ ((f w.store).1, w.stored (f w.store).2)

/-- Run one method of the store that may raise. -/
def onStoreE (f : Store π → Except Exn (α × Store π)) : UM σ ω ρ π α := do
  let _ ← onSys Sys.breathe
  Prog.actE fun w ↦ (f w.store).map fun r ↦ (r.1, w.stored r.2)

/-- Append to the trace. -/
def note (e : Event ρ π) : UM σ ω ρ π Unit :=
  Prog.modify fun w ↦ w.noted e

/-- `self._now()`. -/
def readNow : UM σ ω ρ π Reading := do
  let c ← onSys Sys.breathe
  pure c.now

/-- `s or None`, the `error` column of an attempt. -/
def orNone (s : String) : Option String := if s = "" then none else some s

/-- `s or default`. -/
def orElse (s default : String) : String := if s = "" then default else s

theorem orElse_self (s : String) : orElse s s = s := ite_self s

/-- `_may_send`: ask the gate; a gate that raises holds. -/
def maySend (u : Uploader) : UM σ ω ρ π Bool :=
  if u.gated then do
    let c ← onSys Sys.breathe
    let answer := match c.gate with
      | .ok b => b
      | .error _ => false
    note (.gate answer)
    pure answer
  else pure true

/-- `_always_after`. -/
def alwaysAfter (_new _stored : Bytes) : Except Exn Bool := .ok true

/-- `_is_after_for`. -/
def isAfterFor (source : Source σ ω ρ) : Bytes → Bytes → Except Exn Bool :=
  source.cursorIsAfter.getD alwaysAfter

/-- `_advance`. -/
def advance (pipe : Pipeline σ ω ρ π) (key : SendKey) (cursor : Bytes) (lastAck : Stamp) :
    UM σ ω ρ π Advance :=
  onStore fun s ↦ s.advanceCursor key cursor lastAck (isAfterFor pipe.source)

/-- `record_attempt`, with the arguments that are the same at each of its calls. -/
def recordAttempt (pipe : Pipeline σ ω ρ π) (ts : Stamp) (outcome : String)
    (records bytes : Option ℤ) (error : Option String) : UM σ ω ρ π Unit :=
  onStore fun s ↦
    ((), s.recordAttempt
      { ts, key := pipe.key, outcome, records, bytes, error
        pipeline := pipe.name, client := pipe.client } pipe.transport.ships)

/-- `enqueue_deliverable`, as the first attempt calls it. -/
def enqueue (pipe : Pipeline σ ω ρ π) (batch : RecordBatch ρ) (payload : π)
    (enqueuedAt nextAttemptAt : Stamp) : UM σ ω ρ π Unit :=
  onStore fun s ↦
    ((), s.enqueueDeliverable
      { id := 0, attempts := 0, pipeline := pipe.name, payloadBlob := payload
        enqueuedAt, nextAttemptAt
        sourceId := pipe.source.sourceId, destId := pipe.transport.name
        table := pipe.transport.primaryTable
        cursorAfter := batch.cursorAfter, commitToken := batch.commitToken })

/-- `send_to_dead_letter`. -/
def deadLetter (pipe : Pipeline σ ω ρ π) (ts : Stamp) (payload : π) (finalError : String) :
    UM σ ω ρ π Unit :=
  onStore fun s ↦
    ((), s.sendToDeadLetter { ts, pipeline := pipe.name, payloadBlob := payload, finalError })

/-- The text of `RuntimeError` for an outcome kind that is none of the four. -/
def unhandledKind (kind : String) : Exn :=
  .runtimeError ("Unhandled outcome kind: '" ++ kind ++ "'")

/-- `outcome.accepted_cursor or cursor_after`: an empty cursor counts as none. -/
def Outcome.acceptedOr (o : Outcome ρ) (cursorAfter : Bytes) : Bytes :=
  match o.acceptedCursor with
  | some (x :: xs) => x :: xs
  | _ => cursorAfter

/-- `_handle_first_attempt`. -/
def handleFirstAttempt (pipe : Pipeline σ ω ρ π) (batch : RecordBatch ρ) (outcome : Outcome ρ)
    (now : Reading) : UM σ ω ρ π Unit :=
  let ts := now.iso
  match outcome.kind with
  | .acked => do
    let _ ← advance pipe pipe.key batch.cursorAfter ts
    onSys (pipe.source.commit batch.commitToken)
    recordAttempt pipe ts "acked" (some batch.records.length) none none
  | .partialAck => do
    let _ ← advance pipe pipe.key (outcome.acceptedOr batch.cursorAfter) ts
    onSys (pipe.source.commit batch.commitToken)
    recordAttempt pipe ts "partial_ack"
      (some (batch.records.length - outcome.rejected.length)) none (orNone outcome.reason)
  | .retryLater => do
    let payload ← onSys (pipe.transport.serializeForRetry batch)
    let delay ← Prog.ofExcept (pipe.retry.delayFor 0)
    let nextAttemptAt ← Prog.ofExcept (iso (now + delay))
    enqueue pipe batch payload ts nextAttemptAt
    recordAttempt pipe ts "retry_later" (some batch.records.length)
      (some (pipe.transport.payloadLen payload)) (orNone outcome.reason)
  | .permanent => do
    let payload ← onSys (pipe.transport.serializeForRetry batch)
    deadLetter pipe ts payload (orElse outcome.reason "permanent_failure")
    recordAttempt pipe ts "permanent" (some batch.records.length) none (orNone outcome.reason)
  | .other kind => Prog.raise (unhandledKind kind)

/-- The send record a deliverable's ack advances: the key it was queued under. -/
def Deliverable.key (pipe : Pipeline σ ω ρ π) (d : Deliverable π) : SendKey :=
  ⟨orElse d.sourceId pipe.source.sourceId, orElse d.destId pipe.transport.name,
    orElse d.table pipe.transport.primaryTable⟩

/-- `_handle_outcome`. -/
def handleOutcome (pipe : Pipeline σ ω ρ π) (d : Deliverable π) (outcome : Outcome ρ)
    (now : Reading) : UM σ ω ρ π Unit :=
  let ts := now.iso
  let size : Option ℤ := some (pipe.transport.payloadLen d.payloadBlob)
  match outcome.kind with
  | .acked => do
    if d.cursorAfter ≠ [] then
      let _ ← advance pipe (d.key pipe) d.cursorAfter ts
    onSys (pipe.source.commit d.commitToken)
    recordAttempt pipe ts "acked" none size none
  | .retryLater => do
    let attempts := d.attempts + 1
    if pipe.retry.maxAttempts ≤ attempts then
      deadLetter pipe ts d.payloadBlob (orElse outcome.reason "max_attempts")
      recordAttempt pipe ts "dead_letter" none size (orNone outcome.reason)
    else
      let delay ← Prog.ofExcept (pipe.retry.delayFor attempts)
      let nextAttemptAt ← Prog.ofExcept (iso (now + delay))
      onStoreE fun s ↦
        (s.requeueDeliverable { d with attempts, nextAttemptAt }).map fun s' ↦ ((), s')
      recordAttempt pipe ts "retry_later" none size (orNone outcome.reason)
  | .permanent => do
    deadLetter pipe ts d.payloadBlob (orElse outcome.reason "permanent_failure")
    recordAttempt pipe ts "permanent" none size (orNone outcome.reason)
  | .partialAck | .other _ =>
    -- ill-defined for a replay: recorded as acked, with no advance and no commit
    recordAttempt pipe ts "acked" none size none

/-- `pipe.transport.ship(batch, identity)`, with its call and its return in the trace. -/
def callShip (pipe : Pipeline σ ω ρ π) (batch : RecordBatch ρ) : UM σ ω ρ π (Outcome ρ) := do
  note (.shipping batch)
  let outcome ← onSys (pipe.transport.ship batch)
  note (.shipped batch outcome)
  pure outcome

/-- `pipe.transport.replay(payload_blob, identity)`, likewise. -/
def callReplay (pipe : Pipeline σ ω ρ π) (d : Deliverable π) : UM σ ω ρ π (Outcome ρ) := do
  note (.replaying d)
  let outcome ← onSys (pipe.transport.replay d.payloadBlob)
  note (.replayed d outcome)
  pure outcome

/-- One round of the loop in `_drain_deliverables`; `inr` leaves the loop. -/
def retryNext (u : Uploader) (pipe : Pipeline σ ω ρ π) (now : Reading) (anyAttempted : Bool) :
    UM σ ω ρ π (Bool ⊕ Bool) := do
  if ← maySend u then
    match ← onStore fun s ↦ s.popDueDeliverable pipe.name now.iso with
    | none => pure (.inr anyAttempted)
    | some d => do
      let outcome ← callReplay pipe d
      handleOutcome pipe d outcome now
      -- the destination is failing now: the rest of the backlog waits for the next pump
      pure (if outcome.kind = .retryLater then .inr true else .inl true)
  else pure (.inr anyAttempted)

/-- `_drain_deliverables`.  Each round that goes on takes a row off the queue, so there is one
round more than rows at the most. -/
def drainDeliverables (u : Uploader) (pipe : Pipeline σ ω ρ π) : UM σ ω ρ π Bool := do
  let now ← readNow
  let w ← Prog.get
  Prog.loop (retryNext u pipe now) (w.store.deliverables.length + 1) false

/-- The `for batch in pipe.source.iter_batches(...)` loop of `_drain_source`, from the generator's
remaining resumptions.  `inl` asks for another round of the outer loop with the records shipped so
far; `inr` returns from `_drain_source`. -/
def drainBatches (u : Uploader) (pipe : Pipeline σ ω ρ π) :
    List (SysM σ ω ρ (Option (RecordBatch ρ))) → ℤ → Bool → Bool → UM σ ω ρ π ((ℤ × Bool) ⊕ Bool)
  | [], shipped, anyShipped, progressed =>
    -- not progressed: the source is exhausted
    pure (if progressed then .inl (shipped, anyShipped) else .inr anyShipped)
  | resume :: rest, shipped, anyShipped, progressed => do
    match ← onSys resume with
    | none => drainBatches u pipe rest shipped anyShipped progressed
    | some batch =>
      if batch.records.isEmpty then drainBatches u pipe rest shipped anyShipped progressed
      else if ← maySend u then
        let outcome ← callShip pipe batch
        let now ← readNow
        handleFirstAttempt pipe batch outcome now
        -- a failed attempt leaves the cursor, and without a budget one batch is enough
        if outcome.succeeded && pipe.maxRecordsPerPump.isSome &&
            pipe.budgetLeft (shipped + batch.records.length) then
          drainBatches u pipe rest (shipped + batch.records.length) true true
        else pure (.inr true)
      else pure (.inr anyShipped)

/-- One round of the outer loop in `_drain_source`. -/
def drainRound (u : Uploader) (pipe : Pipeline σ ω ρ π) :
    ℤ × Bool → UM σ ω ρ π ((ℤ × Bool) ⊕ Bool)
  | (shipped, anyShipped) =>
    if pipe.budgetLeft shipped then do
      if ← maySend u then
        let cursor ← onStoreE fun s ↦ (s.getCursor pipe.key).map fun c ↦ (c, s)
        let batches ← onSys (pipe.source.iterBatches cursor pipe.limit)
        drainBatches u pipe batches shipped anyShipped false
      else pure (.inr anyShipped)
    else pure (.inr anyShipped)

/-- `_drain_source`.  A round that goes on has shipped a record of the budget, so there is one
round more than records in it at the most. -/
def drainSource (u : Uploader) (pipe : Pipeline σ ω ρ π) : UM σ ω ρ π Bool :=
  Prog.loop (drainRound u pipe) ((pipe.maxRecordsPerPump.getD 0).toNat + 1) (0, false)

/-- `_pump_one`: drain one pipeline, retries first.  While a retry stays queued the source is not
read, since the cursor has not moved past the batch the retry holds. -/
def pumpOne (u : Uploader) (pipe : Pipeline σ ω ρ π) : UM σ ω ρ π Bool := do
  if ← maySend u then
    let didWork ← drainDeliverables u pipe
    let count ← onStore fun s ↦ (s.deliverableCount pipe.name, s)
    if count > 0 then pure didWork
    else
      let didDrain ← drainSource u pipe
      pure (didWork || didDrain)
  else pure false

end pump

/-! ## The rules of a step -/

section steps

variable {w : World σ ω ρ π} {S : World σ ω ρ π → Prop} {E : Exn → World σ ω ρ π → Prop}

theorem wp_onSys {p : SysM σ ω ρ α} {Q : α → World σ ω ρ π → Prop} :
    wp (onSys p) Q E S w =
      wp p (fun a s ↦ Q a { w with sys := s }) (fun e s ↦ E e { w with sys := s })
        (fun s ↦ S { w with sys := s }) w.sys :=
  wp_zoom ..

theorem wp_note {e : Event ρ π} {Q : Unit → World σ ω ρ π → Prop} :
    wp (note e) Q E S w = Q () (w.noted e) := rfl

variable [Surroundings ω σ]

theorem Sys.wp_breathe {s : Sys σ ω ρ} {Q : Choice ω ρ → Sys σ ω ρ → Prop}
    {E : Exn → Sys σ ω ρ → Prop} {S : Sys σ ω ρ → Prop} :
    wp Sys.breathe Q E S s = if s.choice.stop then S s.next else Q s.choice s.next := by
  simp only [wp, Sys.breathe]
  cases s.choice.stop <;> rfl

theorem wp_onSys_breathe {Q : Choice ω ρ → World σ ω ρ π → Prop} :
    wp (onSys Sys.breathe) Q E S w =
      if w.sys.choice.stop then S w.next else Q w.sys.choice w.next := by
  rw [wp_onSys, Sys.wp_breathe]
  rfl

theorem wp_onStore {f : Store π → α × Store π} {Q : α → World σ ω ρ π → Prop} :
    wp (onStore f) Q E S w =
      if w.sys.choice.stop then S w.next
      else Q (f w.store).1 (w.next.stored (f w.store).2) := by
  rw [onStore, wp_bind, wp_onSys_breathe]
  rfl

theorem wp_onStoreE {f : Store π → Except Exn (α × Store π)} {Q : α → World σ ω ρ π → Prop} :
    wp (onStoreE f) Q E S w =
      if w.sys.choice.stop then S w.next
      else match f w.store with
        | .ok r => Q r.1 (w.next.stored r.2)
        | .error e => E e w.next := by
  rw [onStoreE, wp_bind, wp_onSys_breathe]
  split
  · rfl
  · rw [wp_actE, show w.next.store = w.store from rfl]
    cases f w.store <;> rfl

end steps

/-! ## Runs -/

section run

variable [Surroundings ω σ]

/-- One pump of a process that goes on after an exception and is started again, with `restart`
applied to what it held in memory, after a stop. -/
def cycle (u : Uploader) (pipe : Pipeline σ ω ρ π) (restart : σ → σ) (w : World σ ω ρ π) :
    World σ ω ρ π :=
  match pumpOne u pipe w with
  | (.stopped, w') => { w' with sys := { w'.sys with here := restart w'.sys.here } }
  | (_, w') => w'

/-- The world after `n` pumps. -/
def run (u : Uploader) (pipe : Pipeline σ ω ρ π) (restart : σ → σ) :
    ℕ → World σ ω ρ π → World σ ω ρ π
  | 0, w => w
  | n + 1, w => cycle u pipe restart (run u pipe restart n w)

end run

end HsUploader
