import Mathlib.Data.List.MinMax
import Mathlib.Data.Prod.Lex
import HsUploader.Core.Types
import HsUploader.Library.Table

/-!
# The watermark store

The persisted state of an uploader: one send record for each (source, destination, table), the
queue of batches waiting for a retry, the dead letters and the bounded log of attempts.  Every
method is one transaction, so a method is a function from the store to the store.

A retry's payload is a parameter `π`.  The transport that wrote it is the only reader.
-/

set_option autoImplicit false

namespace HsUploader

/-- `Advance`: what `advance_cursor` did with one write. -/
inductive Advance where
  | written
  | refreshed
  | refused
  | writtenUnchecked
  deriving DecidableEq, Repr

/-- The key of a send record. -/
structure SendKey where
  sourceId : String
  destId : String
  table : String
  deriving DecidableEq, Repr

/-- What the `cursor` column holds: a blob, or a text some hand edit left there. -/
inductive Cell where
  | blob (b : Bytes)
  | text (s : String)
  deriving DecidableEq

/-- `bytes(raw)`. -/
def Cell.toBytes : Cell → Except Exn Bytes
  | blob b => .ok b
  | text _ => .error (.typeError "string argument without an encoding")

/-- One row of `watermarks`. -/
structure SendRecord where
  cursor : Cell
  lastAck : Stamp
  deriving DecidableEq

/-- `Deliverable`: one row of the retry queue. -/
structure Deliverable (π : Type) where
  id : ℤ
  pipeline : String
  payloadBlob : π
  enqueuedAt : Stamp
  attempts : ℤ
  nextAttemptAt : Stamp
  sourceId : String := ""
  destId : String := ""
  table : String := ""
  cursorAfter : Bytes := []
  commitToken : Bytes := []

/-- One row of `attempts`. -/
structure Attempt where
  ts : Stamp
  key : SendKey
  outcome : String
  records : Option ℤ
  bytes : Option ℤ
  error : Option String
  pipeline : String := ""
  client : String := ""
  deriving DecidableEq, Repr

/-- One row of `last_send`, less its key. -/
structure LastSend where
  outcome : String
  ts : Stamp
  records : Option ℤ
  deriving DecidableEq, Repr

/-- One row of `dead_letter`. -/
structure DeadLetter (π : Type) where
  ts : Stamp
  pipeline : String
  payloadBlob : π
  finalError : String

/-- `_ATTEMPTS_RING_SIZE`. -/
def attemptsRingSize : ℕ := 10000

/-- `SqliteWatermarkStore`: the tables, and whether the file stands at schema version 3. -/
structure Store (π : Type) where
  watermarks : List (SendKey × SendRecord) := []
  deliverables : List (Deliverable π) := []
  /-- The largest id the retry queue has given out. -/
  deliverableSeq : ℤ := 0
  deadLetter : List (DeadLetter π) := []
  attempts : List Attempt := []
  lastSend : List ((String × String) × LastSend) := []
  v3 : Bool := true

namespace Store

variable {π : Type}

/-! ## Send records -/

/-- `get_cursor`: the stored cursor, empty when nothing has been acked. -/
def getCursor (s : Store π) (key : SendKey) : Except Exn Bytes :=
  match Table.lookup key s.watermarks with
  | none => .ok []
  | some r => r.cursor.toBytes

/-- `_upsert`. -/
def upsertCursor (s : Store π) (key : SendKey) (cursor : Bytes) (lastAck : Stamp) : Store π :=
  { s with watermarks := Table.upsert key ⟨.blob cursor, lastAck⟩ s.watermarks }

/-- The comparison inside `advance_cursor`: whether the new cursor lies after the stored one, and
whether it lies before it. -/
def compareCursors (isAfter : Bytes → Bytes → Except Exn Bool) (cursor stored : Bytes) :
    Except Exn (Bool × Bool) := do
  let after ← isAfter cursor stored
  let before ← if after || cursor = stored then pure false else isAfter stored cursor
  pure (after, before)

/-- `advance_cursor`: move a send record forward only, in the order `isAfter`.  A tie refreshes
`last_ack` alone; a stored value that cannot be read, or a comparison that raises, is written
over. -/
def advanceCursor (s : Store π) (key : SendKey) (cursor : Bytes) (lastAck : Stamp)
    (isAfter : Bytes → Bytes → Except Exn Bool) : Advance × Store π :=
  match Table.lookup key s.watermarks with
  | none => (.written, s.upsertCursor key cursor lastAck)
  | some r =>
    match r.cursor.toBytes with
    | .error _ => (.writtenUnchecked, s.upsertCursor key cursor lastAck)
    | .ok stored =>
      match compareCursors isAfter cursor stored with
      | .error _ => (.writtenUnchecked, s.upsertCursor key cursor lastAck)
      | .ok (true, _) => (.written, s.upsertCursor key cursor lastAck)
      | .ok (false, true) => (.refused, s)
      | .ok (false, false) =>
        (.refreshed, { s with watermarks := Table.upsert key ⟨r.cursor, lastAck⟩ s.watermarks })

/-- `start_cursor`: write a starting record where the key holds none, and say whether it wrote. -/
def startCursor (s : Store π) (key : SendKey) (cursor : Bytes) (lastAck : Stamp) : Bool × Store π :=
  match Table.lookup key s.watermarks with
  | none => (true, s.upsertCursor key cursor lastAck)
  | some _ => (false, s)

/-! ## Attempts -/

-- unification would count the ring's rows one by one
attribute [irreducible] attemptsRingSize

/-- `record_attempt`: append to the log, cut it to its newest rows and, on a version-3 store, note
the pipeline's last successful send. -/
def recordAttempt (s : Store π) (a : Attempt) (lastSend : Bool) : Store π :=
  let row := if s.v3 then a else { a with pipeline := "", client := "" }
  let log := s.attempts ++ [row]
  { s with
    attempts := log.drop (log.length - attemptsRingSize)
    lastSend :=
      if s.v3 && lastSend && (a.outcome = "acked" || a.outcome = "partial_ack") then
        Table.upsert (a.client, a.pipeline) ⟨a.outcome, a.ts, a.records⟩ s.lastSend
      else s.lastSend }

/-! ## The retry queue -/

/-- `deliverable_count(pipeline)`. -/
def deliverableCount (s : Store π) (pipeline : String) : ℕ :=
  s.deliverables.countP fun d ↦ d.pipeline = pipeline

/-- `enqueue_deliverable`: of two batches that advance a pipeline to the same cursor the first one
stays. -/
def enqueueDeliverable (s : Store π) (d : Deliverable π) : Store π :=
  if d.cursorAfter ≠ [] ∧
      ∃ d' ∈ s.deliverables, d'.pipeline = d.pipeline ∧ d'.cursorAfter = d.cursorAfter then s
  else
    { s with
      deliverables := s.deliverables ++ [{ d with id := s.deliverableSeq + 1, attempts := 0 }]
      deliverableSeq := s.deliverableSeq + 1 }

/-- The deliverables `pop_due_deliverable` chooses from. -/
def due (s : Store π) (pipeline : String) (now : Stamp) : List (Deliverable π) :=
  s.deliverables.filter fun d ↦ d.pipeline = pipeline ∧ d.nextAttemptAt ≤ now

/-- `ORDER BY next_attempt_at`.  Of rows with one time the index gives the smallest id. -/
abbrev dueOrder : LinearOrder (ℤ ×ₗ ℤ) :=
  @Prod.Lex.instLinearOrder ℤ ℤ Int.instLinearOrder Int.instLinearOrder

/-- `pop_due_deliverable`: claim the deliverable that has been due longest, taking its row off the
queue. -/
def popDueDeliverable (s : Store π) (pipeline : String) (now : Stamp) :
    Option (Deliverable π) × Store π :=
  match @List.argmin _ _ dueOrder.toPreorder dueOrder.toDecidableLT
      (fun d ↦ toLex (d.nextAttemptAt, d.id)) (s.due pipeline now) with
  | none => (none, s)
  | some d => (some d, { s with deliverables := s.deliverables.filter fun d' ↦ d'.id ≠ d.id })

/-- `requeue_deliverable`: put a claimed row back under its own id. -/
def requeueDeliverable (s : Store π) (d : Deliverable π) : Except Exn (Store π) :=
  if ∃ d' ∈ s.deliverables, d'.id = d.id then
    .error (.other "IntegrityError" "UNIQUE constraint failed: deliverables.id")
  else
    .ok { s with
      deliverables := s.deliverables ++ [d]
      deliverableSeq := max s.deliverableSeq d.id }

/-! ## Dead letters -/

/-- `send_to_dead_letter`. -/
def sendToDeadLetter (s : Store π) (l : DeadLetter π) : Store π :=
  { s with deadLetter := s.deadLetter ++ [l] }

/-! ## What each method leaves alone -/

section frame

variable (s : Store π) (key : SendKey) (a : Attempt) (ls : Bool) (d : Deliverable π)
  (l : DeadLetter π) (p : String) (now : Stamp)

@[simp] theorem watermarks_recordAttempt : (s.recordAttempt a ls).watermarks = s.watermarks := by
  rw [recordAttempt]

@[simp] theorem deliverables_recordAttempt :
    (s.recordAttempt a ls).deliverables = s.deliverables := by
  rw [recordAttempt]

@[simp] theorem deliverableCount_recordAttempt :
    (s.recordAttempt a ls).deliverableCount p = s.deliverableCount p := by
  rw [deliverableCount, deliverables_recordAttempt, deliverableCount]

@[simp] theorem deliverableSeq_recordAttempt :
    (s.recordAttempt a ls).deliverableSeq = s.deliverableSeq := by
  rw [recordAttempt]

@[simp] theorem deadLetter_recordAttempt :
    (s.recordAttempt a ls).deadLetter = s.deadLetter := by
  rw [recordAttempt]

@[simp] theorem watermarks_sendToDeadLetter :
    (s.sendToDeadLetter l).watermarks = s.watermarks := rfl

@[simp] theorem deliverables_sendToDeadLetter :
    (s.sendToDeadLetter l).deliverables = s.deliverables := rfl

@[simp] theorem watermarks_enqueueDeliverable :
    (s.enqueueDeliverable d).watermarks = s.watermarks := by
  rw [enqueueDeliverable]
  split <;> rfl

@[simp] theorem watermarks_popDueDeliverable :
    (s.popDueDeliverable p now).2.watermarks = s.watermarks := by
  rw [popDueDeliverable]
  split <;> rfl

@[simp] theorem deliverableSeq_popDueDeliverable :
    (s.popDueDeliverable p now).2.deliverableSeq = s.deliverableSeq := by
  rw [popDueDeliverable]
  split <;> rfl

@[simp] theorem deadLetter_popDueDeliverable :
    (s.popDueDeliverable p now).2.deadLetter = s.deadLetter := by
  rw [popDueDeliverable]
  split <;> rfl

@[simp] theorem deliverables_advanceCursor (c : Bytes) (t : Stamp)
    (isAfter : Bytes → Bytes → Except Exn Bool) :
    (s.advanceCursor key c t isAfter).2.deliverables = s.deliverables := by
  rw [advanceCursor]
  repeat' split
  all_goals rfl

@[simp] theorem deliverableSeq_advanceCursor (c : Bytes) (t : Stamp)
    (isAfter : Bytes → Bytes → Except Exn Bool) :
    (s.advanceCursor key c t isAfter).2.deliverableSeq = s.deliverableSeq := by
  rw [advanceCursor]
  repeat' split
  all_goals rfl

@[simp] theorem deadLetter_advanceCursor (c : Bytes) (t : Stamp)
    (isAfter : Bytes → Bytes → Except Exn Bool) :
    (s.advanceCursor key c t isAfter).2.deadLetter = s.deadLetter := by
  rw [advanceCursor]
  repeat' split
  all_goals rfl

/-- An advance of one send record leaves every other one as it was. -/
theorem getCursor_advanceCursor_of_ne {key' : SendKey} (h : key' ≠ key) (c : Bytes) (t : Stamp)
    (isAfter : Bytes → Bytes → Except Exn Bool) :
    (s.advanceCursor key c t isAfter).2.getCursor key' = s.getCursor key' := by
  rw [advanceCursor]
  repeat' split
  all_goals simp only [getCursor, upsertCursor, Table.lookup_upsert_of_ne _ _ h]

theorem watermarks_requeueDeliverable {s' : Store π} (h : s.requeueDeliverable d = .ok s') :
    s'.watermarks = s.watermarks := by
  rw [requeueDeliverable] at h
  split at h
  · cases h
  · cases h
    rfl

end frame

/-! ## What each method does to the queue -/

/-- A claimed deliverable stood on the queue, was the pipeline's own and was due; every other row of
the queue stays. -/
theorem popDueDeliverable_some {s s' : Store π} {p : String} {now : Stamp} {d : Deliverable π}
    (h : s.popDueDeliverable p now = (some d, s')) :
    d ∈ s.deliverables ∧ d.pipeline = p ∧ d.nextAttemptAt ≤ now ∧
      s'.deliverables = s.deliverables.filter fun d' ↦ d'.id ≠ d.id := by
  rw [popDueDeliverable] at h
  split at h
  · cases h
  · rename_i d' hd
    cases h
    have hmem := List.argmin_mem hd
    simp only [due, List.mem_filter, decide_eq_true_eq] at hmem
    exact ⟨hmem.1, hmem.2.1, hmem.2.2, rfl⟩

/-- When nothing is claimed the store stands as it was and nothing of the pipeline's is due. -/
theorem popDueDeliverable_none {s s' : Store π} {p : String} {now : Stamp}
    (h : s.popDueDeliverable p now = (none, s')) :
    s' = s ∧ ∀ d ∈ s.deliverables, d.pipeline = p → now < d.nextAttemptAt := by
  rw [popDueDeliverable] at h
  split at h
  · rename_i hnone
    cases h
    refine ⟨rfl, fun d hd hp ↦ not_le.mp fun hle ↦ ?_⟩
    have : d ∈ s.due p now := by simp [due, hd, hp, hle]
    rw [List.argmin_eq_none.mp hnone] at this
    cases this
  · cases h

/-- The claimed deliverable and the rows that stay are the rows there were, where ids tell rows
apart. -/
theorem popDueDeliverable_perm {s s' : Store π} {p : String} {now : Stamp} {d : Deliverable π}
    (h : s.popDueDeliverable p now = (some d, s')) (hn : (s.deliverables.map (·.id)).Nodup) :
    (s'.deliverables ++ [d]).Perm s.deliverables := by
  obtain ⟨hd, -, -, hs'⟩ := popDueDeliverable_some h
  have hinj : ∀ d' ∈ s.deliverables, d'.id = d.id → d' = d := fun d' hd' hid ↦
    List.inj_on_of_nodup_map hn hd' hd hid
  have hnd := List.Nodup.of_map _ hn
  rw [hs', List.perm_ext_iff_of_nodup ?_ hnd]
  · intro d'
    rw [List.mem_append, List.mem_filter, List.mem_singleton, decide_eq_true_eq]
    constructor
    · rintro (hd' | rfl)
      · exact hd'.1
      · exact hd
    · intro hd'
      by_cases hid : d'.id = d.id
      · exact .inr (hinj d' hd' hid)
      · exact .inl ⟨hd', hid⟩
  · refine (hnd.filter _).append (List.nodup_singleton d) fun d' hd' hmem ↦ ?_
    rw [List.mem_singleton] at hmem
    simp [hmem] at hd'

theorem length_popDueDeliverable_lt {s s' : Store π} {p : String} {now : Stamp}
    {d : Deliverable π} (h : s.popDueDeliverable p now = (some d, s')) :
    s'.deliverables.length < s.deliverables.length := by
  obtain ⟨hd, -, -, hs'⟩ := popDueDeliverable_some h
  rw [hs', ← List.countP_eq_length_filter]
  refine lt_of_le_of_ne List.countP_le_length fun heq ↦ ?_
  simpa using List.countP_eq_length.mp heq d hd

theorem mem_popDueDeliverable {s s' : Store π} {p : String} {now : Stamp}
    {d d' : Deliverable π} (h : s.popDueDeliverable p now = (some d, s'))
    (hd' : d' ∈ s'.deliverables) : d' ∈ s.deliverables := by
  rw [(popDueDeliverable_some h).2.2.2] at hd'
  exact (List.mem_filter.mp hd').1

/-- The row that goes back to the queue is on it. -/
theorem mem_of_requeueDeliverable {s s' : Store π} {d : Deliverable π}
    (h : s.requeueDeliverable d = .ok s') : d ∈ s'.deliverables := by
  rw [requeueDeliverable] at h
  split at h
  · cases h
  · cases h
    simp

/-- A row cannot go back to the queue only where its id is taken. -/
theorem requeueDeliverable_error {s : Store π} {d : Deliverable π} {e : Exn} {α : Type}
    {f : Store π → α} (h : (s.requeueDeliverable d).map f = .error e) :
    ∃ d' ∈ s.deliverables, d'.id = d.id := by
  rw [requeueDeliverable] at h
  split at h
  · assumption
  · cases h

theorem deliverableCount_eq_zero {s : Store π} {p : String} :
    s.deliverableCount p = 0 ↔ ∀ d ∈ s.deliverables, d.pipeline ≠ p := by
  simp [deliverableCount]

/-! ## What an advance does to the send record -/

@[simp] theorem getCursor_upsertCursor (s : Store π) (key : SendKey) (c : Bytes) (t : Stamp) :
    (s.upsertCursor key c t).getCursor key = .ok c := by
  simp [getCursor, upsertCursor, Cell.toBytes]

/-- **The stored cursor after an advance**, when the two cursors can be compared: the later one. -/
theorem getCursor_advanceCursor {s : Store π} {key : SendKey} {c stored : Bytes} (t : Stamp)
    {isAfter : Bytes → Bytes → Except Exn Bool} {after before : Bool}
    (hs : s.getCursor key = .ok stored) (hc : compareCursors isAfter c stored = .ok (after, before))
    (hnew : stored = [] → after = true) :
    (s.advanceCursor key c t isAfter).2.getCursor key = .ok (if after then c else stored) := by
  rw [advanceCursor]
  split
  · rename_i hnone
    rw [getCursor, hnone] at hs
    rw [hnew (Except.ok.inj hs).symm, if_pos rfl]
    exact getCursor_upsertCursor ..
  · rename_i r hr
    rw [getCursor, hr] at hs
    dsimp only at hs
    rw [hs]
    dsimp only
    rw [hc]
    cases after with
    | true => exact getCursor_upsertCursor ..
    | false =>
      cases before with
      | true =>
        rw [if_neg Bool.false_ne_true, getCursor, hr]
        exact hs
      | false => simpa [getCursor] using hs

end Store

end HsUploader
