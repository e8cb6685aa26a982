import HsUploader.Library.RowTable
import HsUploader.Watermark

/-!
# The attempts ring and the last sends

`Watermark` keeps the attempts as a list.  Here is the table under it, with its row ids, and what
`record_attempt` does to it: insert a row, then delete every row but the newest by the rank of its
id.  `Shows` is the relation between the two, which `record_attempt` keeps.

`last_send` stands beside the ring and outlives it: what it holds for a pipeline is told from all
the attempts that were recorded, not from those the ring still has (`lookup_recordAll`).
-/

set_option autoImplicit false

namespace HsUploader

/-- The tables `record_attempt` writes, and whether the file stands at schema version 3. -/
structure AttemptLog where
  attempts : RowTable Attempt := .empty
  lastSend : List ((String × String) × LastSend) := []
  v3 : Bool := true

namespace AttemptLog

/-- The row an attempt is inserted as: below version 3 the table has no column for its pipeline and
its client. -/
def row (v3 : Bool) (a : Attempt) : Attempt :=
  if v3 then a else { a with pipeline := "", client := "" }

/-- One call of `record_attempt`. -/
structure Call where
  attempt : Attempt
  lastSend : Bool := true

/-- `last_send and outcome in ("acked", "partial_ack")`. -/
def Call.sends (c : Call) : Bool :=
  c.lastSend && (c.attempt.outcome = "acked" || c.attempt.outcome = "partial_ack")

/-- What `last_send` notes of an attempt. -/
def Call.noted (c : Call) : LastSend := ⟨c.attempt.outcome, c.attempt.ts, c.attempt.records⟩

/-- `record_attempt`. -/
def recordAttempt (s : AttemptLog) (c : Call) : AttemptLog :=
  { s with
    attempts := (s.attempts.insert (row s.v3 c.attempt)).trim attemptsRingSize
    lastSend :=
      if s.v3 && c.sends then
        Table.upsert (c.attempt.client, c.attempt.pipeline) c.noted s.lastSend
      else s.lastSend }

/-- `recent_attempts(limit)`: a negative limit is none. -/
def recentAttempts (s : AttemptLog) (limit : ℤ) : List Attempt :=
  let rows := s.attempts.rowsDesc.map Prod.snd
  if limit < 0 then rows else rows.take limit.toNat

/-- One call after the other. -/
def recordAll (s : AttemptLog) (calls : List Call) : AttemptLog := calls.foldl recordAttempt s

/-- Every attempt so far: what the table held, and what was recorded since. -/
def recorded (s : AttemptLog) (calls : List Call) : List Attempt :=
  s.attempts.contents ++ calls.map fun c ↦ row s.v3 c.attempt

/-- The last `n` of a list. -/
def newest (n : ℕ) (l : List Attempt) : List Attempt := l.drop (l.length - n)

/-- The table with its row ids holds what the store of `Watermark` does. -/
structure Shows {π : Type} (s : AttemptLog) (st : Store π) : Prop where
  attempts : s.attempts.contents = st.attempts
  lastSend : s.lastSend = st.lastSend
  v3 : s.v3 = st.v3

section store

variable {π : Type} (st : Store π) (a : Attempt) (lastSend : Bool)

theorem attempts_store :
    (st.recordAttempt a lastSend).attempts =
      (st.attempts ++ [row st.v3 a]).rtake attemptsRingSize := by
  simp only [Store.recordAttempt, List.rtake, row]

theorem lastSend_store :
    (st.recordAttempt a lastSend).lastSend =
      if st.v3 && Call.sends ⟨a, lastSend⟩ then
        Table.upsert (a.client, a.pipeline) (Call.noted ⟨a, lastSend⟩) st.lastSend
      else st.lastSend := by
  rw [Call.sends, ← Bool.and_assoc, Store.recordAttempt]
  rfl

theorem v3_store : (st.recordAttempt a lastSend).v3 = st.v3 := by
  rw [Store.recordAttempt]

theorem v3_recordAttempt (s : AttemptLog) (c : Call) : (s.recordAttempt c).v3 = s.v3 := by
  rw [recordAttempt]

/-- **The table with its row ids refines the list**: ranking the ids cuts the log to its end. -/
theorem Shows.recordAttempt {s : AttemptLog} {st : Store π} (h : s.Shows st) :
    (s.recordAttempt ⟨a, lastSend⟩).Shows (st.recordAttempt a lastSend) where
  attempts := by
    rw [attempts_store, AttemptLog.recordAttempt, RowTable.contents_trim, RowTable.contents_insert,
      h.attempts, h.v3]
  lastSend := by
    rw [lastSend_store, AttemptLog.recordAttempt, h.lastSend, h.v3]
  v3 := by
    rw [v3_store, v3_recordAttempt, h.v3]

end store

section runs

variable (s : AttemptLog) (calls : List Call) (c : Call)

theorem recordAll_concat : s.recordAll (calls ++ [c]) = (s.recordAll calls).recordAttempt c := by
  rw [recordAll, List.foldl_append]
  rfl

@[simp] theorem v3_recordAll : (s.recordAll calls).v3 = s.v3 := by
  induction calls using List.reverseRecOn with
  | nil => rfl
  | append_singleton calls c ih =>
    rw [recordAll_concat, v3_recordAttempt, ih]

theorem attempts_recordAll :
    (s.recordAll calls).attempts =
      (calls.map fun c ↦ row s.v3 c.attempt).foldl (RowTable.record attemptsRingSize) s.attempts := by
  induction calls using List.reverseRecOn with
  | nil => rfl
  | append_singleton calls c ih =>
    rw [recordAll_concat, List.map_append, List.foldl_append, ← ih, recordAttempt, v3_recordAll]
    rfl

/-- The attempts that were recorded as successful sends of one pipeline. -/
def sendsOf (client pipeline : String) : List Call :=
  calls.filter fun c ↦ c.sends ∧ c.attempt.client = client ∧ c.attempt.pipeline = pipeline

/-- What the last of the calls leaves as a pipeline's last send. -/
theorem lookup_recordAttempt (client pipeline : String) (h : s.v3 = true) :
    Table.lookup (client, pipeline) (s.recordAttempt c).lastSend =
      if c.sends ∧ c.attempt.client = client ∧ c.attempt.pipeline = pipeline then some c.noted
      else Table.lookup (client, pipeline) s.lastSend := by
  rw [recordAttempt, h, Bool.true_and]
  dsimp only
  by_cases hsends : c.sends
  · simp only [hsends, if_true, true_and, Table.lookup_upsert, Prod.mk.injEq, eq_comm]
  · rw [if_neg hsends, if_neg fun hc ↦ hsends hc.1]

/-- **A pipeline's last send is its latest successful one**, of all that were ever recorded. -/
theorem lookup_recordAll (client pipeline : String) (h : s.v3 = true) :
    Table.lookup (client, pipeline) (s.recordAll calls).lastSend =
      ((sendsOf calls client pipeline).getLast?.map Call.noted).or
        (Table.lookup (client, pipeline) s.lastSend) := by
  induction calls using List.reverseRecOn with
  | nil => rfl
  | append_singleton calls c ih =>
    rw [recordAll_concat, lookup_recordAttempt _ _ _ _ (by rw [v3_recordAll, h]), sendsOf,
      List.filter_append, List.filter_singleton]
    by_cases hc : c.sends ∧ c.attempt.client = client ∧ c.attempt.pipeline = pipeline
    · rw [if_pos hc, decide_eq_true hc]
      simp
    · rw [if_neg hc, decide_eq_false hc, ih, sendsOf]
      simp

/-- Below version 3 there is no `last_send` to write. -/
theorem lastSend_recordAll (h : s.v3 = false) : (s.recordAll calls).lastSend = s.lastSend := by
  induction calls using List.reverseRecOn with
  | nil => rfl
  | append_singleton calls c ih =>
    rw [recordAll_concat, recordAttempt, v3_recordAll, h]
    exact ih

theorem contents_recordAll (s : AttemptLog) (calls : List Call) (c : Call) :
    (s.recordAll (calls ++ [c])).attempts.contents =
      (s.recorded (calls ++ [c])).rtake attemptsRingSize := by
  have hring := RowTable.contents_foldl_record attemptsRingSize s.attempts
    (calls.map fun c ↦ row s.v3 c.attempt) (row s.v3 c.attempt)
  rw [attempts_recordAll, recorded]
  rwa [List.map_append, List.map_singleton]

end runs

/-- **After each call the ring holds the newest attempts, and no other, in order, and `last_send`
each pipeline's latest success.** -/
theorem recordAll_exact (s : AttemptLog) (calls : List Call) (c : Call) :
    (s.recordAll (calls ++ [c])).attempts.contents =
      newest attemptsRingSize (s.recorded (calls ++ [c])) ∧
    (s.recordAll (calls ++ [c])).attempts.contents.length =
      min (s.recorded (calls ++ [c])).length attemptsRingSize ∧
    (∀ limit : ℕ, (s.recordAll (calls ++ [c])).recentAttempts limit =
      ((s.recorded (calls ++ [c])).reverse.take attemptsRingSize).take limit) ∧
    (s.v3 = true → ∀ client pipeline,
      Table.lookup (client, pipeline) (s.recordAll (calls ++ [c])).lastSend =
        ((sendsOf (calls ++ [c]) client pipeline).getLast?.map Call.noted).or
          (Table.lookup (client, pipeline) s.lastSend)) ∧
    (s.v3 = false → (s.recordAll (calls ++ [c])).lastSend = s.lastSend) := by
  have hcontents := contents_recordAll s calls c
  refine ⟨hcontents, ?_, fun limit ↦ ?_, fun h client pipeline ↦ ?_, fun h ↦ ?_⟩
  · rw [hcontents, List.rtake, List.length_drop]
    omega
  · have hrows : (s.recordAll (calls ++ [c])).attempts.rowsDesc.map Prod.snd =
        (s.recorded (calls ++ [c])).reverse.take attemptsRingSize := by
      rw [RowTable.rowsDesc_eq, List.map_reverse, ← RowTable.contents, hcontents,
        List.rtake_eq_reverse_take_reverse, List.reverse_reverse]
    rw [recentAttempts, hrows, if_neg (Int.not_lt.mpr (Int.natCast_nonneg limit)), Int.toNat_natCast]
  · exact lookup_recordAll s _ client pipeline h
  · exact lastSend_recordAll s _ h

end AttemptLog

end HsUploader
