import Mathlib.Logic.Function.Iterate
import HsUploader.Core.PumpCalls
import HsUploader.Library.Relational

/-!
# The transport that discards

`DiscardTransport` wraps a pipeline's real transport, keeps its name, table and batch policy, acks
every batch and every retry, and sends nothing.

What the outside of a pump holds is split in two here: what the source and the other processes see,
and what the transport keeps in memory.  A transport that acks (`Transport.Acks`) may change the
second part at each call; a call is one step.  `inStep_pumpOne` compares its pump with the pump of
the pipeline that has it wrapped, and `Pipeline.discard_acks` is the result for every run: the
stores are the same but for the `last_send` rows, and the wrapped transport is never called.
-/

set_option autoImplicit false

namespace HsUploader

open Prog

variable {κ μ ν ω ρ π α β : Type}

/-! ## A memory beside the source -/

instance [Surroundings ω κ] : Surroundings ω (κ × μ) where
  react op x := (Surroundings.react op x.1, x.2)

/-- The outside, less the transport's memory. -/
def Sys.apart (s : Sys (κ × μ) ω ρ) : Sys κ ω ρ := ⟨s.here.1, s.env, s.tick⟩

/-- The outside with the transport's memory. -/
def Sys.together (t : Sys κ ω ρ) (s : Sys (κ × μ) ω ρ) : Sys (κ × μ) ω ρ :=
  ⟨(t.here, s.here.2), t.env, t.tick⟩

/-- A program that does not touch the transport's memory. -/
def besideMemory (p : SysM κ ω ρ α) : SysM (κ × μ) ω ρ α := Prog.zoom Sys.apart Sys.together p

/-- A source, with a transport's memory beside what it reads. -/
def Source.besideMemory (source : Source κ ω ρ) : Source (κ × μ) ω ρ where
  sourceId := source.sourceId
  iterBatches cursor limit :=
    HsUploader.besideMemory do
      let batches ← source.iterBatches cursor limit
      pure (batches.map HsUploader.besideMemory)
  commit token := HsUploader.besideMemory (source.commit token)
  cursorIsAfter := source.cursorIsAfter

/-- A pipeline with another transport, one that keeps a memory of its own. -/
def Pipeline.through (pipe : Pipeline κ ω ρ π) (transport : Transport (κ × μ) ω ρ π) :
    Pipeline (κ × μ) ω ρ π where
  name := pipe.name
  source := pipe.source.besideMemory
  transport := transport
  retry := pipe.retry
  batchLimit := pipe.batchLimit
  maxRecordsPerPump := pipe.maxRecordsPerPump
  client := pipe.client

/-! ## The transport -/

variable [Surroundings ω κ]

/-- `DiscardTransport(inner)`.  Its memory is the inner transport's and `discarded_records`. -/
def Transport.discard (inner : Transport (κ × μ) ω ρ Bytes) :
    Transport (κ × (μ × ℕ)) ω ρ Bytes where
  name := inner.name
  primaryTable := inner.primaryTable
  batchPolicy := inner.batchPolicy
  ships := false
  ship batch := do
    let _ ← Sys.breathe
    Sys.inMemory fun x ↦ (.acked, (x.1, (x.2.1, x.2.2 + batch.records.length)))
  serializeForRetry _ := pure []
  replay _ := do
    let _ ← Sys.breathe
    pure .acked
  payloadLen := inner.payloadLen

/-- A call that is answered with an ack: one step, and then the transport's memory changes. -/
def AckingCall (p : SysM (κ × μ) ω ρ (Outcome ρ)) : Prop :=
  ∃ f : Choice ω ρ → κ × μ → Outcome ρ × μ, (∀ c x, (f c x).1.kind = .acked) ∧
    p = do
      let c ← Sys.breathe
      Sys.inMemory fun x ↦ ((f c x).1, (x.1, (f c x).2))

/-- The transport acks every batch and every retry. -/
structure Transport.Acks (inner : Transport (κ × μ) ω ρ π) : Prop where
  ship : ∀ batch, AckingCall (inner.ship batch)
  replay : ∀ payload, AckingCall (inner.replay payload)

/-! ## The store -/

section store

variable (s : Store π) (last : List ((String × String) × LastSend))

theorem Store.advanceCursor_lastSend (key : SendKey) (c : Bytes) (t : Stamp)
    (isAfter : Bytes → Bytes → Except Exn Bool) :
    ({ s with lastSend := last } : Store π).advanceCursor key c t isAfter =
      ((s.advanceCursor key c t isAfter).1,
        { (s.advanceCursor key c t isAfter).2 with lastSend := last }) := by
  simp only [Store.advanceCursor]
  repeat' split
  all_goals rfl

/-- An attempt through a transport that ships nothing leaves the `last_send` rows. -/
theorem Store.recordAttempt_lastSend (a : Attempt) (ships : Bool) :
    ({ s with lastSend := last } : Store π).recordAttempt a false =
      { s.recordAttempt a ships with lastSend := last } := by
  obtain ⟨W, D, n, L, A, S, v⟩ := s
  simp only [Store.recordAttempt, Bool.and_false, Bool.false_and, Bool.false_eq_true, if_false]

theorem Store.popDueDeliverable_lastSend (p : String) (now : Stamp) :
    ({ s with lastSend := last } : Store π).popDueDeliverable p now =
      ((s.popDueDeliverable p now).1,
        { (s.popDueDeliverable p now).2 with lastSend := last }) := by
  simp only [Store.popDueDeliverable, Store.due]
  split <;> rfl

end store

/-! ## Two worlds -/

/-- The source and the other processes see the same on both sides; the wrapped transport's memory
on the right is `m`. -/
structure Sys.Discarded (m : μ) (s : Sys (κ × ν) ω ρ) (t : Sys (κ × (μ × ℕ)) ω ρ) : Prop where
  apart : s.apart = t.apart
  memory : t.here.2.1 = m

/-- Two worlds of a pump: outside the same but for the transport's memory, and stores that differ in
the `last_send` rows alone, which are `last` on the right. -/
structure World.Discarded (m : μ) (last : List ((String × String) × LastSend))
    (w : World (κ × ν) ω ρ π) (w' : World (κ × (μ × ℕ)) ω ρ π) : Prop where
  sys : Sys.Discarded m w.sys w'.sys
  store : w'.store = { w.store with lastSend := last }

namespace Discard

section steps

variable {m : μ} {last : List ((String × String) × LastSend)} {V : α → β → Prop}

omit [Surroundings ω κ] in
/-- What does not touch the transport's memory does the same on both sides. -/
theorem inStep_beside {p : SysM κ ω ρ α} {q : SysM κ ω ρ β} (h : InStep (· = ·) V p q) :
    InStep (Sys.Discarded (ν := ν) m) V (besideMemory p) (besideMemory q) :=
  h.zoom (fun _ _ hst ↦ hst.apart) fun _ _ _ _ hst heq ↦ ⟨by subst heq; rfl, hst.memory⟩

theorem foldl_react (ops : List ω) (x : κ × μ) :
    ops.foldl (fun x op ↦ Surroundings.react op x) x =
      (ops.foldl (fun k op ↦ Surroundings.react op k) x.1, x.2) := by
  induction ops generalizing x with
  | nil => rfl
  | cons op ops ih => exact ih _

/-- The environment moves on both sides at once. -/
theorem inStep_breathe :
    InStep (Sys.Discarded (ν := ν) m) (· = ·) (Sys.breathe : SysM (κ × ν) ω ρ _) Sys.breathe := by
  rintro ⟨⟨k, x⟩, env, tick⟩ ⟨⟨k', x'⟩, env', tick'⟩ ⟨happart, rfl⟩
  obtain ⟨rfl, rfl, rfl⟩ : k = k' ∧ env = env' ∧ tick = tick' := by
    simpa only [Sys.apart, Sys.mk.injEq] using happart
  have hnext : Sys.Discarded x'.1 (Sys.next ⟨(k, x), env, tick⟩)
      (Sys.next ⟨(k, x'), env, tick⟩ : Sys (κ × (μ × ℕ)) ω ρ) := by
    refine ⟨?_, ?_⟩
    · simp only [Sys.apart, Sys.next, foldl_react]
      rfl
    · simp only [Sys.next, foldl_react]
  simp only [Sys.breathe]
  cases hstop : (env tick).stop <;> simp only [Sys.choice, hstop] <;> exact ⟨by trivial, hnext⟩

omit [Surroundings ω κ] in
theorem inStep_onSys {p : SysM (κ × ν) ω ρ α} {q : SysM (κ × (μ × ℕ)) ω ρ β}
    (h : InStep (Sys.Discarded m) V p q) :
    InStep (World.Discarded (π := π) m last) V (onSys p) (onSys q) :=
  h.zoom (fun _ _ hw ↦ hw.sys) fun _ _ _ _ hw hs ↦ ⟨hs, hw.store⟩

omit [Surroundings ω κ] in
theorem inStep_note (e e' : Event ρ π) :
    InStep (World.Discarded (κ := κ) (ν := ν) (ω := ω) m last) (· = ·) (note e) (note e') :=
  fun _ _ hw ↦ ⟨rfl, hw.sys, hw.store⟩

/-- A method of the store that does not read the `last_send` rows. -/
theorem inStep_onStore {f g : Store π → α × Store π}
    (hfg : ∀ s : Store π, g { s with lastSend := last } =
      ((f s).1, { (f s).2 with lastSend := last })) :
    InStep (World.Discarded (κ := κ) (ν := ν) (ω := ω) (ρ := ρ) m last) (· = ·) (onStore f)
      (onStore g) :=
  (inStep_onSys inStep_breathe).bind_eq fun _ w w' hw ↦ by
    have hend := hfg w.store
    rw [← hw.store] at hend
    exact ⟨congrArg Prod.fst hend.symm, hw.sys, congrArg Prod.snd hend⟩

theorem inStep_readNow :
    InStep (World.Discarded (κ := κ) (ν := ν) (ω := ω) (ρ := ρ) (π := π) m last) (· = ·) readNow
      readNow :=
  (inStep_onSys inStep_breathe).bind_eq fun _ ↦ .pure rfl

theorem inStep_maySend (u : Uploader) :
    InStep (World.Discarded (κ := κ) (ν := ν) (ω := ω) (ρ := ρ) (π := π) m last) (· = ·)
      (maySend u) (maySend u) := by
  rw [maySend, maySend]
  split
  · exact (inStep_onSys inStep_breathe).bind_eq fun _ ↦ (inStep_note _ _).bind_eq fun _ ↦ .pure rfl
  · exact .pure rfl

/-- Both calls are answered with an ack. -/
theorem inStep_ship {inner : Transport (κ × μ) ω ρ Bytes} {p : SysM (κ × ν) ω ρ (Outcome ρ)}
    (hp : AckingCall p) (batch : RecordBatch ρ) :
    InStep (Sys.Discarded m) (fun o o' ↦ o.kind = .acked ∧ o'.kind = .acked) p
      (inner.discard.ship batch) := by
  obtain ⟨f, hf, rfl⟩ := hp
  refine inStep_breathe.bind_eq fun c s t hst ↦ ⟨⟨hf _ _, rfl⟩, ?_, hst.memory⟩
  exact hst.apart

theorem inStep_replay {inner : Transport (κ × μ) ω ρ Bytes} {p : SysM (κ × ν) ω ρ (Outcome ρ)}
    (hp : AckingCall p) (payload : Bytes) :
    InStep (Sys.Discarded m) (fun o o' ↦ o.kind = .acked ∧ o'.kind = .acked) p
      (inner.discard.replay payload) := by
  obtain ⟨f, hf, rfl⟩ := hp
  refine inStep_breathe.bind_eq fun c s t hst ↦ ⟨⟨hf _ _, rfl⟩, ?_, hst.memory⟩
  exact hst.apart

end steps

/-! ## The pump -/

section pump

variable {inner : Transport (κ × μ) ω ρ Bytes} (hinner : inner.Acks) (pipe : Pipeline κ ω ρ Bytes)
  (u : Uploader) {m : μ} {last : List ((String × String) × LastSend)}

theorem inStep_advance (key : SendKey) (c : Bytes) (t : Stamp) :
    InStep (World.Discarded m last) (· = ·) (advance (pipe.through inner) key c t)
      (advance (pipe.through inner.discard) key c t) :=
  inStep_onStore fun s ↦ s.advanceCursor_lastSend last key c t _

theorem inStep_recordAttempt (t : Stamp) (outcome : String) (records bytes : Option ℤ)
    (error : Option String) :
    InStep (World.Discarded m last) (· = ·)
      (recordAttempt (pipe.through inner) t outcome records bytes error)
      (recordAttempt (pipe.through inner.discard) t outcome records bytes error) :=
  inStep_onStore fun s ↦ by
    exact congrArg (Prod.mk ()) (s.recordAttempt_lastSend last _ _)

theorem inStep_commit (token : Bytes) :
    InStep (World.Discarded m last) (· = ·)
      (onSys ((pipe.through inner).source.commit token) : UM (κ × μ) ω ρ Bytes Unit)
      (onSys ((pipe.through inner.discard).source.commit token)) :=
  inStep_onSys (inStep_beside (.refl (pipe.source.commit token)))

theorem inStep_getCursor :
    InStep (World.Discarded m last) (· = ·)
      (onStoreE fun s ↦ (s.getCursor (pipe.through inner).key).map fun c ↦ (c, s) :
        UM (κ × μ) ω ρ Bytes Bytes)
      (onStoreE fun s ↦ (s.getCursor (pipe.through inner.discard).key).map fun c ↦ (c, s)) :=
  (inStep_onSys inStep_breathe).bind_eq fun _ w w' hw ↦ by
    have hget : w'.store.getCursor (pipe.through inner.discard).key =
        w.store.getCursor (pipe.through inner).key := by
      rw [hw.store]
      rfl
    simp only [actE, hget]
    cases w.store.getCursor (pipe.through inner).key with
    | error e => exact ⟨rfl, hw⟩
    | ok c => exact ⟨rfl, hw⟩

/-- The generators of both hold the same batches. -/
theorem inStep_iterBatches (cursor : Bytes) :
    InStep (Sys.Discarded m)
      (fun bs bs' ↦ ∃ ps : List (SysM κ ω ρ (Option (RecordBatch ρ))),
        bs = ps.map besideMemory ∧ bs' = ps.map besideMemory)
      ((pipe.through inner).source.iterBatches cursor (pipe.through inner).limit)
      ((pipe.through inner.discard).source.iterBatches cursor (pipe.through inner.discard).limit) :=
  inStep_beside ((InStep.refl _).bind_eq fun ps ↦ .pure ⟨ps, rfl, rfl⟩)

/-- **The first attempt** of a batch that both ack. -/
theorem inStep_handleFirstAttempt (batch : RecordBatch ρ) (o o' : Outcome ρ) (now : Reading)
    (ho : o.kind = .acked) (ho' : o'.kind = .acked) :
    InStep (World.Discarded m last) (· = ·)
      (handleFirstAttempt (pipe.through inner) batch o now)
      (handleFirstAttempt (pipe.through inner.discard) batch o' now) := by
  rw [handleFirstAttempt, handleFirstAttempt, ho, ho']
  exact (inStep_advance pipe _ _ _).bind_eq fun _ ↦ (inStep_commit pipe _).bind_eq fun _ ↦
    inStep_recordAttempt pipe _ _ _ _ _

/-- **A retry** that both ack. -/
theorem inStep_handleOutcome (d : Deliverable Bytes) (o o' : Outcome ρ) (now : Reading)
    (ho : o.kind = .acked) (ho' : o'.kind = .acked) :
    InStep (World.Discarded m last) (· = ·) (handleOutcome (pipe.through inner) d o now)
      (handleOutcome (pipe.through inner.discard) d o' now) := by
  rw [handleOutcome, handleOutcome, ho, ho']
  dsimp only
  split
  · exact (inStep_advance pipe _ _ _).bind_eq fun _ ↦ (inStep_commit pipe _).bind_eq fun _ ↦
      inStep_recordAttempt pipe _ _ _ _ _
  · exact (inStep_commit pipe _).bind_eq fun _ ↦ inStep_recordAttempt pipe _ _ _ _ _

include hinner

theorem inStep_callShip (batch : RecordBatch ρ) :
    InStep (World.Discarded m last) (fun o o' ↦ o.kind = .acked ∧ o'.kind = .acked)
      (callShip (pipe.through inner) batch) (callShip (pipe.through inner.discard) batch) :=
  (inStep_note _ _).bind_eq fun _ ↦ (inStep_onSys (inStep_ship (hinner.ship batch) batch)).bind
    fun _ _ ho ↦ (inStep_note _ _).bind_eq fun _ ↦ .pure ho

theorem inStep_callReplay (d : Deliverable Bytes) :
    InStep (World.Discarded m last) (fun o o' ↦ o.kind = .acked ∧ o'.kind = .acked)
      (callReplay (pipe.through inner) d) (callReplay (pipe.through inner.discard) d) :=
  (inStep_note _ _).bind_eq fun _ ↦
    (inStep_onSys (inStep_replay (hinner.replay d.payloadBlob) d.payloadBlob)).bind
      fun _ _ ho ↦ (inStep_note _ _).bind_eq fun _ ↦ .pure ho

/-- **One round of the retries.** -/
theorem inStep_retryNext (now : Reading) (any : Bool) :
    InStep (World.Discarded m last) (Sum.LiftRel (· = ·) (· = ·))
      (retryNext u (pipe.through inner) now any)
      (retryNext u (pipe.through inner.discard) now any) := by
  rw [retryNext, retryNext]
  refine (inStep_maySend u).bind_eq fun may ↦ ?_
  split
  · refine (inStep_onStore fun s ↦ s.popDueDeliverable_lastSend last _ _).bind_eq fun d ↦ ?_
    cases d with
    | none => exact .pure (.inr rfl)
    | some d =>
      refine (inStep_callReplay hinner pipe d).bind fun o o' ho ↦
        (inStep_handleOutcome pipe d o o' now ho.1 ho.2).bind_eq fun _ ↦ .pure ?_
      simp only [ho.1, ho.2]
      exact .inl rfl
  · exact .pure (.inr rfl)

theorem inStep_drainDeliverables :
    InStep (World.Discarded m last) (· = ·) (drainDeliverables u (pipe.through inner))
      (drainDeliverables u (pipe.through inner.discard)) := by
  rw [drainDeliverables, drainDeliverables]
  refine inStep_readNow.bind_eq fun now ↦ ?_
  refine InStep.bind (V := fun w w' : World _ ω ρ Bytes ↦
    w'.store.deliverables.length = w.store.deliverables.length) (fun w w' hw ↦ ⟨?_, hw⟩)
    fun w w' hlen ↦ ?_
  · exact (congrArg (fun s : Store Bytes ↦ s.deliverables.length) hw.store).trans rfl
  · rw [hlen]
    exact InStep.loop (B := (· = ·)) (fun any any' hany ↦ by
      subst hany
      exact inStep_retryNext hinner pipe u now any) _ rfl

/-- **The batches of one generator.** -/
theorem inStep_drainBatches (ps : List (SysM κ ω ρ (Option (RecordBatch ρ)))) (shipped : ℤ)
    (any progressed : Bool) :
    InStep (World.Discarded m last) (Sum.LiftRel (· = ·) (· = ·))
      (drainBatches u (pipe.through inner) (ps.map besideMemory) shipped any progressed)
      (drainBatches u (pipe.through inner.discard) (ps.map besideMemory) shipped any
        progressed) := by
  induction ps generalizing shipped any progressed with
  | nil =>
    rw [List.map_nil, List.map_nil, drainBatches, drainBatches]
    split
    · exact .pure (.inl rfl)
    · exact .pure (.inr rfl)
  | cons p ps ih =>
    rw [List.map_cons, List.map_cons, drainBatches, drainBatches]
    refine (inStep_onSys (inStep_beside (.refl p))).bind_eq fun b ↦ ?_
    cases b with
    | none => exact ih _ _ _
    | some batch =>
      dsimp only
      split
      · exact ih _ _ _
      · refine (inStep_maySend u).bind_eq fun may ↦ ?_
        split
        · refine (inStep_callShip hinner pipe batch).bind fun o o' ho ↦
            inStep_readNow.bind_eq fun now ↦
              (inStep_handleFirstAttempt pipe batch o o' now ho.1 ho.2).bind_eq fun _ ↦ ?_
          rw [Outcome.succeeded_iff.mpr (.inl ho.1), Outcome.succeeded_iff.mpr (.inl ho.2)]
          change InStep _ _ (if (true && pipe.maxRecordsPerPump.isSome &&
            pipe.budgetLeft (shipped + batch.records.length)) = true then _ else _)
            (if (true && pipe.maxRecordsPerPump.isSome &&
              pipe.budgetLeft (shipped + batch.records.length)) = true then _ else _)
          split
          · exact ih _ _ _
          · exact .pure (.inr rfl)
        · exact .pure (.inr rfl)

/-- **One round of the drain.** -/
theorem inStep_drainRound (b : ℤ × Bool) :
    InStep (World.Discarded m last) (Sum.LiftRel (· = ·) (· = ·))
      (drainRound u (pipe.through inner) b) (drainRound u (pipe.through inner.discard) b) := by
  obtain ⟨shipped, any⟩ := b
  rw [drainRound, drainRound]
  split
  · rw [if_pos ‹_›]
    refine (inStep_maySend u).bind_eq fun may ↦ ?_
    split
    · refine (inStep_getCursor pipe).bind_eq fun cursor ↦ ?_
      refine InStep.bind (V := fun bs bs' ↦ ∃ ps : List (SysM κ ω ρ (Option (RecordBatch ρ))),
        bs = ps.map besideMemory ∧ bs' = ps.map besideMemory)
        (inStep_onSys (inStep_iterBatches pipe cursor)) ?_
      rintro _ _ ⟨ps, rfl, rfl⟩
      exact inStep_drainBatches hinner pipe u ps _ _ _
    · exact .pure (.inr rfl)
  · rw [if_neg ‹_›]
    exact .pure (.inr rfl)

theorem inStep_drainSource :
    InStep (World.Discarded m last) (· = ·) (drainSource u (pipe.through inner))
      (drainSource u (pipe.through inner.discard)) :=
  InStep.loop (B := (· = ·)) (fun b b' hb ↦ by
    subst hb
    exact inStep_drainRound hinner pipe u b) _ rfl

/-- **A pump** of the two. -/
theorem inStep_pumpOne :
    InStep (World.Discarded m last) (· = ·) (pumpOne u (pipe.through inner))
      (pumpOne u (pipe.through inner.discard)) := by
  rw [pumpOne, pumpOne]
  refine (inStep_maySend u).bind_eq fun may ↦ ?_
  split
  · refine (inStep_drainDeliverables hinner pipe u).bind_eq fun did ↦
      (inStep_onStore fun s ↦ rfl).bind_eq fun count ↦ ?_
    split
    · exact .pure rfl
    · exact (inStep_drainSource hinner pipe u).bind_eq fun _ ↦ .pure rfl
  · exact .pure rfl

end pump

end Discard

open Discard

/-! ## Pump after pump -/

theorem World.Discarded.run {inner : Transport (κ × μ) ω ρ Bytes} (hinner : inner.Acks)
    (pipe : Pipeline κ ω ρ Bytes) (u : Uploader) (restart : κ → κ) (forget forget' : μ → μ)
    (recount : ℕ → ℕ) {m : μ} {last : List ((String × String) × LastSend)}
    {w : World (κ × μ) ω ρ Bytes} {w' : World (κ × (μ × ℕ)) ω ρ Bytes}
    (hw : World.Discarded m last w w') (n : ℕ) :
    ∃ j, World.Discarded (forget'^[j] m) last
      (run u (pipe.through inner) (Prod.map restart forget) n w)
      (HsUploader.run u (pipe.through inner.discard)
        (Prod.map restart (Prod.map forget' recount)) n w') := by
  induction n with
  | zero => exact ⟨0, hw⟩
  | succ n ih =>
    obtain ⟨j, ih⟩ := ih
    obtain ⟨hend, hnext⟩ := inStep_pumpOne hinner pipe u _ _ ih
    rw [HsUploader.run, HsUploader.run, cycle, cycle]
    rcases hp : pumpOne u (pipe.through inner) (HsUploader.run u (pipe.through inner) _ n w) with
      ⟨_ | _ | _ | _, v⟩ <;>
    rcases hq : pumpOne u (pipe.through inner.discard)
        (HsUploader.run u (pipe.through inner.discard) _ n w') with
      ⟨_ | _ | _ | _, v'⟩ <;> rw [hp, hq] at hend hnext <;>
      first
      | exact False.elim hend
      | exact ⟨j, hnext⟩
      | skip
    -- a stop on both sides: each process is started again
    refine ⟨j + 1, ⟨?_, ?_⟩, hnext.store⟩
    · have hsys := hnext.sys.apart
      simp only [Sys.apart, Sys.mk.injEq] at hsys ⊢
      exact ⟨congrArg restart hsys.1, hsys.2⟩
    · rw [Function.iterate_succ_apply']
      exact congrArg forget' hnext.sys.memory

/-- **Discarding is acking without sending.**  Start a pipeline with a transport that acks and the
same pipeline with that transport wrapped, on one store, one source and one environment.  After
every pump, however the environment moved, answered the gate and stopped the process, both see the
same outside and the same store but for the `last_send` rows, and with the transport wrapped these
are the ones it started with.  The wrapped transport's memory is touched by nothing but the
restarts, and any other transport of the same name, table and policy might stand in its place. -/
theorem Pipeline.discard_acks (inner : Transport (κ × μ) ω ρ Bytes) (hinner : inner.Acks)
    (pipe : Pipeline κ ω ρ Bytes) (u : Uploader) (restart : κ → κ) (forget forget' : μ → μ)
    (recount : ℕ → ℕ) (k : κ) (m m' : μ) (count : ℕ) (env : ℕ → Choice ω ρ) (store : Store Bytes)
    (n : ℕ) :
    let acking := run u (pipe.through inner) (Prod.map restart forget) n
      { sys := { here := (k, m), env }, store }
    let discarding (wrapped : Transport (κ × μ) ω ρ Bytes) :=
      run u (pipe.through wrapped.discard) (Prod.map restart (Prod.map forget' recount)) n
        { sys := { here := (k, (m', count)), env }, store }
    (discarding inner).sys.apart = acking.sys.apart ∧
      (discarding inner).store = { acking.store with lastSend := store.lastSend } ∧
      (∃ restarts, (discarding inner).sys.here.2.1 = forget'^[restarts] m') ∧
      ∀ wrapped : Transport (κ × μ) ω ρ Bytes, wrapped.name = inner.name →
        wrapped.primaryTable = inner.primaryTable → wrapped.batchPolicy = inner.batchPolicy →
        wrapped.payloadLen = inner.payloadLen → discarding wrapped = discarding inner := by
  intro acking discarding
  have hstart : World.Discarded (ρ := ρ) m' store.lastSend
      { sys := { here := (k, m), env }, store : World (κ × μ) ω ρ Bytes }
      { sys := { here := (k, (m', count)), env }, store } := ⟨⟨rfl, rfl⟩, rfl⟩
  obtain ⟨j, hend⟩ := hstart.run hinner pipe u restart forget forget' recount n
  refine ⟨hend.sys.apart.symm, hend.store, ⟨j, hend.sys.memory⟩, fun wrapped hname htable hpolicy
    hlen ↦ ?_⟩
  have hsame : wrapped.discard = inner.discard := by
    rw [Transport.discard, Transport.discard, hname, htable, hpolicy, hlen]
  exact congrArg (fun t ↦ run u (pipe.through t) _ n _) hsame

/-- A transport that acks and counts its calls. -/
def countingTransport : Transport (Unit × ℕ) Unit ℕ Bytes where
  name := "memory"
  primaryTable := "test.spots"
  ship _ := do
    let _ ← Sys.breathe
    Sys.inMemory fun x ↦ (.acked, (x.1, x.2 + 1))
  serializeForRetry _ := pure []
  replay _ := do
    let _ ← Sys.breathe
    Sys.inMemory fun x ↦ (.acked, (x.1, x.2 + 1))
  payloadLen := List.length

theorem countingTransport_acks : countingTransport.Acks where
  ship _ := ⟨fun _ x ↦ (.acked, x.2 + 1), fun _ _ ↦ rfl, rfl⟩
  replay _ := ⟨fun _ x ↦ (.acked, x.2 + 1), fun _ _ ↦ rfl, rfl⟩

/-- A pipeline with one record. -/
def memoryLane : Pipeline Unit Unit ℕ Bytes where
  name := "test"
  source := memorySource
  transport :=
    { name := "memory"
      primaryTable := "test.spots"
      ship := fun _ ↦ pure .acked
      serializeForRetry := fun _ ↦ pure []
      replay := fun _ ↦ pure .acked
      payloadLen := List.length }

/-- The one record is shipped once, and discarded without a call of the wrapped transport. -/
theorem Pipeline.discard_acks_counting :
    let acking := run {} (memoryLane.through countingTransport) (Prod.map id id) 2
      { sys := { here := ((), 0), env := fun _ ↦ {} }, store := {} }
    let discarding := run {} (memoryLane.through countingTransport.discard)
      (Prod.map id (Prod.map id id)) 2
      { sys := { here := ((), (0, 0)), env := fun _ ↦ {} }, store := {} }
    discarding.store = { acking.store with lastSend := [] } ∧
      discarding.sys.here.2.1 = 0 ∧ acking.sys.here.2 = 1 := by
  obtain ⟨-, hstore, ⟨j, hj⟩, -⟩ := Pipeline.discard_acks countingTransport countingTransport_acks
    memoryLane {} id id id id () 0 0 0 (fun _ ↦ {}) {} 2
  refine ⟨hstore, hj.trans ?_, ?_⟩
  · rw [Function.iterate_id]
    rfl
  · rfl

end HsUploader
