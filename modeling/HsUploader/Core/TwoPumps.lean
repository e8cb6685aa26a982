import HsUploader.Core.PumpPairs

/-!
# Two pumps, one with a starting record

Two pipelines' pumps side by side, in one environment.  They are the same but for one send record:
on the left it is the anchor that was written for it, on the right there is none, until the first
ack makes them the same.  `Companions` is what the pumps need of the source and the transport for
this to make no difference; `Companions.run` is that it makes none.

## What is here

* `advancedRecord` — the record an advance leaves, as a function of the one it finds.
* `Store.Beside` — the two stores, with the record apart or alike; every other row is the same row.
* `Pipeline.Reaches` — the cursors an advance takes the anchor to.  A cursor before the anchor is
  refused on the left and written on the right, so each cursor that may come has to be one of these.
* `Companions` — what is asked of source and transport: started from the anchor, or from nothing
  with the anchor fixed in memory, they answer the same, and their cursors reach.
* `Companions.handleOutcome`, `Companions.pumpPair`, `Companions.run` — a retry, a pump, a run.
-/

set_option autoImplicit false

namespace HsUploader

open Prog

variable {σ ω ρ π α β : Type}

/-! ## One send record -/

/-- The record an advance leaves, by the record it finds. -/
def advancedRecord (isAfter : Bytes → Bytes → Except Exn Bool) (cursor : Bytes) (lastAck : Stamp) :
    Option SendRecord → SendRecord
  | none => ⟨.blob cursor, lastAck⟩
  | some r =>
    match r.cursor.toBytes with
    | .error _ => ⟨.blob cursor, lastAck⟩
    | .ok stored =>
      match Store.compareCursors isAfter cursor stored with
      | .error _ => ⟨.blob cursor, lastAck⟩
      | .ok (true, _) => ⟨.blob cursor, lastAck⟩
      | .ok (false, true) => r
      | .ok (false, false) => ⟨r.cursor, lastAck⟩

section store

variable (s : Store π) (key : SendKey) (cursor : Bytes) (lastAck : Stamp)
  (isAfter : Bytes → Bytes → Except Exn Bool)

theorem Store.lookup_advanceCursor :
    Table.lookup key (s.advanceCursor key cursor lastAck isAfter).2.watermarks =
      some (advancedRecord isAfter cursor lastAck (Table.lookup key s.watermarks)) := by
  rw [Store.advanceCursor]
  cases hlook : Table.lookup key s.watermarks with
  | none => exact Table.lookup_upsert_self _ _ _
  | some r =>
    dsimp only [advancedRecord]
    cases r.cursor.toBytes with
    | error e => exact Table.lookup_upsert_self _ _ _
    | ok stored =>
      dsimp only
      rcases Store.compareCursors isAfter cursor stored with e | ⟨_ | _, _ | _⟩
      · exact Table.lookup_upsert_self _ _ _
      · exact Table.lookup_upsert_self _ _ _
      · exact hlook
      · exact Table.lookup_upsert_self _ _ _
      · exact Table.lookup_upsert_self _ _ _

theorem Store.lookup_advanceCursor_of_ne {key' : SendKey} (h : key' ≠ key) :
    Table.lookup key' (s.advanceCursor key cursor lastAck isAfter).2.watermarks =
      Table.lookup key' s.watermarks := by
  rw [Store.advanceCursor]
  repeat' split
  all_goals simp only [Store.upsertCursor, Table.lookup_upsert_of_ne _ _ h]

theorem Store.advanceCursor_rest :
    (s.advanceCursor key cursor lastAck isAfter).2 =
      { s with watermarks := (s.advanceCursor key cursor lastAck isAfter).2.watermarks } := by
  rw [Store.advanceCursor]
  repeat' split
  all_goals rfl

end store

/-! ## Two stores -/

/-- The cursor is the anchor or lies after it. -/
structure Reaches (isAfter : Bytes → Bytes → Except Exn Bool) (anchor c : Bytes) : Prop where
  ne_nil : c ≠ []
  after : c = anchor ∨ isAfter c anchor = .ok true

/-- The advance of the anchor's own record is not refused. -/
theorem Reaches.advanced {isAfter : Bytes → Bytes → Except Exn Bool} {anchor c : Bytes}
    (h : Reaches isAfter anchor c) (t t' : Stamp) :
    advancedRecord isAfter c t' (some ⟨.blob anchor, t⟩) = ⟨.blob c, t'⟩ := by
  rw [advancedRecord, Cell.toBytes]
  dsimp only
  rcases h.after with rfl | hafter
  · rw [Store.compareCursors]
    cases isAfter c c with
    | error e => rfl
    | ok b => cases b <;> simp [bind, Except.bind, pure, Except.pure]
  · rw [Store.compareCursors, hafter]
    rfl

variable {pipe : Pipeline σ ω ρ π} {anchor : Bytes}

/-- A cursor of the pipeline's that its record can be advanced to from the anchor on. -/
abbrev Pipeline.Reaches (pipe : Pipeline σ ω ρ π) (anchor c : Bytes) : Prop :=
  HsUploader.Reaches (isAfterFor pipe.source) anchor c

/-- What acking the deliverable advances the pipeline's record to, if anything. -/
def Pipeline.Queues (pipe : Pipeline σ ω ρ π) (anchor : Bytes) (d : Deliverable π) : Prop :=
  d.key pipe = pipe.key → d.cursorAfter ≠ [] → pipe.Reaches anchor d.cursorAfter

/-- Two stores that differ in the pipeline's send record alone: on the left it is the anchor, on the
right there is none; or it is the same one. -/
structure Store.Beside (pipe : Pipeline σ ω ρ π) (anchor : Bytes) (s s' : Store π) : Prop where
  rest : s' = { s with watermarks := s'.watermarks }
  others : ∀ key, key ≠ pipe.key →
    Table.lookup key s'.watermarks = Table.lookup key s.watermarks
  own : ∃ c t, pipe.Reaches anchor c ∧ Table.lookup pipe.key s.watermarks = some ⟨.blob c, t⟩ ∧
    (Table.lookup pipe.key s'.watermarks = some ⟨.blob c, t⟩ ∨
      c = anchor ∧ Table.lookup pipe.key s'.watermarks = none)
  queued : ∀ d ∈ s.deliverables, pipe.Queues anchor d

namespace Store.Beside

variable {s s' : Store π}

theorem deliverables (h : s.Beside pipe anchor s') : s'.deliverables = s.deliverables := by
  rw [h.rest]

theorem getCursor (h : s.Beside pipe anchor s') :
    ∃ c c', s.getCursor pipe.key = .ok c ∧ s'.getCursor pipe.key = .ok c' ∧ pipe.Reaches anchor c ∧
      (c' = c ∨ c = anchor ∧ c' = []) := by
  obtain ⟨c, t, hc, hlook, hlook' | ⟨rfl, hlook'⟩⟩ := h.own
  · exact ⟨c, c, by rw [Store.getCursor, hlook]; rfl, by rw [Store.getCursor, hlook']; rfl, hc,
      .inl rfl⟩
  · exact ⟨c, [], by rw [Store.getCursor, hlook]; rfl, by rw [Store.getCursor, hlook'], hc,
      .inr ⟨rfl, rfl⟩⟩

/-- A step of the store that does not touch the send records. -/
theorem map (h : s.Beside pipe anchor s') {f : Store π → Store π}
    (hf : ∀ (s : Store π) W, f { s with watermarks := W } = { f s with watermarks := W })
    (hq : ∀ d ∈ (f s).deliverables, pipe.Queues anchor d) :
    (f s).Beside pipe anchor (f s') := by
  have hself : ∀ s : Store π, (f s).watermarks = s.watermarks := fun s ↦ by
    have heq := congrArg Store.watermarks (hf s s.watermarks)
    exact heq
  have hrest : f s' = { f s with watermarks := s'.watermarks } := by
    rw [← hf]
    exact congrArg f h.rest
  refine ⟨by rw [hself s']; exact hrest, fun key hkey ↦ ?_, ?_, hq⟩
  · rw [hself, hself]
    exact h.others key hkey
  · rw [hself, hself]
    exact h.own

/-- **An advance** keeps the stores beside each other. -/
theorem advance (h : s.Beside pipe anchor s') {key : SendKey} {c : Bytes} (t : Stamp)
    (hc : key = pipe.key → pipe.Reaches anchor c) :
    (s.advanceCursor key c t (isAfterFor pipe.source)).2.Beside pipe anchor
      (s'.advanceCursor key c t (isAfterFor pipe.source)).2 := by
  have hs := s.advanceCursor_rest key c t (isAfterFor pipe.source)
  have hs' := s'.advanceCursor_rest key c t (isAfterFor pipe.source)
  refine ⟨?_, fun key' hkey' ↦ ?_, ?_, ?_⟩
  · rw [hs, hs']
    exact congrArg (fun x : Store π ↦ { x with watermarks :=
      (s'.advanceCursor key c t (isAfterFor pipe.source)).2.watermarks }) h.rest
  · by_cases hk : key' = key
    · subst hk
      rw [Store.lookup_advanceCursor, Store.lookup_advanceCursor, h.others key' hkey']
    · rw [Store.lookup_advanceCursor_of_ne _ _ _ _ _ hk,
        Store.lookup_advanceCursor_of_ne _ _ _ _ _ hk, h.others key' hkey']
  · obtain ⟨c₀, t₀, hc₀, hlook, hlook'⟩ := h.own
    by_cases hk : key = pipe.key
    · have hreach := hc hk
      subst hk
      rw [Store.lookup_advanceCursor, Store.lookup_advanceCursor, hlook]
      rcases hlook' with hlook' | ⟨rfl, hlook'⟩
      · rw [hlook']
        have hown : ∃ c₁ t₁, pipe.Reaches anchor c₁ ∧
            advancedRecord (isAfterFor pipe.source) c t (some ⟨.blob c₀, t₀⟩) = ⟨.blob c₁, t₁⟩ := by
          rw [advancedRecord, Cell.toBytes]
          dsimp only
          split
          · exact ⟨c, t, hreach, rfl⟩
          · exact ⟨c, t, hreach, rfl⟩
          · exact ⟨c₀, t₀, hc₀, rfl⟩
          · exact ⟨c₀, t, hc₀, rfl⟩
        obtain ⟨c₁, t₁, hc₁, heq⟩ := hown
        exact ⟨c₁, t₁, hc₁, congrArg some heq, .inl (congrArg some heq)⟩
      · rw [hlook', hreach.advanced]
        exact ⟨c, t, hreach, rfl, .inl rfl⟩
    · rw [Store.lookup_advanceCursor_of_ne _ _ _ _ _ (Ne.symm hk),
        Store.lookup_advanceCursor_of_ne _ _ _ _ _ (Ne.symm hk)]
      exact ⟨c₀, t₀, hc₀, hlook, hlook'⟩
  · rw [Store.deliverables_advanceCursor]
    exact h.queued

end Store.Beside

/-! ## Two worlds -/

/-- Two worlds of a pump: outside as `S` says, stores beside each other, one trace. -/
structure World.Beside (S : Sys σ ω ρ → Sys σ ω ρ → Prop) (pipe : Pipeline σ ω ρ π) (anchor : Bytes)
    (w w' : World σ ω ρ π) : Prop where
  sys : S w.sys w'.sys
  store : w.store.Beside pipe anchor w'.store
  trace : w.trace = w'.trace

theorem inStep_onSys {S : Sys σ ω ρ → Sys σ ω ρ → Prop} {V : α → β → Prop} {p : SysM σ ω ρ α}
    {q : SysM σ ω ρ β} (h : InStep S V p q) :
    InStep (World.Beside S pipe anchor) V (onSys p) (onSys q) :=
  h.zoom (fun _ _ hw ↦ hw.sys) fun _ _ _ _ hw hs ↦ ⟨hs, hw.store, hw.trace⟩

theorem inStep_note {S : Sys σ ω ρ → Sys σ ω ρ → Prop} (e : Event ρ π) :
    InStep (World.Beside S pipe anchor) (· = ·) (note e) (note e) :=
  fun _ _ hw ↦ ⟨rfl, hw.sys, hw.store, congrArg (· ++ [e]) hw.trace⟩

theorem inStep_ofExcept {S : Sys σ ω ρ → Sys σ ω ρ → Prop} {x : Except Exn α} :
    InStep (World.Beside S pipe anchor : World σ ω ρ π → _ → Prop) (· = ·) (Prog.ofExcept x)
      (Prog.ofExcept x) :=
  .ofExcept (by cases x <;> rfl)

variable [Surroundings ω σ]

/-- What two pumps need of the source and the transport for the starting record to make no
difference. -/
structure Companions (S : Sys σ ω ρ → Sys σ ω ρ → Prop) (pipe : Pipeline σ ω ρ π) (anchor : Bytes) :
    Prop where
  breathe : InStep S (· = ·) (Sys.breathe : SysM σ ω ρ _) Sys.breathe
  commit : ∀ token, InStep S (· = ·) (pipe.source.commit token) (pipe.source.commit token)
  /-- A part of a batch is accepted up to the anchor at least. -/
  ship : ∀ batch, InStep S
    (fun o o' ↦ o = o' ∧ (o.kind = .partialAck → ∀ c, o.acceptedCursor = some c → c ≠ [] →
      pipe.Reaches anchor c))
    (pipe.transport.ship batch) (pipe.transport.ship batch)
  replay : ∀ payload, InStep S (· = ·) (pipe.transport.replay payload)
    (pipe.transport.replay payload)
  serialize : ∀ batch, InStep S (· = ·) (pipe.transport.serializeForRetry batch)
    (pipe.transport.serializeForRetry batch)
  iter : ∀ c c' limit, pipe.Reaches anchor c → (c' = c ∨ c = anchor ∧ c' = []) →
    InStep S
      (List.Forall₂ (InStep S fun b b' ↦ b = b' ∧ ∀ x ∈ b, pipe.Reaches anchor x.cursorAfter))
      (pipe.source.iterBatches c limit) (pipe.source.iterBatches c' limit)

namespace Companions

variable {S : Sys σ ω ρ → Sys σ ω ρ → Prop}

section steps

variable {V : α → β → Prop}

variable (hc : Companions S pipe anchor)
include hc

theorem onStore {f : Store π → α × Store π} {g : Store π → β × Store π}
    (hfg : ∀ s s', s.Beside pipe anchor s' →
      V (f s).1 (g s').1 ∧ (f s).2.Beside pipe anchor (g s').2) :
    InStep (World.Beside S pipe anchor) V (onStore f) (onStore g) :=
  (inStep_onSys hc.breathe).bind_eq fun _ _ _ hw ↦
    ⟨(hfg _ _ hw.store).1, hw.sys, (hfg _ _ hw.store).2, hw.trace⟩

theorem onStoreE {f : Store π → Except Exn (α × Store π)} {g : Store π → Except Exn (β × Store π)}
    (hfg : ∀ s s', s.Beside pipe anchor s' →
      Alike (fun r r' ↦ V r.1 r'.1 ∧ r.2.Beside pipe anchor r'.2) (f s) (g s')) :
    InStep (World.Beside S pipe anchor) V (onStoreE f) (onStoreE g) :=
  (inStep_onSys hc.breathe).bind_eq fun _ w w' hw ↦ by
    have hend := hfg _ _ hw.store
    simp only [actE]
    cases hf : f w.store with
    | error e =>
      cases hg : g w'.store with
      | error e' =>
        rw [hf, hg] at hend
        exact ⟨hend, hw⟩
      | ok r' =>
        rw [hf, hg] at hend
        exact hend.elim
    | ok r =>
      cases hg : g w'.store with
      | error e' =>
        rw [hf, hg] at hend
        exact hend.elim
      | ok r' =>
        rw [hf, hg] at hend
        exact ⟨hend.1, hw.sys, hend.2, hw.trace⟩

theorem readNow :
    InStep (World.Beside S pipe anchor) (· = ·) (readNow : UM σ ω ρ π Reading) HsUploader.readNow :=
  (inStep_onSys hc.breathe).bind_eq fun _ ↦ .pure rfl

theorem maySend (u : Uploader) :
    InStep (World.Beside S pipe anchor) (· = ·) (maySend u : UM σ ω ρ π Bool)
      (HsUploader.maySend u) := by
  rw [HsUploader.maySend]
  split
  · exact (inStep_onSys hc.breathe).bind_eq fun _ ↦ (inStep_note _).bind_eq fun _ ↦ .pure rfl
  · exact .pure rfl

theorem advance {key : SendKey} {c : Bytes} (t : Stamp)
    (hreach : key = pipe.key → pipe.Reaches anchor c) :
    InStep (World.Beside S pipe anchor) (fun _ _ ↦ True) (advance pipe key c t)
      (HsUploader.advance pipe key c t) :=
  hc.onStore fun _ _ hs ↦ ⟨trivial, hs.advance t hreach⟩

theorem recordAttempt (t : Stamp) (outcome : String) (records bytes : Option ℤ)
    (error : Option String) :
    InStep (World.Beside S pipe anchor) (· = ·) (recordAttempt pipe t outcome records bytes error)
      (HsUploader.recordAttempt pipe t outcome records bytes error) :=
  hc.onStore fun _ _ hs ↦ ⟨rfl, hs.map (f := fun s ↦ s.recordAttempt _ _) (fun _ _ ↦ rfl)
    fun d hd ↦ by
      rw [Store.deliverables_recordAttempt] at hd
      exact hs.queued d hd⟩

theorem deadLetter (t : Stamp) (payload : π) (finalError : String) :
    InStep (World.Beside S pipe anchor) (· = ·) (deadLetter pipe t payload finalError)
      (HsUploader.deadLetter pipe t payload finalError) :=
  hc.onStore fun _ _ hs ↦
    ⟨rfl, hs.map (f := fun s ↦ s.sendToDeadLetter _) (fun _ _ ↦ rfl) hs.queued⟩

theorem enqueue (batch : RecordBatch ρ) (payload : π) (t t' : Stamp)
    (hb : pipe.Reaches anchor batch.cursorAfter) :
    InStep (World.Beside S pipe anchor) (· = ·) (enqueue pipe batch payload t t')
      (HsUploader.enqueue pipe batch payload t t') := by
  refine hc.onStore fun _ _ hs ↦ ⟨rfl, ?_⟩
  refine hs.map (f := fun s ↦ s.enqueueDeliverable _) (fun s W ↦ ?_) fun d hd ↦ ?_
  · simp only [Store.enqueueDeliverable]
    split <;> rfl
  · rw [Store.enqueueDeliverable] at hd
    split at hd
    · exact hs.queued d hd
    · rcases List.mem_append.mp hd with hd | hd
      · exact hs.queued d hd
      · rw [List.mem_singleton.mp hd]
        exact fun _ _ ↦ hb

end steps

variable (hc : Companions S pipe anchor)
include hc

/-- **The first attempt** of a batch past the anchor. -/
theorem handleFirstAttempt (batch : RecordBatch ρ) (outcome : Outcome ρ) (now : Reading)
    (hb : pipe.Reaches anchor batch.cursorAfter)
    (ho : outcome.kind = .partialAck → ∀ c, outcome.acceptedCursor = some c → c ≠ [] →
      pipe.Reaches anchor c) :
    InStep (World.Beside S pipe anchor) (· = ·) (handleFirstAttempt pipe batch outcome now)
      (HsUploader.handleFirstAttempt pipe batch outcome now) := by
  rw [HsUploader.handleFirstAttempt]
  split
  · exact (hc.advance _ fun _ ↦ hb).bind fun _ _ _ ↦ (inStep_onSys (hc.commit _)).bind_eq fun _ ↦
      hc.recordAttempt _ _ _ _ _
  · rename_i hkind
    have hreach : pipe.Reaches anchor (outcome.acceptedOr batch.cursorAfter) := by
      rw [Outcome.acceptedOr]
      split
      · rename_i x xs hx
        exact ho hkind _ hx (List.cons_ne_nil x xs)
      · exact hb
    exact (hc.advance _ fun _ ↦ hreach).bind fun _ _ _ ↦
      (inStep_onSys (hc.commit _)).bind_eq fun _ ↦ hc.recordAttempt _ _ _ _ _
  · refine (inStep_onSys (hc.serialize _)).bind_eq fun payload ↦ ?_
    exact inStep_ofExcept.bind_eq fun delay ↦ inStep_ofExcept.bind_eq fun _ ↦
      (hc.enqueue _ _ _ _ hb).bind_eq fun _ ↦ hc.recordAttempt _ _ _ _ _
  · exact (inStep_onSys (hc.serialize _)).bind_eq fun _ ↦ (hc.deadLetter _ _ _).bind_eq fun _ ↦
      hc.recordAttempt _ _ _ _ _
  · exact .raise _

/-- **The outcome of a retry.** -/
theorem handleOutcome (d : Deliverable π) (outcome : Outcome ρ) (now : Reading)
    (hd : pipe.Queues anchor d) :
    InStep (World.Beside S pipe anchor) (· = ·) (handleOutcome pipe d outcome now)
      (HsUploader.handleOutcome pipe d outcome now) := by
  rw [HsUploader.handleOutcome]
  split
  · split
    · rename_i hne
      exact (hc.advance _ fun hkey ↦ hd hkey hne).bind fun _ _ _ ↦
        (inStep_onSys (hc.commit _)).bind_eq fun _ ↦ hc.recordAttempt _ _ _ _ _
    · exact (inStep_onSys (hc.commit _)).bind_eq fun _ ↦ hc.recordAttempt _ _ _ _ _
  · dsimp only
    split
    · exact (hc.deadLetter _ _ _).bind_eq fun _ ↦ hc.recordAttempt _ _ _ _ _
    · refine inStep_ofExcept.bind_eq fun delay ↦ inStep_ofExcept.bind_eq fun due ↦ ?_
      refine InStep.bind_eq (hc.onStoreE (V := (· = ·)) fun s s' hs ↦ ?_) fun _ ↦
        hc.recordAttempt _ _ _ _ _
      simp only [Store.requeueDeliverable, hs.deliverables]
      split
      · rfl
      · refine ⟨trivial, ?_⟩
        have hmap := hs.map
          (f := fun s ↦ { s with
            deliverables := s.deliverables ++
              [{ d with attempts := d.attempts + 1, nextAttemptAt := due }]
            deliverableSeq := max s.deliverableSeq d.id }) (fun _ _ ↦ rfl) ?_
        · simpa only [hs.deliverables] using hmap
        · intro d' hd'
          rcases List.mem_append.mp hd' with hd' | hd'
          · exact hs.queued d' hd'
          · rw [List.mem_singleton.mp hd']
            exact hd
  · exact (hc.deadLetter _ _ _).bind_eq fun _ ↦ hc.recordAttempt _ _ _ _ _
  · exact hc.recordAttempt _ _ _ _ _
  · exact hc.recordAttempt _ _ _ _ _

theorem callReplay (d : Deliverable π) :
    InStep (World.Beside S pipe anchor) (· = ·) (callReplay pipe d)
      (HsUploader.callReplay pipe d) :=
  (inStep_note _).bind_eq fun _ ↦ (inStep_onSys (hc.replay _)).bind_eq fun _ ↦
    (inStep_note _).bind_eq fun _ ↦ .pure rfl

/-- **The two pumps take the same steps.** -/
theorem pumpPair (u : Uploader) :
    PumpPair u pipe pipe (World.Beside S pipe anchor)
      (fun batch ↦ pipe.Reaches anchor batch.cursorAfter) (pipe.Queues anchor)
      (fun c c' ↦ pipe.Reaches anchor c ∧ (c' = c ∨ c = anchor ∧ c' = [])) where
  budget := rfl
  maySend := hc.maySend u
  readNow := hc.readNow
  queued _ _ hw := congrArg List.length hw.store.deliverables
  pop now := hc.onStore fun s s' hs ↦ by
    have hdue : s'.due pipe.name now = s.due pipe.name now := by
      rw [Store.due, Store.due, hs.deliverables]
    simp only [Store.popDueDeliverable, hdue]
    split
    · refine ⟨⟨rfl, fun x hx ↦ ?_⟩, hs⟩
      cases hx
    · rename_i d hd
      have hmem : d ∈ s.deliverables :=
        (List.mem_filter.mp (List.argmin_mem (Option.mem_def.mpr hd))).1
      refine ⟨⟨rfl, fun x hx ↦ ?_⟩, ?_⟩
      · cases hx
        exact hs.queued d hmem
      · have hmap := hs.map
          (f := fun s ↦ { s with deliverables := s.deliverables.filter fun d' ↦ d'.id ≠ d.id })
          (fun _ _ ↦ rfl) fun d' hd' ↦ hs.queued d' (List.mem_filter.mp hd').1
        simpa only [hs.deliverables] using hmap
  retried d now hd := (hc.callReplay d).bind_eq fun outcome ↦
    (hc.handleOutcome d outcome now hd).bind_eq fun _ ↦ .pure rfl
  count := hc.onStore fun s s' hs ↦
    ⟨by rw [Store.deliverableCount, Store.deliverableCount, hs.deliverables], hs⟩
  cursor := hc.onStoreE fun s s' hs ↦ by
    obtain ⟨c, c', hget, hget', hreach, hor⟩ := hs.getCursor
    rw [hget, hget']
    exact ⟨⟨hreach, hor⟩, hs⟩
  iter c c' hcc := (inStep_onSys (hc.iter c c' _ hcc.1 hcc.2)).mono fun _ _ hpq ↦
    hpq.imp fun _ _ hp ↦ inStep_onSys hp
  attempted batch hb := by
    have hship : InStep (World.Beside S pipe anchor)
        (fun o o' ↦ o = o' ∧ (o.kind = .partialAck →
          ∀ c, o.acceptedCursor = some c → c ≠ [] → pipe.Reaches anchor c))
        (callShip pipe batch) (callShip pipe batch) :=
      (inStep_note _).bind_eq fun _ ↦ (inStep_onSys (hc.ship _)).bind fun o o' ho ↦ by
        obtain ⟨rfl, ho⟩ := ho
        exact (inStep_note _).bind_eq fun _ ↦ .pure ⟨rfl, ho⟩
    refine hship.bind ?_
    rintro o o' ⟨rfl, ho⟩
    exact hc.readNow.bind_eq fun now ↦
      (hc.handleFirstAttempt batch o now hb ho).bind_eq fun _ ↦ .pure rfl

/-- **Pump after pump**: the worlds stay beside each other. -/
theorem run (u : Uploader) (restart restart' : σ → σ)
    (hrestart : ∀ s s', S s s' → S { s with here := restart s.here }
      { s' with here := restart' s'.here })
    {w w' : World σ ω ρ π} (hw : World.Beside S pipe anchor w w') (n : ℕ) :
    World.Beside S pipe anchor (run u pipe restart n w) (HsUploader.run u pipe restart' n w') :=
  (hc.pumpPair u).run (fun _ _ hw ↦ ⟨hrestart _ _ hw.sys, hw.store, hw.trace⟩) hw n

end Companions

end HsUploader
