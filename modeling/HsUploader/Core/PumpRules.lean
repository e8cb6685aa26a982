import HsUploader.Core.Uploader

/-!
# Reasoning about a pump

`PumpRules u pipe I X S` lists what has to be shown for an invariant `I` to hold throughout a pump.
The invariant speaks about the world in a `Phase`: which deliverable has been taken off the queue
but not replayed, which batch has been shipped but not recorded, and so on.  Each rule covers one
step of the source text, and `pumpOne_triple` assembles them into the statement about a whole pump,
its two loops included: started in `I start` the pump returns in `I done`; where it raises `X`
holds, and where it is stopped `S` holds.

No rule mentions a loop, a budget that runs out or a bound on the number of rounds: those are dealt
with here, once.

The retries of one pump are all timed by one reading of the clock, the first the pump takes
(`retryClock`).  `T` is what is known of it; most invariants need nothing, and leave it out.

## How to use it

A module about runs of a pump defines its invariant over the phases, proves one lemma for each
kind of step, and builds a `PumpRules` of them; `pumpOne_triple`, `PumpRules.cycle` and
`PumpRules.run` then speak about a pump, a pump with the restart after it, and a run.  The
environment's moves are the rule `breathe`: before each step of the uploader the others move, and
the process may be stopped there, with `S` left.

What a rule may use of the store is what the store's own function says, so that a change of
one statement of the source is a change of one rule.
-/

set_option autoImplicit false

namespace HsUploader

open Prog

variable {σ ω ρ π α : Type}

/-- Where a pump is, and what it holds in its hands there. -/
inductive Phase (σ ω ρ π : Type) where
  /-- Before the pump. -/
  | start
  /-- Between two retries. -/
  | retrying
  /-- A deliverable has been taken off the queue. -/
  | popped (d : Deliverable π)
  /-- It has been replayed. -/
  | replayed (d : Deliverable π) (o : Outcome ρ)
  /-- It was acked and the send record has been advanced; the source's commit comes next. -/
  | replayAdvanced (d : Deliverable π)
  /-- It answered `retry_later` and that has been recorded: the rest of the backlog waits. -/
  | deferred
  /-- In the source loop with no generator open; `any` says that a batch was shipped. -/
  | draining (any : Bool)
  /-- The stored cursor has been read. -/
  | opened (cursor : Bytes) (any : Bool)
  /-- The generator is open and has these resumptions left. -/
  | reading (rest : List (SysM σ ω ρ (Option (RecordBatch ρ)))) (any : Bool)
  /-- It has yielded a batch with records. -/
  | fetched (b : RecordBatch ρ) (rest : List (SysM σ ω ρ (Option (RecordBatch ρ)))) (any : Bool)
  /-- The batch has been shipped. -/
  | shipped (b : RecordBatch ρ) (o : Outcome ρ)
      (rest : List (SysM σ ω ρ (Option (RecordBatch ρ))))
  /-- It was acked, in part at least, and the send record has been advanced. -/
  | advanced (b : RecordBatch ρ) (o : Outcome ρ)
      (rest : List (SysM σ ω ρ (Option (RecordBatch ρ))))
  /-- It was not acked, and its retry payload has been made. -/
  | serialized (b : RecordBatch ρ) (o : Outcome ρ) (payload : π)
  /-- After the pump. -/
  | done

/-- The world after `_may_send` has answered true: the gate was asked, where there is one. -/
def Granted (u : Uploader) (w w' : World σ ω ρ π) : Prop :=
  w' = if u.gated then w.noted (.gate true) else w

theorem Granted.next [Surroundings ω σ] {u : Uploader} {w w' : World σ ω ρ π}
    (h : Granted u w w') : Granted u w.next w'.next := by
  rw [Granted] at h ⊢
  rw [h]
  split <;> rfl

theorem Granted.sys {u : Uploader} {w w' : World σ ω ρ π} (h : Granted u w w') :
    w'.sys = w.sys := by
  rw [Granted] at h
  rw [h]
  split <;> rfl

/-- What the gate's answers keep holds where it has answered true. -/
theorem Granted.keeps {u : Uploader} {w w' : World σ ω ρ π} {P : World σ ω ρ π → Prop}
    (h : Granted u w w') (hP : P w) (hgate : P w → P (w.noted (.gate true))) : P w' := by
  rw [Granted] at h
  rw [h]
  split
  · exact hgate hP
  · exact hP

/-! ## The rules -/

/-- The reading the retries of a pump go by: the one after the gate was asked, where there is one. -/
def retryClock (u : Uploader) (w : World σ ω ρ π) : Reading :=
  (w.sys.env (if u.gated then w.sys.tick + 1 else w.sys.tick)).now

/-- What has to be shown for `I` to hold throughout a pump, for `X` to hold where it raises, and for
`S` to hold wherever the process is stopped, where `T` holds of the reading its retries go by. -/
structure PumpRules [Surroundings ω σ] (u : Uploader) (pipe : Pipeline σ ω ρ π)
    (I : Phase σ ω ρ π → World σ ω ρ π → Prop) (X S : World σ ω ρ π → Prop)
    (T : Reading → Prop := fun _ ↦ True) : Prop where
  /-- The environment moves before a step of the uploader. -/
  breathe : ∀ ph w, I ph w → if w.sys.choice.stop then S w.next else I ph w.next
  /-- The gate answers. -/
  gate : ∀ ph w a, I ph w → I ph (w.noted (.gate a))
  /-- A row is added to the attempt log. -/
  attempt : ∀ ph w a ls, I ph w → I ph (w.stored (w.store.recordAttempt a ls))
  /-- The gate holds the pump at its start. -/
  heldStart : u.gated → ∀ w, I .start w → I .done w
  /-- It holds the source loop. -/
  heldDraining : u.gated → ∀ any w, I (.draining any) w → I .done w
  /-- It holds a batch that has been read. -/
  heldFetched : u.gated → ∀ b rest any w, I (.fetched b rest any) w → I .done w
  /-- The pump begins. -/
  enter : ∀ w, I .start w → I .retrying w
  /-- A deliverable is taken off the queue. -/
  pop : ∀ w w' (now : Reading) d s', I .retrying w → Granted u w w' →
    w'.store.popDueDeliverable pipe.name now.iso = (some d, s') → I (.popped d) (w'.stored s')
  /-- It is replayed. -/
  replay : ∀ d, Triple (I (.popped d)) (callReplay pipe d) (fun o ↦ I (.replayed d o))
    (fun _ ↦ X) S
  /-- It was acked: the send record advances. -/
  replayAdvance : ∀ w d o ts, I (.replayed d o) w → o.kind = .acked → d.cursorAfter ≠ [] →
    I (.replayAdvanced d)
      (w.stored (w.store.advanceCursor (d.key pipe) d.cursorAfter ts (isAfterFor pipe.source)).2)
  /-- It was acked and carries no cursor. -/
  replayNoCursor : ∀ w d o, I (.replayed d o) w → o.kind = .acked → d.cursorAfter = [] →
    I (.replayAdvanced d) w
  /-- The source cleans up after it. -/
  replayCommit : ∀ d, Triple (I (.replayAdvanced d)) (onSys (pipe.source.commit d.commitToken))
    (fun _ ↦ I .retrying) (fun _ ↦ X) S
  /-- It goes back to the queue. -/
  requeue : ∀ w d o t s', I (.replayed d o) w → o.kind = .retryLater →
    d.attempts + 1 < pipe.retry.maxAttempts →
    w.store.requeueDeliverable { d with attempts := d.attempts + 1, nextAttemptAt := t } = .ok s' →
    I .deferred (w.stored s')
  /-- It should go back to the queue, and no time can be given to it or its id is taken. -/
  requeueRaised : ∀ w d o, I (.replayed d o) w → o.kind = .retryLater →
    d.attempts + 1 < pipe.retry.maxAttempts →
    ((∃ now, T now ∧ ¬ pipe.retry.Delays (d.attempts + 1) now) ∨
      ∃ d' ∈ w.store.deliverables, d'.id = d.id) → X w
  /-- It was refused for good and becomes a dead letter. -/
  replayDead : ∀ w d o l, I (.replayed d o) w → o.kind = .permanent →
    l.payloadBlob = d.payloadBlob → I .retrying (w.stored (w.store.sendToDeadLetter l))
  /-- It has used up its attempts and becomes a dead letter. -/
  replaySpent : ∀ w d o l, I (.replayed d o) w → o.kind = .retryLater →
    pipe.retry.maxAttempts ≤ d.attempts + 1 → l.payloadBlob = d.payloadBlob →
    I .deferred (w.stored (w.store.sendToDeadLetter l))
  /-- The replay answered something else. -/
  replayOdd : ∀ w d o, I (.replayed d o) w → o.kind ≠ .acked → o.kind ≠ .retryLater →
    o.kind ≠ .permanent → I .retrying w
  /-- A retry stays queued: the source is not read. -/
  queued : ∀ w, I .retrying w ∨ I .deferred w → w.store.deliverableCount pipe.name ≠ 0 → I .done w
  /-- The queue is empty: the source is read. -/
  queueEmpty : ∀ w, I .retrying w ∨ I .deferred w → w.store.deliverableCount pipe.name = 0 →
    I (.draining false) w
  /-- The budget is used up. -/
  noBudget : ∀ any w, I (.draining any) w → (any = false → pipe.budgetLeft 0 = false) → I .done w
  /-- The stored cursor is read. -/
  cursor : ∀ any w c, I (.draining any) w → w.store.getCursor pipe.key = .ok c →
    I (.opened c any) w
  /-- The stored cursor cannot be read. -/
  cursorRaised : ∀ any w e, I (.draining any) w → w.store.getCursor pipe.key = .error e → X w
  /-- The generator is opened. -/
  iter : ∀ c any, Triple (I (.opened c any)) (onSys (pipe.source.iterBatches c pipe.limit))
    (fun rest ↦ I (.reading rest any)) (fun _ ↦ X) S
  /-- It is resumed. -/
  resume : ∀ p rest any, Triple (I (.reading (p :: rest) any)) (onSys p)
    (fun r w ↦ match r with
      | none => I (.reading rest any) w
      | some b => if b.records.isEmpty then I (.reading rest any) w else I (.fetched b rest any) w)
    (fun _ ↦ X) S
  /-- It is exhausted. -/
  exhausted : ∀ any w, I (.reading [] any) w → I .done w
  /-- It is exhausted after a batch was shipped, and opened again. -/
  again : ∀ w, I (.reading [] true) w → I (.draining true) w
  /-- The batch is shipped. -/
  ship : ∀ b rest any, Triple (fun w' ↦ ∃ w, I (.fetched b rest any) w ∧ Granted u w w')
    (callShip pipe b) (fun o ↦ I (.shipped b o rest)) (fun _ ↦ X) S
  /-- It was acked: the send record advances. -/
  acked : ∀ w b o rest ts, I (.shipped b o rest) w → o.kind = .acked →
    I (.advanced b o rest)
      (w.stored (w.store.advanceCursor pipe.key b.cursorAfter ts (isAfterFor pipe.source)).2)
  /-- It was acked in part: the send record advances to the accepted cursor. -/
  ackedPart : ∀ w b o rest ts, I (.shipped b o rest) w → o.kind = .partialAck →
    I (.advanced b o rest)
      (w.stored (w.store.advanceCursor pipe.key (o.acceptedOr b.cursorAfter) ts
        (isAfterFor pipe.source)).2)
  /-- The source cleans up after it. -/
  commit : ∀ b o rest, Triple (I (.advanced b o rest)) (onSys (pipe.source.commit b.commitToken))
    (fun _ ↦ I (.reading rest true)) (fun _ ↦ X) S
  /-- It was not acked: the retry payload is made. -/
  serialize : ∀ b o rest, o.kind = .retryLater ∨ o.kind = .permanent →
    Triple (I (.shipped b o rest)) (onSys (pipe.transport.serializeForRetry b))
      (fun payload ↦ I (.serialized b o payload)) (fun _ ↦ X) S
  /-- It is to be retried, and no time can be given to it. -/
  enqueueRaised : ∀ w b o payload, I (.serialized b o payload) w → o.kind = .retryLater → X w
  /-- It joins the retry queue. -/
  enqueue : ∀ w b o payload t t', I (.serialized b o payload) w → o.kind = .retryLater →
    I .done (w.stored (w.store.enqueueDeliverable
      { id := 0, attempts := 0, pipeline := pipe.name, payloadBlob := payload
        enqueuedAt := t, nextAttemptAt := t'
        sourceId := pipe.source.sourceId, destId := pipe.transport.name
        table := pipe.transport.primaryTable
        cursorAfter := b.cursorAfter, commitToken := b.commitToken }))
  /-- It becomes a dead letter. -/
  dead : ∀ w b o payload l, I (.serialized b o payload) w → o.kind = .permanent →
    l.payloadBlob = payload → I .done (w.stored (w.store.sendToDeadLetter l))
  /-- The transport answered a kind the uploader does not know. -/
  unhandled : ∀ w b o rest k, I (.shipped b o rest) w → o.kind = .other k → X w
  /-- One batch was enough. -/
  enough : ∀ rest w, I (.reading rest true) w → I .done w

namespace PumpRules

variable [Surroundings ω σ] {u : Uploader} {pipe : Pipeline σ ω ρ π}
  {I : Phase σ ω ρ π → World σ ω ρ π → Prop} {X S : World σ ω ρ π → Prop} {T : Reading → Prop}

/-- A step of the store keeps what its function keeps. -/
theorem onStore (r : PumpRules u pipe I X S T) {E : Exn → World σ ω ρ π → Prop} (ph : Phase σ ω ρ π)
    {f : Store π → α × Store π} {Q : α → World σ ω ρ π → Prop} {w : World σ ω ρ π} (h : I ph w)
    (hf : ∀ w, I ph w → Q (f w.store).1 (w.stored (f w.store).2)) :
    wp (HsUploader.onStore f) Q E S w := by
  rw [wp_onStore]
  have hb := r.breathe ph w h
  split
  · rwa [if_pos ‹_›] at hb
  · rw [if_neg ‹_›] at hb
    exact hf w.next hb

theorem readNow (r : PumpRules u pipe I X S T) {E : Exn → World σ ω ρ π → Prop}
    (ph : Phase σ ω ρ π) {w : World σ ω ρ π} (h : I ph w) :
    wp HsUploader.readNow (fun now w' ↦ now = w.sys.choice.now ∧ I ph w') E S w := by
  rw [HsUploader.readNow, wp_bind, wp_onSys_breathe]
  have hb := r.breathe ph w h
  split
  · rwa [if_pos ‹_›] at hb
  · rw [if_neg ‹_›] at hb
    exact ⟨rfl, hb⟩

theorem recordAttempt (r : PumpRules u pipe I X S T) {E : Exn → World σ ω ρ π → Prop}
    (ph : Phase σ ω ρ π) (ts : Stamp) (outcome : String) (records bytes : Option ℤ)
    (error : Option String) :
    Triple (I ph) (HsUploader.recordAttempt pipe ts outcome records bytes error)
      (fun _ ↦ I ph) E S :=
  fun _ h ↦ r.onStore ph h fun w hw ↦ r.attempt ph w _ _ hw

/-- Asking the gate: a refusal is possible only where a gate is set. -/
theorem maySend (r : PumpRules u pipe I X S T) {E : Exn → World σ ω ρ π → Prop}
    (ph : Phase σ ω ρ π) {w : World σ ω ρ π} (h : I ph w) :
    wp (HsUploader.maySend u)
      (fun ok w' ↦ I ph w' ∧ (ok = false → u.gated) ∧
        (ok = true → ∃ w₀, I ph w₀ ∧ Granted u w₀ w') ∧ w'.sys.choice.now = retryClock u w)
      E S w := by
  rw [HsUploader.maySend, retryClock]
  split
  · rename_i hg
    rw [wp_bind, wp_onSys_breathe]
    have hb := r.breathe ph w h
    split
    · rwa [if_pos ‹_›] at hb
    · rw [if_neg ‹_›] at hb
      rw [wp_bind, wp_note, wp_pure]
      refine ⟨r.gate ph _ _ hb, fun _ ↦ hg, fun ha ↦ ⟨_, hb, ?_⟩, rfl⟩
      rw [Granted, if_pos hg, ha]
  · rename_i hg
    rw [wp_pure]
    refine ⟨h, fun hf ↦ absurd hf (by simp), fun _ ↦ ⟨w, h, ?_⟩, rfl⟩
    rw [Granted, if_neg hg]

/-! ## Retries -/

theorem handleOutcome (r : PumpRules u pipe I X S T) (d : Deliverable π) (o : Outcome ρ)
    {now : Reading} (hT : T now) :
    Triple (I (.replayed d o)) (HsUploader.handleOutcome pipe d o now)
      (fun _ ↦ I (if o.kind = .retryLater then .deferred else .retrying)) (fun _ ↦ X) S := by
  intro w h
  rw [HsUploader.handleOutcome]
  split
  · rename_i hk
    rw [if_neg (show ¬ o.kind = .retryLater by rw [hk]; decide)]
    have hcommit : Triple (I (.replayAdvanced d)) (do
        onSys (pipe.source.commit d.commitToken)
        HsUploader.recordAttempt pipe now.iso "acked" none
          (some (pipe.transport.payloadLen d.payloadBlob)) none)
        (fun _ ↦ I .retrying) (fun _ ↦ X) S := by
      intro w h
      rw [wp_bind]
      exact (r.replayCommit d).use h fun _ w h ↦ r.recordAttempt .retrying _ _ _ _ _ w h
    split
    · rename_i hc
      rw [wp_bind, advance]
      exact r.onStore (.replayed d o) h fun w h ↦ hcommit _ (r.replayAdvance w d o _ h hk hc)
    · rename_i hc
      rw [not_not] at hc
      exact hcommit w (r.replayNoCursor w d o h hk hc)
  · rename_i hk
    rw [hk, if_pos rfl]
    dsimp only
    split
    · rename_i hmax
      rw [wp_bind, HsUploader.deadLetter]
      refine r.onStore (.replayed d o) h fun w h ↦ r.recordAttempt .deferred _ _ _ _ _ _ ?_
      exact r.replaySpent w d o _ h hk hmax rfl
    · rename_i hmax
      have hlt : d.attempts + 1 < pipe.retry.maxAttempts := by omega
      rw [wp_bind, wp_ofExcept]
      split
      · rename_i delay hdelay
        rw [wp_bind, wp_ofExcept]
        split
        · rw [wp_bind, wp_onStoreE]
          have hb := r.breathe _ w h
          split
          · rwa [if_pos ‹_›] at hb
          · rw [if_neg ‹_›] at hb
            split
            · rename_i p hp
              refine r.recordAttempt .deferred _ _ _ _ _ _ ?_
              obtain ⟨s', hs', rfl⟩ := exists_of_map_eq_ok hp
              exact r.requeue _ d o _ s' hb hk hlt hs'
            · rename_i e he
              have hid := Store.requeueDeliverable_error he
              exact r.requeueRaised _ d o hb hk hlt (.inr hid)
        · rename_i e he
          refine r.requeueRaised w d o h hk hlt (.inl ⟨now, hT, ?_⟩)
          rintro ⟨delay', hdelay', hdatable⟩
          obtain rfl := Except.ok.inj (hdelay.symm.trans hdelay')
          exact iso_eq_error.mp ⟨e, he⟩ hdatable
      · rename_i e he
        refine r.requeueRaised w d o h hk hlt (.inl ⟨now, hT, ?_⟩)
        rintro ⟨delay, hdelay, -⟩
        rw [he] at hdelay
        cases hdelay
  · rename_i hk
    rw [if_neg (show ¬ o.kind = .retryLater by rw [hk]; decide), wp_bind, HsUploader.deadLetter]
    refine r.onStore (.replayed d o) h fun w h ↦ r.recordAttempt .retrying _ _ _ _ _ _ ?_
    exact r.replayDead w d o _ h hk rfl
  all_goals
    rename_i hk
    rw [if_neg (show ¬ o.kind = .retryLater by rw [hk]; exact OutcomeKind.noConfusion)]
    refine r.recordAttempt .retrying _ _ _ _ _ w (r.replayOdd w d o h ?_ ?_ ?_) <;>
      rw [hk] <;> exact OutcomeKind.noConfusion

/-! ### The queue between two claims -/

omit [Surroundings ω σ] in
theorem keeps_onSys (p : SysM σ ω ρ α) :
    Keeps (onSys p : UM σ ω ρ π α) fun w ↦ w.store.deliverables :=
  Keeps.zoom p fun _ _ ↦ rfl

omit [Surroundings ω σ] in
theorem keeps_note (e : Event ρ π) :
    Keeps (note e : UM σ ω ρ π Unit) fun w ↦ w.store.deliverables := fun _ _ _ h ↦ by
  cases h
  rfl

theorem keeps_onStore (f : Store π → α × Store π)
    (hf : ∀ s, (f s).2.deliverables = s.deliverables) :
    Keeps (HsUploader.onStore f : UM σ ω ρ π α) fun w ↦ w.store.deliverables :=
  (keeps_onSys _).bind fun _ ↦ Keeps.act fun w ↦ hf w.store

theorem keeps_maySend (u : Uploader) :
    Keeps (HsUploader.maySend u : UM σ ω ρ π Bool) fun w ↦ w.store.deliverables := by
  rw [HsUploader.maySend]
  split
  · exact (keeps_onSys _).bind fun _ ↦ (keeps_note _).bind fun _ ↦ Keeps.pure _
  · exact Keeps.pure _

theorem keeps_recordAttempt (pipe : Pipeline σ ω ρ π) (ts : Stamp) (outcome : String)
    (records bytes : Option ℤ) (error : Option String) :
    Keeps (HsUploader.recordAttempt pipe ts outcome records bytes error)
      fun w ↦ w.store.deliverables :=
  keeps_onStore _ fun s ↦ Store.deliverables_recordAttempt s _ _

omit [Surroundings ω σ] in
theorem keeps_callReplay (pipe : Pipeline σ ω ρ π) (d : Deliverable π) :
    Keeps (callReplay pipe d) fun w ↦ w.store.deliverables :=
  (keeps_note _).bind fun _ ↦ (keeps_onSys _).bind fun _ ↦ (keeps_note _).bind fun _ ↦ Keeps.pure _

/-- Handling the outcome of a replay leaves the queue as the claim left it, unless the deliverable
goes back to it. -/
theorem keeps_handleOutcome (pipe : Pipeline σ ω ρ π) (d : Deliverable π) {o : Outcome ρ}
    (now : Reading) (ho : o.kind ≠ .retryLater) :
    Keeps (HsUploader.handleOutcome pipe d o now) fun w ↦ w.store.deliverables := by
  rw [HsUploader.handleOutcome]
  split
  · split
    · refine (keeps_onStore _ fun s ↦ ?_).bind fun _ ↦
        (keeps_onSys _).bind fun _ ↦ keeps_recordAttempt _ _ _ _ _ _
      exact Store.deliverables_advanceCursor ..
    · exact (keeps_onSys _).bind fun _ ↦ keeps_recordAttempt _ _ _ _ _ _
  · exact absurd ‹_› ho
  · refine (keeps_onStore _ fun s ↦ ?_).bind fun _ ↦ keeps_recordAttempt _ _ _ _ _ _
    exact Store.deliverables_sendToDeadLetter ..
  all_goals exact keeps_recordAttempt _ _ _ _ _ _

/-- One round of the retry loop; a round that goes on has taken a row off the queue. -/
theorem retryNext (r : PumpRules u pipe I X S T) {now : Reading} (hT : T now) (any : Bool)
    {w : World σ ω ρ π} (h : I .retrying w) :
    wp (HsUploader.retryNext u pipe now any)
      (fun x w' ↦ match x with
        | .inl _ => I .retrying w' ∧ w'.store.deliverables.length < w.store.deliverables.length
        | .inr _ => I .retrying w' ∨ I .deferred w')
      (fun _ ↦ X) S w := by
  rw [HsUploader.retryNext, wp_bind]
  refine wp_mono_ok ((keeps_maySend u).wp (r.maySend .retrying h))
    fun ok w₁ ⟨⟨h₁, _, hgranted, _⟩, hq₁⟩ ↦ ?_
  split
  · rename_i hok
    rw [wp_bind, wp_onStore]
    have hb := r.breathe _ w₁ h₁
    obtain ⟨w₀, h₀, hg⟩ := hgranted hok
    have hb₀ := r.breathe _ w₀ h₀
    split
    · rwa [if_pos ‹_›] at hb
    · rw [if_neg ‹_›] at hb
      rw [← hg.sys, if_neg ‹_›] at hb₀
      rcases hpop : w₁.store.popDueDeliverable pipe.name now.iso with ⟨claimed, s'⟩
      cases claimed with
      | none =>
        obtain rfl := (Store.popDueDeliverable_none hpop).1
        exact .inl hb
      | some d =>
        have hlt := Store.length_popDueDeliverable_lt hpop
        rw [hq₁] at hlt
        dsimp only
        rw [wp_bind]
        have hpopped := r.pop _ _ _ d s' hb₀ hg.next hpop
        refine wp_mono_ok ((keeps_callReplay pipe d).wp (r.replay d _ hpopped))
          fun o w₂ ⟨h₂, hq₂⟩ ↦ ?_
        rw [wp_bind]
        by_cases ho : o.kind = .retryLater
        · refine (r.handleOutcome d o hT).use h₂ fun _ w₃ h₃ ↦ ?_
          rw [if_pos ho] at h₃ ⊢
          exact .inr h₃
        · refine wp_mono_ok ((keeps_handleOutcome pipe d now ho).wp (r.handleOutcome d o hT w₂ h₂))
            fun _ w₃ ⟨h₃, hq₃⟩ ↦ ?_
          rw [if_neg ho] at h₃ ⊢
          rw [wp_pure]
          refine ⟨h₃, ?_⟩
          rw [hq₃, hq₂]
          exact hlt
  · exact .inl h₁

/-- The retry loop returns, between two retries or after one that is to be tried again later. -/
theorem drainDeliverables (r : PumpRules u pipe I X S T) {w : World σ ω ρ π}
    (hT : T w.sys.choice.now) (h : I .retrying w) :
    wp (HsUploader.drainDeliverables u pipe)
      (fun _ w ↦ I .retrying w ∨ I .deferred w) (fun _ ↦ X) S w := by
  rw [HsUploader.drainDeliverables, wp_bind]
  refine wp_mono_ok (r.readNow .retrying h) fun now w₁ ⟨hnow, h⟩ ↦ ?_
  rw [← hnow] at hT
  rw [wp_bind, wp_get]
  refine wp_loop (fun _ ↦ I .retrying) (fun _ w ↦ w.store.deliverables.length)
    (fun any w hw ↦ wp_mono_ok (r.retryNext hT any hw) fun x w' hx ↦ ?_) h (Nat.lt_succ_self _)
  cases x <;> exact hx

/-! ## The source -/

theorem handleFirstAttempt (r : PumpRules u pipe I X S T) (b : RecordBatch ρ) (o : Outcome ρ)
    (rest : List (SysM σ ω ρ (Option (RecordBatch ρ)))) (now : Reading) :
    Triple (I (.shipped b o rest)) (HsUploader.handleFirstAttempt pipe b o now)
      (fun _ ↦ I (if o.succeeded then .reading rest true else .done)) (fun _ ↦ X) S := by
  intro w h
  rw [HsUploader.handleFirstAttempt, Outcome.succeeded]
  split <;> rename_i hk
  · rw [wp_bind, advance]
    refine r.onStore (.shipped b o rest) h fun w h ↦ ?_
    rw [wp_bind]
    refine (r.commit b o rest).use (r.acked _ _ _ _ _ h hk) fun _ w h ↦ ?_
    simpa [hk] using r.recordAttempt (.reading rest true) _ _ _ _ _ w h
  · rw [wp_bind, advance]
    refine r.onStore (.shipped b o rest) h fun w h ↦ ?_
    rw [wp_bind]
    refine (r.commit b o rest).use (r.ackedPart _ _ _ _ _ h hk) fun _ w h ↦ ?_
    simpa [hk] using r.recordAttempt (.reading rest true) _ _ _ _ _ w h
  · rw [wp_bind]
    refine (r.serialize b o rest (.inl hk)).use h fun payload w h ↦ ?_
    rw [wp_bind, wp_ofExcept]
    split
    · rw [wp_bind, wp_ofExcept]
      split
      · rw [wp_bind, HsUploader.enqueue]
        refine r.onStore (.serialized b o payload) h fun w h ↦ ?_
        refine wp_mono_ok (r.recordAttempt .done _ _ _ _ _ _ (r.enqueue w b o payload _ _ h hk))
          fun _ w h ↦ ?_
        simpa [hk] using h
      · exact r.enqueueRaised w b o payload h hk
    · exact r.enqueueRaised w b o payload h hk
  · rw [wp_bind]
    refine (r.serialize b o rest (.inr hk)).use h fun payload w h ↦ ?_
    rw [wp_bind, HsUploader.deadLetter]
    refine r.onStore (.serialized b o payload) h fun w h ↦ ?_
    refine wp_mono_ok (r.recordAttempt .done _ _ _ _ _ _ (r.dead w b o payload _ h hk rfl))
      fun _ w h ↦ ?_
    simpa [hk] using h
  · rename_i k
    exact r.unhandled w b o rest _ h hk

/-- The loop over the generator's batches.  A round of the outer loop that is asked for has shipped
records of the budget. -/
theorem drainBatches (r : PumpRules u pipe I X S T)
    (rest : List (SysM σ ω ρ (Option (RecordBatch ρ)))) (shipped : ℤ) (any progressed : Bool)
    {w : World σ ω ρ π} (h : I (.reading rest any) w) (start : ℤ)
    (hp : progressed = true → any = true ∧ start < shipped ∧ pipe.budgetLeft shipped ∧
      pipe.maxRecordsPerPump.isSome) (hs : start ≤ shipped) :
    wp (HsUploader.drainBatches u pipe rest shipped any progressed)
      (fun x w' ↦ match x with
        | .inl (shipped', any') => I (.draining any') w' ∧ any' = true ∧ start < shipped' ∧
            pipe.budgetLeft shipped' ∧ pipe.maxRecordsPerPump.isSome
        | .inr _ => I .done w')
      (fun _ ↦ X) S w := by
  induction rest generalizing shipped any progressed w with
  | nil =>
    rw [HsUploader.drainBatches, wp_pure]
    cases progressed with
    | false => exact r.exhausted any w h
    | true =>
      obtain ⟨rfl, hlt, hb, hm⟩ := hp rfl
      exact ⟨r.again w h, rfl, hlt, hb, hm⟩
  | cons p rest ih =>
    rw [HsUploader.drainBatches, wp_bind]
    refine (r.resume p rest any).use h fun x w hx ↦ ?_
    match x, hx with
    | none, hx => exact ih shipped any progressed hx hp hs
    | some b, hx =>
      dsimp only at hx ⊢
      split
      · rw [if_pos ‹_›] at hx
        exact ih shipped any progressed hx hp hs
      · rename_i hne
        rw [if_neg hne] at hx
        rw [wp_bind]
        refine wp_mono_ok (r.maySend (.fetched b rest any) hx)
          fun ok w ⟨h, hok, hgranted, _⟩ ↦ ?_
        cases ok with
        | false => exact r.heldFetched (hok rfl) b rest any w h
        | true =>
          rw [if_pos rfl, wp_bind]
          refine (r.ship b rest any).use (hgranted rfl) fun o w h ↦ ?_
          rw [wp_bind]
          refine wp_mono_ok (r.readNow (.shipped b o rest) h) fun now w ⟨_, h⟩ ↦ ?_
          rw [wp_bind]
          refine (r.handleFirstAttempt b o rest now).use h fun _ w h ↦ ?_
          have hlen : 0 < b.records.length := by
            rw [List.length_pos_iff]
            simpa using hne
          split
          · rename_i hgo
            simp only [Bool.and_eq_true] at hgo
            rw [if_pos hgo.1.1] at h
            refine ih _ true true h (fun _ ↦ ⟨rfl, by omega, hgo.2, hgo.1.2⟩) (by omega)
          · rw [wp_pure]
            split at h
            · exact r.enough rest w h
            · exact h

/-- The source loop returns, and what it leaves is the end of the pump. -/
theorem drainSource (r : PumpRules u pipe I X S T) :
    Triple (I (.draining false)) (HsUploader.drainSource u pipe) (fun _ ↦ I .done)
      (fun _ ↦ X) S := by
  intro w h
  rw [HsUploader.drainSource]
  -- a round that goes on leaves less of the budget; without a budget no round goes on
  refine wp_loop
    (fun x w ↦ I (.draining x.2) w ∧ (x.2 = false → x.1 = 0) ∧ 0 ≤ x.1)
    (fun x _ ↦ (pipe.maxRecordsPerPump.getD 0 - x.1).toNat) ?_ ⟨h, fun _ ↦ rfl, le_rfl⟩ ?_
  · rintro ⟨shipped, any⟩ w ⟨h, h₀, hpos⟩
    rw [HsUploader.drainRound]
    split
    · rename_i hbudget
      rw [wp_bind]
      refine wp_mono_ok (r.maySend (.draining any) h) fun ok w ⟨h, hok, _⟩ ↦ ?_
      cases ok with
      | false => exact r.heldDraining (hok rfl) any w h
      | true =>
        rw [if_pos rfl, wp_bind, wp_onStoreE]
        have hb := r.breathe _ w h
        split
        · rwa [if_pos ‹_›] at hb
        · rw [if_neg ‹_›] at hb
          cases hc : w.store.getCursor pipe.key with
          | error e => exact r.cursorRaised any w.next e hb hc
          | ok c =>
            change wp _ _ _ _ w.next
            rw [wp_bind]
            refine (r.iter c any).use (r.cursor any w.next c hb hc) fun rest w h ↦ ?_
            refine wp_mono_ok (r.drainBatches rest shipped any false h shipped
              (fun hf ↦ absurd hf (by simp)) le_rfl) fun x w' hx ↦ ?_
            match x, hx with
            | .inr _, hx => exact hx
            | .inl (shipped', any'), ⟨hI, ha, hlt, hleft, hsome⟩ =>
              obtain ⟨budget, hm⟩ := Option.isSome_iff_exists.mp hsome
              rw [Pipeline.budgetLeft, hm] at hbudget hleft
              simp only [decide_eq_true_eq] at hbudget hleft
              refine ⟨⟨hI, fun hf ↦ Bool.noConfusion (hf.symm.trans ha), by omega⟩, ?_⟩
              rw [hm, Option.getD_some]
              omega
    · rename_i hbudget
      refine r.noBudget any w h fun ha ↦ ?_
      obtain rfl : shipped = 0 := h₀ ha
      simpa using hbudget
  · omega

/-! ## The whole pump -/

end PumpRules

/-- The part of a pump before the source: the gate, the retries and the number that stay queued.
`none` where the gate holds the pump. -/
def retryStage [Surroundings ω σ] (u : Uploader) (pipe : Pipeline σ ω ρ π) :
    UM σ ω ρ π (Option (Bool × ℕ)) := do
  if ← maySend u then
    let didWork ← drainDeliverables u pipe
    let count ← onStore fun s ↦ (s.deliverableCount pipe.name, s)
    pure (some (didWork, count))
  else pure none

/-- The part from there on: the source is read when nothing stays queued. -/
def sourceStage [Surroundings ω σ] (u : Uploader) (pipe : Pipeline σ ω ρ π) :
    Option (Bool × ℕ) → UM σ ω ρ π Bool
  | none => pure false
  | some (didWork, count) =>
    if count > 0 then pure didWork
    else do
      let didDrain ← drainSource u pipe
      pure (didWork || didDrain)

theorem pumpOne_eq [Surroundings ω σ] (u : Uploader) (pipe : Pipeline σ ω ρ π) :
    pumpOne u pipe = retryStage u pipe >>= sourceStage u pipe := by
  rw [pumpOne, retryStage, bind_assoc]
  congr 1
  funext ok
  split
  · rw [bind_assoc]
    congr 1
    funext didWork
    rw [bind_assoc]
    rfl
  · rfl

namespace PumpRules

variable [Surroundings ω σ] {u : Uploader} {pipe : Pipeline σ ω ρ π}
  {I : Phase σ ω ρ π → World σ ω ρ π → Prop} {X S : World σ ω ρ π → Prop} {T : Reading → Prop}

/-- Before the source is read the pump is held, a retry stays queued, or nothing is queued. -/
theorem retryStage (r : PumpRules u pipe I X S T) {w : World σ ω ρ π} (hT : T (retryClock u w))
    (h : I .start w) :
    wp (HsUploader.retryStage u pipe)
      (fun x w ↦ match x with
        | none => I .done w
        | some (_, count) => if count = 0 then I (.draining false) w else I .done w)
      (fun _ ↦ X) S w := by
  rw [HsUploader.retryStage, wp_bind]
  refine wp_mono_ok (r.maySend .start h) fun ok w₁ ⟨h, hok, _, hclock⟩ ↦ ?_
  rw [← hclock] at hT
  cases ok with
  | false => exact r.heldStart (hok rfl) w₁ h
  | true =>
    rw [if_pos rfl, wp_bind]
    refine wp_mono_ok (r.drainDeliverables hT (r.enter w₁ h)) fun didWork w h ↦ ?_
    rw [wp_bind]
    have hcount : ∀ w, I .retrying w ∨ I .deferred w →
        if w.store.deliverableCount pipe.name = 0 then I (.draining false) w else I .done w := by
      intro w h
      split
      · exact r.queueEmpty w h ‹_›
      · exact r.queued w h ‹_›
    rcases h with h | h
    · exact r.onStore .retrying h fun w h ↦ hcount w (.inl h)
    · exact r.onStore .deferred h fun w h ↦ hcount w (.inr h)

/-- **A pump keeps its invariant.**  Started in `I start`, it returns in `I done`; where it
raises `X` holds, wherever the process is stopped `S` holds, and it does not run for ever. -/
theorem pumpOne (r : PumpRules u pipe I X S T) {w : World σ ω ρ π} (hT : T (retryClock u w))
    (h : I .start w) :
    wp (HsUploader.pumpOne u pipe) (fun _ ↦ I .done) (fun _ ↦ X) S w := by
  rw [pumpOne_eq, wp_bind]
  refine wp_mono_ok (r.retryStage hT h) fun x w h ↦ ?_
  match x, h with
  | none, h => exact h
  | some (_, count), h =>
    have h : if count = 0 then I (.draining false) w else I .done w := h
    rw [sourceStage]
    split
    · rwa [if_neg (by omega)] at h
    · rw [if_pos (by omega)] at h
      rw [wp_bind]
      exact r.drainSource.use h fun _ w h ↦ h

/-- The same where nothing need be known of the clock. -/
theorem pumpOne_triple (r : PumpRules u pipe I X S) :
    Triple (I .start) (HsUploader.pumpOne u pipe) (fun _ ↦ I .done) (fun _ ↦ X) S :=
  fun _ h ↦ r.pumpOne trivial h

/-- A whole cycle keeps it too, when what an exception leaves is an end of a pump, and so is what a
stop leaves after the restart. -/
theorem cycle (r : PumpRules u pipe I X S) {restart : σ → σ} (hraised : ∀ w, X w → I .done w)
    (hrestart : ∀ w, S w → I .done { w with sys := { w.sys with here := restart w.sys.here } })
    {w : World σ ω ρ π} (h : I .start w) : I .done (HsUploader.cycle u pipe restart w) := by
  have hp := r.pumpOne_triple w h
  rw [HsUploader.cycle]
  unfold Prog.wp at hp
  rcases hr : HsUploader.pumpOne u pipe w with ⟨_ | _ | _ | _, w'⟩ <;> rw [hr] at hp
  · exact hp
  · exact hraised w' hp
  · exact hrestart w' hp
  · exact hp.elim

/-- **An invariant of every run.** -/
theorem run (r : PumpRules u pipe I X S) {restart : σ → σ} (hraised : ∀ w, X w → I .done w)
    (hrestart : ∀ w, S w → I .done { w with sys := { w.sys with here := restart w.sys.here } })
    (hagain : ∀ w, I .done w → I .start w) {w : World σ ω ρ π} (h : I .done w) (n : ℕ) :
    I .done (HsUploader.run u pipe restart n w) := by
  induction n with
  | zero => exact h
  | succ n ih => exact r.cycle hraised hrestart (hagain _ ih)

end PumpRules

end HsUploader
