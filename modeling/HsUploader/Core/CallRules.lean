import HsUploader.Core.PumpRules

/-!
# A pump as its store and its calls see it

Many statements about a pump speak only of the store and of the calls that were made: in what order,
and with what answers.  What the source and the transport do inside a call does not matter to them,
as long as the call comes back.  `CallRules u pipe J X S` lists what has to be shown for such an
invariant `J` of the store and the trace, one rule for each step of the source text, and
`CallRules.pumpRules` turns it into the rules of a whole pump.  As there, `T` is what is known of
the reading the retries go by.

## What is here

* `Pipeline.Returns` — the source's and the transport's methods come back, with a value or without.
* `CallRules` — the list of rules.  A source step has no rule of its own: all it can do to the store
  and the trace is nothing.
* `Phase.CanRaise` — the phases out of which an exception may come.  A replay that raises has a rule
  of its own, since the deliverable is in hand then and on no table.
* `CallRules.pumpRules` — from these rules to those of the whole world.

The rows of the retry queue and the acks of an acking transport are followed in this way.
-/

set_option autoImplicit false

namespace HsUploader

open Prog

variable {σ ω ρ π : Type}

/-- The methods of the pipeline's source and transport return, with a value, with an exception or
stopped. -/
structure Pipeline.Returns (pipe : Pipeline σ ω ρ π) : Prop where
  iter : ∀ c limit s, wp (pipe.source.iterBatches c limit) (fun rest _ ↦ ∀ p ∈ rest, Prog.Returns p)
    (fun _ _ ↦ True) (fun _ ↦ True) s
  commit : ∀ token, Prog.Returns (pipe.source.commit token)
  ship : ∀ b, Prog.Returns (pipe.transport.ship b)
  serialize : ∀ b, Prog.Returns (pipe.transport.serializeForRetry b)
  replay : ∀ payload, Prog.Returns (pipe.transport.replay payload)

/-- An exception may come out of a step of this phase, other than from a replay or after one. -/
def Phase.CanRaise : Phase σ ω ρ π → Prop
  | .replayAdvanced _ | .draining _ | .opened _ _ | .reading _ _ | .shipped _ _ _ | .advanced _ _ _
  | .serialized _ _ _ => True
  | _ => False

/-- The resumptions a phase still holds return. -/
def Phase.RestReturns : Phase σ ω ρ π → Prop
  | .reading rest _ | .fetched _ rest _ | .shipped _ _ rest | .advanced _ _ rest =>
    ∀ p ∈ rest, Prog.Returns p
  | _ => True

/-- The trace after `_may_send` has answered true. -/
def granted (u : Uploader) (t : List (Event ρ π)) : List (Event ρ π) :=
  if u.gated then t ++ [.gate true] else t

/-- What has to be shown of an invariant of the store and the trace for it to hold throughout a
pump, for `X` to hold where the pump raises and for `S` to hold wherever it is stopped. -/
structure CallRules (u : Uploader) (pipe : Pipeline σ ω ρ π)
    (J : Phase σ ω ρ π → Store π → List (Event ρ π) → Prop)
    (X S : Store π → List (Event ρ π) → Prop) (T : Reading → Prop := fun _ ↦ True) : Prop where
  stopped : ∀ ph s t, J ph s t → S s t
  raised : ∀ ph s t, J ph s t → ph.CanRaise → X s t
  gate : ∀ ph s t a, J ph s t → J ph s (t ++ [.gate a])
  attempt : ∀ ph s t a ls, J ph s t → J ph (s.recordAttempt a ls) t
  heldStart : u.gated → ∀ s t, J .start s t → J .done s t
  heldDraining : u.gated → ∀ any s t, J (.draining any) s t → J .done s t
  heldFetched : u.gated → ∀ b rest any s t, J (.fetched b rest any) s t → J .done s t
  enter : ∀ s t, J .start s t → J .retrying s t
  pop : ∀ s t (now : Reading) d s', J .retrying s t →
    s.popDueDeliverable pipe.name now.iso = (some d, s') → J (.popped d) s' (granted u t)
  replayStopped : ∀ d s t, J (.popped d) s t → S s (t ++ [.replaying d])
  replayRaised : ∀ d s t, J (.popped d) s t → X s (t ++ [.replaying d])
  replay : ∀ d s t o, J (.popped d) s t → J (.replayed d o) s (t ++ [.replaying d, .replayed d o])
  replayAdvance : ∀ s t d o ts, J (.replayed d o) s t → o.kind = .acked → d.cursorAfter ≠ [] →
    J (.replayAdvanced d) (s.advanceCursor (d.key pipe) d.cursorAfter ts (isAfterFor pipe.source)).2
      t
  replayNoCursor : ∀ s t d o, J (.replayed d o) s t → o.kind = .acked → d.cursorAfter = [] →
    J (.replayAdvanced d) s t
  replayCommit : ∀ s t d, J (.replayAdvanced d) s t → J .retrying s t
  requeue : ∀ s t d o at' s', J (.replayed d o) s t → o.kind = .retryLater →
    d.attempts + 1 < pipe.retry.maxAttempts →
    s.requeueDeliverable { d with attempts := d.attempts + 1, nextAttemptAt := at' } = .ok s' →
    J .deferred s' t
  requeueRaised : ∀ s t d o, J (.replayed d o) s t → o.kind = .retryLater →
    d.attempts + 1 < pipe.retry.maxAttempts →
    ((∃ now, T now ∧ ¬ pipe.retry.Delays (d.attempts + 1) now) ∨
      ∃ d' ∈ s.deliverables, d'.id = d.id) → X s t
  replayDead : ∀ s t d o l, J (.replayed d o) s t → o.kind = .permanent →
    l.payloadBlob = d.payloadBlob → J .retrying (s.sendToDeadLetter l) t
  replaySpent : ∀ s t d o l, J (.replayed d o) s t → o.kind = .retryLater →
    pipe.retry.maxAttempts ≤ d.attempts + 1 → l.payloadBlob = d.payloadBlob →
    J .deferred (s.sendToDeadLetter l) t
  replayOdd : ∀ s t d o, J (.replayed d o) s t → o.kind ≠ .acked → o.kind ≠ .retryLater →
    o.kind ≠ .permanent → J .retrying s t
  queued : ∀ s t, J .retrying s t ∨ J .deferred s t → s.deliverableCount pipe.name ≠ 0 → J .done s t
  queueEmpty : ∀ s t, J .retrying s t ∨ J .deferred s t → s.deliverableCount pipe.name = 0 →
    J (.draining false) s t
  noBudget : ∀ any s t, J (.draining any) s t → J .done s t
  cursor : ∀ any s t c, J (.draining any) s t → s.getCursor pipe.key = .ok c → J (.opened c any) s t
  iter : ∀ c rest any s t, J (.opened c any) s t → J (.reading rest any) s t
  resumeNothing : ∀ p rest any s t, J (.reading (p :: rest) any) s t → J (.reading rest any) s t
  resume : ∀ p rest any b s t, J (.reading (p :: rest) any) s t → J (.fetched b rest any) s t
  exhausted : ∀ any s t, J (.reading [] any) s t → J .done s t
  again : ∀ s t, J (.reading [] true) s t → J (.draining true) s t
  shipStopped : ∀ b rest any s t, J (.fetched b rest any) s t →
    S s (granted u t ++ [.shipping b])
  shipRaised : ∀ b rest any s t, J (.fetched b rest any) s t → X s (granted u t ++ [.shipping b])
  ship : ∀ b rest any s t o, J (.fetched b rest any) s t →
    J (.shipped b o rest) s (granted u t ++ [.shipping b, .shipped b o])
  acked : ∀ s t b o rest ts, J (.shipped b o rest) s t → o.kind = .acked →
    J (.advanced b o rest)
      (s.advanceCursor pipe.key b.cursorAfter ts (isAfterFor pipe.source)).2 t
  ackedPart : ∀ s t b o rest ts, J (.shipped b o rest) s t → o.kind = .partialAck →
    J (.advanced b o rest)
      (s.advanceCursor pipe.key (o.acceptedOr b.cursorAfter) ts (isAfterFor pipe.source)).2 t
  commit : ∀ s t b o rest, J (.advanced b o rest) s t → J (.reading rest true) s t
  serialize : ∀ s t b o rest payload, J (.shipped b o rest) s t →
    o.kind = .retryLater ∨ o.kind = .permanent → J (.serialized b o payload) s t
  enqueue : ∀ s t b o payload t₁ t₂, J (.serialized b o payload) s t → o.kind = .retryLater →
    J .done (s.enqueueDeliverable
      { id := 0, attempts := 0, pipeline := pipe.name, payloadBlob := payload
        enqueuedAt := t₁, nextAttemptAt := t₂
        sourceId := pipe.source.sourceId, destId := pipe.transport.name
        table := pipe.transport.primaryTable
        cursorAfter := b.cursorAfter, commitToken := b.commitToken }) t
  dead : ∀ s t b o payload l, J (.serialized b o payload) s t → o.kind = .permanent →
    l.payloadBlob = payload → J .done (s.sendToDeadLetter l) t
  enough : ∀ rest s t, J (.reading rest true) s t → J .done s t

namespace CallRules

variable {u : Uploader} {pipe : Pipeline σ ω ρ π}
  {J : Phase σ ω ρ π → Store π → List (Event ρ π) → Prop}
  {X S : Store π → List (Event ρ π) → Prop} {T : Reading → Prop}

/-- `J` of the world, and what the phase holds returns. -/
structure Holds (J : Phase σ ω ρ π → Store π → List (Event ρ π) → Prop) (ph : Phase σ ω ρ π)
    (w : World σ ω ρ π) : Prop where
  inv : J ph w.store w.trace
  rest : ph.RestReturns

theorem Holds.stored {ph : Phase σ ω ρ π} {w : World σ ω ρ π} {s : Store π} (h : Holds J ph w)
    (hs : J ph s w.trace) : Holds J ph (w.stored s) :=
  ⟨hs, h.rest⟩

theorem store_trace_of_granted {w w' : World σ ω ρ π} (hg : Granted u w w') :
    w'.store = w.store ∧ w'.trace = granted u w.trace := by
  rw [Granted] at hg
  rw [hg, granted]
  split <;> exact ⟨rfl, rfl⟩

variable [Surroundings ω σ]

/-- **An invariant of the store and the calls is an invariant of the pump.** -/
theorem pumpRules (r : CallRules u pipe J X S T) (hr : pipe.Returns) :
    PumpRules u pipe (Holds J) (fun w ↦ X w.store w.trace) (fun w ↦ S w.store w.trace) T where
  breathe ph w h := by
    split
    · exact r.stopped _ _ _ h.inv
    · exact ⟨h.inv, h.rest⟩
  gate _ _ a h := ⟨r.gate _ _ _ a h.inv, h.rest⟩
  attempt _ _ a ls h := h.stored (r.attempt _ _ _ a ls h.inv)
  heldStart hu _ h := ⟨r.heldStart hu _ _ h.inv, trivial⟩
  heldDraining hu _ _ h := ⟨r.heldDraining hu _ _ _ h.inv, trivial⟩
  heldFetched hu _ _ _ _ h := ⟨r.heldFetched hu _ _ _ _ _ h.inv, trivial⟩
  enter _ h := ⟨r.enter _ _ h.inv, trivial⟩
  pop w w' now d s' h hg hpop := by
    obtain ⟨hs, ht⟩ := store_trace_of_granted hg
    rw [hs] at hpop
    refine ⟨?_, trivial⟩
    have hpopped := r.pop _ _ now d s' h.inv hpop
    rwa [← ht] at hpopped
  replay d w h := by
    rw [callReplay, wp_bind, wp_note, wp_bind, wp_onSys]
    refine (hr.replay _).wp (fun o s ↦ ?_) (fun e s ↦ r.replayRaised d _ _ h.inv)
      fun s ↦ r.replayStopped d _ _ h.inv
    rw [wp_bind, wp_note, wp_pure]
    refine ⟨?_, trivial⟩
    have hreplayed := r.replay d _ _ o h.inv
    rwa [List.append_cons] at hreplayed
  replayAdvance _ _ _ _ h hk hne := ⟨r.replayAdvance _ _ _ _ _ h.inv hk hne, trivial⟩
  replayNoCursor _ _ _ h hk hnil := ⟨r.replayNoCursor _ _ _ _ h.inv hk hnil, trivial⟩
  replayCommit d w h := by
    rw [wp_onSys]
    exact (hr.commit _).wp (fun _ _ ↦ ⟨r.replayCommit _ _ d h.inv, trivial⟩)
      (fun _ _ ↦ r.raised _ _ _ h.inv trivial) fun _ ↦ r.stopped _ _ _ h.inv
  requeue _ _ _ _ _ h hk hmax hs' := ⟨r.requeue _ _ _ _ _ _ h.inv hk hmax hs', trivial⟩
  requeueRaised _ _ _ h hk hmax hwhy := r.requeueRaised _ _ _ _ h.inv hk hmax hwhy
  replayDead _ _ _ _ h hk hl := ⟨r.replayDead _ _ _ _ _ h.inv hk hl, trivial⟩
  replaySpent _ _ _ _ h hk hmax hl := ⟨r.replaySpent _ _ _ _ _ h.inv hk hmax hl, trivial⟩
  replayOdd _ _ _ h h₁ h₂ h₃ := ⟨r.replayOdd _ _ _ _ h.inv h₁ h₂ h₃, trivial⟩
  queued _ h hc := ⟨r.queued _ _ (h.imp Holds.inv Holds.inv) hc, trivial⟩
  queueEmpty _ h hc := ⟨r.queueEmpty _ _ (h.imp Holds.inv Holds.inv) hc, trivial⟩
  noBudget _ _ h _ := ⟨r.noBudget _ _ _ h.inv, trivial⟩
  cursor _ _ c h hc := ⟨r.cursor _ _ _ c h.inv hc, trivial⟩
  cursorRaised _ _ _ h _ := r.raised _ _ _ h.inv trivial
  iter c any w h := by
    rw [wp_onSys]
    exact wp_mono (hr.iter c _ _) (fun rest _ hrest ↦ ⟨r.iter c rest any _ _ h.inv, hrest⟩)
      (fun _ _ _ ↦ r.raised _ _ _ h.inv trivial) fun _ _ ↦ r.stopped _ _ _ h.inv
  resume p rest any w h := by
    have hrest : ∀ q ∈ rest, Prog.Returns q := fun q hq ↦ h.rest q (List.mem_cons_of_mem p hq)
    have hp : Prog.Returns p := h.rest p List.mem_cons_self
    have hnothing : J (.reading rest any) w.store w.trace := r.resumeNothing p rest any _ _ h.inv
    rw [wp_onSys]
    refine hp.wp (fun x s ↦ ?_) (fun _ _ ↦ r.raised _ _ _ h.inv trivial)
      fun _ ↦ r.stopped _ _ _ h.inv
    cases x with
    | none => exact ⟨hnothing, hrest⟩
    | some b =>
      dsimp only
      split
      · exact ⟨hnothing, hrest⟩
      · exact ⟨r.resume p rest any b _ _ h.inv, hrest⟩
  exhausted _ _ h := ⟨r.exhausted _ _ _ h.inv, trivial⟩
  again _ h := ⟨r.again _ _ h.inv, trivial⟩
  ship b rest any w h := by
    obtain ⟨w₀, h₀, hg⟩ := h
    obtain ⟨hs, ht⟩ := store_trace_of_granted hg
    have hstore : ∀ s : Sys σ ω ρ,
        ({ w.noted (.shipping b) with sys := s } : World σ ω ρ π).store = w₀.store := fun _ ↦ hs
    have htrace : ∀ s : Sys σ ω ρ, ({ w.noted (.shipping b) with sys := s } : World σ ω ρ π).trace =
        granted u w₀.trace ++ [.shipping b] := fun _ ↦ by
      rw [← ht]
      rfl
    rw [callShip, wp_bind, wp_note, wp_bind, wp_onSys]
    refine (hr.ship b).wp (fun o s ↦ ?_) (fun e s ↦ ?_) fun s ↦ ?_
    · rw [wp_bind, wp_note, wp_pure]
      refine ⟨?_, h₀.rest⟩
      have hshipped := r.ship b rest any _ _ o h₀.inv
      rw [List.append_cons] at hshipped
      rw [World.noted, htrace]
      exact hstore s ▸ hshipped
    · have hraised := r.shipRaised b rest any _ _ h₀.inv
      rwa [← hstore s, ← htrace s] at hraised
    · have hstopped := r.shipStopped b rest any _ _ h₀.inv
      rwa [← hstore s, ← htrace s] at hstopped
  acked _ _ _ _ _ h hk := ⟨r.acked _ _ _ _ _ _ h.inv hk, h.rest⟩
  ackedPart _ _ _ _ _ h hk := ⟨r.ackedPart _ _ _ _ _ _ h.inv hk, h.rest⟩
  commit b o rest w h := by
    rw [wp_onSys]
    exact (hr.commit _).wp (fun _ _ ↦ ⟨r.commit _ _ b o rest h.inv, h.rest⟩)
      (fun _ _ ↦ r.raised _ _ _ h.inv trivial) fun _ ↦ r.stopped _ _ _ h.inv
  serialize b o rest hk w h := by
    rw [wp_onSys]
    exact (hr.serialize _).wp (fun payload _ ↦ ⟨r.serialize _ _ b o rest payload h.inv hk, trivial⟩)
      (fun _ _ ↦ r.raised _ _ _ h.inv trivial) fun _ ↦ r.stopped _ _ _ h.inv
  enqueueRaised _ _ _ _ h _ := r.raised _ _ _ h.inv trivial
  enqueue _ _ _ _ _ _ h hk := ⟨r.enqueue _ _ _ _ _ _ _ h.inv hk, trivial⟩
  dead _ _ _ _ _ h hk hl := ⟨r.dead _ _ _ _ _ _ h.inv hk hl, trivial⟩
  unhandled _ _ _ _ _ h _ := r.raised _ _ _ h.inv trivial
  enough _ _ h := ⟨r.enough _ _ _ h.inv, trivial⟩

/-- How a pump ends that starts where the invariant holds. -/
theorem timed (r : CallRules u pipe J X S T) (hr : pipe.Returns) {w : World σ ω ρ π}
    (hT : T (retryClock u w)) (h : J .start w.store w.trace) :
    wp (HsUploader.pumpOne u pipe) (fun _ w' ↦ J .done w'.store w'.trace)
      (fun _ w' ↦ X w'.store w'.trace) (fun w' ↦ S w'.store w'.trace) w :=
  wp_mono_ok ((r.pumpRules hr).pumpOne hT ⟨h, trivial⟩) fun _ _ h ↦ h.inv

theorem pumpOne (r : CallRules u pipe J X S) (hr : pipe.Returns) {w : World σ ω ρ π}
    (h : J .start w.store w.trace) :
    wp (HsUploader.pumpOne u pipe) (fun _ w' ↦ J .done w'.store w'.trace)
      (fun _ w' ↦ X w'.store w'.trace) (fun w' ↦ S w'.store w'.trace) w :=
  r.timed hr trivial h

/-- The same of a whole cycle, with one conclusion for its three ends. -/
theorem cycle (r : CallRules u pipe J X S) (hr : pipe.Returns) (restart : σ → σ)
    {D : Store π → List (Event ρ π) → Prop} (hdone : ∀ s t, J .done s t → D s t)
    (hraised : ∀ s t, X s t → D s t) (hstopped : ∀ s t, S s t → D s t) {w : World σ ω ρ π}
    (h : J .start w.store w.trace) :
    D (HsUploader.cycle u pipe restart w).store (HsUploader.cycle u pipe restart w).trace := by
  have hp := r.pumpOne hr h
  rw [HsUploader.cycle]
  unfold Prog.wp at hp
  rcases hw : HsUploader.pumpOne u pipe w with ⟨_ | _ | _ | _, w'⟩ <;> rw [hw] at hp
  · exact hdone _ _ hp
  · exact hraised _ _ hp
  · exact hstopped _ _ hp
  · exact hp.elim

end CallRules

end HsUploader
