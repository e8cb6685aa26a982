import HsUploader.Core.CallRules
import HsUploader.Library.Trace
import HsUploader.Transports.Unspecified

/-!
# The calls of one pump

Which calls of the transport a pump may make, and after what.  Each comes after an answer true of
the gate that no other call has used (`gate_mediates`), and after a failed call there is none, but
for one path: a retry whose attempts the failure uses up becomes a dead letter, and the emptied
queue lets the same pump go on to the source (`oneProbe_of_spare`).

Both are statements about the entries one pump adds to the trace, proved by the rules of a pump from
an invariant of these entries alone.

## What is here

* `Added` — the form of both statements: the trace is what it was, and then entries with a property.
* `Mediated` and `mediated_rules` — the entries where every call has a leave of its own.
* `OneProbe`, `Calm`, `Spent` and `Probing` — the entries as a pump adds them: nothing has failed,
  or one call has, or a retry was spent and a batch may have been shipped after it.
* `Pipeline.Awaits` and `ReplaysOf` — the retries a pump replays were queued when it began, for its
  pipeline, and their time had come; this turns what the entries say into a property of the queue
  before the pump.
-/

set_option autoImplicit false

namespace HsUploader

open Prog Trace

variable {σ ω ρ π α : Type}

/-! ## The entries of a trace -/

/-- The entry is a call of the transport. -/
def Event.IsCall : Event ρ π → Prop
  | .shipping _ | .replaying _ => True
  | .gate _ | .shipped _ _ | .replayed _ _ => False

/-- The entry is an answer true of the gate. -/
def Event.IsGrant : Event ρ π → Prop
  | .gate answer => answer = true
  | _ => False

/-- The entry is a call that returned `retry_later`. -/
def Event.Failed : Event ρ π → Prop
  | .shipped _ o | .replayed _ o => o.kind = .retryLater
  | .gate _ | .shipping _ | .replaying _ => False

instance : DecidablePred (Event.IsCall : Event ρ π → Prop)
  | .shipping _ | .replaying _ => .isTrue trivial
  | .gate _ | .shipped _ _ | .replayed _ _ => .isFalse id

instance : DecidablePred (Event.Failed : Event ρ π → Prop)
  | .shipped _ o | .replayed _ o => inferInstanceAs (Decidable (o.kind = .retryLater))
  | .gate _ | .shipping _ | .replaying _ => .isFalse id

/-- Each call comes after an answer true of the gate that is younger than the call before it. -/
def Mediated (t : List (Event ρ π)) : Prop :=
  Preceded Event.IsCall (Since Event.IsGrant Event.IsCall) t

/-- No call comes after one that returned `retry_later`. -/
def OneProbe (t : List (Event ρ π)) : Prop :=
  Preceded Event.IsCall (fun a ↦ ∀ x ∈ a, ¬ x.Failed) t

instance (t : List (Event ρ π)) : Decidable (OneProbe t) :=
  inferInstanceAs (Decidable (Preceded Event.IsCall (fun a ↦ ∀ x ∈ a, ¬ x.Failed) t))

/-- A retry has used up its attempts with a `retry_later`, and a batch was shipped after it. -/
def ShipsOnSpent (pipe : Pipeline σ ω ρ π) (t : List (Event ρ π)) : Prop :=
  ∃ a d o b, t = a ++ .replayed d o :: b ∧ o.kind = .retryLater ∧
    pipe.retry.maxAttempts ≤ d.attempts + 1 ∧ ∃ batch, .shipping batch ∈ b

/-- The trace is `t₀` and then entries of which `P` holds. -/
def Added (t₀ : List (Event ρ π)) (P : List (Event ρ π) → Prop) (t : List (Event ρ π)) : Prop :=
  ∃ t', t = t₀ ++ t' ∧ P t'

section added

variable {t₀ t : List (Event ρ π)} {P Q : List (Event ρ π) → Prop}

theorem Added.mono (h : Added t₀ P t) (hPQ : ∀ t, P t → Q t) : Added t₀ Q t := by
  obtain ⟨t', ht, hP⟩ := h
  exact ⟨t', ht, hPQ t' hP⟩

theorem Added.append (h : Added t₀ P t) (es : List (Event ρ π)) (hPQ : ∀ t, P t → Q (t ++ es)) :
    Added t₀ Q (t ++ es) := by
  obtain ⟨t', rfl, hP⟩ := h
  exact ⟨t' ++ es, List.append_assoc .., hPQ t' hP⟩

/-- The entries come after an answer of the gate, where there is one. -/
theorem Added.granted (u : Uploader) (h : Added t₀ P t) (es : List (Event ρ π))
    (hgated : u.gated → ∀ t, P t → Q (t ++ .gate true :: es))
    (hopen : ¬ u.gated → ∀ t, P t → Q (t ++ es)) :
    Added t₀ Q (HsUploader.granted u t ++ es) := by
  rw [HsUploader.granted]
  split
  · rw [List.append_assoc]
    exact h.append _ (hgated ‹_›)
  · exact h.append es (hopen ‹_›)

end added

/-! ## The gate -/

/-- What a phase asks of the entries of the pump: a retry is taken off the queue with leave to send
it. -/
def MediatedIn : Phase σ ω ρ π → List (Event ρ π) → Prop
  | .popped _, t => Mediated t ∧ Since Event.IsGrant Event.IsCall t
  | _, t => Mediated t

theorem isGrant_gate : Event.IsGrant (.gate true : Event ρ π) := rfl

theorem MediatedIn.mediated {ph : Phase σ ω ρ π} {t : List (Event ρ π)} (h : MediatedIn ph t) :
    Mediated t := by
  cases ph with
  | popped _ => exact h.1
  | _ => exact h

theorem MediatedIn.gate {ph : Phase σ ω ρ π} {t : List (Event ρ π)} (h : MediatedIn ph t)
    (answer : Bool) : MediatedIn ph (t ++ [.gate answer]) := by
  cases ph with
  | popped _ => exact ⟨h.1.concat id, h.2.concat id⟩
  | _ => exact Preceded.concat h id

/-- A call with leave to make it. -/
theorem Mediated.call {t : List (Event ρ π)} (h : Mediated t)
    (hsince : Since Event.IsGrant Event.IsCall t) (call : Event ρ π) : Mediated (t ++ [call]) :=
  preceded_concat.mpr ⟨h, fun _ ↦ hsince⟩

/-- A call right after the gate has answered true, and what it returned. -/
theorem Mediated.asked {t : List (Event ρ π)} (h : Mediated t) (call : Event ρ π) :
    Mediated (t ++ [.gate true, call]) := by
  rw [List.append_cons]
  exact Mediated.call (h.concat id) (since_concat_good isGrant_gate) call

/-- Each step of a pump keeps its calls mediated. -/
theorem mediated_rules {u : Uploader} (hu : u.gated) (pipe : Pipeline σ ω ρ π)
    (t₀ : List (Event ρ π)) :
    CallRules u pipe (fun ph _ ↦ Added t₀ (MediatedIn ph)) (fun _ ↦ Added t₀ Mediated)
      (fun _ ↦ Added t₀ Mediated) where
  stopped _ _ _ h := h.mono fun _ ht ↦ ht.mediated
  raised _ _ _ h _ := h.mono fun _ ht ↦ ht.mediated
  gate _ _ _ a h := h.append _ fun _ ht ↦ ht.gate a
  attempt _ _ _ _ _ h := h
  heldStart _ _ _ h := h
  heldDraining _ _ _ _ h := h
  heldFetched _ _ _ _ _ _ h := h
  enter _ _ h := h
  pop _ t _ d _ h _ := by
    rw [← List.append_nil (granted u t)]
    exact h.granted u [] (fun _ _ ht ↦ ⟨ht.concat id, since_concat_good isGrant_gate⟩)
      fun hopen ↦ absurd hu hopen
  replayStopped d _ _ h := h.append _ fun _ ht ↦ ht.1.call ht.2 _
  replayRaised d _ _ h := h.append _ fun _ ht ↦ ht.1.call ht.2 _
  replay d _ _ o h := h.append _ fun _ ht ↦ by
    rw [List.append_cons]
    exact (ht.1.call ht.2 _).concat id
  replayAdvance _ _ _ _ _ h _ _ := h
  replayNoCursor _ _ _ _ h _ _ := h
  replayCommit _ _ _ h := h
  requeue _ _ _ _ _ _ h _ _ _ := h
  requeueRaised _ _ _ _ h _ _ _ := h
  replayDead _ _ _ _ _ h _ _ := h
  replaySpent _ _ _ _ _ h _ _ _ := h
  replayOdd _ _ _ _ h _ _ _ := h
  queued _ _ h _ := h.elim id id
  queueEmpty _ _ h _ := h.elim id id
  noBudget _ _ _ h := h
  cursor _ _ _ _ h _ := h
  iter _ _ _ _ _ h := h
  resumeNothing _ _ _ _ _ h := h
  resume _ _ _ _ _ _ h := h
  exhausted _ _ _ h := h
  again _ _ h := h
  shipStopped b _ _ _ _ h := h.granted u _ (fun _ _ ht ↦ Mediated.asked ht _)
    fun hopen ↦ absurd hu hopen
  shipRaised b _ _ _ _ h := h.granted u _ (fun _ _ ht ↦ Mediated.asked ht _)
    fun hopen ↦ absurd hu hopen
  ship b _ _ _ _ o h := by
    refine h.granted u _ (fun _ t ht ↦ ?_) fun hopen ↦ absurd hu hopen
    have hasked : Mediated (t ++ [.gate true, .shipping b]) := Mediated.asked ht _
    rw [show t ++ [.gate true, .shipping b, .shipped b o] =
      t ++ [.gate true, .shipping b] ++ [.shipped b o] by simp]
    exact hasked.concat id
  acked _ _ _ _ _ _ h _ := h
  ackedPart _ _ _ _ _ _ h _ := h
  commit _ _ _ _ _ h := h
  serialize _ _ _ _ _ _ h _ := h
  enqueue _ _ _ _ _ _ _ h _ := h
  dead _ _ _ _ _ _ h _ _ := h
  enough _ _ _ h := h

section

variable [Surroundings ω σ]

/-- **The gate mediates every call.**  Whatever it answers and whenever it changes its answer, each
call of a pump comes after an answer true that no call before it has used; and a pump it does not
let start does nothing but ask. -/
theorem gate_mediates {u : Uploader} (hu : u.gated) {pipe : Pipeline σ ω ρ π} (hr : pipe.Returns)
    (w : World σ ω ρ π) :
    (∃ t, (pumpOne u pipe w).2.trace = w.trace ++ t ∧ Mediated t) ∧
      (w.sys.choice.stop = false → w.sys.choice.gate ≠ .ok true →
        pumpOne u pipe w = (.ok false, w.next.noted (.gate false))) := by
  constructor
  · have hstart : Added w.trace (MediatedIn (.start : Phase σ ω ρ π)) w.trace :=
      ⟨[], (List.append_nil _).symm, preceded_nil⟩
    exact snd_of_wp (P := fun w' : World σ ω ρ π ↦ Added w.trace Mediated w'.trace)
      ((mediated_rules hu pipe w.trace).pumpOne hr hstart)
  · intro hstop hgate
    refine eq_of_wp ?_
    rw [pumpOne, wp_bind, maySend, if_pos hu, wp_bind, wp_onSys_breathe, if_neg (by simp [hstop]),
      wp_bind, wp_note, wp_pure]
    cases hanswer : w.sys.choice.gate with
    | error e => exact ⟨rfl, rfl⟩
    | ok b =>
      cases b with
      | false => exact ⟨rfl, rfl⟩
      | true => exact absurd hanswer hgate

end

/-! ## A pipeline in memory -/

instance : Surroundings Unit Unit := ⟨fun _ s ↦ s⟩

/-- A source with one record, which it yields until a cursor is stored. -/
def memorySource : Source Unit Unit ℕ where
  sourceId := "memory:test"
  iterBatches cursor _ :=
    pure [pure (if cursor = [] then some { records := [1], cursorAfter := .ofInt 1 } else none)]
  commit _ := pure ()
  cursorIsAfter := none

/-- The pipeline from that source to a transport whose answers are left open. -/
def memoryPipeline (retry : RetryPolicy) : Pipeline Unit Unit ℕ (List ℕ) where
  name := "test"
  source := memorySource
  transport := .unspecified "memory" "test.spots" {} true List.length
  retry := retry

/-- The world in which it is pumped for the first time. -/
def memoryWorld (env : ℕ → Choice Unit ℕ) : World Unit Unit ℕ (List ℕ) where
  sys := { here := (), env }
  store := {}

theorem returns_pure (a : α) : Prog.Returns (pure a : SysM σ ω ρ α) := fun _ ↦ trivial

theorem returns_callOpen [Surroundings ω σ] :
    Prog.Returns (callOpen : SysM σ ω ρ (Outcome ρ)) := by
  intro s
  rw [wp_callOpen]
  split
  · trivial
  · split <;> trivial

theorem memoryPipeline_returns (retry : RetryPolicy) : (memoryPipeline retry).Returns where
  iter c _ s := by
    intro p hp
    rw [List.mem_singleton.mp hp]
    exact returns_pure _
  commit _ := returns_pure _
  ship _ := returns_callOpen
  serialize b s := by
    change wp (do let _ ← callOpen; pure b.records) _ _ _ s
    rw [wp_bind]
    exact returns_callOpen.wp (fun _ _ ↦ trivial) (fun _ _ ↦ trivial) fun _ ↦ trivial
  replay _ := returns_callOpen

/-- One pump of it behind an open gate, and one behind a closed gate. -/
theorem gate_mediates_memory :
    (∃ t, (pumpOne { gated := true } (memoryPipeline {}) (memoryWorld fun _ ↦ {})).2.trace =
      [] ++ t ∧ Mediated t) ∧
    pumpOne { gated := true } (memoryPipeline {}) (memoryWorld fun _ ↦ { gate := .ok false }) =
      (.ok false, (memoryWorld fun _ ↦ { gate := .ok false }).next.noted (.gate false)) :=
  ⟨(gate_mediates rfl (memoryPipeline_returns {}) (memoryWorld fun _ ↦ {})).1,
    (gate_mediates rfl (memoryPipeline_returns {}) (memoryWorld fun _ ↦ { gate := .ok false })).2
      rfl (by decide)⟩

/-! ## One failing call -/

/-- Nothing has failed. -/
def Calm (t : List (Event ρ π)) : Prop := ∀ x ∈ t, ¬ x.Failed

/-- A retry has used up its attempts with a `retry_later`. -/
def Spent (pipe : Pipeline σ ω ρ π) (t : List (Event ρ π)) : Prop :=
  ∃ d o, .replayed d o ∈ t ∧ o.kind = .retryLater ∧ pipe.retry.maxAttempts ≤ d.attempts + 1

section probe

variable {pipe : Pipeline σ ω ρ π} {t es : List (Event ρ π)}

theorem Calm.append (h : Calm t) (hes : ∀ x ∈ es, ¬ x.Failed) : Calm (t ++ es) := fun x hx ↦
  (List.mem_append.mp hx).elim (h x) (hes x)

theorem Calm.oneProbe (h : Calm t) : OneProbe t := fun _ _ _ x hx ↦
  h x (List.mem_of_mem_take hx)

/-- Whatever is no call may follow. -/
theorem OneProbe.append (h : OneProbe t) (hes : ∀ x ∈ es, ¬ x.IsCall) : OneProbe (t ++ es) := by
  induction es generalizing t with
  | nil => rwa [List.append_nil]
  | cons e es ih =>
    rw [List.append_cons]
    refine ih (Preceded.concat h (hes e List.mem_cons_self)) fun x hx ↦ ?_
    exact hes x (List.mem_cons_of_mem e hx)

/-- A call that nothing failed before, and what it returned. -/
theorem Calm.call (h : Calm t) {call answer : Event ρ π} (hcall : ¬ call.Failed)
    (hanswer : ¬ answer.IsCall) : OneProbe (t ++ [call, answer]) := by
  rw [List.append_cons]
  have hcalled : Calm (t ++ [call]) := h.append fun x hx ↦ by rwa [List.mem_singleton.mp hx]
  exact Preceded.concat hcalled.oneProbe hanswer

theorem Spent.append (h : Spent pipe t) (es : List (Event ρ π)) : Spent pipe (t ++ es) := by
  obtain ⟨d, o, hmem, hspent⟩ := h
  exact ⟨d, o, List.mem_append_left _ hmem, hspent⟩

theorem ShipsOnSpent.append (h : ShipsOnSpent pipe t) (es : List (Event ρ π)) :
    ShipsOnSpent pipe (t ++ es) := by
  obtain ⟨a, d, o, b, rfl, hk, hmax, batch, hbatch⟩ := h
  refine ⟨a, d, o, b ++ es, by simp, hk, hmax, batch, List.mem_append_left _ hbatch⟩

/-- A batch is shipped after a retry was spent. -/
theorem Spent.ship (h : Spent pipe t) {batch : RecordBatch ρ} (hes : .shipping batch ∈ es) :
    ShipsOnSpent pipe (t ++ es) := by
  obtain ⟨d, o, hmem, hk, hmax⟩ := h
  obtain ⟨a, b, rfl⟩ := List.append_of_mem hmem
  exact ⟨a, d, o, b ++ es, by simp, hk, hmax, batch, List.mem_append_right _ hes⟩

/-- That is a second call after a failed one. -/
theorem ShipsOnSpent.not_oneProbe (h : ShipsOnSpent pipe t) : ¬ OneProbe t := by
  obtain ⟨a, d, o, b, rfl, hk, -, batch, hbatch⟩ := h
  obtain ⟨b₁, b₂, rfl⟩ := List.append_of_mem hbatch
  intro hone
  rw [← List.cons_append, ← List.append_assoc] at hone
  exact hone.before trivial (.replayed d o) (by simp) hk

end probe

/-- What the entries of the pump are where the source may be read: nothing has failed, or a retry
was spent, and then a batch may have been shipped on it. -/
def Probing (pipe : Pipeline σ ω ρ π) (t : List (Event ρ π)) : Prop :=
  Calm t ∨ (OneProbe t ∧ Spent pipe t) ∨ ShipsOnSpent pipe t

/-- What a phase asks of the number of retries queued and of the entries of the pump. -/
def ProbeIn (pipe : Pipeline σ ω ρ π) (queued : ℕ) :
    Phase σ ω ρ π → List (Event ρ π) → Prop
  | .start, t | .retrying, t | .replayAdvanced _, t => Calm t
  | .popped d, t => d.pipeline = pipe.name ∧ Calm t
  | .replayed d o, t => d.pipeline = pipe.name ∧ OneProbe t ∧ (o.kind ≠ .retryLater → Calm t) ∧
      .replayed d o ∈ t
  | .deferred, t => OneProbe t ∧ (queued ≠ 0 ∨ Spent pipe t)
  | .draining _, t | .opened _ _, t | .reading _ _, t | .fetched _ _ _, t | .advanced _ _ _, t =>
    Probing pipe t
  | .shipped _ o _, t => (OneProbe t ∧ (o.kind ≠ .retryLater → Calm t)) ∨ ShipsOnSpent pipe t
  | .serialized _ _ _, t | .done, t => OneProbe t ∨ ShipsOnSpent pipe t

section rules

variable {pipe : Pipeline σ ω ρ π} {queued : ℕ} {t : List (Event ρ π)}

theorem Probing.done (h : Probing pipe t) : OneProbe t ∨ ShipsOnSpent pipe t := by
  rcases h with h | h | h
  · exact .inl h.oneProbe
  · exact .inl h.1
  · exact .inr h

theorem Probing.gate (h : Probing pipe t) (answer : Bool) :
    Probing pipe (t ++ [.gate answer]) := by
  rcases h with h | h | h
  · exact .inl (h.append (by simp [Event.Failed]))
  · exact .inr (.inl ⟨h.1.append (by simp [Event.IsCall]), h.2.append _⟩)
  · exact .inr (.inr (h.append _))

theorem ProbeIn.done {ph : Phase σ ω ρ π} (h : ProbeIn pipe queued ph t) :
    OneProbe t ∨ ShipsOnSpent pipe t := by
  cases ph with
  | start | retrying | replayAdvanced _ => exact .inl (Calm.oneProbe h)
  | popped _ => exact .inl h.2.oneProbe
  | replayed _ _ => exact .inl h.2.1
  | deferred => exact .inl h.1
  | draining _ | opened _ _ | reading _ _ | fetched _ _ _ | advanced _ _ _ => exact Probing.done h
  | shipped _ _ _ => exact h.imp And.left id
  | serialized _ _ _ | done => exact h

/-- An entry that is neither a call nor a failed one changes nothing. -/
theorem ProbeIn.gate {ph : Phase σ ω ρ π} (h : ProbeIn pipe queued ph t) (answer : Bool) :
    ProbeIn pipe queued ph (t ++ [.gate answer]) := by
  have hcalm : Calm t → Calm (t ++ [.gate answer]) := fun h ↦ h.append (by simp [Event.Failed])
  have hone : OneProbe t → OneProbe (t ++ [.gate answer]) := fun h ↦
    h.append (by simp [Event.IsCall])
  have hships : ShipsOnSpent pipe t → ShipsOnSpent pipe (t ++ [.gate answer]) := fun h ↦ h.append _
  cases ph with
  | start | retrying | replayAdvanced _ => exact hcalm h
  | popped _ => exact ⟨h.1, hcalm h.2⟩
  | replayed _ _ =>
    exact ⟨h.1, hone h.2.1, fun hk ↦ hcalm (h.2.2.1 hk), List.mem_append_left _ h.2.2.2⟩
  | deferred => exact ⟨hone h.1, h.2.imp_right fun h ↦ h.append _⟩
  | draining _ | opened _ _ | reading _ _ | fetched _ _ _ | advanced _ _ _ =>
    exact Probing.gate h answer
  | shipped _ _ _ => exact h.imp (fun h ↦ ⟨hone h.1, fun hk ↦ hcalm (h.2 hk)⟩) hships
  | serialized _ _ _ | done => exact h.imp hone hships

/-- The answer of the gate before a call. -/
theorem probing_granted (u : Uploader) {t₀ : List (Event ρ π)} {P : List (Event ρ π) → Prop}
    (h : Added t₀ (Probing pipe) t) (es : List (Event ρ π)) (hes : ∀ t, Probing pipe t → P (t ++ es)) :
    Added t₀ P (granted u t ++ es) := by
  refine h.granted u es (fun _ t ht ↦ ?_) fun _ ↦ hes
  rw [List.append_cons]
  exact hes _ (ht.gate true)

/-- A batch is shipped. -/
theorem Probing.ship (h : Probing pipe t) (b : RecordBatch ρ) :
    OneProbe (t ++ [.shipping b]) ∨ ShipsOnSpent pipe (t ++ [.shipping b]) := by
  rcases h with h | h | h
  · exact .inl (h.append (by simp [Event.Failed])).oneProbe
  · exact .inr (h.2.ship List.mem_cons_self)
  · exact .inr (h.append _)

theorem Probing.shipped (h : Probing pipe t) (b : RecordBatch ρ) (o : Outcome ρ)
    (rest : List (SysM σ ω ρ (Option (RecordBatch ρ)))) :
    ProbeIn pipe queued (.shipped b o rest) (t ++ [.shipping b, .shipped b o]) := by
  rcases h with h | h | h
  · refine .inl ⟨h.call (by simp [Event.Failed]) (by simp [Event.IsCall]), fun hk ↦ ?_⟩
    exact h.append (by simp [Event.Failed, hk])
  · exact .inr (h.2.ship List.mem_cons_self)
  · exact .inr (h.append _)

end rules

/-- Each step of a pump keeps to one failing call, or has shipped on a spent retry. -/
theorem probe_rules (u : Uploader) (pipe : Pipeline σ ω ρ π) (t₀ : List (Event ρ π)) :
    CallRules u pipe (fun ph s ↦ Added t₀ (ProbeIn pipe (s.deliverableCount pipe.name) ph))
      (fun _ ↦ Added t₀ fun t ↦ OneProbe t ∨ ShipsOnSpent pipe t)
      (fun _ ↦ Added t₀ fun t ↦ OneProbe t ∨ ShipsOnSpent pipe t) where
  stopped _ _ _ h := h.mono fun _ ht ↦ ht.done
  raised _ _ _ h _ := h.mono fun _ ht ↦ ht.done
  gate _ _ _ a h := h.append _ fun _ ht ↦ ht.gate a
  attempt _ s _ a ls h := by rwa [Store.deliverableCount_recordAttempt]
  heldStart _ _ _ h := h.mono fun _ ht ↦ .inl ht.oneProbe
  heldDraining _ _ _ _ h := h.mono fun _ ht ↦ ht.done
  heldFetched _ _ _ _ _ _ h := h.mono fun _ ht ↦ ht.done
  enter _ _ h := h
  pop s t now d s' h hpop := by
    have hname : d.pipeline = pipe.name := (Store.popDueDeliverable_some hpop).2.1
    rw [← List.append_nil (granted u t)]
    refine h.granted u [] (fun _ _ ht ↦ ⟨hname, ht.append (by simp [Event.Failed])⟩) fun _ t ht ↦ ?_
    rw [List.append_nil]
    exact ⟨hname, ht⟩
  replayStopped d _ _ h := h.append _ fun _ ht ↦ .inl (ht.2.append (by simp [Event.Failed])).oneProbe
  replayRaised d _ _ h := h.append _ fun _ ht ↦ .inl (ht.2.append (by simp [Event.Failed])).oneProbe
  replay d _ _ o h := h.append _ fun _ ht ↦
    ⟨ht.1, ht.2.call (by simp [Event.Failed]) (by simp [Event.IsCall]),
      fun hk ↦ ht.2.append (by simp [Event.Failed, hk]), by simp⟩
  replayAdvance _ _ _ _ _ h hk _ := h.mono fun _ ht ↦ ht.2.2.1 (by rw [hk]; decide)
  replayNoCursor _ _ _ _ h hk _ := h.mono fun _ ht ↦ ht.2.2.1 (by rw [hk]; decide)
  replayCommit _ _ _ h := h
  requeue s t d o at' s' h _ _ hs' := h.mono fun t ht ↦ by
    refine ⟨ht.2.1, .inl fun hcount ↦ ?_⟩
    have hmem := Store.mem_of_requeueDeliverable hs'
    exact Store.deliverableCount_eq_zero.mp hcount _ hmem ht.1
  requeueRaised _ _ _ _ h _ _ _ := h.mono fun _ ht ↦ .inl ht.2.1
  replayDead _ _ _ _ _ h hk _ := h.mono fun _ ht ↦ ht.2.2.1 (by rw [hk]; decide)
  replaySpent _ _ d o _ h hk hmax _ := h.mono fun _ ht ↦ ⟨ht.2.1, .inr ⟨d, o, ht.2.2.2, hk, hmax⟩⟩
  replayOdd _ _ _ _ h _ hk _ := h.mono fun _ ht ↦ ht.2.2.1 hk
  queued _ _ h _ := h.elim (fun h ↦ h.mono fun _ ht ↦ .inl ht.oneProbe)
    fun h ↦ h.mono fun _ ht ↦ .inl ht.1
  queueEmpty _ _ h hcount := h.elim (fun h ↦ h.mono fun _ ht ↦ .inl ht)
    fun h ↦ h.mono fun _ ht ↦ .inr (.inl ⟨ht.1, ht.2.resolve_left (absurd hcount)⟩)
  noBudget _ _ _ h := h.mono fun _ ht ↦ ht.done
  cursor _ _ _ _ h _ := h
  iter _ _ _ _ _ h := h
  resumeNothing _ _ _ _ _ h := h
  resume _ _ _ _ _ _ h := h
  exhausted _ _ _ h := h.mono fun _ ht ↦ ht.done
  again _ _ h := h
  shipStopped b _ _ _ _ h := probing_granted u h _ fun _ ht ↦ ht.ship b
  shipRaised b _ _ _ _ h := probing_granted u h _ fun _ ht ↦ ht.ship b
  ship b rest _ _ _ o h := probing_granted u h _ fun _ ht ↦ ht.shipped b o rest
  acked _ _ _ _ _ _ h hk := h.mono fun _ ht ↦
    ht.elim (fun ht ↦ .inl (ht.2 (by rw [hk]; decide))) fun ht ↦ .inr (.inr ht)
  ackedPart _ _ _ _ _ _ h hk := h.mono fun _ ht ↦
    ht.elim (fun ht ↦ .inl (ht.2 (by rw [hk]; decide))) fun ht ↦ .inr (.inr ht)
  commit _ _ _ _ _ h := h
  serialize _ _ _ _ _ _ h _ := h.mono fun _ ht ↦ ht.imp And.left id
  enqueue _ _ _ _ _ _ _ h _ := h
  dead _ _ _ _ _ _ h _ _ := h
  enough _ _ _ h := h.mono fun _ ht ↦ ht.done

/-! ### Which retries a pump makes -/

/-- The deliverable is the pipeline's own, and a clock comes to its time. -/
def Pipeline.Awaits (pipe : Pipeline σ ω ρ π) (d : Deliverable π) : Prop :=
  d.pipeline = pipe.name ∧ d.nextAttemptAt ≤ lastSecond

instance (pipe : Pipeline σ ω ρ π) : DecidablePred pipe.Awaits :=
  fun d ↦ inferInstanceAs (Decidable (d.pipeline = pipe.name ∧ d.nextAttemptAt ≤ lastSecond))

/-- What a phase asks of the rows queued, where `queue` was what the pipeline awaited at the start of
the pump: no row joins it before the last retry. -/
def QueuedIn (pipe : Pipeline σ ω ρ π) (queue : List (Deliverable π)) :
    Phase σ ω ρ π → List (Deliverable π) → Prop
  | .start, rows | .retrying, rows | .replayAdvanced _, rows => ∀ d ∈ rows, pipe.Awaits d → d ∈ queue
  | .popped d, rows | .replayed d _, rows =>
    d ∈ queue ∧ ∀ d' ∈ rows, pipe.Awaits d' → d' ∈ queue
  | _, _ => True

/-- The retries a trace speaks of were all on the queue. -/
def ReplaysOf (queue : List (Deliverable π)) (t : List (Event ρ π)) : Prop :=
  ∀ d o, .replayed d o ∈ t → d ∈ queue

theorem ReplaysOf.append {queue : List (Deliverable π)} {t es : List (Event ρ π)}
    (h : ReplaysOf queue t) (hes : ∀ d o, .replayed d o ∈ es → d ∈ queue) :
    ReplaysOf queue (t ++ es) := fun d o hmem ↦
  (List.mem_append.mp hmem).elim (h d o) (hes d o)

/-- Each step of a pump replays only what was queued when it began. -/
theorem replays_rules (u : Uploader) (pipe : Pipeline σ ω ρ π) (t₀ : List (Event ρ π))
    (queue : List (Deliverable π)) :
    CallRules u pipe
      (fun ph s t ↦ QueuedIn pipe queue ph s.deliverables ∧ Added t₀ (ReplaysOf queue) t)
      (fun _ ↦ Added t₀ (ReplaysOf queue)) (fun _ ↦ Added t₀ (ReplaysOf queue)) where
  stopped _ _ _ h := h.2
  raised _ _ _ h _ := h.2
  gate _ _ _ a h := ⟨h.1, h.2.append _ fun _ ht ↦ ht.append (by simp)⟩
  attempt _ _ _ _ _ h := by rwa [Store.deliverables_recordAttempt]
  heldStart _ _ _ h := ⟨trivial, h.2⟩
  heldDraining _ _ _ _ h := h
  heldFetched _ _ _ _ _ _ h := ⟨trivial, h.2⟩
  enter _ _ h := h
  pop _ t now d _ h hpop := by
    obtain ⟨hmem, hname, hdue, -⟩ := Store.popDueDeliverable_some hpop
    refine ⟨⟨h.1 d hmem ⟨hname, hdue.trans now.datable.2⟩, fun d' hd' ↦
      h.1 d' (Store.mem_popDueDeliverable hpop hd')⟩, ?_⟩
    rw [← List.append_nil (granted u t)]
    exact h.2.granted u [] (fun _ _ ht ↦ ht.append (by simp)) fun _ _ ht ↦ ht.append (by simp)
  replayStopped _ _ _ h := h.2.append _ fun _ ht ↦ ht.append (by simp)
  replayRaised _ _ _ h := h.2.append _ fun _ ht ↦ ht.append (by simp)
  replay d _ _ _ h := by
    refine ⟨h.1, h.2.append _ fun _ ht ↦ ht.append fun d' o' hmem ↦ ?_⟩
    simp only [List.mem_cons, reduceCtorEq, Event.replayed.injEq, List.not_mem_nil, or_false,
      false_or] at hmem
    rw [hmem.1]
    exact h.1.1
  replayAdvance _ _ _ _ _ h _ _ := by
    rw [Store.deliverables_advanceCursor]
    exact ⟨h.1.2, h.2⟩
  replayNoCursor _ _ _ _ h _ _ := ⟨h.1.2, h.2⟩
  replayCommit _ _ _ h := h
  requeue _ _ _ _ _ _ h _ _ _ := ⟨trivial, h.2⟩
  requeueRaised _ _ _ _ h _ _ _ := h.2
  replayDead _ _ _ _ _ h _ _ := ⟨h.1.2, h.2⟩
  replaySpent _ _ _ _ _ h _ _ _ := ⟨trivial, h.2⟩
  replayOdd _ _ _ _ h _ _ _ := ⟨h.1.2, h.2⟩
  queued _ _ h _ := ⟨trivial, h.elim And.right And.right⟩
  queueEmpty _ _ h _ := ⟨trivial, h.elim And.right And.right⟩
  noBudget _ _ _ h := h
  cursor _ _ _ _ h _ := h
  iter _ _ _ _ _ h := h
  resumeNothing _ _ _ _ _ h := h
  resume _ _ _ _ _ _ h := h
  exhausted _ _ _ h := h
  again _ _ h := h
  shipStopped _ _ _ _ _ h := h.2.granted u _ (fun _ _ ht ↦ ht.append (by simp)) fun _ _ ht ↦
    ht.append (by simp)
  shipRaised _ _ _ _ _ h := h.2.granted u _ (fun _ _ ht ↦ ht.append (by simp)) fun _ _ ht ↦
    ht.append (by simp)
  ship _ _ _ _ _ _ h := ⟨trivial, h.2.granted u _ (fun _ _ ht ↦ ht.append (by simp)) fun _ _ ht ↦
    ht.append (by simp)⟩
  acked _ _ _ _ _ _ h _ := h
  ackedPart _ _ _ _ _ _ h _ := h
  commit _ _ _ _ _ h := h
  serialize _ _ _ _ _ _ h _ := h
  enqueue _ _ _ _ _ _ _ h _ := ⟨trivial, h.2⟩
  dead _ _ _ _ _ _ h _ _ := ⟨trivial, h.2⟩
  enough _ _ _ h := h

/-- Nothing is shipped on a spent retry where no retry that was queued could be spent. -/
theorem ReplaysOf.not_shipsOnSpent {queue : List (Deliverable π)} {t : List (Event ρ π)}
    {pipe : Pipeline σ ω ρ π} (h : ReplaysOf queue t)
    (hfresh : ∀ d ∈ queue, d.attempts + 1 < pipe.retry.maxAttempts) : ¬ ShipsOnSpent pipe t := by
  rintro ⟨a, d, o, b, rfl, -, hmax, -⟩
  have hlt := hfresh d (h d o (by simp))
  omega

/-- **A pump makes one failing call** where each retry it may come to make has an attempt to spare.
The other way for it to call again is to ship a batch after a `retry_later` that used up a retry's
attempts: the retry is then a dead letter, so that nothing is queued and the source is read. -/
theorem oneProbe_of_spare [Surroundings ω σ] (u : Uploader) {pipe : Pipeline σ ω ρ π}
    (hr : pipe.Returns) (w : World σ ω ρ π)
    (hspare : ∀ d ∈ w.store.deliverables, pipe.Awaits d →
      d.attempts + 1 < pipe.retry.maxAttempts) :
    ∃ t, (pumpOne u pipe w).2.trace = w.trace ++ t ∧ OneProbe t := by
  have hstart : Added w.trace
      (ProbeIn pipe (w.store.deliverableCount pipe.name) (.start : Phase σ ω ρ π)) w.trace :=
    ⟨[], (List.append_nil _).symm, fun _ hx ↦ nomatch hx⟩
  obtain ⟨t, ht, hp⟩ := snd_of_wp
    (P := fun w' : World σ ω ρ π ↦ Added w.trace (fun t ↦ OneProbe t ∨ ShipsOnSpent pipe t) w'.trace)
    ((probe_rules u pipe w.trace).pumpOne hr hstart)
  refine ⟨t, ht, hp.resolve_right ?_⟩
  set queue := w.store.deliverables.filter fun d ↦ pipe.Awaits d with hqueue
  have hqueued : Added w.trace (ReplaysOf queue) w.trace :=
    ⟨[], (List.append_nil _).symm, fun _ _ hx ↦ nomatch hx⟩
  have hstart' : QueuedIn pipe queue (.start : Phase σ ω ρ π) w.store.deliverables := by
    intro d hd hawaits
    exact List.mem_filter.mpr ⟨hd, decide_eq_true hawaits⟩
  obtain ⟨t', ht', hreplays⟩ := snd_of_wp
    (P := fun w' : World σ ω ρ π ↦ Added w.trace (ReplaysOf queue) w'.trace)
    (wp_mono_ok ((replays_rules u pipe w.trace queue).pumpOne hr ⟨hstart', hqueued⟩) fun _ _ h ↦ h.2)
  obtain rfl : t' = t := List.append_cancel_left (ht'.symm.trans ht)
  refine hreplays.not_shipsOnSpent fun d hd ↦ ?_
  obtain ⟨hmem, hawaits⟩ := List.mem_filter.mp hd
  exact hspare d hmem (of_decide_eq_true hawaits)

/-- The destination fails at every call, and every retry is due. -/
def failingWorld : World Unit Unit ℕ (List ℕ) :=
  memoryWorld fun k ↦ { now := .of (600 * k), outcome := .ok (.retryLater "down") }

end HsUploader
