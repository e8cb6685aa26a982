import HsUploader.Library.Relational
import HsUploader.Core.Uploader

/-!
# Two pumps side by side

`PumpPair u pipe pipe' T B D C` lists what has to be shown for the pumps of two pipelines to take
the same steps, in worlds that `T` relates.  What a batch, a claimed deliverable and the two
stored cursors have to satisfy for that is `B`, `D` and `C`.  The loops are dealt with here, once:
`PumpPair.pumpOne` is the statement about a whole pump and `PumpPair.cycle` the one about a pump
and what follows it.

Replaying a deliverable with what its outcome asks for is one step of the list (`retried`), and so
is the first attempt of a batch (`attempted`), since what an answer is followed by may belong to
it.

## What is here

* `retried` and `attempted` — the two steps that end in a change of the store.
* `PumpPair` — the list of what is to be shown, one clause for each step.
* `PumpPair.drainBatches`, `PumpPair.pumpOne`, `PumpPair.cycle`, `PumpPair.run` — the loops, the
  pump, the pump with its restart, and any number of them.

Both pumps run in one environment, which moves at the same steps of both; the outsides need not be
of one type.
-/

set_option autoImplicit false

namespace HsUploader

open Prog

variable {σ τ ω ρ π β : Type}

section attempts

variable [Surroundings ω σ]

/-- A deliverable is replayed and its outcome dealt with. -/
def retried (pipe : Pipeline σ ω ρ π) (d : Deliverable π) (now : Reading) : UM σ ω ρ π (Outcome ρ) := do
  let outcome ← callReplay pipe d
  handleOutcome pipe d outcome now
  pure outcome

/-- A batch is shipped and its outcome dealt with. -/
def attempted (pipe : Pipeline σ ω ρ π) (batch : RecordBatch ρ) : UM σ ω ρ π (Outcome ρ) := do
  let outcome ← callShip pipe batch
  let now ← readNow
  handleFirstAttempt pipe batch outcome now
  pure outcome

theorem retried_bind (pipe : Pipeline σ ω ρ π) (d : Deliverable π) (now : Reading)
    (f : Outcome ρ → UM σ ω ρ π β) :
    (do
      let outcome ← callReplay pipe d
      handleOutcome pipe d outcome now
      f outcome) = retried pipe d now >>= f := by
  rw [retried, bind_assoc]
  congr 1
  funext outcome
  rw [bind_assoc]
  rfl

theorem attempted_bind (pipe : Pipeline σ ω ρ π) (batch : RecordBatch ρ)
    (f : Outcome ρ → UM σ ω ρ π β) :
    (do
      let outcome ← callShip pipe batch
      let now ← readNow
      handleFirstAttempt pipe batch outcome now
      f outcome) = attempted pipe batch >>= f := by
  rw [attempted, bind_assoc]
  congr 1
  funext outcome
  rw [bind_assoc]
  congr 1
  funext now
  rw [bind_assoc]
  rfl

end attempts

/-- What has to be shown for two pumps to take the same steps. -/
structure PumpPair [Surroundings ω σ] [Surroundings ω τ] (u : Uploader) (pipe : Pipeline σ ω ρ π)
    (pipe' : Pipeline τ ω ρ π) (T : World σ ω ρ π → World τ ω ρ π → Prop)
    (B : RecordBatch ρ → Prop) (D : Deliverable π → Prop) (C : Bytes → Bytes → Prop) : Prop where
  budget : pipe'.maxRecordsPerPump = pipe.maxRecordsPerPump
  /-- The gate is asked. -/
  maySend : InStep T (· = ·) (maySend u) (maySend u)
  readNow : InStep T (· = ·) readNow readNow
  queued : ∀ w w', T w w' → w'.store.deliverables.length = w.store.deliverables.length
  /-- A deliverable is taken off the queue. -/
  pop : ∀ now, InStep T (fun d d' ↦ d = d' ∧ ∀ x ∈ d, D x)
    (onStore fun s ↦ s.popDueDeliverable pipe.name now)
    (onStore fun s ↦ s.popDueDeliverable pipe'.name now)
  retried : ∀ d now, D d → InStep T (· = ·) (retried pipe d now) (retried pipe' d now)
  /-- What stays queued is counted. -/
  count : InStep T (· = ·) (onStore fun s ↦ (s.deliverableCount pipe.name, s))
    (onStore fun s ↦ (s.deliverableCount pipe'.name, s))
  /-- The stored cursor is read. -/
  cursor : InStep T C (onStoreE fun s ↦ (s.getCursor pipe.key).map fun c ↦ (c, s))
    (onStoreE fun s ↦ (s.getCursor pipe'.key).map fun c ↦ (c, s))
  /-- The generator is opened; each of its resumptions yields what `B` asks for. -/
  iter : ∀ c c', C c c' → InStep T
    (List.Forall₂ fun p q ↦
      InStep T (fun b b' ↦ b = b' ∧ ∀ x ∈ b, B x) (onSys p) (onSys q))
    (onSys (pipe.source.iterBatches c pipe.limit)) (onSys (pipe'.source.iterBatches c' pipe'.limit))
  attempted : ∀ batch, B batch → InStep T (· = ·) (attempted pipe batch) (attempted pipe' batch)

namespace PumpPair

variable [Surroundings ω σ] [Surroundings ω τ] {u : Uploader} {pipe : Pipeline σ ω ρ π}
  {pipe' : Pipeline τ ω ρ π} {T : World σ ω ρ π → World τ ω ρ π → Prop}
  {B : RecordBatch ρ → Prop} {D : Deliverable π → Prop} {C : Bytes → Bytes → Prop}
  (h : PumpPair u pipe pipe' T B D C)
include h

theorem budgetLeft (shipped : ℤ) : pipe'.budgetLeft shipped = pipe.budgetLeft shipped := by
  rw [Pipeline.budgetLeft, Pipeline.budgetLeft, h.budget]

/-- **One round of the retries.** -/
theorem retryNext (now : Reading) (any : Bool) :
    InStep T (Sum.LiftRel (· = ·) (· = ·)) (retryNext u pipe now any)
      (HsUploader.retryNext u pipe' now any) := by
  rw [HsUploader.retryNext, HsUploader.retryNext]
  refine h.maySend.bind_eq fun may ↦ ?_
  split
  · refine (h.pop _).bind ?_
    rintro d d' ⟨rfl, hD⟩
    cases d with
    | none => exact .pure (.inr rfl)
    | some d =>
      dsimp only
      rw [retried_bind, retried_bind]
      refine (h.retried d now (hD d rfl)).bind_eq fun outcome ↦ .pure ?_
      split
      · exact .inr rfl
      · exact .inl rfl
  · exact .pure (.inr rfl)

theorem drainDeliverables :
    InStep T (· = ·) (drainDeliverables u pipe) (HsUploader.drainDeliverables u pipe') := by
  rw [HsUploader.drainDeliverables, HsUploader.drainDeliverables]
  refine h.readNow.bind_eq fun now ↦ ?_
  refine InStep.bind (V := fun (w : World σ ω ρ π) (w' : World τ ω ρ π) ↦
    w'.store.deliverables.length = w.store.deliverables.length)
    (fun w w' hw ↦ ⟨h.queued w w' hw, hw⟩) fun w w' hlen ↦ ?_
  rw [hlen]
  refine InStep.loop (B := (· = ·)) (fun any any' hany ↦ ?_) _ rfl
  subst hany
  exact h.retryNext now any

/-- **The batches of one generator.** -/
theorem drainBatches {ps : List (SysM σ ω ρ (Option (RecordBatch ρ)))}
    {qs : List (SysM τ ω ρ (Option (RecordBatch ρ)))}
    (hpq : List.Forall₂ (fun p q ↦
      InStep T (fun b b' ↦ b = b' ∧ ∀ x ∈ b, B x) (onSys p) (onSys q)) ps qs)
    (shipped : ℤ) (any progressed : Bool) :
    InStep T (Sum.LiftRel (· = ·) (· = ·)) (drainBatches u pipe ps shipped any progressed)
      (HsUploader.drainBatches u pipe' qs shipped any progressed) := by
  induction hpq generalizing shipped any progressed with
  | nil =>
    rw [HsUploader.drainBatches, HsUploader.drainBatches]
    split
    · exact .pure (.inl rfl)
    · exact .pure (.inr rfl)
  | cons hp _ ih =>
    rw [HsUploader.drainBatches, HsUploader.drainBatches]
    refine hp.bind ?_
    rintro b b' ⟨rfl, hB⟩
    cases b with
    | none => exact ih _ _ _
    | some batch =>
      dsimp only
      split
      · exact ih _ _ _
      · refine h.maySend.bind_eq fun may ↦ ?_
        split
        · rw [attempted_bind, attempted_bind]
          refine (h.attempted batch (hB batch rfl)).bind_eq fun o ↦ ?_
          rw [h.budget, h.budgetLeft]
          split
          · exact ih _ _ _
          · exact .pure (.inr rfl)
        · exact .pure (.inr rfl)

theorem drainRound (b : ℤ × Bool) :
    InStep T (Sum.LiftRel (· = ·) (· = ·)) (drainRound u pipe b)
      (HsUploader.drainRound u pipe' b) := by
  obtain ⟨shipped, any⟩ := b
  rw [HsUploader.drainRound, HsUploader.drainRound, h.budgetLeft]
  split
  · refine h.maySend.bind_eq fun may ↦ ?_
    split
    · exact h.cursor.bind fun c c' hC ↦ (h.iter c c' hC).bind fun _ _ hpq ↦
        h.drainBatches hpq _ _ _
    · exact .pure (.inr rfl)
  · exact .pure (.inr rfl)

theorem drainSource : InStep T (· = ·) (drainSource u pipe) (HsUploader.drainSource u pipe') := by
  rw [HsUploader.drainSource, HsUploader.drainSource, h.budget]
  refine InStep.loop (B := (· = ·)) (fun b b' hb ↦ ?_) _ rfl
  subst hb
  exact h.drainRound b

/-- **A pump** of the two. -/
theorem pumpOne : InStep T (· = ·) (pumpOne u pipe) (HsUploader.pumpOne u pipe') := by
  rw [HsUploader.pumpOne, HsUploader.pumpOne]
  refine h.maySend.bind_eq fun may ↦ ?_
  split
  · refine h.drainDeliverables.bind_eq fun did ↦ h.count.bind_eq fun count ↦ ?_
    split
    · exact .pure rfl
    · exact h.drainSource.bind_eq fun _ ↦ .pure rfl
  · exact .pure rfl

/-- **A pump and what follows it.** -/
theorem cycle {restart : σ → σ} {restart' : τ → τ}
    (hrestart : ∀ w w', T w w' → T { w with sys := { w.sys with here := restart w.sys.here } }
      { w' with sys := { w'.sys with here := restart' w'.sys.here } })
    {w : World σ ω ρ π} {w' : World τ ω ρ π} (hw : T w w') :
    T (cycle u pipe restart w) (HsUploader.cycle u pipe' restart' w') := by
  obtain ⟨hend, hw'⟩ := h.pumpOne _ _ hw
  rw [HsUploader.cycle, HsUploader.cycle]
  rcases hp : HsUploader.pumpOne u pipe w with ⟨_ | _ | _ | _, v⟩ <;>
  rcases hq : HsUploader.pumpOne u pipe' w' with ⟨_ | _ | _ | _, v'⟩ <;> rw [hp, hq] at hend hw' <;>
    first
    | exact False.elim hend
    | exact hrestart _ _ hw'
    | exact hw'

/-- **Pump after pump.** -/
theorem run {restart : σ → σ} {restart' : τ → τ}
    (hrestart : ∀ w w', T w w' → T { w with sys := { w.sys with here := restart w.sys.here } }
      { w' with sys := { w'.sys with here := restart' w'.sys.here } })
    {w : World σ ω ρ π} {w' : World τ ω ρ π} (hw : T w w') (n : ℕ) :
    T (run u pipe restart n w) (HsUploader.run u pipe' restart' n w') := by
  induction n with
  | zero => exact hw
  | succ n ih => exact h.cycle hrestart ih

end PumpPair

end HsUploader
