import HsUploader.Core.PumpPairs

/-!
# A pipeline that is watched

What a source's `commit` does is up to the source, so that nothing in the world of a pump tells
which commits came back.  `Pipeline.watched` is the same pipeline beside a list: each commit that
returns adds its source and its token there, and nothing else touches the list.  Its pumps take
the same steps as the pipeline's own, and `World.forget` takes the one's world to the other's:
this file says so for every step but the loops, which are `PumpPair`'s.

## What is here

* `Commits` and `beside` — the list, and a program run beside it.
* `Source.watched`, `Pipeline.watched`, `World.watched` — the watched objects, with an empty list at
  the start.
* `World.forget` and `Forgets` — the world without the list, and what is shown of each step: it goes
  the same way with the list and without.
* `attempted` and `retried` — the two steps of `PumpPair` that may commit.
-/

set_option autoImplicit false

namespace HsUploader

open Prog

variable {σ ω ρ π α β : Type}

/-- The commits that came back: of which source, and the token. -/
abbrev Commits := List (String × Bytes)

instance [Surroundings ω σ] : Surroundings ω (σ × Commits) where
  react op x := (Surroundings.react op x.1, x.2)

/-- The outside without the list. -/
def Sys.forget (s : Sys (σ × Commits) ω ρ) : Sys σ ω ρ := { s with here := s.here.1 }

/-- A program of a source or a transport, run beside the list. -/
def beside (p : SysM σ ω ρ α) : SysM (σ × Commits) ω ρ α :=
  Prog.zoom Sys.forget (fun t s ↦ { t with here := (t.here, s.here.2) }) p

/-- The source, with its commits noted as they come back. -/
def Source.watched (source : Source σ ω ρ) : Source (σ × Commits) ω ρ where
  sourceId := source.sourceId
  iterBatches cursor limit := do
    let batches ← beside (source.iterBatches cursor limit)
    pure (batches.map beside)
  commit token := do
    beside (source.commit token)
    Sys.inMemory fun x ↦ ((), x.1, x.2 ++ [(source.sourceId, token)])
  cursorIsAfter := source.cursorIsAfter

/-- The pipeline, with its source watched. -/
def Pipeline.watched (pipe : Pipeline σ ω ρ π) : Pipeline (σ × Commits) ω ρ π where
  name := pipe.name
  source := pipe.source.watched
  transport :=
    { name := pipe.transport.name
      primaryTable := pipe.transport.primaryTable
      batchPolicy := pipe.transport.batchPolicy
      ships := pipe.transport.ships
      ship := fun batch ↦ beside (pipe.transport.ship batch)
      serializeForRetry := fun batch ↦ beside (pipe.transport.serializeForRetry batch)
      replay := fun payload ↦ beside (pipe.transport.replay payload)
      payloadLen := pipe.transport.payloadLen }
  retry := pipe.retry
  batchLimit := pipe.batchLimit
  maxRecordsPerPump := pipe.maxRecordsPerPump
  client := pipe.client

/-- The world, with an empty list beside it. -/
def World.watched (w : World σ ω ρ π) : World (σ × Commits) ω ρ π :=
  { w with sys := { w.sys with here := (w.sys.here, []) } }

/-- The world without the list. -/
def World.forget (W : World (σ × Commits) ω ρ π) : World σ ω ρ π := { W with sys := W.sys.forget }

theorem World.forget_watched (w : World σ ω ρ π) : w.watched.forget = w := rfl

/-- Two worlds that differ by the list. -/
abbrev Forgets (W : World (σ × Commits) ω ρ π) (w : World σ ω ρ π) : Prop := W.forget = w

namespace Forgets

theorem onSys {V : α → β → Prop} {p : SysM (σ × Commits) ω ρ α} {q : SysM σ ω ρ β}
    (h : InStep (fun S s ↦ S.forget = s) V p q) :
    InStep (Forgets (π := π)) V (onSys p) (onSys q) :=
  h.zoom (fun W w hw ↦ congrArg World.sys hw) fun W w S s hw hs ↦ by
    rw [← hw, ← hs]
    rfl

theorem beside (p : SysM σ ω ρ α) :
    InStep (fun S s ↦ S.forget = s) (· = ·) (beside p) p := by
  intro S s hs
  obtain ⟨hend, hleft⟩ := InStep.refl p S.forget s hs
  exact ⟨hend, hleft⟩

theorem note (e : Event ρ π) :
    InStep (Forgets (σ := σ) (ω := ω)) (· = ·) (note e) (note e) := by
  rintro W w rfl
  exact ⟨rfl, rfl⟩

theorem commit (pipe : Pipeline σ ω ρ π) (token : Bytes) :
    InStep (Forgets (π := π)) (· = ·) (HsUploader.onSys (pipe.watched.source.commit token))
      (HsUploader.onSys (pipe.source.commit token)) := by
  refine onSys ((beside _).act_left fun _ _ S s _ hs ↦ ⟨rfl, ?_⟩)
  subst hs
  rfl

/-- The generator's resumptions, each run beside the list. -/
theorem iterBatches (source : Source σ ω ρ) (cursor : Bytes) (limit : ℤ) :
    InStep (Forgets (π := π)) (fun ps qs ↦ ps = qs.map HsUploader.beside)
      (HsUploader.onSys (source.watched.iterBatches cursor limit))
      (HsUploader.onSys (source.iterBatches cursor limit)) := by
  let batches (ps : List (SysM σ ω ρ (Option (RecordBatch ρ)))) (S : Sys (σ × Commits) ω ρ) :=
    (ps.map HsUploader.beside, S)
  refine onSys ((beside _).act_left (g := batches) fun ps qs S s heq hs ↦ ⟨?_, hs⟩)
  rw [← heq]

section steps

variable [Surroundings ω σ]

theorem foldl_react (ops : List ω) (x : σ) (l : Commits) :
    ops.foldl (fun x op ↦ Surroundings.react op x) (x, l) =
      (ops.foldl (fun x op ↦ Surroundings.react op x) x, l) := by
  induction ops generalizing x with
  | nil => rfl
  | cons op ops ih => exact ih _

theorem breathe :
    InStep (fun (S : Sys (σ × Commits) ω ρ) s ↦ S.forget = s) (· = ·) Sys.breathe Sys.breathe := by
  rintro S s rfl
  have hnext : S.next.forget = S.forget.next := by
    rw [Sys.next, Sys.next, Sys.forget, foldl_react]
    rfl
  have hchoice : S.forget.choice = S.choice := rfl
  rw [Sys.breathe, Sys.breathe, hchoice]
  cases S.choice.stop with
  | true => exact ⟨trivial, hnext⟩
  | false => exact ⟨rfl, hnext⟩

theorem onStore (f : Store π → α × Store π) :
    InStep (Forgets (σ := σ) (ω := ω) (ρ := ρ)) (· = ·) (onStore f) (onStore f) :=
  (onSys breathe).bind_eq fun _ ↦ by
    rintro W w rfl
    exact ⟨rfl, rfl⟩

theorem onStoreE (f : Store π → Except Exn (α × Store π)) :
    InStep (Forgets (σ := σ) (ω := ω) (ρ := ρ)) (· = ·) (onStoreE f) (onStoreE f) :=
  (onSys breathe).bind_eq fun _ ↦ by
    rintro W w rfl
    have hstore : W.forget.store = W.store := rfl
    simp only [actE, hstore]
    cases f W.store <;> exact ⟨rfl, rfl⟩

theorem readNow : InStep (Forgets (σ := σ) (ω := ω) (ρ := ρ) (π := π)) (· = ·) readNow readNow :=
  (onSys breathe).bind_eq fun _ ↦ .pure rfl

theorem maySend (u : Uploader) :
    InStep (Forgets (σ := σ) (ω := ω) (ρ := ρ) (π := π)) (· = ·) (maySend u) (maySend u) := by
  rw [HsUploader.maySend, HsUploader.maySend]
  split
  · exact (onSys breathe).bind_eq fun _ ↦ (note _).bind_eq fun _ ↦ .pure rfl
  · exact .pure rfl

omit [Surroundings ω σ] in
theorem ofExcept {x : Except Exn α} :
    InStep (Forgets (σ := σ) (ω := ω) (ρ := ρ) (π := π)) (· = ·) (Prog.ofExcept x)
      (Prog.ofExcept x) :=
  .ofExcept (by cases x <;> rfl)

theorem recordAttempt (pipe : Pipeline σ ω ρ π) (ts : Stamp) (outcome : String)
    (records bytes : Option ℤ) (error : Option String) :
    InStep Forgets (· = ·) (recordAttempt pipe.watched ts outcome records bytes error)
      (recordAttempt pipe ts outcome records bytes error) :=
  onStore _

/-- **The first attempt.** -/
theorem attempted (pipe : Pipeline σ ω ρ π) (batch : RecordBatch ρ) :
    InStep Forgets (· = ·) (attempted pipe.watched batch) (attempted pipe batch) := by
  refine InStep.bind_eq ?_ fun o ↦ readNow.bind_eq fun now ↦ InStep.bind_eq ?_ fun _ ↦ .pure rfl
  · exact (note _).bind_eq fun _ ↦ (onSys (beside _)).bind_eq fun _ ↦ (note _).bind_eq fun _ ↦
      .pure rfl
  · rw [handleFirstAttempt, handleFirstAttempt]
    split
    · exact (onStore _).bind_eq fun _ ↦ (commit pipe _).bind_eq fun _ ↦ recordAttempt _ _ _ _ _ _
    · exact (onStore _).bind_eq fun _ ↦ (commit pipe _).bind_eq fun _ ↦ recordAttempt _ _ _ _ _ _
    · exact (onSys (beside _)).bind_eq fun _ ↦ ofExcept.bind_eq fun _ ↦ ofExcept.bind_eq fun _ ↦
        (onStore _).bind_eq fun _ ↦ recordAttempt _ _ _ _ _ _
    · exact (onSys (beside _)).bind_eq fun _ ↦ (onStore _).bind_eq fun _ ↦ recordAttempt _ _ _ _ _ _
    · exact .raise _

/-- **The outcome of a retry.** -/
theorem retried (pipe : Pipeline σ ω ρ π) (d : Deliverable π) (now : Reading) :
    InStep Forgets (· = ·) (retried pipe.watched d now) (retried pipe d now) := by
  refine InStep.bind_eq ?_ fun o ↦ InStep.bind_eq ?_ fun _ ↦ .pure rfl
  · exact (note _).bind_eq fun _ ↦ (onSys (beside _)).bind_eq fun _ ↦ (note _).bind_eq fun _ ↦
      .pure rfl
  · rw [handleOutcome, handleOutcome]
    split
    · split
      · exact (onStore _).bind_eq fun _ ↦ (commit pipe _).bind_eq fun _ ↦ recordAttempt _ _ _ _ _ _
      · exact (commit pipe _).bind_eq fun _ ↦ recordAttempt _ _ _ _ _ _
    · have hretry : pipe.watched.retry = pipe.retry := rfl
      rw [hretry]
      dsimp only
      split
      · exact (onStore _).bind_eq fun _ ↦ recordAttempt _ _ _ _ _ _
      · exact ofExcept.bind_eq fun _ ↦ ofExcept.bind_eq fun _ ↦
          InStep.bind_eq (onStoreE _) fun _ ↦ recordAttempt _ _ _ _ _ _
    · exact (onStore _).bind_eq fun _ ↦ recordAttempt _ _ _ _ _ _
    all_goals exact recordAttempt _ _ _ _ _ _

end steps

end Forgets

end HsUploader
