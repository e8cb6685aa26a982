import Mathlib.Data.List.Basic
import HsUploader.Json
import HsUploader.Library.Join

/-!
# Pumping several pipelines, and swapping them

The part of `Uploader` that several pipelines share: each has an executor with one worker thread,
`pump` submits one task to each and joins them, and `replace_pipelines` closes the pipelines that
are no longer wanted on their own executors.

What matters of a pump here is when it ends and how, so both are inputs, and an executor is the time
at which the tasks submitted to it have all ended.  The log is a ghost: it records what was done to
a pipeline, and whether the pipeline was in the middle of a pump just then.

`pump` joins its futures in a list comprehension, which an exception of the first one leaves at
once.

## What is here

* `PipeObj`, `Slot`, `PumpSet` — the pipelines as objects, each with its executor, and the state the
  pumps share.
* `PumpWork` — how one pump goes: how long it takes, and whether it raises.
* `PumpSet.pump` — with one pipeline the pump runs on the caller's thread; with more, each is
  submitted and the futures are joined in order.
* `PumpSet.replacePipelines` — new executors, the closing of the removed pipelines on their own
  ones, and objects that are still in use left alone.
* `PumpSet.Quiescent`, `PumpSet.Joins` and `PumpSet.SafeCalls` — no pump is under way; a call of
  `pump` has joined its own; and the condition on the plans of a run.
* `pump_is_barrier_iff` — a run's calls all join exactly when it meets the condition, and then no
  closing falls into a pump.
-/

set_option autoImplicit false

namespace HsUploader

open Join

/-- A pipeline as an object with an identity, and the objects it holds. -/
structure PipeObj where
  id : ℕ
  source : Option ℕ
  transport : Option ℕ
  fallback : Option ℕ := none
  deriving DecidableEq

/-- `(pipe.source, pipe.transport, pipe.fallback_transport)`, less those that are `None`. -/
def PipeObj.objects (p : PipeObj) : List ℕ := [p.source, p.transport, p.fallback].filterMap fun o ↦ o

/-- A running pipeline and its executor. -/
structure Slot where
  pipe : PipeObj
  /-- When every task submitted to the executor so far has ended. -/
  freeAt : ℕ := 0

/-- One pump of one pipeline: how long it takes once its thread is free, and how it ends. -/
structure PumpWork where
  takes : ℕ
  result : Except Exn Bool

/-- What was done to a pipeline. -/
inductive PumpEvent where
  /-- A pump of it was submitted or begun. -/
  | pump (pipe : ℕ) (midPump : Bool)
  /-- An object it holds was closed. -/
  | close (obj : ℕ) (midPump : Bool)
  /-- `replace_pipelines` dropped it. -/
  | drop (pipe : ℕ) (midPump : Bool)
  deriving DecidableEq

/-- A pipeline was in the middle of a pump when this was done to it. -/
def PumpEvent.hitsMidPump : PumpEvent → Bool
  | pump _ b | close _ b | drop _ b => b

/-- The state of `Uploader` that its pipelines share. -/
structure PumpSet where
  inlineSingle : Bool := true
  slots : List Slot
  now : ℕ := 0
  log : List PumpEvent := []

namespace PumpSet

/-- `self._inline_single and len(self.pipelines) <= 1`. -/
def pumpsInline (up : PumpSet) : Bool := up.inlineSingle && decide (up.slots.length ≤ 1)

/-- `ex.submit(self._pump_one, pipe)`: the executor runs one task after the other. -/
def submit (up : PumpSet) (plan : ℕ → PumpWork) (i : ℕ) (s : Slot) : Future Exn Bool where
  doneAt := max up.now s.freeAt + (plan i).takes
  result := (plan i).result

/-- The futures of one call of `pump`: none for a lone pipeline, which runs on the caller's thread. -/
def futures (up : PumpSet) (plan : ℕ → PumpWork) : List (Future Exn Bool) :=
  if up.pumpsInline then [] else up.slots.mapIdx (up.submit plan)

/-- `pump`: what it answers or raises, and the state when it does.  `plan` says how the pumps of the
pipelines go, `lag` how the caller's thread is scheduled between its waits. -/
def pump (up : PumpSet) (plan : ℕ → PumpWork) (lag : ℕ → ℕ) : Except Exn Bool × PumpSet :=
  let log := up.log ++ up.slots.map fun s ↦ .pump s.pipe.id (decide (up.now < s.freeAt))
  if up.pumpsInline then
    match up.slots with
    | [] => (.ok false, up)
    | _ :: _ => ((plan 0).result, { up with now := up.now + (plan 0).takes, log })
  else
    let r := collect up.now (up.futures plan) lag
    (r.1.map fun results ↦ results.any id,
      { up with
        slots := up.slots.mapIdx fun i s ↦ { s with freeAt := (up.submit plan i s).doneAt }
        now := r.2, log })

/-- Closing the removed pipelines, one after the other. -/
structure Closing where
  now : ℕ
  /-- The objects closed so far. -/
  closed : List ℕ := []
  log : List PumpEvent

/-- One round of the loop in `replace_pipelines`.  An executor gets to the closing once the tasks
before it have ended; a lone pipeline pumped inline is closed at once. -/
def closeSlot (up : PumpSet) (new : List PipeObj) (took : ℕ → ℕ) (c : Closing) (i : ℕ) (s : Slot) :
    Closing :=
  if (new.map PipeObj.id).contains s.pipe.id then c
  else
    let held := new.flatMap PipeObj.objects
    let objs := (s.pipe.objects.filter fun o ↦ !held.contains o && !c.closed.contains o).eraseDups
    let t := if up.pumpsInline then c.now else max c.now s.freeAt
    { now := max (t + took i) s.freeAt
      closed := c.closed ++ objs
      log := c.log ++
        (objs.map fun o ↦ .close o
          (up.slots.any fun s' ↦ s'.pipe.objects.contains o && decide (t < s'.freeAt))) ++
        [.drop s.pipe.id (decide (up.now < s.freeAt))] }

/-- The loop over the running pipelines. -/
def closeSlots (up : PumpSet) (new : List PipeObj) (took : ℕ → ℕ) :
    ℕ → List Slot → Closing → Closing
  | _, [], c => c
  | i, s :: ss, c => closeSlots up new took (i + 1) ss (up.closeSlot new took c i s)

/-- `replace_pipelines`; `took` says how long each closing takes. -/
def replacePipelines (up : PumpSet) (new : List PipeObj) (took : ℕ → ℕ) : PumpSet :=
  let c := up.closeSlots new took 0 up.slots { now := up.now, log := up.log }
  { up with
    slots := new.map fun p ↦
      ⟨p, ((up.slots.reverse.find? fun s ↦ s.pipe.id = p.id).map Slot.freeAt).getD 0⟩
    now := c.now
    log := c.log }

end PumpSet

/-- A call of the daemon's loop. -/
inductive PumpCall where
  | pump (plan : ℕ → PumpWork) (lag : ℕ → ℕ)
  | replace (new : List PipeObj) (took : ℕ → ℕ)
  /-- Time passes between two calls. -/
  | wait (d : ℕ)

namespace PumpSet

/-- The state after a call; the daemon logs an exception of `pump` and goes on. -/
def call (up : PumpSet) : PumpCall → PumpSet
  | .pump plan lag => (up.pump plan lag).2
  | .replace new took => up.replacePipelines new took
  | .wait d => { up with now := up.now + d }

/-- The state after these calls. -/
def calls (up : PumpSet) (cs : List PumpCall) : PumpSet := cs.foldl call up

/-- No pipeline is in the middle of a pump. -/
def Quiescent (up : PumpSet) : Prop := ∀ s ∈ up.slots, s.freeAt ≤ up.now

instance (up : PumpSet) : Decidable up.Quiescent :=
  inferInstanceAs (Decidable (∀ s ∈ up.slots, s.freeAt ≤ up.now))

/-- Every task that this call of `pump` started has ended when it returns or raises. -/
def Joins (up : PumpSet) (plan : ℕ → PumpWork) (lag : ℕ → ℕ) : Prop :=
  AllDone (up.pump plan lag).2.now (up.futures plan)

instance (up : PumpSet) (plan : ℕ → PumpWork) (lag : ℕ → ℕ) : Decidable (up.Joins plan lag) :=
  inferInstanceAs (Decidable (AllDone (up.pump plan lag).2.now (up.futures plan)))

/-- In every call of `pump`, no pipeline behind the first one that raises ends its pump later than
all those up to it. -/
def SafeCalls (up : PumpSet) : List PumpCall → Prop
  | [] => True
  | c :: cs =>
    (match c with
      | .pump plan _ => Safe up.now (up.futures plan)
      | .replace _ _ | .wait _ => True) ∧ SafeCalls (up.call c) cs

/-! ## The barrier -/

variable {up : PumpSet}

theorem joins_iff_safe (up : PumpSet) (plan : ℕ → PumpWork) :
    (∀ lag, up.Joins plan lag) ↔ Safe up.now (up.futures plan) := by
  by_cases hinline : up.pumpsInline = true
  · have hnil : up.futures plan = [] := by rw [futures, if_pos hinline]
    simp [Joins, hnil, safe_nil, AllDone]
  · have hnow : ∀ lag, (up.pump plan lag).2.now = (collect up.now (up.futures plan) lag).2 := by
      intro lag
      rw [pump, if_neg hinline]
    simp only [Joins, hnow]
    exact collect_barrier_iff

/-- After a call of `pump` that has joined everything no pipeline is in the middle of a pump. -/
theorem Quiescent.pump (h : up.Quiescent) {plan : ℕ → PumpWork} {lag : ℕ → ℕ}
    (hjoins : up.Joins plan lag) : (up.pump plan lag).2.Quiescent := by
  by_cases hinline : up.pumpsInline = true
  · intro s hs
    rw [PumpSet.pump, if_pos hinline] at hs ⊢
    cases hslots : up.slots with
    | nil => simp [hslots] at hs
    | cons s' ss =>
      simp only [hslots] at hs ⊢
      have hle := h s (hslots ▸ hs)
      omega
  · intro s hs
    rw [Joins, PumpSet.pump, if_neg hinline] at hjoins
    rw [PumpSet.pump, if_neg hinline] at hs ⊢
    obtain ⟨i, hi, rfl⟩ := List.mem_mapIdx.mp hs
    refine hjoins (up.submit plan i up.slots[i]) ?_
    rw [futures, if_neg hinline]
    exact List.mem_mapIdx.mpr ⟨i, hi, rfl⟩

/-- The entries a call of `pump` adds to the log of a set with nothing running. -/
theorem Quiescent.mem_log_pump (h : up.Quiescent) {plan : ℕ → PumpWork} {lag : ℕ → ℕ}
    {e : PumpEvent} (he : e ∈ (up.pump plan lag).2.log) : e ∈ up.log ∨ e.hitsMidPump = false := by
  have hnew : ∀ s ∈ up.slots, decide (up.now < s.freeAt) = false := by
    intro s hs
    simpa using h s hs
  have hmem : e ∈ up.log ∨ ∃ s ∈ up.slots,
      PumpEvent.pump s.pipe.id (decide (up.now < s.freeAt)) = e := by
    rw [PumpSet.pump] at he
    split at he
    · cases hslots : up.slots with
      | nil =>
        simp only [hslots] at he
        exact .inl he
      | cons s ss => simpa [hslots, eq_comm] using he
    · simpa using he
  rcases hmem with he | ⟨s, hs, rfl⟩
  · exact .inl he
  · exact .inr (hnew s hs)

/-- One round of closing in a set with nothing running. -/
theorem Quiescent.closeSlot (h : up.Quiescent) {new : List PipeObj} {took : ℕ → ℕ} {c : Closing}
    {i : ℕ} {s : Slot} (hs : s ∈ up.slots) (hnow : up.now ≤ c.now) :
    up.now ≤ (up.closeSlot new took c i s).now ∧
      ∀ e ∈ (up.closeSlot new took c i s).log, e ∈ c.log ∨ e.hitsMidPump = false := by
  rw [PumpSet.closeSlot]
  split
  · exact ⟨hnow, fun e he ↦ .inl he⟩
  · have hle := h s hs
    constructor
    · dsimp only
      split <;> omega
    · intro e he
      simp only [List.mem_append, List.mem_map, List.mem_singleton] at he
      rcases he with (he | ⟨o, -, rfl⟩) | rfl
      · exact .inl he
      · right
        rw [PumpEvent.hitsMidPump, List.any_eq_false]
        intro s' hs'
        have hle' := h s' hs'
        simp only [Bool.and_eq_true, decide_eq_true_eq, not_and, not_lt]
        intro _
        split <;> omega
      · right
        simpa [PumpEvent.hitsMidPump] using hle

theorem Quiescent.closeSlots (h : up.Quiescent) {new : List PipeObj} {took : ℕ → ℕ} {i : ℕ}
    {ss : List Slot} (hss : ∀ s ∈ ss, s ∈ up.slots) {c : Closing} (hnow : up.now ≤ c.now) :
    up.now ≤ (up.closeSlots new took i ss c).now ∧
      ∀ e ∈ (up.closeSlots new took i ss c).log, e ∈ c.log ∨ e.hitsMidPump = false := by
  induction ss generalizing i c with
  | nil => exact ⟨hnow, fun e he ↦ .inl he⟩
  | cons s ss ih =>
    have hstep : up.now ≤ (up.closeSlot new took c i s).now ∧
        ∀ e ∈ (up.closeSlot new took c i s).log, e ∈ c.log ∨ e.hitsMidPump = false :=
      h.closeSlot (hss s List.mem_cons_self) hnow
    have hrest := ih (i := i + 1) (fun s' hs' ↦ hss s' (List.mem_cons_of_mem _ hs')) hstep.1
    refine ⟨hrest.1, fun e he ↦ ?_⟩
    rcases hrest.2 e he with he | he
    · exact hstep.2 e he
    · exact .inr he

theorem Quiescent.replacePipelines (h : up.Quiescent) (new : List PipeObj) (took : ℕ → ℕ) :
    (up.replacePipelines new took).Quiescent ∧
      ∀ e ∈ (up.replacePipelines new took).log, e ∈ up.log ∨ e.hitsMidPump = false := by
  have hclose : up.now ≤
        (up.closeSlots new took 0 up.slots { now := up.now, log := up.log }).now ∧
      ∀ e ∈ (up.closeSlots new took 0 up.slots { now := up.now, log := up.log }).log,
        e ∈ up.log ∨ e.hitsMidPump = false :=
    h.closeSlots (fun s hs ↦ hs) le_rfl
  refine ⟨fun s hs ↦ ?_, hclose.2⟩
  obtain ⟨p, -, rfl⟩ := List.mem_map.mp hs
  change _ ≤ (up.closeSlots new took 0 up.slots { now := up.now, log := up.log }).now
  cases hfind : up.slots.reverse.find? fun s ↦ s.pipe.id = p.id with
  | none => simp
  | some s =>
    have hmem : s ∈ up.slots := List.mem_reverse.mp (List.mem_of_find?_eq_some hfind)
    simpa using (h s hmem).trans hclose.1

/-- One call of the daemon's loop. -/
theorem Quiescent.call (h : up.Quiescent) {c : PumpCall} (hsafe : up.SafeCalls [c]) :
    (up.call c).Quiescent ∧ ∀ e ∈ (up.call c).log, e ∈ up.log ∨ e.hitsMidPump = false := by
  cases c with
  | pump plan lag =>
    have hjoins : up.Joins plan lag := (up.joins_iff_safe plan).mpr hsafe.1 lag
    exact ⟨h.pump hjoins, fun e he ↦ h.mem_log_pump he⟩
  | replace new took => exact h.replacePipelines new took
  | wait d =>
    refine ⟨fun s hs ↦ ?_, fun e he ↦ .inl he⟩
    have hle := h s hs
    change s.freeAt ≤ up.now + d
    omega

/-- Any number of them. -/
theorem Quiescent.calls (h : up.Quiescent) {cs : List PumpCall} (hsafe : up.SafeCalls cs) :
    (up.calls cs).Quiescent ∧ ∀ e ∈ (up.calls cs).log, e ∈ up.log ∨ e.hitsMidPump = false := by
  induction cs generalizing up with
  | nil => exact ⟨h, fun e he ↦ .inl he⟩
  | cons c cs ih =>
    have hstep := h.call ⟨hsafe.1, trivial⟩
    have hrest := ih hstep.1 hsafe.2
    refine ⟨hrest.1, fun e he ↦ ?_⟩
    rcases hrest.2 e he with he | he
    · exact hstep.2 e he
    · exact .inr he

/-- **`pump` is a barrier exactly when no pipeline behind the first one that raises ends its pump
later than all those up to it.**  In a run whose calls of `pump` are all of this kind no pipeline is
in the middle of a pump between two calls, and nothing is ever pumped, closed or dropped that is. -/
theorem pump_is_barrier_iff (up : PumpSet) :
    (∀ plan, (∀ lag, up.Joins plan lag) ↔ Safe up.now (up.futures plan)) ∧
      ∀ cs, up.Quiescent → up.SafeCalls cs → (up.calls cs).Quiescent ∧
        ∀ e ∈ (up.calls cs).log, e ∈ up.log ∨ e.hitsMidPump = false :=
  ⟨up.joins_iff_safe, fun _ hquiet hsafe ↦ hquiet.calls hsafe⟩

/-- Two pipelines that share a source. -/
def pair : PumpSet where
  slots := [⟨⟨1, some 1, some 2, none⟩, 0⟩, ⟨⟨2, some 1, some 3, none⟩, 0⟩]

/-- Two pumps of the pair, the second with an exception in the pipeline that ends last, and then both
pipelines are dropped. -/
theorem pump_is_barrier_iff_pair :
    let cs : List PumpCall :=
      [.pump (fun _ ↦ ⟨3, .ok true⟩) fun _ ↦ 0,
        .pump (fun i ↦ ⟨i, if i = 0 then .ok true else .error (.runtimeError "down")⟩) fun _ ↦ 1,
        .replace [] fun _ ↦ 1]
    (∀ plan, (∀ lag, pair.Joins plan lag) ↔ Safe pair.now (pair.futures plan)) ∧
      (pair.calls cs).Quiescent ∧
        ∀ e ∈ (pair.calls cs).log, e ∈ pair.log ∨ e.hitsMidPump = false := by
  intro cs
  exact ⟨(pump_is_barrier_iff pair).1, (pump_is_barrier_iff pair).2 cs (by decide)
    ⟨safe_of_allDone (by decide), safe_of_allDone (by decide), trivial, trivial⟩⟩

/-- **An exception leaves a pump behind**: the first pipeline raises, `pump` raises with it while the
second is still running, and the source of both is closed under the second. -/
theorem pump_is_no_barrier :
    let plan : ℕ → PumpWork :=
      fun i ↦ ⟨2 * i, if i = 0 then .error (.runtimeError "down") else .ok true⟩
    pair.Quiescent ∧ ¬ pair.Joins plan (fun _ ↦ 0) ∧
      .close 1 true ∈ (pair.calls [.pump plan fun _ ↦ 0, .replace [] fun _ ↦ 0]).log := by
  decide

end PumpSet

end HsUploader
