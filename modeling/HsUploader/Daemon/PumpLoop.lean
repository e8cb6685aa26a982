import HsUploader.Library.Runs
import Mathlib.Tactic.Basic

/-!
# The loop of the daemon

`run()` waits for a wake or for the interval to pass, clears the wake, looks whether it is to stop,
rebuilds where a SIGHUP asks for it or `pipelines.d/` has moved, and pumps.  The handlers of the
signals and the thread at the wake socket set flags for it, each at any moment between two of its
statements.  Here every statement of the loop that reads or writes a flag is a step of its own, and
the steps of the others come in any order between them.

A call that comes at any moment is answered: the loop does not go to sleep before it has pumped
(`call_answered`), and it does not pump without a cause (`pump_has_cause`).  A SIGHUP is not lost:
no second pump starts before a rebuild does, and it is asked for again before each pump until one
does not fail (`hangup_honoured`).  After a signal to stop there is at most the pump that has been
decided on, and the loop ends (`stop_ends`).

## What is here

* `Point` — the statement of the loop that comes next; `Loop` — the flags and variables, shared by
  the loop, the handlers and the thread at the wake socket; `Event` — a step of any of them.
* `step` — what an event makes of the daemon, `none` where it cannot happen then.
* `Point.distance` — how many steps the loop is away from a pump at most.  It falls with each step
  of the loop (`countP_ofLoop_le`), and the loop is never stuck but in its wait (`exists_step`).
* `Loop.Called` — `wake` is set or about to be, or the loop is past its wait: what a call leaves,
  and what every step keeps up to the pump.
* `Loop.Asked` and `Loop.slack` — the account of a SIGHUP: the flag, `hup_pending`, and the one pump
  that may still come before the rebuild.
* `Loop.Stopping` and `Point.toEnd` — the same for a signal to stop.

A handler runs between two statements of the loop and is taken as one step, as it is in a program of
one main thread; the listener at the wake socket is a thread of its own and takes several.
-/

set_option autoImplicit false

namespace HsUploader.Daemon.PumpLoop

open Runs

/-! ## The model -/

/-- What a failure is told by: the name of the exception's type, and its text. -/
abbrev Failure := String × String

/-- The statement of the loop that comes next. -/
inductive Point where
  /-- `while not stop.is_set()`. -/
  | testing
  /-- `wake.wait(interval)`. -/
  | waiting
  /-- `wake.clear()`. -/
  | clearing
  /-- `if stop.is_set(): break`. -/
  | leaving
  /-- `if hangup.is_set()`. -/
  | asking
  /-- `hangup.clear()`. -/
  | taking
  /-- `hup_pending = True`. -/
  | noting
  /-- `if hup_pending or rebuilder.due()`. -/
  | deciding
  /-- `rebuilder.rebuild(uploader)` runs. -/
  | rebuilding
  /-- `rebuilder.marker_check()`. -/
  | marking
  /-- `uploader.pump()` is to be called. -/
  | starting
  /-- `uploader.pump()` runs. -/
  | pumping
  | stopped
  deriving DecidableEq

/-- A rebuild that has changed the running set: whether this set needs the wake socket, and whether
binding that works. -/
structure Change where
  needsWake : Bool
  binds : Bool
  deriving DecidableEq

/-- The daemon's flags and variables, and the wake socket. -/
structure Loop where
  point : Point := .testing
  stop : Bool := false
  wake : Bool := false
  hangup : Bool := false
  hupPending : Bool := false
  lastFailure : Option Failure := none
  /-- The failed rebuilds that have been logged. -/
  logged : List Failure := []
  /-- The listener, once there is one, and whether it has bound the socket. -/
  listener : Option Bool
  /-- The datagrams that wait at the socket. -/
  queued : ℕ := 0
  /-- The listener has received a datagram and is about to set `wake`. -/
  inHand : Bool := false

/-- What can happen. -/
inductive Event where
  /-- The handler of SIGHUP. -/
  | hangup
  /-- The handler of SIGINT and SIGTERM. -/
  | stop
  /-- A producer sends a datagram to the wake socket. -/
  | notify
  /-- The listener receives a datagram. -/
  | receive
  /-- The listener calls `on_wake`. -/
  | deliver
  /-- The loop goes on to its next statement. -/
  | goOn
  /-- The interval has passed. -/
  | elapsed
  | rebuildStarts
  /-- `rebuilder.due()` says no. -/
  | notDue
  | dueFailed (f : Failure)
  | rebuilt (change : Option Change)
  | rebuildFailed (f : Failure)
  /-- `rebuilder.marker_check()` has returned or raised. -/
  | marked
  | pumpStarts
  /-- `uploader.pump()` has returned or raised. -/
  | pumpEnds
  deriving DecidableEq

namespace Loop

/-- `bind_wake_if_needed(pipes)`. -/
def bindWakeIfNeeded (wakeCfg : Option Bool) (change : Change) : Option Bool → Option Bool
  | some bound => some bound
  | none => if wakeCfg.getD change.needsWake then some change.binds else none

/-- What `except Exception as exc` makes of a failed rebuild. -/
def fails (s : Loop) (f : Failure) : Loop :=
  { s with
    logged := if s.lastFailure = some f then s.logged else s.logged ++ [f]
    lastFailure := some f
    point := .marking }

/-- The statements that read and write flags. -/
def goOn (s : Loop) : Option Loop :=
  match s.point with
  | .testing => some { s with point := if s.stop then .stopped else .waiting }
  | .waiting => if s.wake then some { s with point := .clearing } else none
  | .clearing => some { s with wake := false, point := .leaving }
  | .leaving => some { s with point := if s.stop then .stopped else .asking }
  | .asking => some { s with point := if s.hangup then .taking else .deciding }
  | .taking => some { s with hangup := false, point := .noting }
  | .noting => some { s with hupPending := true, point := .deciding }
  | _ => none

end Loop

/-- What an event makes of the daemon. -/
def step (wakeCfg : Option Bool) (s : Loop) : Event → Option Loop
  | .hangup => some { s with hangup := true, wake := true }
  | .stop => some { s with stop := true, wake := true }
  | .notify => some (if s.listener = some true then { s with queued := s.queued + 1 } else s)
  | .receive =>
    if s.listener = some true ∧ 0 < s.queued ∧ s.inHand = false then
      some { s with queued := s.queued - 1, inHand := true }
    else none
  | .deliver => if s.inHand then some { s with inHand := false, wake := true } else none
  | .goOn => s.goOn
  | .elapsed => if s.point = .waiting then some { s with point := .clearing } else none
  | .rebuildStarts => if s.point = .deciding then some { s with point := .rebuilding } else none
  | .notDue =>
    if s.point = .deciding ∧ s.hupPending = false then some { s with point := .marking } else none
  | .dueFailed f =>
    if s.point = .deciding ∧ s.hupPending = false then some (s.fails f) else none
  | .rebuilt change =>
    if s.point = .rebuilding then
      some { s with
        hupPending := false
        lastFailure := none
        listener := change.elim s.listener fun c ↦ Loop.bindWakeIfNeeded wakeCfg c s.listener
        point := .marking }
    else none
  | .rebuildFailed f => if s.point = .rebuilding then some (s.fails f) else none
  | .marked => if s.point = .marking then some { s with point := .starting } else none
  | .pumpStarts => if s.point = .starting then some { s with point := .pumping } else none
  | .pumpEnds => if s.point = .pumping then some { s with point := .testing } else none

namespace Event

/-- The step is one of the daemon's own that waits for nothing. -/
def inside : Event → Bool
  | .hangup | .stop | .notify | .elapsed => false
  | _ => true

/-- The step is one of the loop's. -/
def ofLoop : Event → Bool
  | .hangup | .stop | .notify | .receive | .deliver => false
  | _ => true

def isPumpStart : Event → Bool
  | .pumpStarts => true
  | _ => false

def isRebuildFailure : Event → Bool
  | .rebuildFailed _ => true
  | _ => false

end Event

/-- No thread of the daemon goes on before the interval has passed or something comes from outside.
-/
def Sleeps (wakeCfg : Option Bool) (s : Loop) : Prop :=
  Rests (step wakeCfg) (fun e ↦ e.inside = true) s

/-! ## Between two pumps -/

variable {wakeCfg : Option Bool} {s t u : Loop} {e : Event} {es : List Event}

/-- How many steps of the loop there are at most before a pump starts. -/
def Point.distance : Point → ℕ
  | .stopped => 0
  | .starting => 1
  | .marking => 2
  | .rebuilding => 3
  | .deciding => 4
  | .noting => 5
  | .taking => 6
  | .asking => 7
  | .leaving => 8
  | .clearing => 9
  | .waiting => 10
  | .testing => 11
  | .pumping => 12

theorem distance_step (hu : step wakeCfg t e = some u) (hno : e ≠ .pumpStarts) :
    (if e.ofLoop then 1 else 0) + u.point.distance ≤ t.point.distance := by
  cases e <;> simp only [step, Event.ofLoop] at hu ⊢ <;>
    grind [Loop.goOn, Point.distance, Loop.fails]

theorem distance_le (p : Point) : p.distance ≤ 12 := by cases p <;> decide

/-- The loop takes a dozen steps at most without starting a pump. -/
theorem countP_ofLoop_le (h : runs (step wakeCfg) s es = some t) (hno : .pumpStarts ∉ es) :
    es.countP Event.ofLoop ≤ 12 := by
  have hstep : ∀ e ∈ es, ∀ t u, True → step wakeCfg t e = some u → True ∧
      (if e.ofLoop then 1 else 0) + u.point.distance ≤
        (if false = true then 1 else 0) + t.point.distance := by
    intro e he t u _ hu
    have hne : e ≠ .pumpStarts := by
      rintro rfl
      exact hno he
    simpa using distance_step hu hne
  obtain ⟨-, hle⟩ := countP_add_le Event.ofLoop (fun _ ↦ false) (fun t ↦ t.point.distance) hstep
    trivial h
  have hfrom := distance_le s.point
  simp only [List.countP_false, Function.const_apply] at hle
  omega

/-- The loop has looked whether it is called and will pump without waiting. -/
def Point.heading : Point → Bool
  | .leaving | .asking | .taking | .noting | .deciding | .rebuilding | .marking | .starting => true
  | _ => false

/-- A pump is called for: `wake` is set or about to be, or the loop heads for a pump. -/
def Loop.Called (s : Loop) : Prop :=
  s.wake = true ∨ s.inHand = true ∨ (s.listener = some true ∧ 0 < s.queued) ∨
    s.point.heading = true

theorem called_step (h : t.Called) (hu : step wakeCfg t e = some u) (hno : e ≠ .pumpStarts) :
    u.point = .stopped ∨ u.Called := by
  cases e <;> simp only [step] at hu <;>
    grind [Loop.goOn, Loop.Called, Point.heading, Loop.fails, Loop.bindWakeIfNeeded]

theorem stopped_step (h : t.point = .stopped) (hu : step wakeCfg t e = some u) :
    u.point = .stopped := by
  cases e <;> simp only [step] at hu <;> grind [Loop.goOn]

/-- The loop has a next step that waits for nothing, unless it waits for a wake. -/
theorem exists_step (hgoing : t.point ≠ .stopped) (hwake : t.point = .waiting → t.wake = true) :
    ∃ e, e.inside = true ∧ (step wakeCfg t e).isSome = true := by
  cases hp : t.point with
  | waiting => exact ⟨.goOn, rfl, by simp [step, Loop.goOn, hp, hwake hp]⟩
  | deciding => exact ⟨.rebuildStarts, rfl, by simp [step, hp]⟩
  | rebuilding => exact ⟨.rebuilt none, rfl, by simp [step, hp]⟩
  | marking => exact ⟨.marked, rfl, by simp [step, hp]⟩
  | starting => exact ⟨.pumpStarts, rfl, by simp [step, hp]⟩
  | pumping => exact ⟨.pumpEnds, rfl, by simp [step, hp]⟩
  | stopped => exact absurd hp hgoing
  | _ => exact ⟨.goOn, rfl, by simp [step, Loop.goOn, hp]⟩

theorem not_sleeps (h : t.Called) (hgoing : t.point ≠ .stopped) : ¬ Sleeps wakeCfg t := by
  intro hsleeps
  have hno : ∀ e, e.inside = true → (step wakeCfg t e).isSome = false := by
    intro e he
    rw [hsleeps e he]
    rfl
  have hwaiting : t.point = .waiting ∧ t.wake = false := by
    by_contra hnot
    obtain ⟨e, he, hsome⟩ : ∃ e, e.inside = true ∧ (step wakeCfg t e).isSome = true :=
      exists_step hgoing (by grind)
    rw [hno e he] at hsome
    cases hsome
  have hhand : t.inHand = false := by
    by_contra hhand
    have hdeliver := hno .deliver rfl
    simp [step, hhand] at hdeliver
  rcases h with h | h | h | h
  · rw [hwaiting.2] at h
    cases h
  · rw [hhand] at h
    cases h
  · have hreceive := hno .receive rfl
    simp [step, h, hhand] at hreceive
  · rw [hwaiting.1] at h
    cases h

/-- **A call is answered**: after a SIGHUP, or a datagram at the bound socket, the daemon does not
go to sleep before a pump has started, which it does after a dozen steps of the loop at most,
unless the loop ends. -/
theorem call_answered (hcall : e = .hangup ∨ e = .notify ∧ s.listener = some true)
    (h : runs (step wakeCfg) s (e :: es) = some t) (hno : .pumpStarts ∉ es) :
    t.point = .stopped ∨ ¬ Sleeps wakeCfg t ∧ es.countP Event.ofLoop ≤ 12 := by
  obtain ⟨s', hs', hrest⟩ := runs_cons_eq_some.mp h
  have hcalled : s'.Called := by
    rcases hcall with rfl | ⟨rfl, hbound⟩
    · obtain rfl := Option.some.inj hs'
      exact .inl rfl
    · obtain rfl := Option.some.inj hs'
      rw [if_pos hbound]
      exact .inr (.inr (.inl ⟨hbound, Nat.succ_pos _⟩))
  have hkept : t.point = .stopped ∨ t.Called := by
    refine runs_keep (I := fun t ↦ t.point = .stopped ∨ t.Called) (fun e he t u hI hu ↦ ?_)
      (.inr hcalled) hrest
    rcases hI with hstopped | hI
    · exact .inl (stopped_step hstopped hu)
    · exact called_step hI hu (by rintro rfl; exact hno he)
  by_cases hstopped : t.point = .stopped
  · exact .inl hstopped
  · exact .inr ⟨not_sleeps (hkept.resolve_left hstopped) hstopped, countP_ofLoop_le hrest hno⟩

/-- A daemon that has bound the socket and waits in its loop. -/
def idle : Loop where
  point := .waiting
  listener := some true

/-- A producer's datagram, received while the loop wakes up by itself. -/
def datagram : List Event :=
  [.notify, .elapsed, .receive, .goOn, .deliver, .goOn, .goOn, .notDue]

theorem call_answered_datagram : ∃ t,
    runs (step none) idle datagram = some t ∧ ¬ Sleeps none t := by
  have hpoint : (runs (step none) idle datagram).map Loop.point = some .marking := by decide
  obtain ⟨t, ht, hp⟩ := Option.map_eq_some_iff.mp hpoint
  refine ⟨t, ht, ?_⟩
  rcases call_answered (.inr ⟨rfl, rfl⟩) ht (by decide) with h | h
  · rw [hp] at h
    cases h
  · exact h.1

/-! ## No pump without a cause -/

/-- The calls and the pumps to come that stand already. -/
def Loop.standing (s : Loop) : ℕ :=
  s.queued + (if s.inHand then 1 else 0) +
    if s.point = .clearing then 1
    else (if s.wake then 1 else 0) + if s.point.heading then 1 else 0

/-- The step calls for a pump, or lets the interval pass. -/
def Event.isCause : Event → Bool
  | .hangup | .stop | .notify | .elapsed => true
  | _ => false

theorem standing_step (hu : step wakeCfg t e = some u) :
    (if e.isPumpStart then 1 else 0) + u.standing ≤ (if e.isCause then 1 else 0) + t.standing := by
  cases e <;> simp only [step, Event.isPumpStart, Event.isCause] at hu ⊢ <;>
    grind [Loop.goOn, Loop.standing, Point.heading, Loop.fails]

/-- **No pump starts without a cause**: there are no more of them than signals, datagrams and
intervals that have passed, and what stood at first. -/
theorem pump_has_cause (h : runs (step wakeCfg) s es = some t) :
    es.countP Event.isPumpStart ≤ es.countP Event.isCause + s.standing := by
  obtain ⟨-, hle⟩ := countP_add_le (I := fun _ ↦ True) Event.isPumpStart Event.isCause Loop.standing
    (fun e _ t u _ hu ↦ ⟨trivial, standing_step hu⟩) trivial h
  omega

theorem pump_has_cause_datagram : ∃ t,
    runs (step none) idle (datagram ++ [Event.marked, Event.pumpStarts]) = some t ∧
      (datagram ++ [Event.marked, Event.pumpStarts]).countP Event.isPumpStart ≤ 2 := by
  have hpoint : (runs (step none) idle (datagram ++ [Event.marked, Event.pumpStarts])).map
      Loop.point = some .pumping := by decide
  obtain ⟨t, ht, -⟩ := Option.map_eq_some_iff.mp hpoint
  exact ⟨t, ht, pump_has_cause ht⟩

/-! ## A SIGHUP -/

/-- A rebuild has been asked for and has not come about. -/
def Loop.Asked (s : Loop) : Prop :=
  s.hangup = true ∨ s.hupPending = true ∨ s.point = .noting

/-- The pump that may come without another rebuild, `r` of it where one runs. -/
def Loop.slack (r : ℕ) (s : Loop) : ℕ :=
  match s.point with
  | .deciding => if s.hupPending then 0 else 1
  | .rebuilding => r
  | .marking | .starting => 1
  | _ => 0

/-- Without a rebuild that begins, what has been asked for stays asked for. -/
theorem slack_step_before (h : t.Asked ∧ (t.point = .rebuilding → t.hangup = true))
    (hu : step wakeCfg t e = some u) (hno : e ≠ .rebuildStarts) :
    (u.Asked ∧ (u.point = .rebuilding → u.hangup = true)) ∧
      (if e.isPumpStart then 1 else 0) + u.slack 1 ≤ t.slack 1 := by
  cases e <;> simp only [step, Event.isPumpStart] at hu ⊢ <;>
    grind [Loop.goOn, Loop.slack, Loop.Asked, Loop.fails]

/-- Without a rebuild that succeeds it stays asked for, and each pump has a failed rebuild before
it. -/
theorem slack_step_after (h : t.Asked) (hu : step wakeCfg t e = some u)
    (hno : ∀ c, e ≠ .rebuilt c) :
    u.Asked ∧ (if e.isPumpStart then 1 else 0) + u.slack 0 ≤
      (if e.isRebuildFailure then 1 else 0) + t.slack 0 := by
  cases e <;> simp only [step, Event.isPumpStart, Event.isRebuildFailure] at hu ⊢ <;>
    grind [Loop.goOn, Loop.slack, Loop.Asked, Loop.fails]

theorem slack_le (s : Loop) : s.slack 1 ≤ 1 := by
  rw [Loop.slack]
  split
  · split <;> omega
  all_goals omega

/-- **A SIGHUP is honoured**: before a rebuild begins one pump starts at most, the one that was on
its way; from then on, until a rebuild succeeds, every pump has a failed rebuild of its own before
it; and all the while the daemon knows that it is asked for one. -/
theorem hangup_honoured (h : runs (step wakeCfg) s (.hangup :: es) = some t) :
    (.rebuildStarts ∉ es → es.countP Event.isPumpStart ≤ 1 ∧ t.Asked) ∧
    ∀ es₁ es₂, es = es₁ ++ .rebuildStarts :: es₂ → .rebuildStarts ∉ es₁ →
      (∀ c, .rebuilt c ∉ es₂) →
        es₂.countP Event.isPumpStart ≤ es₂.countP Event.isRebuildFailure ∧ t.Asked := by
  obtain ⟨s', hs', hrest⟩ := runs_cons_eq_some.mp h
  obtain rfl := Option.some.inj hs'
  have hbefore : ∀ fs t, runs (step wakeCfg) { s with hangup := true, wake := true } fs = some t →
      .rebuildStarts ∉ fs → fs.countP Event.isPumpStart ≤ 1 ∧ t.Asked := by
    intro fs t hrun hno
    have hstep : ∀ e ∈ fs, ∀ t u : Loop, (t.Asked ∧ (t.point = .rebuilding → t.hangup = true)) →
        step wakeCfg t e = some u → (u.Asked ∧ (u.point = .rebuilding → u.hangup = true)) ∧
          (if e.isPumpStart then 1 else 0) + u.slack 1 ≤
            (if false = true then 1 else 0) + t.slack 1 := by
      intro e he t u hI hu
      have hne : e ≠ .rebuildStarts := by
        rintro rfl
        exact hno he
      simpa using slack_step_before hI hu hne
    obtain ⟨⟨hasked, -⟩, hle⟩ := countP_add_le Event.isPumpStart (fun _ ↦ false) (Loop.slack 1)
      hstep ⟨.inl rfl, fun _ ↦ rfl⟩ hrun
    have hfrom := slack_le { s with hangup := true, wake := true }
    simp only [List.countP_false, Function.const_apply] at hle
    exact ⟨by omega, hasked⟩
  refine ⟨hbefore es t hrest, ?_⟩
  rintro es₁ es₂ rfl hno₁ hno₂
  obtain ⟨s₁, hs₁, hend⟩ := runs_append_eq_some.mp hrest
  obtain ⟨s₂, hs₂, hend⟩ := runs_cons_eq_some.mp hend
  have hasked := (hbefore es₁ s₁ hs₁ hno₁).2
  have hbegun : s₂.Asked ∧ s₂.slack 0 = 0 := by
    simp only [step] at hs₂
    grind [Loop.Asked, Loop.slack]
  obtain ⟨hkept, hle⟩ := countP_add_le Event.isPumpStart Event.isRebuildFailure (Loop.slack 0)
    (fun e he t u hI hu ↦ slack_step_after hI hu (by rintro c rfl; exact hno₂ c he)) hbegun.1 hend
  rw [hbegun.2] at hle
  exact ⟨by omega, hkept⟩

/-- What follows a SIGHUP during a pump, up to the rebuild. -/
def untilRebuild : List Event :=
  [.pumpEnds, .goOn, .goOn, .goOn, .goOn, .goOn, .goOn, .goOn]

/-- A rebuild that fails twice. -/
def failedTwice : List Event :=
  [.rebuildFailed ("OSError", "gone"), .marked, .pumpStarts, .pumpEnds, .goOn, .elapsed, .goOn,
    .goOn, .goOn, .rebuildStarts, .rebuildFailed ("OSError", "gone"), .marked, .pumpStarts]

theorem hangup_honoured_failing : ∃ t,
    runs (step none) { idle with point := .pumping }
        (.hangup :: (untilRebuild ++ .rebuildStarts :: failedTwice)) = some t ∧
      failedTwice.countP Event.isPumpStart ≤ failedTwice.countP Event.isRebuildFailure ∧
      t.Asked := by
  have hpoint : (runs (step none) { idle with point := .pumping }
      (.hangup :: (untilRebuild ++ .rebuildStarts :: failedTwice))).map Loop.point =
        some .pumping := by decide
  obtain ⟨t, ht, -⟩ := Option.map_eq_some_iff.mp hpoint
  have hno : ∀ c, .rebuilt c ∉ failedTwice := by simp [failedTwice]
  exact ⟨t, ht, (hangup_honoured ht).2 untilRebuild failedTwice rfl (by decide) hno⟩

/-! ## A signal to stop -/

/-- How many steps of the loop there are at most before it ends, once it is to stop. -/
def Point.toEnd : Point → ℕ
  | .stopped => 0
  | .leaving | .testing => 1
  | .clearing | .pumping => 2
  | .waiting | .starting => 3
  | .marking => 4
  | .rebuilding => 5
  | .deciding => 6
  | .noting => 7
  | .taking => 8
  | .asking => 9

/-- The loop has looked whether it is to stop, and has not begun the pump. -/
def Point.passing : Point → Bool
  | .asking | .taking | .noting | .deciding | .rebuilding | .marking | .starting => true
  | _ => false

/-- The loop is to stop and will not wait. -/
def Loop.Stopping (s : Loop) : Prop := s.stop = true ∧ (s.point = .waiting → s.wake = true)

theorem toEnd_step (h : t.Stopping) (hu : step wakeCfg t e = some u) :
    u.Stopping ∧ (if e.ofLoop then 1 else 0) + u.point.toEnd ≤ t.point.toEnd := by
  cases e <;> simp only [step, Event.ofLoop] at hu ⊢ <;>
    grind [Loop.goOn, Point.toEnd, Loop.Stopping, Loop.fails]

theorem passing_step (h : t.Stopping) (hu : step wakeCfg t e = some u) :
    u.Stopping ∧ (if e.isPumpStart then 1 else 0) + (if u.point.passing then 1 else 0) ≤
      if t.point.passing then 1 else 0 := by
  cases e <;> simp only [step, Event.isPumpStart] at hu ⊢ <;>
    grind [Loop.goOn, Point.passing, Loop.Stopping, Loop.fails]

theorem toEnd_le (p : Point) : p.toEnd ≤ 9 := by cases p <;> decide

/-- **A signal to stop ends the loop**: no pump starts but one that the loop was about to make, and
after nine steps at most, none of which waits, the loop has ended. -/
theorem stop_ends (h : runs (step wakeCfg) s (.stop :: es) = some t) :
    es.countP Event.isPumpStart ≤ (if s.point.passing then 1 else 0) ∧
      es.countP Event.ofLoop ≤ 9 ∧ (t.point = .stopped ∨ ¬ Sleeps wakeCfg t) := by
  obtain ⟨s', hs', hrest⟩ := runs_cons_eq_some.mp h
  obtain rfl := Option.some.inj hs'
  have hstopping : Loop.Stopping { s with stop := true, wake := true } := ⟨rfl, fun _ ↦ rfl⟩
  obtain ⟨hkept, hloop⟩ := countP_add_le Event.ofLoop (fun _ ↦ false) (fun t ↦ t.point.toEnd)
    (fun e _ t u hI hu ↦ by simpa using toEnd_step hI hu) hstopping hrest
  obtain ⟨-, hpumps⟩ := countP_add_le Event.isPumpStart (fun _ ↦ false)
    (fun t ↦ if t.point.passing then 1 else 0) (fun e _ t u hI hu ↦ by simpa using passing_step hI hu)
    hstopping hrest
  have hfrom := toEnd_le s.point
  simp only [List.countP_false, Function.const_apply] at hloop hpumps
  refine ⟨by omega, by omega, ?_⟩
  by_cases hstopped : t.point = .stopped
  · exact .inl hstopped
  · refine .inr fun hsleeps ↦ ?_
    obtain ⟨e, he, hsome⟩ : ∃ e, e.inside = true ∧ (step wakeCfg t e).isSome = true :=
      exists_step hstopped hkept.2
    rw [hsleeps e he] at hsome
    cases hsome

theorem stop_ends_in_rebuild : ∃ t,
    runs (step none) { idle with point := .rebuilding }
        [.stop, .rebuilt none, .marked, .pumpStarts, .pumpEnds, .goOn] = some t ∧
      (t.point = .stopped ∨ ¬ Sleeps none t) := by
  have hpoint : (runs (step none) { idle with point := .rebuilding }
      [.stop, .rebuilt none, .marked, .pumpStarts, .pumpEnds, .goOn]).map Loop.point =
        some .stopped := by decide
  obtain ⟨t, ht, -⟩ := Option.map_eq_some_iff.mp hpoint
  exact ⟨t, ht, (stop_ends ht).2.2⟩

end HsUploader.Daemon.PumpLoop
