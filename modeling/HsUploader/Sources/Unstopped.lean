import HsUploader.Sources.Sqlite

/-!
# How a program of a source ends

A source's method returns, raises, or is stopped, and the last only where the environment chooses
so.  `Goes p R` says it of a program, with what `R` says of the value it returns; it goes through a
program statement by statement.  `Goes.wp` takes it into a specification: where the environment
stops nothing, the specification need not speak of stops.

## What is here

* `Precedes` and `Hindered` — the environment later on, and whether it stops the process from here
  on.
* `Goes` — the judgement, with a rule for each way of building a program.
* `Goes.wp` — from the judgement to a specification without stops.
* The methods of a `SqliteSource`, one lemma each: none of them fails to return.
-/

set_option autoImplicit false

namespace HsUploader

open Prog

variable {μ ρ α β : Type} {σ ω : Type}

/-- The same environment, no earlier. -/
structure Precedes (s s' : Sys σ ω ρ) : Prop where
  env : s'.env = s.env
  tick : s.tick ≤ s'.tick

/-- The environment stops the process at some step from here on. -/
def Hindered (s : Sys σ ω ρ) : Prop := ∃ k, s.tick ≤ k ∧ (s.env k).stop = true

theorem Precedes.hindered {s s' : Sys σ ω ρ} (h : Precedes s s') (h' : Hindered s') :
    Hindered s := by
  obtain ⟨k, hk, hstop⟩ := h'
  exact ⟨k, h.tick.trans hk, h.env ▸ hstop⟩

/-- The program returns a value as `R` says or raises, unless the environment stops it. -/
def Goes (p : SysM σ ω ρ α) (R : α → Prop) : Prop :=
  ∀ s, wp p (fun a s' ↦ Precedes s s' ∧ R a) (fun _ s' ↦ Precedes s s') (fun _ ↦ Hindered s) s

namespace Goes

variable {R : α → Prop}

/-- What a program comes to where the environment stops nothing. -/
theorem wp {p : SysM σ ω ρ α} {Q : α → Sys σ ω ρ → Prop} {E : Exn → Sys σ ω ρ → Prop}
    {S : Sys σ ω ρ → Prop} {s : Sys σ ω ρ} (hp : Goes p R) (hs : ¬ Hindered s)
    (h : Prog.wp p Q E S s) : Prog.wp p Q E (fun _ ↦ False) s := by
  have hgo := hp s
  unfold Prog.wp at h hgo ⊢
  rcases hr : p s with ⟨_ | _ | _ | _, s'⟩ <;> rw [hr] at h hgo
  · exact h
  · exact h
  · exact hs hgo
  · exact hgo

theorem returns {p : SysM σ ω ρ α} (hp : Goes p R) : Returns p := fun s ↦
  wp_mono (hp s) (fun _ _ _ ↦ trivial) (fun _ _ _ ↦ trivial) fun _ _ ↦ trivial

theorem pure {a : α} (h : R a) : Goes (Pure.pure a : SysM σ ω ρ α) R := fun _ ↦
  ⟨⟨rfl, le_rfl⟩, h⟩

theorem ofExcept {x : Except Exn α} (h : ∀ a, x = .ok a → R a) :
    Goes (Prog.ofExcept x : SysM σ ω ρ α) R := fun s ↦ by
  rw [wp_ofExcept]
  cases hx : x with
  | ok a => exact ⟨⟨rfl, le_rfl⟩, h a hx⟩
  | error e => exact ⟨rfl, le_rfl⟩

theorem bind {p : SysM σ ω ρ α} {f : α → SysM σ ω ρ β} {R' : β → Prop} (hp : Goes p R)
    (hf : ∀ a, R a → Goes (f a) R') : Goes (p >>= f) R' := fun s ↦ by
  rw [wp_bind]
  refine wp_mono_ok (hp s) fun a s' ⟨hs, ha⟩ ↦ ?_
  refine wp_mono (hf a ha s') (fun b s'' ⟨hs', hb⟩ ↦ ?_) (fun e s'' hs' ↦ ?_) fun _ hstop ↦ ?_
  · exact ⟨⟨hs'.env.trans hs.env, hs.tick.trans hs'.tick⟩, hb⟩
  · exact ⟨hs'.env.trans hs.env, hs.tick.trans hs'.tick⟩
  · exact hs.hindered hstop

theorem attempt {p : SysM σ ω ρ α} (hp : Goes p R) :
    Goes (Prog.attempt p) fun _ ↦ True := fun s ↦ by
  rw [wp_attempt]
  exact wp_mono (hp s) (fun _ _ h ↦ ⟨h.1, trivial⟩) (fun _ _ h ↦ ⟨h, trivial⟩) fun _ h ↦ h

theorem tryCatch {p : SysM σ ω ρ α} {h : Exn → SysM σ ω ρ α} (hp : Goes p R)
    (hh : ∀ e, Goes (h e) R) : Goes (Prog.tryCatch p h) R := fun s ↦ by
  rw [wp_tryCatch]
  refine wp_mono (hp s) (fun _ _ h ↦ h) (fun e s' hs ↦ ?_) fun _ h ↦ h
  refine wp_mono (hh e s') (fun a s'' ⟨hs', ha⟩ ↦ ?_) (fun e' s'' hs' ↦ ?_) fun _ hstop ↦ ?_
  · exact ⟨⟨hs'.env.trans hs.env, hs.tick.trans hs'.tick⟩, ha⟩
  · exact ⟨hs'.env.trans hs.env, hs.tick.trans hs'.tick⟩
  · exact hs.hindered hstop

end Goes

section statements

theorem goes_breathe [Surroundings ω σ] :
    Goes (Sys.breathe : SysM σ ω ρ (Choice ω ρ)) fun _ ↦ True := fun s ↦ by
  rw [Sys.wp_breathe]
  split
  · exact ⟨s.tick, le_rfl, ‹_›⟩
  · exact ⟨⟨rfl, Nat.le_succ _⟩, trivial⟩

theorem goes_mem : Goes (mem : SqlM μ ρ μ) fun _ ↦ True := fun _ ↦ ⟨⟨rfl, le_rfl⟩, trivial⟩

theorem goes_setMem (f : μ → μ) : Goes (setMem f : SqlM μ ρ Unit) fun _ ↦ True := fun _ ↦
  ⟨⟨rfl, le_rfl⟩, trivial⟩

theorem goes_statement (f : Outside μ → Except Exn (α × Outside μ)) :
    Goes (statement f : SqlM μ ρ α) fun _ ↦ True := fun s ↦ by
  have hn : Precedes s s.next := ⟨rfl, Nat.le_succ _⟩
  rw [wp_statement]
  split
  · exact ⟨s.tick, le_rfl, ‹_›⟩
  · split
    · cases f s.next.here with
      | ok r => exact ⟨⟨rfl, Nat.le_succ _⟩, trivial⟩
      | error e => exact hn
    · exact hn

theorem goes_query (f : Sink → Except Exn α) : Goes (query f : SqlM μ ρ α) fun _ ↦ True :=
  goes_statement _

theorem goes_clock : Goes (clock : SqlM μ ρ ℚ) fun _ ↦ True :=
  goes_breathe.bind fun _ _ ↦ .pure trivial

end statements

/-! ## The methods of a `SqliteSource` -/

namespace SqliteSource

variable (src : SqliteSource)

theorem goes_connect : Goes connect fun _ ↦ True := by
  refine goes_mem.bind fun m _ ↦ ?_
  cases m.conn with
  | some c => exact .pure trivial
  | none => exact (goes_query _).bind fun _ _ ↦ (goes_setMem _).bind fun _ _ ↦ .pure trivial

theorem goes_ensureReady : Goes ensureReady fun _ ↦ True := by
  refine goes_mem.bind fun m _ ↦ ?_
  split
  · exact .pure trivial
  · refine goes_connect.bind fun _ _ ↦ (goes_query _).bind fun ready _ ↦ ?_
    split
    · exact (goes_setMem _).bind fun _ _ ↦ .pure trivial
    · exact .pure trivial

theorem goes_probeProducer : Goes src.probeProducer fun _ ↦ True := by
  rw [probeProducer]
  split
  · exact .pure trivial
  · refine goes_mem.bind fun m _ ↦ ?_
    split
    · exact .pure trivial
    · exact (goes_query _).bind fun b _ ↦ (goes_setMem _).bind fun _ _ ↦ .pure trivial

theorem goes_probeLocal (conn : ℕ) : Goes (probeLocal conn) fun _ ↦ True := by
  refine goes_mem.bind fun m _ ↦ Goes.bind (R := fun _ ↦ True) ?_
    fun f _ ↦ (goes_setMem _).bind fun _ _ ↦ .pure trivial
  rw [LocalRowFilter.probe]
  split
  · exact .pure trivial
  · exact (goes_query _).bind fun b _ ↦ .pure trivial

theorem goes_checkStaleSchema : Goes src.checkStaleSchema fun _ ↦ True := by
  rw [checkStaleSchema]
  split
  · exact .pure trivial
  · refine src.goes_probeProducer.bind fun hp _ ↦ (goes_query _).bind fun stale _ ↦ ?_
    split
    · exact .pure trivial
    · exact goes_setMem _

theorem goes_askCeiling : Goes src.askCeiling fun _ ↦ True := by
  rw [askCeiling]
  split
  · exact .pure trivial
  · exact (goes_statement _).bind fun c _ ↦ .pure trivial

theorem goes_iterOneBatch (cur limit : ℤ) : Goes (src.iterOneBatch cur limit) fun _ ↦ True := by
  refine goes_connect.bind fun conn _ ↦ src.goes_askCeiling.bind fun ceiling _ ↦ ?_
  split
  · exact .pure trivial
  · refine src.goes_probeProducer.bind fun hp _ ↦ (goes_probeLocal conn).bind fun hl _ ↦
      (goes_statement _).bind fun rows _ ↦ ?_
    split
    · exact src.goes_checkStaleSchema.bind fun _ _ ↦ .pure trivial
    · exact goes_clock.bind fun now _ ↦ (Goes.ofExcept (R := fun _ ↦ True) fun _ _ ↦ trivial).bind
        fun _ _ ↦ .pure trivial

theorem goes_cursorFromStartAt : Goes src.cursorFromStartAt fun _ ↦ True := by
  refine goes_mem.bind fun m _ ↦ ?_
  split
  · exact .pure trivial
  · exact goes_connect.bind fun conn _ ↦ src.goes_probeProducer.bind fun hp _ ↦
      (goes_probeLocal conn).bind fun hl _ ↦ (goes_query _).bind fun present _ ↦
      (goes_setMem _).bind fun _ _ ↦ .pure trivial

/-- The resumptions that a generator has go, too. -/
theorem goes_iterBatches (cursor : Bytes) (limit : ℤ) :
    Goes (src.iterBatches cursor limit) fun rest ↦ ∀ p ∈ rest, Goes p fun _ ↦ True := by
  have hone : ∀ c, ∀ p ∈ [src.iterOneBatch c limit], Goes p fun _ ↦ True := fun c p hp ↦ by
    rw [List.mem_singleton.mp hp]
    exact src.goes_iterOneBatch c limit
  rw [iterBatches]
  split
  · exact .pure nofun
  · refine goes_ensureReady.attempt.bind fun ready _ ↦ ?_
    split
    · exact (goes_setMem _).bind fun _ _ ↦ .pure nofun
    · exact (goes_setMem _).bind fun _ _ ↦ .pure nofun
    · refine (goes_setMem _).bind fun _ _ ↦
        (Goes.ofExcept (R := fun _ ↦ True) fun _ _ ↦ trivial).bind fun cur _ ↦ ?_
      split
      · exact src.goes_cursorFromStartAt.bind fun c _ ↦ .pure (hone c)
      · exact .pure (hone cur)

theorem goes_commit (token : Bytes) : Goes (src.commit token) fun _ ↦ True := by
  rw [commit]
  split
  · exact .pure trivial
  · split
    · exact .pure trivial
    · split
      · exact .pure trivial
      · refine Goes.tryCatch ?_ fun _ ↦ .pure trivial
        exact goes_connect.bind fun conn _ ↦ src.goes_probeProducer.bind fun hp _ ↦
          (goes_probeLocal conn).bind fun hl _ ↦ goes_statement _

end SqliteSource

end HsUploader
