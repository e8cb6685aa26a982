import HsUploader.Core.Uploader

/-!
# A transport whose answers are left open

What a destination does with a batch is not the uploader's to know.  This transport answers each
`ship` and `replay` with whatever the environment has chosen, an exception included, and writes as
the retry payload of a batch the batch's records.  A statement about it is a statement about every
transport whose payload can be read back as those records.
-/

set_option autoImplicit false

namespace HsUploader

open Prog

variable {σ ω ρ π α : Type} [Surroundings ω σ]

/-- One call of a transport: the answer is the environment's. -/
def callOpen : SysM σ ω ρ (Outcome ρ) := do
  let c ← Sys.breathe
  ofExcept c.outcome

/-- The transport that leaves its answers open.  `size` is the length of a payload in bytes. -/
def Transport.unspecified (name primaryTable : String) (batchPolicy : BatchPolicy) (ships : Bool)
    (size : List ρ → ℕ) : Transport σ ω ρ (List ρ) where
  name := name
  primaryTable := primaryTable
  batchPolicy := batchPolicy
  ships := ships
  ship _ := callOpen
  serializeForRetry batch := do
    let _ ← callOpen
    pure batch.records
  replay _ := callOpen
  payloadLen := size

theorem wp_callOpen {s : Sys σ ω ρ} {Q : Outcome ρ → Sys σ ω ρ → Prop}
    {E : Exn → Sys σ ω ρ → Prop} {S : Sys σ ω ρ → Prop} :
    wp callOpen Q E S s =
      if s.choice.stop then S s.next
      else match s.choice.outcome with
        | .ok o => Q o s.next
        | .error e => E e s.next := by
  rw [callOpen, wp_bind, Sys.wp_breathe]
  split
  · rfl
  · rw [wp_ofExcept]
    cases s.choice.outcome <;> rfl

/-- A call of a transport that leaves its answers open, noted before and after: the process may be
stopped, the call may raise, and otherwise it answers as the environment chose. -/
theorem wp_callNoted {call : Event ρ π} {answer : Outcome ρ → Event ρ π}
    {Q : Outcome ρ → World σ ω ρ π → Prop} {E : Exn → World σ ω ρ π → Prop}
    {S : World σ ω ρ π → Prop} {w : World σ ω ρ π}
    (hS : w.sys.choice.stop = true → S (w.noted call).next)
    (hE : ∀ e, w.sys.choice.stop = false → w.sys.choice.outcome = .error e →
      E e (w.noted call).next)
    (hQ : ∀ o, w.sys.choice.stop = false → w.sys.choice.outcome = .ok o →
      Q o ((w.noted call).next.noted (answer o))) :
    wp (do
      note call
      let outcome ← onSys callOpen
      note (answer outcome)
      pure outcome) Q E S w := by
  rw [wp_bind, wp_note, wp_bind, wp_onSys, wp_callOpen]
  change if w.sys.choice.stop = true then _ else _
  split
  · exact hS ‹_›
  · rename_i hstop
    have hstop : w.sys.choice.stop = false := by simpa using hstop
    change match w.sys.choice.outcome with | .ok o => _ | .error e => _
    split
    · rw [wp_bind, wp_note, wp_pure]
      exact hQ _ hstop ‹_›
    · exact hE _ hstop ‹_›

end HsUploader
