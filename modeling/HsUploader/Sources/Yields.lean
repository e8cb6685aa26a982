import HsUploader.Core.Uploader

/-!
# What a generator yields

`iter_batches` is a generator, and whoever iterates over it sees the batches it yields, in order,
until it is exhausted or raises.  `Source.yields` is that loop.

## What is here

* `drain` — the resumptions in turn, up to the first that raises or is stopped.
* `Source.yields` and `Source.yielded` — the loop over a source's generator, and its batches.

The uploader's own loop stops earlier: at a failed batch, at a budget, or when the gate says no.
-/

set_option autoImplicit false

namespace HsUploader

open Prog

variable {σ ω ρ : Type}

/-- The batches that these resumptions yield, and the exception that ended them if one did. -/
def drain : List (SysM σ ω ρ (Option (RecordBatch ρ))) →
    SysM σ ω ρ (List (RecordBatch ρ) × Option Exn)
  | [] => pure ([], none)
  | p :: rest => do
    match ← attempt p with
    | .error e => pure ([], some e)
    | .ok b => do
      let r ← drain rest
      pure (b.toList ++ r.1, r.2)

/-- `list(source.iter_batches(cursor, limit))`, up to an exception. -/
def Source.yields (source : Source σ ω ρ) (cursor : Bytes) (limit : ℤ) :
    SysM σ ω ρ (List (RecordBatch ρ) × Option Exn) := do
  match ← attempt (source.iterBatches cursor limit) with
  | .error e => pure ([], some e)
  | .ok rest => drain rest

/-- The batches, and the exception if there is one; nothing for a process that is stopped. -/
def Source.yielded (source : Source σ ω ρ) (cursor : Bytes) (limit : ℤ) (s : Sys σ ω ρ) :
    List (RecordBatch ρ) × Option Exn :=
  match (source.yields cursor limit s).1 with
  | .ok r => r
  | _ => ([], none)

/-- What every end of the loop says of its batches holds of the batches. -/
theorem Source.forall_yielded {source : Source σ ω ρ} {cursor : Bytes} {limit : ℤ} {s : Sys σ ω ρ}
    {P : RecordBatch ρ → Sys σ ω ρ → Prop} {S : Sys σ ω ρ → Prop}
    (h : wp (source.yields cursor limit) (fun r s' ↦ ∀ b ∈ r.1, P b s') (fun _ _ ↦ True) S s) :
    ∀ b ∈ (source.yielded cursor limit s).1, P b (source.yields cursor limit s).2 := by
  unfold Prog.wp at h
  rw [yielded]
  rcases hr : source.yields cursor limit s with ⟨_ | _ | _ | _, s'⟩ <;> rw [hr] at h
  · exact h
  all_goals exact fun _ hb ↦ nomatch hb

end HsUploader
