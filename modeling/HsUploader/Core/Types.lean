import Mathlib.Data.Rat.Floor
import HsUploader.Bytes

/-!
# Records, batches, outcomes and policies

The data that flows from a source to a transport, and what a transport answers.  The type `ρ` of a
batch's records is a parameter: a source of queue rows keeps each record beside the row it was made
from, which is how later statements can say which rows a batch carried.

Times are rational seconds since the epoch.  The store keeps them as ISO texts of whole seconds,
whose text order is the order of the instants; here a stored time is that number of seconds.  Only
the years 1 to 9999 have such a text: `iso` raises elsewhere, as the `datetime` it goes through
does.

A clock reading is a time of these years by its type (`Reading`), so a text can be made of what the
clock says.  A reading plus a delay may lie past them.

## What is here

* `fromTimestamp`, `wholeSeconds` and `iso` — how a clock reading becomes a stored time: to the
  nearest microsecond, a half to the even one, and then cut to whole seconds.
* `Datable` and `Reading` — the instants that have a text, and a clock reading, which is one of
  them.
* `Record`, `RecordBatch`, `Outcome` — what goes to a transport and what comes back.  The kind of an
  outcome is a text in the source, so `OutcomeKind` has a case for texts that are none of the four.
* `BatchPolicy` and `RetryPolicy` — the settings a pump reads.  `RetryPolicy.delayFor` is a power of
  two times a base, and raises where the power is past the floats.
* `RetryPolicy.Delays` — an attempt can be given a time: there is a delay, and its end has a text.
-/

set_option autoImplicit false

namespace HsUploader

/-- A UTC instant in microseconds since the epoch: the resolution of a Python `datetime`. -/
abbrev Instant := ℤ

/-- A stored time: an ISO text of whole seconds, by the seconds since the epoch it names. -/
abbrev Stamp := ℤ

/-- The nearest integer, a half going to the even one. -/
def roundHalfEven (q : ℚ) : ℤ :=
  let f := ⌊q⌋
  let d := q - f
  if d < 1 / 2 then f
  else if 1 / 2 < d then f + 1
  else if f % 2 = 0 then f else f + 1

/-- `datetime.fromtimestamp(epoch, tz=utc)`: a clock reading to the nearest microsecond. -/
def fromTimestamp (epoch : ℚ) : Instant := roundHalfEven (epoch * 1000000)

/-- The whole seconds of an instant. -/
def wholeSeconds (epoch : ℚ) : Stamp := fromTimestamp epoch / 1000000

/-- The last second of the year 9999. -/
def lastSecond : Stamp := 253402300799

/-- A `datetime` can hold the instant: it lies in the years 1 to 9999. -/
def Datable (epoch : ℚ) : Prop :=
  -62135596800 ≤ wholeSeconds epoch ∧ wholeSeconds epoch ≤ lastSecond

instance : DecidablePred Datable := fun epoch ↦
  inferInstanceAs (Decidable (-62135596800 ≤ wholeSeconds epoch ∧ wholeSeconds epoch ≤ lastSecond))

/-- `_iso(epoch)`: the instant's text, cut to whole seconds.  `datetime.fromtimestamp` raises where
no `datetime` holds the instant. -/
def iso (epoch : ℚ) : Except Exn Stamp :=
  if Datable epoch then .ok (wholeSeconds epoch)
  else .error (.valueError "year is out of range")

theorem iso_eq_error {epoch : ℚ} : (∃ e, iso epoch = .error e) ↔ ¬ Datable epoch := by
  rw [iso]
  split <;> simp [*]

/-- What a clock reads: an instant that a `datetime` can hold. -/
structure Reading where
  epoch : ℚ
  datable : Datable epoch

namespace Reading

instance : Coe Reading ℚ := ⟨Reading.epoch⟩

/-- The text of a reading. -/
def iso (r : Reading) : Stamp := wholeSeconds r.epoch

theorem iso_epoch (r : Reading) : HsUploader.iso r.epoch = .ok r.iso := if_pos r.datable

theorem datable_zero : Datable 0 := by
  constructor <;> norm_num [wholeSeconds, fromTimestamp, roundHalfEven, lastSecond]

/-- The reading `q` seconds after the epoch, while there are years to name it. -/
def of (q : ℚ) : Reading := if h : Datable q then ⟨q, h⟩ else ⟨0, datable_zero⟩

theorem epoch_of {q : ℚ} (h : Datable q) : (of q).epoch = q := by
  rw [of, dif_pos h]

instance (n : ℕ) : OfNat Reading n := ⟨.of n⟩

end Reading

/-- One unit of data flowing from a source into a transport: `Record`. -/
structure Record where
  /-- The logical source table, the routing key of the transports. -/
  table : String
  /-- The observation time. -/
  time : Instant
  /-- The row-shaped payload of a spot transport. -/
  columns : List (String × Json) := []
  dedupKey : Option Bytes := none
  /-- The file that holds the bytes, for a dataset-shaped transport. -/
  payloadPath : Option String := none

/-- `RecordBatch`: records, the cursor to advance to once the transport acks, and the token the
source cleans up with. -/
structure RecordBatch (ρ : Type) where
  records : List ρ
  cursorAfter : Bytes
  commitToken : Bytes := []

/-- The `kind` of an outcome.  `other` is any text that is none of the four. -/
inductive OutcomeKind where
  | acked
  | retryLater
  | partialAck
  | permanent
  | other (kind : String)
  deriving DecidableEq, Repr

/-- `Outcome`: what a transport answers to one `ship` or `replay`. -/
structure Outcome (ρ : Type) where
  kind : OutcomeKind
  reason : String := ""
  acceptedCursor : Option Bytes := none
  rejected : List ρ := []

namespace Outcome

variable {ρ : Type}

/-- `Outcome.acked()`. -/
def acked : Outcome ρ := { kind := .acked }

/-- `Outcome.retry_later(reason)`. -/
def retryLater (reason : String) : Outcome ρ := { kind := .retryLater, reason }

/-- `Outcome.partial_ack(accepted_cursor, rejected, reason)`. -/
def partialAck (acceptedCursor : Bytes) (rejected : List ρ) (reason : String := "") : Outcome ρ :=
  { kind := .partialAck, reason, acceptedCursor := some acceptedCursor, rejected }

/-- `Outcome.permanent_failure(reason)`. -/
def permanentFailure (reason : String) : Outcome ρ := { kind := .permanent, reason }

/-- `outcome.succeeded`. -/
def succeeded (o : Outcome ρ) : Bool := o.kind = .acked || o.kind = .partialAck

theorem succeeded_iff {o : Outcome ρ} :
    o.succeeded = true ↔ o.kind = .acked ∨ o.kind = .partialAck := by
  rw [succeeded, Bool.or_eq_true, decide_eq_true_eq, decide_eq_true_eq]

end Outcome

/-- `BatchPolicy`, the part of it the orchestrator reads. -/
structure BatchPolicy where
  maxRecords : ℤ := 1000
  deriving Repr

/-- `RetryPolicy`: exponential backoff with a cap, plus an attempt limit. -/
structure RetryPolicy where
  base : ℚ := 2
  capSec : ℚ := 300
  maxAttempts : ℤ := 12

/-- `delay_for(attempt)`: the seconds to wait before an attempt.  A power beyond the range of a
float raises. -/
def RetryPolicy.delayFor (p : RetryPolicy) (attempt : ℤ) : Except Exn ℚ :=
  if attempt < 0 then .ok 0
  else
    let power := p.base ^ attempt.toNat
    if |power| < 2 ^ 1024 then .ok (min power p.capSec)
    else .error (.overflowError "(34, 'Numerical result out of range')")

/-- From this reading on an attempt can be given a time: it has a delay, and a text can be made of
the end of the delay. -/
def RetryPolicy.Delays (p : RetryPolicy) (attempt : ℤ) (now : Reading) : Prop :=
  ∃ delay, p.delayFor attempt = .ok delay ∧ Datable (now + delay)

instance (p : RetryPolicy) (attempt : ℤ) (now : Reading) : Decidable (p.Delays attempt now) :=
  match h : p.delayFor attempt with
  | .ok delay => decidable_of_iff (Datable (now + delay))
      ⟨fun hdatable ↦ ⟨delay, h, hdatable⟩, fun ⟨_, hdelay, hdatable⟩ ↦
        Except.ok.inj (h.symm.trans hdelay) ▸ hdatable⟩
  | .error _ => .isFalse fun ⟨_, hdelay, _⟩ ↦ nomatch h.symm.trans hdelay

end HsUploader
