import HsUploader.Core.RetryQueue
import HsUploader.Core.TwoPumps
import HsUploader.Core.Watched
import HsUploader.Library.Liberal
import HsUploader.Library.Trace
import HsUploader.Watermark.Attempts

/-!
# The send log tells the truth

A row of `attempts` that says `acked` or `partial_ack`, and a row of `last_send`, stand for a
payload the transport accepted.  What a run did is a list of `Act`s: the answers, the advances of
send records, the commits that came back and the attempts that were recorded.  `Accounts` ties the
list to the run: carried out from the store the run started in, the acts make the send records and
the logs it ended with, and they hold its answers and its commits in their order.  `Vouched` is
what has to stand before a row is recorded for the row to be true.

A replay that answers `partial_ack`, or a kind that is none of the four, is recorded as acked with
no send record advanced and nothing committed.  Every other row is vouched for
(`pumps_tellsTruth`).

## The accounts

The tables `attempts` and `last_send` are written after the outcome of a call is known, by the
process that made the call, and after the send record was advanced and the source told.  `Vouched`
lists what has to have been done by then.  A pump is watched (`watchedPumps`): its steps are the
steps of the pump and its acts are kept beside them, so that the acts are part of what is proved
and not an argument of it.
-/

set_option autoImplicit false

namespace HsUploader

open Prog

variable {σ ω ρ π α : Type}

/-! ## The log of a store -/

/-- The store without its queue and its dead letters: the send records and the logs. -/
def Store.log (s : Store π) : Store π :=
  { s with deliverables := [], deliverableSeq := 0, deadLetter := [] }

namespace Store

variable (s : Store π)

theorem log_recordAttempt (a : Attempt) (ls : Bool) :
    (s.recordAttempt a ls).log = s.log.recordAttempt a ls := by
  cases s
  rfl

theorem log_advanceCursor (key : SendKey) (cursor : Bytes) (lastAck : Stamp)
    (isAfter : Bytes → Bytes → Except Exn Bool) :
    (s.advanceCursor key cursor lastAck isAfter).2.log =
      (s.log.advanceCursor key cursor lastAck isAfter).2 := by
  have hlog : s.log.watermarks = s.watermarks := rfl
  rw [advanceCursor, advanceCursor, hlog]
  repeat' split
  all_goals rfl

theorem log_enqueueDeliverable (d : Deliverable π) : (s.enqueueDeliverable d).log = s.log := by
  rw [enqueueDeliverable]
  split <;> rfl

theorem log_popDueDeliverable (p : String) (now : Stamp) :
    (s.popDueDeliverable p now).2.log = s.log := by
  rw [popDueDeliverable]
  split <;> rfl

theorem log_requeueDeliverable {s' : Store π} {d : Deliverable π}
    (h : s.requeueDeliverable d = .ok s') : s'.log = s.log := by
  rw [requeueDeliverable] at h
  split at h <;> cases h
  rfl

end Store

/-- The send record stands at the cursor, or the cursor is not after it.  The empty cursor is where
every record starts. -/
def AtOrPast (isAfter : Bytes → Bytes → Except Exn Bool) (s : Store π) (key : SendKey)
    (cursor : Bytes) : Prop :=
  cursor = [] ∨ ∃ stored, s.getCursor key = .ok stored ∧
    (stored = cursor ∨ isAfter cursor stored = .ok false)

/-- **After an advance the record stands at the cursor or past it**, whatever came of the
comparison. -/
theorem atOrPast_advanceCursor (s : Store π) (key : SendKey) (cursor : Bytes) (lastAck : Stamp)
    (isAfter : Bytes → Bytes → Except Exn Bool) :
    AtOrPast isAfter (s.advanceCursor key cursor lastAck isAfter).2 key cursor := by
  refine .inr ?_
  rw [Store.getCursor, Store.lookup_advanceCursor]
  dsimp only
  cases hlook : Table.lookup key s.watermarks with
  | none => exact ⟨cursor, rfl, .inl rfl⟩
  | some r =>
    rw [advancedRecord]
    cases hcell : r.cursor.toBytes with
    | error e => exact ⟨cursor, rfl, .inl rfl⟩
    | ok stored =>
      dsimp only
      have hbehind (b : Bool) (h : Store.compareCursors isAfter cursor stored = .ok (false, b)) :
          isAfter cursor stored = .ok false := by
        rw [Store.compareCursors] at h
        cases ha : isAfter cursor stored with
        | error e =>
          rw [ha] at h
          cases h
        | ok after =>
          rw [ha] at h
          change (if after || cursor = stored then _ else _ : Except Exn (Bool × Bool)) = _ at h
          split at h
          · cases h
            rfl
          · obtain ⟨before, -, h⟩ := exists_of_bind_eq_ok h
            cases h
            rfl
      split
      · exact ⟨cursor, rfl, .inl rfl⟩
      · exact ⟨cursor, rfl, .inl rfl⟩
      next h => exact ⟨stored, hcell, .inr (hbehind _ h)⟩
      next h => exact ⟨stored, hcell, .inr (hbehind _ h)⟩

/-! ## What a run did -/

/-- The kind that the transport answered. -/
def Event.kind? : Event ρ π → Option OutcomeKind
  | .shipped _ o | .replayed _ o => some o.kind
  | _ => none

/-- The transport answered. -/
def Event.isAnswer (e : Event ρ π) : Bool := e.kind?.isSome

/-- A kind that `_handle_outcome` has a branch of its own for. -/
def OutcomeKind.Handled : OutcomeKind → Prop
  | .acked | .retryLater | .permanent => True
  | .partialAck | .other _ => False

instance : DecidablePred OutcomeKind.Handled
  | .acked | .retryLater | .permanent => isTrue trivial
  | .partialAck | .other _ => isFalse id

namespace SendLog

/-- What a pump does that the send log speaks of. -/
inductive Act (σ ω ρ π : Type) where
  /-- The pipeline's transport answered. -/
  | answered (pipe : Pipeline σ ω ρ π) (e : Event ρ π)
  /-- A send record was advanced, in the order of the pipeline's source. -/
  | advanced (pipe : Pipeline σ ω ρ π) (key : SendKey) (cursor : Bytes) (lastAck : Stamp)
  /-- A commit came back. -/
  | committed (sourceId : String) (token : Bytes)
  /-- An attempt was recorded. -/
  | recorded (a : Attempt) (lastSend : Bool)

namespace Act

/-- What the act makes of the store. -/
def apply (s : Store π) : Act σ ω ρ π → Store π
  | .advanced pipe key cursor lastAck =>
    (s.advanceCursor key cursor lastAck (isAfterFor pipe.source)).2
  | .recorded a lastSend => s.recordAttempt a lastSend
  | .answered _ _ | .committed _ _ => s

/-- The commit it is. -/
def commit? : Act σ ω ρ π → Option (String × Bytes)
  | .committed sourceId token => some (sourceId, token)
  | _ => none

/-- The answer it is. -/
def event? : Act σ ω ρ π → Option (Event ρ π)
  | .answered _ e => some e
  | _ => none

end Act

/-- The acts are what the run from `w` to `W` did. -/
structure Accounts (w : World σ ω ρ π) (acts : List (Act σ ω ρ π))
    (W : World (σ × Commits) ω ρ π) : Prop where
  log : acts.foldl Act.apply w.store.log = W.store.log
  commits : acts.filterMap Act.commit? = W.sys.here.2
  answers : w.trace.filter Event.isAnswer ++ acts.filterMap Act.event? =
    W.trace.filter Event.isAnswer

/-! ## What makes a row true -/

/-- The outcomes of a payload that was accepted. -/
def Accepted (outcome : String) : Prop := outcome = "acked" ∨ outcome = "partial_ack"

instance : DecidablePred Accepted := fun outcome ↦
  inferInstanceAs (Decidable (outcome = "acked" ∨ outcome = "partial_ack"))

/-- The answer accepts a payload: as what it is recorded, whose send record it concerns, up to which
cursor, and with which token the source is told. -/
inductive Accepts (pipe : Pipeline σ ω ρ π) :
    Event ρ π → String → SendKey → Bytes → Bytes → Prop where
  | acked (batch : RecordBatch ρ) (o : Outcome ρ) : o.kind = .acked →
    Accepts pipe (.shipped batch o) "acked" pipe.key batch.cursorAfter batch.commitToken
  | inPart (batch : RecordBatch ρ) (o : Outcome ρ) : o.kind = .partialAck →
    Accepts pipe (.shipped batch o) "partial_ack" pipe.key (o.acceptedOr batch.cursorAfter)
      batch.commitToken
  | onRetry (d : Deliverable π) (o : Outcome ρ) : o.kind = .acked →
    Accepts pipe (.replayed d o) "acked" (d.key pipe) d.cursorAfter d.commitToken

/-- What is done before the row is recorded: one of the pipelines had a payload accepted, advanced no
send record but that payload's, which now stands at the accepted cursor or past it, and had its
source's commit come back with the payload's token. -/
structure Vouched (pipes : List (Pipeline σ ω ρ π)) (s : Store π) (before : List (Act σ ω ρ π))
    (a : Attempt) : Prop where
  exists_payload : ∃ pipe ∈ pipes, ∃ e key cursor token earlier moved,
    Accepts pipe e a.outcome key cursor token ∧
    before = earlier ++ .answered pipe e ::
      (moved ++ [.committed pipe.source.sourceId token]) ∧
    (∀ x ∈ moved, ∃ ts, x = .advanced pipe key cursor ts) ∧
    AtOrPast (isAfterFor pipe.source) (before.foldl Act.apply s) key cursor ∧
    a.key = pipe.key ∧ a.pipeline = pipe.name ∧ a.client = pipe.client

/-- Each row that says so stands for a payload, or stood there before. -/
structure TellsTruth (pipes : List (Pipeline σ ω ρ π)) (w : World σ ω ρ π)
    (acts : List (Act σ ω ρ π)) (W : World (σ × Commits) ω ρ π) : Prop where
  accounts : Accounts w acts W
  attempts : ∀ row ∈ W.store.attempts, Accepted row.outcome → row ∈ w.store.attempts ∨
    ∃ before a ls after, acts = before ++ .recorded a ls :: after ∧
      row = AttemptLog.row w.store.v3 a ∧ Vouched pipes w.store.log before a
  lastSend : ∀ x ∈ W.store.lastSend, x ∈ w.store.lastSend ∨
    ∃ before a after, acts = before ++ .recorded a true :: after ∧
      x = ((a.client, a.pipeline), ⟨a.outcome, a.ts, a.records⟩) ∧
      Vouched pipes w.store.log before a

/-! ## Acts that vouch for what is recorded -/

/-- No replay among the acts answered a kind that has no branch of its own. -/
def AllHandled (acts : List (Act σ ω ρ π)) : Prop :=
  ∀ pipe d o, .answered pipe (.replayed d o) ∈ acts → o.kind.Handled

/-- What is recorded as accepted has been vouched for, unless a replay answered something odd. -/
def Kept (pipes : List (Pipeline σ ω ρ π)) (s : Store π) (acts : List (Act σ ω ρ π)) : Prop :=
  AllHandled acts → ∀ a ls, Accepted a.outcome →
    Trace.Preceded (· = .recorded a ls) (fun before ↦ Vouched pipes s before a) acts

section kept

variable {pipes : List (Pipeline σ ω ρ π)} {s : Store π} {acts : List (Act σ ω ρ π)}
  {x : Act σ ω ρ π}

theorem AllHandled.of_append {acts' : List (Act σ ω ρ π)} (h : AllHandled (acts ++ acts')) :
    AllHandled acts :=
  fun pipe d o hmem ↦ h pipe d o (List.mem_append_left _ hmem)

theorem Kept.concat (h : Kept pipes s acts)
    (hx : AllHandled acts → ∀ a ls, x = .recorded a ls → Accepted a.outcome →
      Vouched pipes s acts a) : Kept pipes s (acts ++ [x]) := fun hodd a ls ha ↦
  Trace.preceded_concat.mpr
    ⟨h hodd.of_append a ls ha, fun heq ↦ hx hodd.of_append a ls heq ha⟩

/-- An act that records nothing. -/
theorem Kept.quiet (h : Kept pipes s acts) (hx : ∀ a ls, x ≠ .recorded a ls) :
    Kept pipes s (acts ++ [x]) :=
  h.concat fun _ a ls heq ↦ absurd heq (hx a ls)

end kept

/-- So far the acts account for the run, and the rows are vouched for. -/
def Truth (pipes : List (Pipeline σ ω ρ π)) (w : World σ ω ρ π) (W : World (σ × Commits) ω ρ π) :
    Prop :=
  ∃ acts, Accounts w acts W ∧ Kept pipes w.store.log acts

/-! ## One step -/

namespace Accounts

section steps

variable {pipes : List (Pipeline σ ω ρ π)} {w : World σ ω ρ π} {acts acts' : List (Act σ ω ρ π)}
  {W : World (σ × Commits) ω ρ π}

/-- A note that is no answer. -/
theorem noted (h : Accounts w acts W) {e : Event ρ π} (he : e.isAnswer = false) :
    Accounts w acts (W.noted e) := by
  refine ⟨h.log, h.commits, ?_⟩
  rw [World.noted, List.filter_append, ← h.answers, List.filter_cons_of_neg (by simp [he]),
    List.filter_nil, List.append_nil]

/-- An answer. -/
theorem answered (h : Accounts w acts W) (pipe : Pipeline σ ω ρ π) {e : Event ρ π}
    (he : e.isAnswer = true) : Accounts w (acts ++ [.answered pipe e]) (W.noted e) := by
  refine ⟨?_, ?_, ?_⟩
  · rw [List.foldl_append, h.log]
    rfl
  · rw [List.filterMap_append, h.commits]
    exact List.append_nil _
  · rw [World.noted, List.filter_append, ← h.answers, List.filter_cons_of_pos he,
      List.filterMap_append, List.append_assoc]
    rfl

variable (h : Accounts w acts W) (hk : Kept pipes w.store.log acts)
include h hk

/-- A program of the source or the transport. -/
theorem onSys (p : SysM σ ω ρ α) :
    wlp (onSys (beside p)) (fun _ W' ↦ Accounts w acts W') (Truth pipes w) W := by
  rw [HsUploader.onSys, wlp_zoom, beside, wlp_zoom]
  exact wlp_of_forall (fun _ _ ↦ ⟨h.log, h.commits, h.answers⟩)
    fun _ ↦ ⟨acts, ⟨h.log, h.commits, h.answers⟩, hk⟩

/-- **A commit** that comes back. -/
theorem commit (pipe : Pipeline σ ω ρ π) (token : Bytes) :
    wlp (HsUploader.onSys (pipe.watched.source.commit token))
      (fun _ W' ↦ Accounts w (acts ++ [.committed pipe.source.sourceId token]) W')
      (Truth pipes w) W := by
  simp only [HsUploader.onSys, Pipeline.watched, Source.watched, wlp_zoom, wlp_bind, beside]
  refine wlp_of_forall (fun _ _ ↦ ?_) fun _ ↦ ⟨acts, ⟨h.log, h.commits, h.answers⟩, hk⟩
  refine ⟨?_, ?_, ?_⟩
  · rw [List.foldl_append, h.log]
    rfl
  · rw [List.filterMap_append, h.commits]
    rfl
  · rw [List.filterMap_append, ← List.append_assoc, h.answers]
    exact List.append_nil _

variable [Surroundings ω σ]

theorem breathe :
    wlp (HsUploader.onSys Sys.breathe) (fun _ W' ↦ Accounts w acts W') (Truth pipes w) W := by
  have hnext : Accounts w acts W.next := by
    refine ⟨h.log, ?_, h.answers⟩
    rw [h.commits, World.next, Sys.next]
    exact (congrArg Prod.snd (Forgets.foldl_react _ _ _)).symm
  rw [HsUploader.onSys, wlp_zoom, wlp, Sys.breathe]
  cases W.sys.choice.stop with
  | true => exact ⟨acts, hnext, hk⟩
  | false => exact hnext

theorem readNow :
    wlp HsUploader.readNow (fun _ W' ↦ Accounts w acts W') (Truth pipes w) W := by
  rw [HsUploader.readNow, wlp_bind]
  exact h.breathe hk

theorem maySend (u : Uploader) :
    wlp (HsUploader.maySend u) (fun _ W' ↦ Accounts w acts W') (Truth pipes w) W := by
  rw [HsUploader.maySend]
  split
  · rw [wlp_bind]
    refine wlp_mono_ok (h.breathe hk) fun _ W' h' ↦ ?_
    rw [wlp_bind, HsUploader.note, wlp_modify]
    exact h'.noted rfl
  · exact h

/-- A step of the store that does what the acts say. -/
theorem onStoreE {f : Store π → Except Exn (α × Store π)}
    (hlog : ∀ s r, f s = .ok r → acts.foldl Act.apply w.store.log = s.log →
      acts'.foldl Act.apply w.store.log = r.2.log)
    (hcommits : acts'.filterMap Act.commit? = acts.filterMap Act.commit?)
    (hevents : acts'.filterMap Act.event? = acts.filterMap Act.event?) :
    wlp (HsUploader.onStoreE f) (fun _ W' ↦ Accounts w acts' W') (Truth pipes w) W := by
  rw [HsUploader.onStoreE, wlp_bind]
  refine wlp_mono_ok (h.breathe hk) fun _ W' h' ↦ ?_
  rw [wlp_actE]
  cases hf : f W'.store with
  | error e => exact ⟨acts, h', hk⟩
  | ok r => exact ⟨hlog _ r hf h'.log, hcommits.trans h'.commits, by rw [hevents]; exact h'.answers⟩

theorem onStore {f : Store π → α × Store π}
    (hlog : ∀ s, acts.foldl Act.apply w.store.log = s.log →
      acts'.foldl Act.apply w.store.log = (f s).2.log)
    (hcommits : acts'.filterMap Act.commit? = acts.filterMap Act.commit?)
    (hevents : acts'.filterMap Act.event? = acts.filterMap Act.event?) :
    wlp (HsUploader.onStore f) (fun _ W' ↦ Accounts w acts' W') (Truth pipes w) W := by
  rw [HsUploader.onStore, wlp_bind]
  refine wlp_mono_ok (h.breathe hk) fun _ W' h' ↦ ?_
  exact ⟨hlog _ h'.log, hcommits.trans h'.commits, by rw [hevents]; exact h'.answers⟩

/-- A step of the store that leaves the log alone. -/
theorem quietly {f : Store π → α × Store π} (hlog : ∀ s, (f s).2.log = s.log) :
    wlp (HsUploader.onStore f) (fun _ W' ↦ Accounts w acts W') (Truth pipes w) W :=
  h.onStore hk (fun s hs ↦ hs.trans (hlog s).symm) rfl rfl

/-- **An advance.** -/
theorem advance (pipe : Pipeline σ ω ρ π) (key : SendKey) (cursor : Bytes) (ts : Stamp) :
    wlp (HsUploader.advance pipe.watched key cursor ts)
      (fun _ W' ↦ Accounts w (acts ++ [.advanced pipe key cursor ts]) W') (Truth pipes w) W := by
  refine h.onStore hk (fun s hs ↦ ?_) ?_ ?_
  · rw [List.foldl_append, hs, Store.log_advanceCursor]
    rfl
  · rw [List.filterMap_append]
    exact List.append_nil _
  · rw [List.filterMap_append]
    exact List.append_nil _

/-- **A row** of the attempts. -/
theorem recordAttempt (pipe : Pipeline σ ω ρ π) (ts : Stamp) (outcome : String)
    (records bytes : Option ℤ) (error : Option String) :
    wlp (HsUploader.recordAttempt pipe.watched ts outcome records bytes error)
      (fun _ W' ↦ Accounts w (acts ++ [.recorded
        { ts, key := pipe.key, outcome, records, bytes, error
          pipeline := pipe.name, client := pipe.client } pipe.transport.ships]) W')
      (Truth pipes w) W := by
  refine h.onStore hk (fun s hs ↦ ?_) ?_ ?_
  · rw [List.foldl_append, hs, Store.log_recordAttempt]
    rfl
  · rw [List.filterMap_append]
    exact List.append_nil _
  · rw [List.filterMap_append]
    exact List.append_nil _

end steps

end Accounts

/-! ## An answer and what follows it -/

section handlers

variable [Surroundings ω σ] {pipes : List (Pipeline σ ω ρ π)} {pipe : Pipeline σ ω ρ π}
  {w : World σ ω ρ π} {acts earlier moved : List (Act σ ω ρ π)} {W : World (σ × Commits) ω ρ π}
  {e : Event ρ π} {outcome : String} {key : SendKey} {cursor token : Bytes}

/-- A row that does not say that a payload was accepted. -/
theorem Accounts.recordQuietly (h : Accounts w acts W) (hk : Kept pipes w.store.log acts)
    (ho : ¬ Accepted outcome) (ts : Stamp) (records bytes : Option ℤ) (error : Option String) :
    wlp (HsUploader.recordAttempt pipe.watched ts outcome records bytes error) (fun _ ↦ Truth pipes w)
      (Truth pipes w) W := by
  refine wlp_mono_ok (h.recordAttempt hk pipe ts outcome records bytes error) fun _ W' h' ↦ ?_
  refine ⟨_, h', hk.concat fun _ a ls heq ha ↦ absurd ha ?_⟩
  cases heq
  exact ho

/-- **The row of an accepted payload**, once its send record stands where it should. -/
theorem Accounts.commitAndRecord (hpipe : pipe ∈ pipes)
    (ha : Accepts pipe e outcome key cursor token)
    (hmoved : ∀ x ∈ moved, ∃ ts, x = .advanced pipe key cursor ts)
    (hat : AtOrPast (isAfterFor pipe.source)
      ((earlier ++ .answered pipe e :: moved).foldl Act.apply w.store.log) key cursor)
    (h : Accounts w (earlier ++ .answered pipe e :: moved) W)
    (hk : Kept pipes w.store.log (earlier ++ .answered pipe e :: moved)) (ts : Stamp)
    (records bytes : Option ℤ) (error : Option String) :
    wlp (do
      HsUploader.onSys (pipe.watched.source.commit token)
      HsUploader.recordAttempt pipe.watched ts outcome records bytes error)
      (fun _ ↦ Truth pipes w) (Truth pipes w) W := by
  rw [wlp_bind]
  refine wlp_mono_ok (h.commit hk pipe token) fun _ W' h' ↦ ?_
  have hk' : Kept pipes w.store.log _ := hk.quiet (x := .committed pipe.source.sourceId token) nofun
  refine wlp_mono_ok (h'.recordAttempt hk' pipe ts outcome records bytes error) fun _ W'' h'' ↦ ?_
  refine ⟨_, h'', hk'.concat fun _ a ls heq _ ↦ ?_⟩
  cases heq
  refine ⟨pipe, hpipe, e, key, cursor, token, earlier, moved, ha, by simp, hmoved, ?_, rfl, rfl, rfl⟩
  rw [List.foldl_append]
  exact hat

/-- The send record is advanced first. -/
theorem Accounts.advanceAndRecord (hpipe : pipe ∈ pipes)
    (ha : Accepts pipe e outcome key cursor token) (h : Accounts w (acts ++ [.answered pipe e]) W)
    (hk : Kept pipes w.store.log (acts ++ [.answered pipe e])) (ts : Stamp)
    (records bytes : Option ℤ) (error : Option String) :
    wlp (do
      let _ ← HsUploader.advance pipe.watched key cursor ts
      HsUploader.onSys (pipe.watched.source.commit token)
      HsUploader.recordAttempt pipe.watched ts outcome records bytes error)
      (fun _ ↦ Truth pipes w) (Truth pipes w) W := by
  rw [wlp_bind]
  refine wlp_mono_ok (h.advance hk pipe key cursor ts) fun _ W' h' ↦ ?_
  have hk' := hk.quiet (x := .advanced pipe key cursor ts) nofun
  have heq : acts ++ [.answered pipe e] ++ [.advanced pipe key cursor ts] =
      acts ++ .answered pipe e :: [.advanced pipe key cursor ts] := by simp
  rw [heq] at h' hk'
  refine h'.commitAndRecord hpipe ha (fun x hx ↦ ⟨ts, List.mem_singleton.mp hx⟩) ?_ hk' ..
  rw [← heq, List.foldl_append]
  exact atOrPast_advanceCursor ..

theorem not_accepted {outcome : String} (h : outcome ≠ "acked") (h' : outcome ≠ "partial_ack") :
    ¬ Accepted outcome := not_or.mpr ⟨h, h'⟩

/-- **The first attempt** vouches for what it records. -/
theorem stays_attempted (hpipe : pipe ∈ pipes) (batch : RecordBatch ρ) :
    Stays (Truth pipes w) (attempted pipe.watched batch) := by
  rw [stays_iff]
  rintro W ⟨acts, h, hk⟩
  rw [attempted, wlp_bind, callShip, wlp_bind, note, wlp_modify, wlp_bind]
  refine wlp_mono_ok ((h.noted rfl).onSys hk _) fun o W h ↦ ?_
  rw [wlp_bind, note, wlp_modify, wlp_pure, wlp_bind]
  have hanswered := h.answered pipe (e := .shipped batch o) rfl
  have hk' := hk.quiet (x := .answered pipe (.shipped batch o)) fun _ _ h ↦ by cases h
  refine wlp_mono_ok (hanswered.readNow hk') fun now W h ↦ ?_
  rw [wlp_bind, handleFirstAttempt]
  change wlp _ (fun _ ↦ Truth pipes w) (Truth pipes w) W
  split
  next ho => exact h.advanceAndRecord hpipe (.acked batch o ho) hk' ..
  next ho => exact h.advanceAndRecord hpipe (.inPart batch o ho) hk' ..
  · rw [wlp_bind]
    refine wlp_mono_ok (h.onSys hk' _) fun payload W h ↦ ?_
    rw [wlp_bind, wlp_ofExcept]
    split
    · rw [wlp_bind, wlp_ofExcept]
      split
      · rw [wlp_bind]
        refine wlp_mono_ok (h.quietly hk' fun s ↦ s.log_enqueueDeliverable _) fun _ W h ↦ ?_
        exact h.recordQuietly hk' (not_accepted (by decide) (by decide)) ..
      · exact ⟨_, h, hk'⟩
    · exact ⟨_, h, hk'⟩
  · rw [wlp_bind]
    refine wlp_mono_ok (h.onSys hk' _) fun payload W h ↦ ?_
    rw [wlp_bind]
    refine wlp_mono_ok (h.quietly hk' fun _ ↦ rfl) fun _ W h ↦ ?_
    exact h.recordQuietly hk' (not_accepted (by decide) (by decide)) ..
  · exact ⟨_, h, hk'⟩

/-- **A retry** vouches for what it records, unless its replay answered something odd. -/
theorem stays_retried (hpipe : pipe ∈ pipes) (d : Deliverable π) (now : Reading) :
    Stays (Truth pipes w) (retried pipe.watched d now) := by
  rw [stays_iff]
  rintro W ⟨acts, h, hk⟩
  rw [retried, wlp_bind, callReplay, wlp_bind, note, wlp_modify, wlp_bind]
  refine wlp_mono_ok ((h.noted rfl).onSys hk _) fun o W h ↦ ?_
  rw [wlp_bind, note, wlp_modify, wlp_pure, wlp_bind]
  have hanswered := h.answered pipe (e := .replayed d o) rfl
  have hk' := hk.quiet (x := .answered pipe (.replayed d o)) fun _ _ h ↦ by cases h
  change wlp _ (fun _ ↦ Truth pipes w) (Truth pipes w) _
  rw [handleOutcome]
  split
  next ho =>
    split
    · exact hanswered.advanceAndRecord hpipe (.onRetry d o ho) hk' ..
    next hnil =>
      have hmoved : ∀ x ∈ ([] : List (Act σ ω ρ π)),
          ∃ ts, x = .advanced pipe (d.key pipe) d.cursorAfter ts :=
        fun _ hx ↦ absurd hx List.not_mem_nil
      have hat (s : Store π) : AtOrPast (isAfterFor pipe.source) s (d.key pipe) d.cursorAfter :=
        Or.inl (not_not.mp hnil)
      exact Accounts.commitAndRecord hpipe (.onRetry d o ho) hmoved (hat _) hanswered hk' ..
  · dsimp only
    split
    · rw [wlp_bind]
      refine wlp_mono_ok (hanswered.quietly hk' fun _ ↦ rfl) fun _ W h ↦ ?_
      exact h.recordQuietly hk' (not_accepted (by decide) (by decide)) ..
    · rw [wlp_bind, wlp_ofExcept]
      split
      · rw [wlp_bind, wlp_ofExcept]
        split
        · rw [wlp_bind]
          refine wlp_mono_ok (hanswered.onStoreE hk' (fun s r hr hs ↦ ?_) rfl rfl) fun _ W h ↦ ?_
          · obtain ⟨s', hs', rfl⟩ := exists_of_map_eq_ok hr
            exact hs.trans (s.log_requeueDeliverable hs').symm
          · exact h.recordQuietly hk' (not_accepted (by decide) (by decide)) ..
        · exact ⟨_, hanswered, hk'⟩
      · exact ⟨_, hanswered, hk'⟩
  · rw [wlp_bind]
    refine wlp_mono_ok (hanswered.quietly hk' fun _ ↦ rfl) fun _ W h ↦ ?_
    exact h.recordQuietly hk' (not_accepted (by decide) (by decide)) ..
  all_goals
    -- recorded as acked all the same: nothing is claimed of a run with such an answer
    rename_i ho
    refine wlp_mono_ok (hanswered.recordAttempt hk' pipe ..) fun _ W h ↦
      ⟨_, h, hk'.concat fun hall ↦ ?_⟩
    have hodd := hall pipe d o (List.mem_append_right _ (List.mem_singleton_self _))
    rw [ho] at hodd
    exact hodd.elim

end handlers

/-! ## A run -/

/-- The pumps of these pipelines, watched. -/
def watchedPumps [Surroundings ω σ] (u : Uploader) (restart : σ → σ)
    (schedule : List (Pipeline σ ω ρ π)) (w : World σ ω ρ π) : World (σ × Commits) ω ρ π :=
  pumps u (Prod.map restart id) (schedule.map Pipeline.watched) w.watched

section run

variable {pipes : List (Pipeline σ ω ρ π)} {pipe : Pipeline σ ω ρ π} {w : World σ ω ρ π}

theorem stays_iter (source : Source σ ω ρ) (cursor : Bytes) (limit : ℤ) :
    Stays (Truth pipes w) (onSys (source.watched.iterBatches cursor limit)) := by
  rw [stays_iff]
  rintro W ⟨acts, h, hk⟩
  simp only [onSys, Source.watched, wlp_zoom, wlp_bind, beside]
  exact wlp_of_forall (fun _ _ ↦ ⟨acts, ⟨h.log, h.commits, h.answers⟩, hk⟩)
    fun _ ↦ ⟨acts, ⟨h.log, h.commits, h.answers⟩, hk⟩

/-- What keeps the acts that account for the run keeps the truth. -/
theorem stays_of_accounts {p : UM (σ × Commits) ω ρ π α}
    (h : ∀ acts W, Accounts w acts W → Kept pipes w.store.log acts →
      wlp p (fun _ W' ↦ Accounts w acts W') (Truth pipes w) W) : Stays (Truth pipes w) p := by
  rw [stays_iff]
  rintro W ⟨acts, hacts, hk⟩
  exact wlp_mono_ok (h acts W hacts hk) fun _ W' h' ↦ ⟨acts, h', hk⟩

variable [Surroundings ω σ]

/-- **The watched pump takes the pump's steps, and keeps the truth.** -/
theorem pumpPair (hpipe : pipe ∈ pipes) (u : Uploader) :
    PumpPair u pipe.watched pipe (fun W v ↦ Forgets W v ∧ Truth pipes w W) (fun _ ↦ True)
      (fun _ ↦ True) (· = ·) where
  budget := rfl
  maySend := (Forgets.maySend u).keeping (stays_of_accounts fun _ _ h hk ↦ h.maySend hk u)
  readNow := Forgets.readNow.keeping (stays_of_accounts fun _ _ h hk ↦ h.readNow hk)
  queued W v hW := by
    rw [← hW.1]
    rfl
  pop now := by
    have hpop : InStep (fun W v ↦ Forgets W v ∧ Truth pipes w W) (· = ·)
        (onStore fun s ↦ s.popDueDeliverable pipe.name now)
        (onStore fun s ↦ s.popDueDeliverable pipe.name now) :=
      (Forgets.onStore _).keeping (stays_of_accounts fun _ _ h hk ↦
        h.quietly hk fun s ↦ s.log_popDueDeliverable _ _)
    exact hpop.mono fun _ _ heq ↦ ⟨heq, fun _ _ ↦ trivial⟩
  retried d now _ := (Forgets.retried pipe d now).keeping (stays_retried hpipe d now)
  count := (Forgets.onStore _).keeping
    (stays_of_accounts fun _ _ h hk ↦ h.quietly hk fun _ ↦ rfl)
  cursor := (Forgets.onStoreE _).keeping (stays_of_accounts fun _ _ h hk ↦
    h.onStoreE hk (fun s r hr hs ↦ by
      obtain ⟨c, -, rfl⟩ := exists_of_map_eq_ok hr
      exact hs) rfl rfl)
  iter c c' hc := by
    subst hc
    have hstays : Stays (Truth pipes w) _ := stays_iter pipe.source c pipe.limit
    refine ((Forgets.iterBatches pipe.source c pipe.limit).keeping hstays).mono fun ps qs hpq ↦ ?_
    rw [hpq, List.forall₂_map_left_iff, List.forall₂_same]
    intro q _
    have hq : Stays (Truth pipes w) (onSys (beside q)) :=
      stays_of_accounts fun _ _ h hk ↦ h.onSys hk q
    exact ((Forgets.onSys (Forgets.beside q)).keeping hq).mono fun _ _ heq ↦
      ⟨heq, fun _ _ ↦ trivial⟩
  attempted batch _ := (Forgets.attempted pipe batch).keeping (stays_attempted hpipe batch)

/-- **Pump after pump**, whichever pipelines are pumped. -/
theorem truth_pumps (u : Uploader) (restart : σ → σ) {schedule : List (Pipeline σ ω ρ π)}
    (hpipes : ∀ pipe ∈ schedule, pipe ∈ pipes) {W : World (σ × Commits) ω ρ π} {v : World σ ω ρ π}
    (h : Forgets W v ∧ Truth pipes w W) :
    Forgets (pumps u (Prod.map restart id) (schedule.map Pipeline.watched) W)
        (pumps u restart schedule v) ∧
      Truth pipes w (pumps u (Prod.map restart id) (schedule.map Pipeline.watched) W) := by
  induction schedule generalizing W v with
  | nil => exact h
  | cons pipe schedule ih =>
    refine ih (fun p hp ↦ hpipes p (List.mem_cons_of_mem pipe hp)) ?_
    refine (pumpPair (hpipes pipe List.mem_cons_self) u).cycle ?_ h
    rintro W v ⟨rfl, acts, hacts, hk⟩
    exact ⟨rfl, acts, ⟨hacts.log, hacts.commits, hacts.answers⟩, hk⟩

end run

/-! ## The rows -/

section rows

variable {s : Store π} {acts : List (Act σ ω ρ π)}

theorem v3_acts : (acts.foldl Act.apply s).v3 = s.v3 := by
  induction acts using List.reverseRecOn with
  | nil => rfl
  | append_singleton acts x ih =>
    rw [List.foldl_append, ← ih]
    cases x with
    | answered pipe e => rfl
    | advanced pipe key cursor ts =>
      change (Store.advanceCursor _ _ _ _ _).2.v3 = _
      rw [Store.advanceCursor_rest]
    | committed id token => rfl
    | recorded a ls => exact AttemptLog.v3_store _ a ls

/-- **A row stood there or was recorded**, in a table that an advance leaves alone and a recorded
attempt adds at most one row to. -/
theorem exists_recorded {τ : Type} {rows : Store π → List τ} {P : Attempt → Bool → τ → Prop}
    {y : τ}
    (hadvance : ∀ (t : Store π) key cursor ts isAfter,
      rows (t.advanceCursor key cursor ts isAfter).2 = rows t)
    (hrecord : ∀ (t : Store π) a ls, t.v3 = s.v3 → y ∈ rows (t.recordAttempt a ls) →
      y ∈ rows t ∨ P a ls y)
    (h : y ∈ rows (acts.foldl Act.apply s)) :
    y ∈ rows s ∨ ∃ before a ls after, acts = before ++ .recorded a ls :: after ∧ P a ls y := by
  induction acts using List.reverseRecOn with
  | nil => exact .inl h
  | append_singleton acts x ih =>
    have hearlier (h : y ∈ rows (acts.foldl Act.apply s)) : y ∈ rows s ∨
        ∃ before a ls after, acts ++ [x] = before ++ .recorded a ls :: after ∧ P a ls y := by
      refine (ih h).imp_right ?_
      rintro ⟨before, a, ls, after, rfl, hP⟩
      exact ⟨before, a, ls, after ++ [x], by simp, hP⟩
    rw [List.foldl_append] at h
    cases x with
    | answered pipe e => exact hearlier h
    | advanced pipe key cursor ts => exact hearlier ((hadvance _ _ _ _ _).subst h)
    | committed id token => exact hearlier h
    | recorded a ls =>
      rcases hrecord _ a ls v3_acts h with h | hP
      · exact hearlier h
      · exact .inr ⟨acts, a, ls, [], rfl, hP⟩

/-- A row of the attempts. -/
theorem exists_of_mem_attempts {row : Attempt} (h : row ∈ (acts.foldl Act.apply s).attempts) :
    row ∈ s.attempts ∨ ∃ before a ls after, acts = before ++ .recorded a ls :: after ∧
      row = AttemptLog.row s.v3 a := by
  refine exists_recorded (P := fun a _ row ↦ row = AttemptLog.row s.v3 a)
    (fun t key cursor ts isAfter ↦ ?_) (fun t a ls hv3 hrow ↦ ?_) h
  · rw [Store.advanceCursor_rest]
  · rw [AttemptLog.attempts_store, List.rtake, hv3] at hrow
    exact (List.mem_append.mp (List.mem_of_mem_drop hrow)).imp_right List.mem_singleton.mp

/-- A last send. -/
theorem exists_of_mem_lastSend {x : (String × String) × LastSend}
    (h : x ∈ (acts.foldl Act.apply s).lastSend) :
    x ∈ s.lastSend ∨ ∃ before a ls after, acts = before ++ .recorded a ls :: after ∧ ls = true ∧
      x = ((a.client, a.pipeline), ⟨a.outcome, a.ts, a.records⟩) ∧ Accepted a.outcome := by
  refine exists_recorded (P := fun a ls x ↦ ls = true ∧
      x = ((a.client, a.pipeline), ⟨a.outcome, a.ts, a.records⟩) ∧ Accepted a.outcome)
    (fun t key cursor ts isAfter ↦ ?_) (fun t a ls _ hx ↦ ?_) h
  · rw [Store.advanceCursor_rest]
  · rw [AttemptLog.lastSend_store] at hx
    split at hx
    next hsends =>
      simp only [AttemptLog.Call.sends, Bool.and_eq_true, Bool.or_eq_true,
        decide_eq_true_eq] at hsends
      exact (Table.eq_or_mem_of_mem_upsert hx).symm.imp_right fun hx ↦ ⟨hsends.2.1, hx, hsends.2.2⟩
    · exact .inl hx

end rows

/-- **The send log tells the truth.**  In a run of pumps in which no replay answered `partial_ack` or
a kind that is none of the four, every row that says that a payload was accepted is vouched for. -/
theorem pumps_tellsTruth [Surroundings ω σ] (u : Uploader) (restart : σ → σ)
    (schedule : List (Pipeline σ ω ρ π)) (w : World σ ω ρ π)
    (h : ∀ d o, .replayed d o ∈ (pumps u restart schedule w).trace → o.kind.Handled) :
    Forgets (watchedPumps u restart schedule w) (pumps u restart schedule w) ∧
      ∃ acts, TellsTruth schedule w acts (watchedPumps u restart schedule w) := by
  have hstart : Truth schedule w w.watched :=
    ⟨[], ⟨rfl, rfl, List.append_nil _⟩, fun _ _ _ _ ↦ Trace.preceded_nil⟩
  obtain ⟨hforgets, acts, hacts, hkept⟩ :=
    truth_pumps u restart (fun _ hp ↦ hp) ⟨w.forget_watched, hstart⟩
  have hall : AllHandled acts := fun pipe d o hmem ↦ by
    have hevent : .replayed d o ∈ acts.filterMap Act.event? :=
      List.mem_filterMap.mpr ⟨_, hmem, rfl⟩
    have htrace := List.mem_append_right (w.trace.filter Event.isAnswer) hevent
    rw [hacts.answers] at htrace
    refine h d o ?_
    rw [← hforgets]
    exact (List.mem_filter.mp htrace).1
  refine ⟨hforgets, acts, hacts, fun row hrow haccepted ↦ ?_, fun x hx ↦ ?_⟩
  · have hrow : row ∈ (acts.foldl Act.apply w.store.log).attempts := by
      rw [hacts.log]
      exact hrow
    refine (exists_of_mem_attempts hrow).imp_right ?_
    rintro ⟨before, a, ls, after, rfl, rfl⟩
    have ha : Accepted a.outcome := by
      rw [AttemptLog.row] at haccepted
      split at haccepted <;> exact haccepted
    exact ⟨before, a, ls, after, rfl, rfl, (hkept hall a ls ha).before rfl⟩
  · have hx : x ∈ (acts.foldl Act.apply w.store.log).lastSend := by
      rw [hacts.log]
      exact hx
    refine (exists_of_mem_lastSend hx).imp_right ?_
    rintro ⟨before, a, _, after, rfl, rfl, hrow, ha⟩
    exact ⟨before, a, after, rfl, hrow, (hkept hall a true ha).before rfl⟩

/-- A destination that fails and answers so to the replay, and a process that is stopped before one
of its steps. -/
def recovering (o : Outcome ℕ) (stop : ℕ) : World Unit Unit ℕ (List ℕ) :=
  memoryWorld fun k ↦
    { stop := k = stop, now := .of (600 * k), outcome := .ok (if k < 9 then .retryLater "down" else o) }

/-- A batch that is queued by the first pump and acked by the second. -/
theorem pumps_tellsTruth_recovering :
    Forgets (watchedPumps {} id [memoryPipeline {}, memoryPipeline {}] (recovering .acked 100))
        (pumps {} id [memoryPipeline {}, memoryPipeline {}] (recovering .acked 100)) ∧
      ∃ acts, TellsTruth [memoryPipeline {}, memoryPipeline {}] (recovering .acked 100) acts
        (watchedPumps {} id [memoryPipeline {}, memoryPipeline {}] (recovering .acked 100)) := by
  refine pumps_tellsTruth {} id [memoryPipeline {}, memoryPipeline {}] (recovering .acked 100) ?_
  have hall : ∀ e ∈
      (pumps {} id [memoryPipeline {}, memoryPipeline {}] (recovering .acked 100)).trace,
      e.kind?.all (fun k ↦ decide k.Handled) := by decide +kernel
  intro d o hmem
  exact of_decide_eq_true (hall _ hmem)

/-- **Without the condition it does not**: the replay answers `partial_ack`, an `acked` row is
written, and nothing has been committed when the process is stopped after it. -/
theorem recovering_in_part_untrue :
    ¬ ∃ acts, TellsTruth [memoryPipeline {}, memoryPipeline {}] (recovering (.partialAck [] []) 13)
      acts (watchedPumps {} id [memoryPipeline {}, memoryPipeline {}]
        (recovering (.partialAck [] []) 13)) := by
  rintro ⟨acts, h⟩
  have hacked : ∃ row ∈ (watchedPumps {} id [memoryPipeline {}, memoryPipeline {}]
      (recovering (.partialAck [] []) 13)).store.attempts, row.outcome = "acked" := by
    decide +kernel
  have hnone : (watchedPumps {} id [memoryPipeline {}, memoryPipeline {}]
      (recovering (.partialAck [] []) 13)).sys.here.2 = [] := by decide +kernel
  obtain ⟨row, hrow, houtcome⟩ := hacked
  rcases h.attempts row hrow (.inl houtcome) with hold | ⟨before, a, ls, after, heq, rfl, hv⟩
  · cases hold
  · obtain ⟨pipe, -, e, key, cursor, token, earlier, moved, -, rfl, -⟩ := hv.exists_payload
    have hmem : .committed pipe.source.sourceId token ∈ acts := by
      rw [heq]
      simp
    have hcommit : (pipe.source.sourceId, token) ∈ acts.filterMap Act.commit? :=
      List.mem_filterMap.mpr ⟨_, hmem, rfl⟩
    rw [h.accounts.commits, hnone] at hcommit
    cases hcommit

end SendLog

end HsUploader
