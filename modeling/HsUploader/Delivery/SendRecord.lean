import Mathlib.Data.Int.ConditionallyCompleteOrder
import HsUploader.Sources.Sqlite
import HsUploader.Watermark

/-!
# The send record of one key

Any number of connections move one send record, each call one transaction, so whatever they do is a
sequence of calls: advances, which compare, and starts, which insert.  In the order of the queue's
source the record holds the largest cursor it was offered, the first one among equals
(`sends_eq_argmax`).

The order is that of the integers the cursors are read as, with one exception: every cursor comes
after an empty one, the cursor of a record that nothing was acked for.

## What is here

* `SendCall` and `sends` — the calls, in the order in which their transactions come.
* `offers` — the cursors a record has been offered, the one it held among them.
* `position` and `Ordered` — the order of cursors, the empty one before all; it is a hypothesis that
  each cursor is read as an integer.
* `AnswersTrue` — a call answers whether it moved the record.
* `sends_eq_argmax` — the record is the first largest of its offers, however the calls are mixed.
* `empty_cursor_moves` — the exception, at a cursor below `0`.
-/

set_option autoImplicit false

namespace HsUploader

variable {π : Type}

/-- One call that may move a send record. -/
inductive SendCall where
  | advance (cursor : Bytes) (lastAck : Stamp)
  | start (cursor : Bytes) (lastAck : Stamp)

namespace SendCall

/-- The cursor the call brings. -/
def cursor : SendCall → Bytes
  | advance c _ | start c _ => c

/-- The store after the call. -/
def apply (key : SendKey) (s : Store π) : SendCall → Store π
  | advance c t => (s.advanceCursor key c t SqliteSource.cursorIsAfter).2
  | start c t => (s.startCursor key c t).2

end SendCall

/-- The store after these calls, in the order their transactions come. -/
def sends (key : SendKey) (calls : List SendCall) (s : Store π) : Store π :=
  calls.foldl (SendCall.apply key) s

/-- The cursors the advances among the calls bring. -/
def advances : List SendCall → List Bytes
  | [] => []
  | .advance c _ :: calls => c :: advances calls
  | .start _ _ :: calls => advances calls

/-- The cursors a record is offered: the one that stands there or, where none does, the first
call's, and then those of the advances. -/
def offers (found : Option Bytes) (calls : List SendCall) : List Bytes :=
  match found, calls with
  | some c, calls => c :: advances calls
  | none, call :: calls => call.cursor :: advances calls
  | none, [] => []

/-- The place of a cursor: an empty one comes before every other. -/
def position (c : Bytes) : WithBot ℤ :=
  match c.toInt with
  | some n => (n : WithBot ℤ)
  | none => ⊥

/-- Cursors the order is told apart by: each is read as an integer, or is empty where none of them
is negative. -/
def Ordered (cs : List Bytes) : Prop :=
  (∀ c ∈ cs, ∃ n, c.toInt = some n) ∨ ∀ c ∈ cs, c = [] ∨ ∃ n, c.toInt = some n ∧ 0 ≤ n

instance (cs : List Bytes) : Decidable (Ordered cs) :=
  have hread (c : Bytes) : (∃ n, c.toInt = some n) ↔ c.toInt.isSome := Option.isSome_iff_exists.symm
  have hpos (c : Bytes) : (∃ n, c.toInt = some n ∧ 0 ≤ n) ↔ c.toInt.any (0 ≤ ·) := by
    cases c.toInt <;> simp
  decidable_of_iff ((∀ c ∈ cs, c.toInt.isSome) ∨ ∀ c ∈ cs, c = [] ∨ c.toInt.any (0 ≤ ·)) (by
    simp only [Ordered, hread, hpos])

theorem Ordered.sublist {cs cs' : List Bytes} (h : Ordered cs) (hs : cs'.Sublist cs) :
    Ordered cs' :=
  h.imp (fun h c hc ↦ h c (hs.subset hc)) fun h c hc ↦ h c (hs.subset hc)

theorem toInt_nil : Bytes.toInt [] = none := rfl

/-! ## One advance -/

theorem cursorFromBytes_eq_ok {c : Bytes} {n : ℤ} (h : c.toInt = some n) :
    cursorFromBytes c = .ok n := by
  have hne : c.isEmpty = false := by
    rw [List.isEmpty_eq_false_iff]
    rintro rfl
    rw [toInt_nil] at h
    cases h
  rw [cursorFromBytes, hne, if_neg Bool.false_ne_true, h]

/-- The comparison of two cursors is that of their places. -/
theorem cursorIsAfter_eq {c stored : Bytes} (h : Ordered [c, stored]) (hne : c ≠ stored) :
    SqliteSource.cursorIsAfter c stored = .ok (decide (position stored < position c)) := by
  rw [SqliteSource.cursorIsAfter]
  split
  · rename_i hnil
    rw [List.isEmpty_iff] at hnil
    subst hnil
    have hread : ∃ n, c.toInt = some n := by
      rcases h with h | h
      · exact h c List.mem_cons_self
      · obtain ⟨n, hn, -⟩ := (h c List.mem_cons_self).resolve_left hne
        exact ⟨n, hn⟩
    obtain ⟨n, hn⟩ := hread
    rw [position, position, toInt_nil, hn]
    simp [WithBot.bot_lt_coe]
  · rename_i hstored
    have hstored : stored ≠ [] := by simpa using hstored
    have hread : ∃ n, stored.toInt = some n := by
      rcases h with h | h
      · exact h stored (by simp)
      · obtain ⟨n, hn, -⟩ := (h stored (by simp)).resolve_left hstored
        exact ⟨n, hn⟩
    obtain ⟨n, hn⟩ := hread
    rw [cursorFromBytes_eq_ok hn, position, position, hn]
    by_cases hc : c = []
    · -- an empty cursor is read as zero, and the stored one is not negative
      subst hc
      have hpos : 0 ≤ n := by
        rcases h with h | h
        · obtain ⟨m, hm⟩ := h [] List.mem_cons_self
          rw [toInt_nil] at hm
          cases hm
        · obtain ⟨m, hm, hpos⟩ := (h stored (by simp)).resolve_left hstored
          rw [hn] at hm
          cases hm
          exact hpos
      rw [toInt_nil]
      simp [cursorFromBytes, hpos]
    · have hread : ∃ m, c.toInt = some m := by
        rcases h with h | h
        · exact h c List.mem_cons_self
        · obtain ⟨m, hm, -⟩ := (h c List.mem_cons_self).resolve_left hc
          exact ⟨m, hm⟩
      obtain ⟨m, hm⟩ := hread
      rw [cursorFromBytes_eq_ok hm, hm]
      simp [WithBot.coe_lt_coe]

/-- The record after an advance: the cursor that lies further on, and the stored one of two in the
same place. -/
theorem cursor_advanceCursor {s : Store π} {key : SendKey} {stored c : Bytes} (t : Stamp)
    (hs : (Table.lookup key s.watermarks).map (·.cursor) = some (.blob stored))
    (h : Ordered [stored, c]) :
    (Table.lookup key
      (s.advanceCursor key c t SqliteSource.cursorIsAfter).2.watermarks).map (·.cursor) =
      some (.blob (if position stored < position c then c else stored)) := by
  obtain ⟨r, hr, hcell⟩ := Option.map_eq_some_iff.mp hs
  rw [Store.advanceCursor, hr]
  dsimp only
  rw [hcell]
  dsimp only [Cell.toBytes]
  by_cases hne : c = stored
  · -- the same bytes: whatever is answered, they stay
    subst hne
    rw [ite_self]
    repeat' split
    all_goals simp [Store.upsertCursor, hr, hcell]
  · have hafter := cursorIsAfter_eq (c := c) (by
      refine h.imp (fun h x hx ↦ h x ?_) fun h x hx ↦ h x ?_ <;> simpa [or_comm] using hx) hne
    have hbefore := cursorIsAfter_eq h (Ne.symm hne)
    rw [Store.compareCursors, hafter]
    by_cases hlt : position stored < position c
    · simp [hlt, bind, Except.bind, pure, Except.pure, Store.upsertCursor]
    · simp only [hlt, decide_false, hne, Bool.or_self, bind, Except.bind, if_neg,
        Bool.false_eq_true, not_false_eq_true, hbefore, pure, Except.pure]
      split
      all_goals simp_all

/-! ## Runs -/

/-- The largest of a list that begins with two is that of the list that begins with the larger. -/
theorem argmax_cons_cons {α β : Type} [LinearOrder β] (f : α → β) (a b : α) (l : List α) :
    (a :: b :: l).argmax f = ((if f a < f b then b else a) :: l).argmax f := by
  simp only [List.argmax, List.foldl_cons, List.argAux]
  split <;> rfl

/-- On a record that stands, the advances decide. -/
theorem sends_some {key : SendKey} {calls : List SendCall} {s : Store π} {stored : Bytes}
    (hs : (Table.lookup key s.watermarks).map (·.cursor) = some (.blob stored))
    (h : Ordered (stored :: advances calls)) :
    (Table.lookup key (sends key calls s).watermarks).map (·.cursor) =
      ((stored :: advances calls).argmax position).map .blob := by
  induction calls generalizing s stored with
  | nil => exact hs
  | cons call calls ih =>
    cases call with
    | advance c t =>
      have hnext := cursor_advanceCursor t hs
        (h.sublist ((((List.nil_sublist (advances calls)).cons_cons c)).cons_cons stored))
      rw [advances, argmax_cons_cons]
      refine ih hnext (h.sublist ?_)
      rw [advances]
      split
      · exact List.sublist_cons_self _ _
      · exact (List.sublist_cons_self _ _).cons_cons stored
    | start c t =>
      obtain ⟨r, hr, -⟩ := Option.map_eq_some_iff.mp hs
      have hstart : SendCall.apply key s (.start c t) = s := by
        rw [SendCall.apply, Store.startCursor, hr]
      rw [sends, List.foldl_cons, hstart]
      exact ih hs h

/-- What a call answers says what it did to the store. -/
structure AnswersTrue (key : SendKey) (cursor : Bytes) (lastAck : Stamp) (s : Store π) : Prop where
  refused : ∀ s', s.advanceCursor key cursor lastAck SqliteSource.cursorIsAfter = (.refused, s') →
    s' = s
  refreshed : ∀ s',
    s.advanceCursor key cursor lastAck SqliteSource.cursorIsAfter = (.refreshed, s') →
    ∃ r, Table.lookup key s.watermarks = some r ∧
      s' = { s with watermarks := Table.upsert key { r with lastAck } s.watermarks }
  started : ∀ r, Table.lookup key s.watermarks = some r →
    s.startCursor key cursor lastAck = (false, s)

theorem answersTrue (key : SendKey) (cursor : Bytes) (lastAck : Stamp) (s : Store π) :
    AnswersTrue key cursor lastAck s where
  refused s' h := by
    rw [Store.advanceCursor] at h
    repeat' split at h
    all_goals cases h
    rfl
  refreshed s' h := by
    rw [Store.advanceCursor] at h
    cases hr : Table.lookup key s.watermarks with
    | none =>
      rw [hr] at h
      cases h
    | some r =>
      rw [hr] at h
      dsimp only at h
      repeat' split at h
      all_goals cases h
      exact ⟨r, rfl, rfl⟩
  started r hr := by
    rw [Store.startCursor, hr]

/-- **The send record moves forward only.**  After any calls of any number of connections it holds
the largest of the cursors it was offered, the first one among those in one place.  A call that is
refused changes nothing, a refresh changes the time of the last ack alone, and a start changes no
record that stands. -/
theorem sends_eq_argmax {key : SendKey} {s : Store π} {found : Option Bytes}
    (hs : (Table.lookup key s.watermarks).map (·.cursor) = found.map .blob)
    {calls : List SendCall} (h : Ordered (offers found calls)) :
    (Table.lookup key (sends key calls s).watermarks).map (·.cursor) =
        ((offers found calls).argmax position).map .blob ∧
      ∀ cursor lastAck, AnswersTrue key cursor lastAck (sends key calls s) := by
  refine ⟨?_, fun cursor lastAck ↦ answersTrue key cursor lastAck _⟩
  cases found with
  | some c => exact sends_some hs h
  | none =>
    have hnone : Table.lookup key s.watermarks = none := Option.map_eq_none_iff.mp hs
    cases calls with
    | nil => exact hs
    | cons call calls =>
      -- the first call writes its cursor, whichever it is
      refine sends_some (s := SendCall.apply key s call) ?_ h
      cases call with
      | advance c t =>
        rw [SendCall.apply, Store.advanceCursor, hnone]
        simp [Store.upsertCursor, SendCall.cursor]
      | start c t =>
        rw [SendCall.apply, Store.startCursor, hnone]
        simp [Store.upsertCursor, SendCall.cursor]

/-- Calls of two connections: a start and a later one, an advance, one that is refused, and one that
brings the place already held in other digits. -/
def twoConnections : List SendCall :=
  [.start (.ofInt 5) 0, .advance (.ofInt 999) 1, .start (.ofInt 7) 2, .advance (.ofInt 1000) 3,
    .advance (.ofInt 12) 4, .advance (.ofAscii ['0', '1', '0', '0', '0']) 5]

theorem sends_eq_argmax_two_connections :
    (Table.lookup ⟨"q", "d", "t"⟩
        (sends ⟨"q", "d", "t"⟩ twoConnections ({} : Store ℕ)).watermarks).map (·.cursor) =
      ((offers none twoConnections).argmax position).map .blob := by
  have hnone : (Table.lookup ⟨"q", "d", "t"⟩ ({} : Store ℕ).watermarks).map (·.cursor) =
      (none : Option Bytes).map .blob := rfl
  exact (sends_eq_argmax hnone (by decide)).1

/-- The integer a cursor is read as. -/
def readCursor (c : Bytes) : ℤ :=
  match cursorFromBytes c with
  | .ok n => n
  | .error _ => 0

/-- **An empty record is left for any cursor.**  Read as integers, an empty cursor lies at `0`, and
`-1` before it; the record gives up its empty cursor all the same. -/
theorem empty_cursor_moves :
    ¬ ∀ calls : List SendCall, (∀ call ∈ calls, ∃ n, cursorFromBytes call.cursor = .ok n) →
      (Table.lookup ⟨"q", "d", "t"⟩ (sends ⟨"q", "d", "t"⟩ calls ({} : Store ℕ)).watermarks).map
          (·.cursor) =
        ((offers none calls).argmax readCursor).map .blob := by
  intro h
  have hbad := h [.advance [] 0, .advance (.ofInt (-1)) 1] (by
    intro call hcall
    simp only [List.mem_cons, List.not_mem_nil, or_false] at hcall
    rcases hcall with rfl | rfl
    · exact ⟨0, rfl⟩
    · exact ⟨-1, cursorFromBytes_ofInt _⟩)
  revert hbad
  decide

end HsUploader
