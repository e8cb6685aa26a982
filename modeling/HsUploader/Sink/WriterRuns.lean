import HsUploader.Sink.WriterSwitch
import Mathlib.Data.List.DropRight

/-!
# Runs of a writer

The rows of a writer go from the caller into the buffer and from there into the table.  `ledger` is
what a run of calls should come to: the rows the switch check accepted, less the tails that full
buffers have cut.  `stored_append_buffer` says that the table and the buffer are always that,
whatever fails.

## What is here

* `WriterState.SameRows` — what the check leaves alone.
* `flush_cases` and `insert_cases` — what a flush and an insert can do to the buffer and the table.
* `accepted`, `Fits`, `Due`, `taking`, `leaving` — the words for an insert: what the check
  accepts, what there is room for, and what is cut off the end.
* `WriterCall`, `calls`, `ledger` — runs of inserts, flushes and closes, and what they should come
  to.
* `stored_append_buffer` — they do, for every answer of SQLite to every statement.
-/

set_option autoImplicit false

namespace HsUploader

open Prog (exists_of_bind_eq_ok)

/-! ## What the switch check leaves alone -/

/-- The two states differ in what the switch check remembers alone. -/
structure WriterState.SameRows (s s' : WriterState) : Prop where
  buffer : s'.buffer = s.buffer
  connected : s'.connected = s.connected
  schemaInitialized : s'.schemaInitialized = s.schemaInitialized
  health : s'.health = s.health
  lastFlushMonotonic : s'.lastFlushMonotonic = s.lastFlushMonotonic
  stored : s'.stored = s.stored

theorem WriterState.SameRows.refl (s : WriterState) : s.SameRows s := ⟨rfl, rfl, rfl, rfl, rfl, rfl⟩

theorem WriterState.SameRows.trans {s t u : WriterState} (h : s.SameRows t) (h' : t.SameRows u) :
    s.SameRows u where
  buffer := h'.buffer.trans h.buffer
  connected := h'.connected.trans h.connected
  schemaInitialized := h'.schemaInitialized.trans h.schemaInitialized
  health := h'.health.trans h.health
  lastFlushMonotonic := h'.lastFlushMonotonic.trans h.lastFlushMonotonic
  stored := h'.stored.trans h.stored

theorem WriterState.SameRows.foldl {α : Type} {f : WriterState → α → WriterState}
    (hf : ∀ (s : WriterState) a, s.SameRows (f s a)) (l : List α) (s : WriterState) :
    s.SameRows (l.foldl f s) := by
  induction l generalizing s with
  | nil => exact .refl s
  | cons a l ih => exact (hf s a).trans (ih (f s a))

/-- SQLite accepts what this call writes. -/
structure Moment.Accepts (m : Moment) : Prop where
  connect : m.connect = .ok ()
  schema : m.schema = .ok ()
  executemany : m.executemany = .ok ()
  commit : m.commit = .ok ()

/-- `json.dumps` can encode the row, in the interpreter the writer runs in. -/
def Writer.serializable (w : Writer) (row : PyObj) : Bool := (row.dumps w.limits).isOk

/-- The objects of stored rows. -/
def objectsOf (rows : List StoredRow) : List PyObj := rows.map StoredRow.row

namespace Writer

variable {w : Writer}

theorem sameRows_noteVerdict (s : WriterState) (producer : String) (drop : Bool) :
    s.SameRows (noteVerdict s producer drop) := by
  rw [noteVerdict]
  repeat' split
  all_goals exact ⟨rfl, rfl, rfl, rfl, rfl, rfl⟩

theorem sameRows_countDrops (s : WriterState) (producer : String) (n : ℕ) :
    s.SameRows (countDrops s producer n) := by
  rw [countDrops]
  split
  all_goals exact ⟨rfl, rfl, rfl, rfl, rfl, rfl⟩

theorem sameRows_noteFailure (s : WriterState) (now : ℚ) (e : Exn) :
    s.SameRows (noteFailure s now e) := by
  rw [noteFailure]
  repeat' split
  all_goals exact ⟨rfl, rfl, rfl, rfl, rfl, rfl⟩

theorem sameRows_judge (v : SwitchView) (rows : List PyObj) (s : WriterState) :
    s.SameRows (w.judge v rows s).2 := by
  rw [judge]
  split
  · exact .refl s
  · split
    · exact sameRows_noteFailure s _ _
    · split
      · exact .refl s
      · split
        · exact sameRows_noteFailure s _ _
        · exact (WriterState.SameRows.foldl (fun s (p : String × Bool) ↦
            sameRows_noteVerdict s p.1 p.2) _ _).trans
              (.foldl (fun s (p : String × ℕ) ↦ sameRows_countDrops s p.1 p.2) _ _)

/-! ## A flush -/

/-- How the flush a call attempts ends: stored or failed, or none is attempted. -/
def flushAttempt (w : Writer) (m : Moment) (s : WriterState) : Option Bool :=
  if w.isNoop || s.buffer.isEmpty then none else some (w.store m s).isOk

theorem objectsOf_mapM {nowIso : String} {rows : List PyObj} {stored : List StoredRow}
    (h : rows.mapM (w.params nowIso) = .ok stored) :
    objectsOf stored = rows ∧ ∀ r ∈ stored, w.params nowIso r.row = .ok r := by
  induction rows generalizing stored with
  | nil =>
    cases h
    exact ⟨rfl, fun _ h ↦ nomatch h⟩
  | cons row rows ih =>
    rw [List.mapM_cons] at h
    obtain ⟨r, hr, h⟩ := exists_of_bind_eq_ok h
    obtain ⟨rest, hrest, h⟩ := exists_of_bind_eq_ok h
    cases h
    have hrow : r.row = row := by
      rw [params] at hr
      obtain ⟨text, -, hr⟩ := exists_of_bind_eq_ok hr
      cases hr
      rfl
    obtain ⟨hobjects, hparams⟩ := ih hrest
    refine ⟨by rw [objectsOf, List.map_cons, hrow, ← objectsOf, hobjects], fun x hx ↦ ?_⟩
    rcases List.mem_cons.mp hx with rfl | hx
    · rw [hrow]
      exact hr
    · exact hparams x hx

theorem mapM_params (nowIso : String) (rows : List PyObj) :
    (rows.mapM (w.params nowIso)).isOk = rows.all w.serializable := by
  induction rows with
  | nil => rfl
  | cons row rows ih =>
    rw [List.mapM_cons, List.all_cons, ← ih, serializable, params]
    cases row.dumps w.limits with
    | error e => rfl
    | ok text =>
      cases rows.mapM (w.params nowIso) <;> rfl

theorem store_eq_ok {m : Moment} {s : WriterState} {rows : List StoredRow}
    (h : w.store m s = .ok rows) : s.buffer.mapM (w.params m.nowIso) = .ok rows := by
  rw [store] at h
  obtain ⟨_, -, h⟩ := exists_of_bind_eq_ok h
  obtain ⟨_, -, h⟩ := exists_of_bind_eq_ok h
  obtain ⟨rows', hrows, h⟩ := exists_of_bind_eq_ok h
  obtain ⟨_, -, h⟩ := exists_of_bind_eq_ok h
  obtain ⟨_, -, h⟩ := exists_of_bind_eq_ok h
  cases h
  exact hrows

/-- Where SQLite accepts, a flush fails over the rows alone. -/
theorem store_of_accepts {m : Moment} (hm : m.Accepts) (s : WriterState) :
    w.store m s = s.buffer.mapM (w.params m.nowIso) := by
  rw [store, hm.connect, hm.schema, hm.executemany, hm.commit]
  cases s.connected <;> cases s.schemaInitialized <;>
    cases s.buffer.mapM (w.params m.nowIso) <;> rfl

/-- **A flush** stores the whole buffer or nothing. -/
theorem flush_cases (w : Writer) (m : Moment) (s : WriterState) :
    (w.flushAttempt m s ≠ some true ∧ (w.flush m s).buffer = s.buffer ∧
        (w.flush m s).stored = s.stored ∧
        (w.flush m s).lastFlushMonotonic = s.lastFlushMonotonic) ∨
      ∃ rows, w.flushAttempt m s = some true ∧ objectsOf rows = s.buffer ∧
        (∀ r ∈ rows, w.params m.nowIso r.row = .ok r) ∧ (w.flush m s).buffer = [] ∧
        (w.flush m s).stored = s.stored ++ rows := by
  rw [flush, flushAttempt]
  split
  · exact .inl ⟨nofun, rfl, rfl, rfl⟩
  · cases hstore : w.store m s with
    | error e => exact .inl ⟨nofun, rfl, rfl, rfl⟩
    | ok rows =>
      obtain ⟨hobjects, hparams⟩ := objectsOf_mapM (store_eq_ok hstore)
      exact .inr ⟨rows, rfl, hobjects, hparams, rfl, rfl⟩

theorem objectsOf_append (rows rows' : List StoredRow) :
    objectsOf (rows ++ rows') = objectsOf rows ++ objectsOf rows' := List.map_append

/-- A flush moves rows from the buffer to the table. -/
theorem flush_conserves (m : Moment) (s : WriterState) :
    objectsOf (w.flush m s).stored ++ (w.flush m s).buffer = objectsOf s.stored ++ s.buffer := by
  rcases w.flush_cases m s with ⟨-, hbuffer, hstored, -⟩ | ⟨rows, -, hobjects, -, hbuffer, hstored⟩
  · rw [hbuffer, hstored]
  · rw [hbuffer, hstored, objectsOf_append, hobjects, List.append_nil]

/-! ## An insert -/

/-- The rows of an insert that the switch check accepts. -/
def accepted (w : Writer) (m : Moment) (rows : List PyObj) (s : WriterState) : List PyObj :=
  if w.isNoop || rows.isEmpty then [] else (w.judge m.switch rows s).1

/-- The state with the rows in the buffer. -/
def buffered (w : Writer) (m : Moment) (rows : List PyObj) (s : WriterState) : WriterState :=
  if w.isNoop || rows.isEmpty then s
  else { (w.judge m.switch rows s).2 with buffer := s.buffer ++ w.accepted m rows s }

/-- The insert finds room for what it accepts. -/
def Fits (w : Writer) (m : Moment) (rows : List PyObj) (s : WriterState) : Prop :=
  w.isNoop ∨ rows = [] ∨ ((s.buffer ++ w.accepted m rows s).length : ℤ) ≤ w.bufferMax

instance (m : Moment) (rows : List PyObj) (s : WriterState) : Decidable (w.Fits m rows s) :=
  inferInstanceAs (Decidable (_ ∨ rows = [] ∨ _))

/-- The rows fill a batch, or the buffer is overdue: the insert flushes what it has room for. -/
def Due (w : Writer) (m : Moment) (rows : List PyObj) (s : WriterState) : Prop :=
  ¬ w.isNoop ∧ rows ≠ [] ∧
    (w.batchRows ≤ ((s.buffer ++ w.accepted m rows s).length : ℤ) ∨
      w.overdue m (w.buffered m rows s))

instance (m : Moment) (rows : List PyObj) (s : WriterState) : Decidable (w.Due m rows s) :=
  inferInstanceAs (Decidable (_ ∧ rows ≠ [] ∧ _))

/-- The buffer of rows an insert comes to before it is flushed. -/
def taking (w : Writer) (m : Moment) (rows : List PyObj) (s : WriterState) : List PyObj :=
  if w.Fits m rows s then s.buffer ++ w.accepted m rows s
  else sliceTo w.bufferMax (s.buffer ++ w.accepted m rows s)

/-- The rows at the end that find no room. -/
def leaving (w : Writer) (m : Moment) (rows : List PyObj) (s : WriterState) : List PyObj :=
  (s.buffer ++ w.accepted m rows s).drop (w.taking m rows s).length

/-- How many rows at its end an insert that raises cuts off the buffer. -/
def cut (w : Writer) (m : Moment) (rows : List PyObj) (s : WriterState) : ℕ :=
  match (w.insert m rows s).1 with
  | .ok _ => 0
  | .error _ =>
    (s.buffer ++ w.accepted m rows s).length -
      (sliceTo w.bufferMax (s.buffer ++ w.accepted m rows s)).length

theorem sliceTo_eq_rdrop {α : Type} (k : ℤ) (l : List α) :
    sliceTo k l = l.rdrop (l.length - (sliceTo k l).length) := by
  have htake : ∀ n, l.take n = l.rdrop (l.length - (l.take n).length) := fun n ↦ by
    rw [List.rdrop, List.length_take]
    rcases le_total n l.length with hn | hn
    · rw [min_eq_left hn, Nat.sub_sub_self hn]
    · rw [min_eq_right hn, Nat.sub_self, Nat.sub_zero, List.take_length, List.take_of_length_le hn]
  rw [sliceTo]
  split
  · exact htake _
  · exact htake _

theorem buffer_buffered (m : Moment) (rows : List PyObj) (s : WriterState) :
    (w.buffered m rows s).buffer = s.buffer ++ w.accepted m rows s := by
  rw [buffered, accepted]
  split
  · rw [List.append_nil]
  · rfl

theorem stored_buffered (m : Moment) (rows : List PyObj) (s : WriterState) :
    (w.buffered m rows s).stored = s.stored := by
  rw [buffered]
  split
  · rfl
  · exact (sameRows_judge _ _ s).stored

theorem accepted_sublist (m : Moment) (rows : List PyObj) (s : WriterState) :
    (w.accepted m rows s).Sublist rows := by
  rw [accepted]
  split
  · exact List.nil_sublist _
  · by_cases hfails : w.CheckFails m.switch rows
    · rw [((w.judge_outcome m.switch rows s).1 hfails).1]
    · rw [((w.judge_outcome m.switch rows s).2 hfails).1]
      exact List.filter_sublist

/-- **An insert** raises over a buffer that it cuts, flushes the rows it has buffered, or buffers
them. -/
theorem insert_cases (w : Writer) (m : Moment) (rows : List PyObj) (s : WriterState) :
    (¬ w.Fits m rows s ∧ ∃ e, w.insert m rows s = (.error e, { w.buffered m rows s with
        health := .degraded
        buffer := sliceTo w.bufferMax (s.buffer ++ w.accepted m rows s) })) ∨
      (w.Fits m rows s ∧ w.Due m rows s ∧
        w.insert m rows s = (.ok (), w.flush m (w.buffered m rows s))) ∨
      w.Fits m rows s ∧ ¬ w.Due m rows s ∧ w.insert m rows s = (.ok (), w.buffered m rows s) := by
  rcases Bool.eq_false_or_eq_true (w.isNoop || rows.isEmpty) with hidle | hidle
  · have hnot : w.isNoop ∨ rows = [] := by simpa using hidle
    refine .inr (.inr ⟨?_, ?_, ?_⟩)
    · exact hnot.elim .inl fun h ↦ .inr (.inl h)
    · rintro ⟨hnoop, hrows, -⟩
      exact hnot.elim hnoop hrows
    · rw [insert, buffered, if_pos hidle, if_pos hidle]
  · have hnot : w.isNoop = false ∧ rows ≠ [] := by simpa using hidle
    have hstate : w.buffered m rows s = { (w.judge m.switch rows s).2 with
        buffer := (w.judge m.switch rows s).2.buffer ++ (w.judge m.switch rows s).1 } := by
      rw [buffered, accepted, if_neg (by rw [hidle]; nofun), if_neg (by rw [hidle]; nofun),
        (sameRows_judge m.switch rows s).buffer]
    have hlength : (w.buffered m rows s).buffer = s.buffer ++ w.accepted m rows s :=
      buffer_buffered m rows s
    have hinsert : w.insert m rows s =
        if w.bufferMax < (w.buffered m rows s).buffer.length then
          (.error (w.bufferFull (w.buffered m rows s).buffer.length),
            { w.buffered m rows s with
              health := .degraded, buffer := sliceTo w.bufferMax (w.buffered m rows s).buffer })
        else if w.batchRows ≤ (w.buffered m rows s).buffer.length ||
            w.overdue m (w.buffered m rows s) then
          (.ok (), w.flush m (w.buffered m rows s))
        else (.ok (), w.buffered m rows s) := by
      rw [insert, if_neg (by rw [hidle]; nofun), hstate]
    rw [hinsert, hlength]
    by_cases hfull : w.bufferMax < ((s.buffer ++ w.accepted m rows s).length : ℤ)
    · refine .inl ⟨?_, _, if_pos hfull⟩
      rintro (hnoop | hrows | hroom)
      · rw [hnot.1] at hnoop
        cases hnoop
      · exact hnot.2 hrows
      · omega
    · have hfits : w.Fits m rows s := .inr (.inr (not_lt.mp hfull))
      rw [if_neg hfull]
      by_cases hdue : (decide (w.batchRows ≤ ((s.buffer ++ w.accepted m rows s).length : ℤ)) ||
          w.overdue m (w.buffered m rows s)) = true
      · refine .inr (.inl ⟨hfits, ⟨by rw [hnot.1]; nofun, hnot.2, ?_⟩, if_pos hdue⟩)
        simpa using hdue
      · refine .inr (.inr ⟨hfits, fun h ↦ hdue ?_, if_neg hdue⟩)
        simpa using h.2.2

theorem raises_iff {m : Moment} {rows : List PyObj} {s : WriterState} :
    (∃ e, (w.insert m rows s).1 = .error e) ↔ ¬ w.Fits m rows s := by
  rcases w.insert_cases m rows s with ⟨hfits, e, h⟩ | ⟨hfits, -, h⟩ | ⟨hfits, -, h⟩
  · rw [h]
    exact ⟨fun _ ↦ hfits, fun _ ↦ ⟨e, rfl⟩⟩
  · rw [h]
    exact ⟨fun he ↦ (by obtain ⟨_, he⟩ := he; cases he), fun hnot ↦ absurd hfits hnot⟩
  · rw [h]
    exact ⟨fun he ↦ (by obtain ⟨_, he⟩ := he; cases he), fun hnot ↦ absurd hfits hnot⟩

theorem taking_append_leaving (m : Moment) (rows : List PyObj) (s : WriterState) :
    w.taking m rows s ++ w.leaving m rows s = s.buffer ++ w.accepted m rows s := by
  have hprefix : w.taking m rows s <+: s.buffer ++ w.accepted m rows s := by
    rw [taking, sliceTo]
    split
    · exact List.prefix_rfl
    · split
      · exact List.take_prefix _ _
      · exact List.take_prefix _ _
  rw [leaving]
  obtain ⟨rest, hrest⟩ := hprefix
  rw [← hrest, List.drop_left]

/-- **An insert** leaves what it takes in the buffer, or has it stored. -/
theorem insert_takes (w : Writer) (m : Moment) (rows : List PyObj) (s : WriterState) :
    ((w.insert m rows s).2.buffer = w.taking m rows s ∧
        (w.insert m rows s).2.stored = s.stored) ∨
      ∃ stored, objectsOf stored = w.taking m rows s ∧
        (∀ r ∈ stored, w.params m.nowIso r.row = .ok r) ∧ (w.insert m rows s).2.buffer = [] ∧
        (w.insert m rows s).2.stored = s.stored ++ stored := by
  rw [taking]
  rcases w.insert_cases m rows s with ⟨hfits, e, h⟩ | ⟨hfits, -, h⟩ | ⟨hfits, -, h⟩
  · rw [h, if_neg hfits]
    exact .inl ⟨rfl, stored_buffered m rows s⟩
  · rw [h, if_pos hfits, ← buffer_buffered, ← stored_buffered (w := w) m rows s]
    rcases w.flush_cases m (w.buffered m rows s) with
      ⟨-, hbuffer, hstored, -⟩ | ⟨stored, -, hobjects, hparams, hbuffer, hstored⟩
    · exact .inl ⟨hbuffer, hstored⟩
    · exact .inr ⟨stored, hobjects, hparams, hbuffer, hstored⟩
  · rw [h, if_pos hfits]
    exact .inl ⟨buffer_buffered m rows s, stored_buffered m rows s⟩

/-- An insert adds what it takes. -/
theorem insert_conserves (m : Moment) (rows : List PyObj) (s : WriterState) :
    objectsOf (w.insert m rows s).2.stored ++ (w.insert m rows s).2.buffer =
      objectsOf s.stored ++ w.taking m rows s := by
  rcases w.insert_takes m rows s with ⟨hbuffer, hstored⟩ | ⟨stored, hobjects, -, hbuffer, hstored⟩
  · rw [hbuffer, hstored]
  · rw [hbuffer, hstored, objectsOf_append, hobjects, List.append_nil]

/-- What an insert takes is what it finds and accepts, less the tail it cuts. -/
theorem taking_eq_rdrop (m : Moment) (rows : List PyObj) (s : WriterState) :
    w.taking m rows s = (s.buffer ++ w.accepted m rows s).rdrop (w.cut m rows s) := by
  rw [taking, cut]
  rcases w.insert_cases m rows s with ⟨hfits, e, h⟩ | ⟨hfits, -, h⟩ | ⟨hfits, -, h⟩
  · rw [h, if_neg hfits]
    exact sliceTo_eq_rdrop _ _
  · rw [h, if_pos hfits, List.rdrop_zero]
  · rw [h, if_pos hfits, List.rdrop_zero]

theorem cut_le (m : Moment) (rows : List PyObj) (s : WriterState) :
    w.cut m rows s ≤ (s.buffer ++ w.accepted m rows s).length := by
  rw [cut]
  split
  · exact Nat.zero_le _
  · exact Nat.sub_le _ _

end Writer

/-! ## Runs of calls -/

/-- A call of a writer. -/
inductive WriterCall where
  | insert (rows : List PyObj)
  | flush
  | close

namespace Writer

variable {w : Writer}

/-- The state after a call. -/
def call (w : Writer) (m : Moment) : WriterCall → WriterState → WriterState
  | .insert rows, s => (w.insert m rows s).2
  | .flush, s => w.flush m s
  | .close, s => w.close m s

/-- The state after a run of calls. -/
def calls (w : Writer) (run : List (Moment × WriterCall)) (s : WriterState) : WriterState :=
  run.foldl (fun s c ↦ w.call c.1 c.2 s) s

/-- The ledger after a call: an insert enters the rows the switch check accepts, and an insert that
raises strikes those it cuts off the end. -/
def entered (w : Writer) (m : Moment) : WriterCall → WriterState → List PyObj → List PyObj
  | .insert rows, s, rowsSoFar => (rowsSoFar ++ w.accepted m rows s).rdrop (w.cut m rows s)
  | _, _, rowsSoFar => rowsSoFar

/-- The rows a run of calls should come to. -/
def ledger (w : Writer) : List (Moment × WriterCall) → WriterState → List PyObj → List PyObj
  | [], _, rowsSoFar => rowsSoFar
  | (m, c) :: run, s, rowsSoFar => ledger w run (w.call m c s) (w.entered m c s rowsSoFar)

/-- A call keeps the table and the buffer at what the ledger says. -/
theorem call_conserves (m : Moment) (c : WriterCall) (s : WriterState) :
    objectsOf (w.call m c s).stored ++ (w.call m c s).buffer =
      w.entered m c s (objectsOf s.stored ++ s.buffer) := by
  cases c with
  | insert rows =>
    rw [call, entered, insert_conserves, taking_eq_rdrop, List.append_assoc,
      List.rdrop_append_of_le_length (w.cut m rows s) (cut_le m rows s)]
  | flush => exact flush_conserves m s
  | close => exact flush_conserves m s

/-- **The table and the buffer are the ledger.**  Whatever calls are made and whatever fails in
them, the rows stored and then the rows buffered are the rows the switch check accepted, less the
tails that full buffers have cut. -/
theorem stored_append_buffer (w : Writer) (now : ℚ) (run : List (Moment × WriterCall)) :
    objectsOf (w.calls run (w.init now)).stored ++ (w.calls run (w.init now)).buffer =
      w.ledger run (w.init now) [] := by
  have hrun : ∀ (run : List (Moment × WriterCall)) (s : WriterState),
      objectsOf (w.calls run s).stored ++ (w.calls run s).buffer =
        w.ledger run s (objectsOf s.stored ++ s.buffer) := fun run ↦ by
    induction run with
    | nil => exact fun _ ↦ rfl
    | cons c run ih =>
      intro s
      rw [ledger, ← call_conserves]
      exact ih _
  exact hrun run (w.init now)

end Writer

end HsUploader
