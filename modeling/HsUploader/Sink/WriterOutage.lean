import HsUploader.Sink.WriterRuns

/-!
# What keeps a writer from storing

`insert` looks at a full buffer before it flushes anything.  So a writer that comes out of an outage
with a buffer the next insert overflows raises then and leaves the buffer full: only an insert whose
rows are all left out flushes it again.  `recovers_iff` says exactly when a writer recovers.

A flush encodes the whole buffer first.  One row that cannot be encoded fails every flush for as
long as it is buffered, which is for ever; `stores_serializable_iff` says when that does no harm.

## Two ways to be stuck

A buffer holds two batches, and an insert is refused while the rows it brings would not fit.  As
the look at the buffer comes before the flush, a buffer that is full stays full (`insert_of_full`)
even when SQLite is back.  `FirstFits` is the condition under which that does not happen, and it
is one on the rows the first insert brings and on the room that is left.  That a buffer is full at
all is the work of a flush that failed, in inserts of at most one row more than a batch
(`lt_or_failing_insert`); larger ones can fill it on a quiet day (`raises_of_large`).

The other way is a row that `json.dumps` refuses.  It is accepted, since rows are encoded when they
are flushed and not before, and it stays at the head of the buffer: a flush is all or nothing.
`Clean` says what a run has stored as long as no such row has come in, and `Clean.harmless` that the
first of them is the end of it.
-/

set_option autoImplicit false

namespace HsUploader

open Prog (exists_of_bind_eq_ok)

namespace Writer

variable {w : Writer}

/-! ## Runs of inserts -/

/-- The state after these inserts. -/
def inserts (w : Writer) (run : List (Moment × List PyObj)) (s : WriterState) : WriterState :=
  run.foldl (fun s i ↦ (w.insert i.1 i.2 s).2) s

/-- The rows these inserts accept. -/
def taken (w : Writer) : List (Moment × List PyObj) → WriterState → List PyObj
  | [], _ => []
  | (m, rows) :: run, s => w.accepted m rows s ++ taken w run (w.insert m rows s).2

/-- How the flush an insert attempts ends, where it attempts one. -/
def insertAttempt (w : Writer) (m : Moment) (rows : List PyObj) (s : WriterState) : Option Bool :=
  if w.Fits m rows s ∧ w.Due m rows s then w.flushAttempt m (w.buffered m rows s) else none

/-- A flush has failed in these inserts since the last that succeeded. -/
def failing (w : Writer) : List (Moment × List PyObj) → WriterState → Bool → Bool
  | [], _, failed => failed
  | (m, rows) :: run, s, failed =>
    failing w run (w.insert m rows s).2
      (match w.insertAttempt m rows s with
      | none => failed
      | some stored => !stored)

/-- The state after these flushes. -/
def flushes (w : Writer) (ms : List Moment) (s : WriterState) : WriterState :=
  ms.foldl (fun s m ↦ w.flush m s) s

theorem inserts_append_singleton (run : List (Moment × List PyObj)) (m : Moment)
    (rows : List PyObj) (s : WriterState) :
    w.inserts (run ++ [(m, rows)]) s = (w.insert m rows (w.inserts run s)).2 := by
  rw [inserts, List.foldl_append]
  rfl

theorem taken_append_singleton (run : List (Moment × List PyObj)) (m : Moment)
    (rows : List PyObj) (s : WriterState) :
    w.taken (run ++ [(m, rows)]) s = w.taken run s ++ w.accepted m rows (w.inserts run s) := by
  induction run generalizing s with
  | nil =>
    rw [List.nil_append, taken, taken, taken, List.append_nil, List.nil_append]
    rfl
  | cons i run ih =>
    rw [List.cons_append, taken, taken, ih, List.append_assoc]
    rfl

/-! ## Flushes SQLite accepts -/

/-- A flush that SQLite accepts stores the buffer, where every row of it can be encoded. -/
theorem flush_of_accepts {m : Moment} (hm : m.Accepts) {s : WriterState} (hnoop : w.isNoop = false)
    (hrows : s.buffer.all w.serializable) :
    (w.flush m s).buffer = [] ∧
      objectsOf (w.flush m s).stored = objectsOf s.stored ++ s.buffer := by
  have hconserved := flush_conserves (w := w) m s
  suffices hbuffer : (w.flush m s).buffer = [] by
    refine ⟨hbuffer, ?_⟩
    rwa [hbuffer, List.append_nil] at hconserved
  rcases w.flush_cases m s with ⟨hattempt, hbuffer, -⟩ | ⟨rows, -, -, -, hbuffer, -⟩
  · rw [hbuffer]
    rw [flushAttempt, store_of_accepts hm, mapM_params, hrows, hnoop] at hattempt
    by_contra hne
    rw [Bool.false_or, if_neg (by simpa using hne)] at hattempt
    exact hattempt rfl
  · exact hbuffer

/-- A flush stores nothing where a row of the buffer cannot be encoded. -/
theorem flush_of_not_serializable {m : Moment} {s : WriterState} (hnoop : w.isNoop = false)
    (hrows : ¬ s.buffer.all w.serializable) :
    w.flushAttempt m s = some false ∧ (w.flush m s).buffer = s.buffer ∧
      (w.flush m s).stored = s.stored := by
  have hattempt : w.flushAttempt m s = some false := by
    rw [flushAttempt, hnoop, Bool.false_or, if_neg]
    · cases hstore : w.store m s with
      | error e => rfl
      | ok rows =>
        have hok := mapM_params (w := w) m.nowIso s.buffer
        rw [store_eq_ok hstore] at hok
        exact absurd hok.symm hrows
    · intro hempty
      rw [List.isEmpty_iff.mp hempty] at hrows
      exact hrows rfl
  rcases w.flush_cases m s with ⟨-, hbuffer, hstored, -⟩ | ⟨rows, hdone, -⟩
  · exact ⟨hattempt, hbuffer, hstored⟩
  · rw [hattempt] at hdone
    cases hdone

theorem flush_of_empty {m : Moment} {s : WriterState} (h : w.isNoop ∨ s.buffer = []) :
    w.flush m s = s := by
  rw [flush, if_pos (by simpa using h)]

theorem flushes_append_singleton (ms : List Moment) (m : Moment) (s : WriterState) :
    w.flushes (ms ++ [m]) s = w.flush m (w.flushes ms s) := by
  rw [flushes, List.foldl_append]
  rfl

/-- Flushes move rows from the buffer to the table. -/
theorem flushes_conserve (ms : List Moment) (s : WriterState) :
    objectsOf (w.flushes ms s).stored ++ (w.flushes ms s).buffer =
      objectsOf s.stored ++ s.buffer := by
  induction ms generalizing s with
  | nil => rfl
  | cons m ms ih => exact (ih _).trans (flush_conserves m s)

/-! ## Recovery -/

/-- What should hold of inserts that SQLite accepts: none raises, and when one is due, what the
outage had left in the buffer is stored after it. -/
structure Recovers (w : Writer) (later : List (Moment × List PyObj)) (s : WriterState) : Prop where
  stores : ∀ p m rows, p ++ [(m, rows)] <+: later →
    ¬ ∃ e, (w.insert m rows (w.inserts p s)).1 = .error e
  due : ∀ p m rows, p ++ [(m, rows)] <+: later → w.Due m rows (w.inserts p s) →
    objectsOf s.stored ++ s.buffer <+: objectsOf (w.inserts (p ++ [(m, rows)]) s).stored

/-- The first of the inserts that has rows finds room for them. -/
def FirstFits (w : Writer) (later : List (Moment × List PyObj)) (s : WriterState) : Prop :=
  ∀ i ∈ (later.dropWhile fun i ↦ i.2.isEmpty).head?, w.Fits i.1 i.2 s

theorem firstFits_cons_nil (m : Moment) (later : List (Moment × List PyObj)) (s : WriterState) :
    w.FirstFits ((m, []) :: later) s ↔ w.FirstFits later s := Iff.rfl

theorem insert_of_empty {m : Moment} (s : WriterState) : w.insert m [] s = (.ok (), s) := by
  rw [insert, if_pos (by simp)]

/-- Where less than a batch is buffered, there is room for a batch. -/
theorem fits_of_lt {m : Moment} {rows : List PyObj} {s : WriterState}
    (hlt : (s.buffer.length : ℤ) < w.batchRows) (hrows : (rows.length : ℤ) ≤ w.batchRows) :
    w.Fits m rows s := by
  refine .inr (.inr ?_)
  have haccepted := (accepted_sublist (w := w) m rows s).length_le
  rw [List.length_append, bufferMax]
  omega

/-- The buffer after an insert that fits and SQLite accepts. -/
theorem insert_of_fits {m : Moment} {rows : List PyObj} {s : WriterState} (hm : m.Accepts)
    (hfits : w.Fits m rows s) (hbuffer : s.buffer.all w.serializable)
    (hrows : rows.all w.serializable) :
    (w.insert m rows s).2.buffer.all w.serializable ∧
      objectsOf (w.insert m rows s).2.stored ++ (w.insert m rows s).2.buffer =
        objectsOf s.stored ++ s.buffer ++ w.accepted m rows s ∧
      (w.Due m rows s → (w.insert m rows s).2.buffer = []) := by
  have hconserved := insert_conserves (w := w) m rows s
  rw [taking, if_pos hfits, ← List.append_assoc] at hconserved
  have hall : (w.buffered m rows s).buffer.all w.serializable := by
    rw [buffer_buffered, List.all_append, hbuffer, Bool.true_and, List.all_eq_true]
    intro row hrow
    exact List.all_eq_true.mp hrows row ((accepted_sublist m rows s).subset hrow)
  refine ⟨?_, hconserved, fun hdue ↦ ?_⟩
  · rcases w.insert_cases m rows s with ⟨hnot, -⟩ | ⟨-, hdue, h⟩ | ⟨-, -, h⟩
    · exact absurd hfits hnot
    · rw [h, (flush_of_accepts hm (by simpa using hdue.1) hall).1]
      rfl
    · rw [h]
      exact hall
  · rcases w.insert_cases m rows s with ⟨hnot, -⟩ | ⟨-, -, h⟩ | ⟨-, hnot, -⟩
    · exact absurd hfits hnot
    · rw [h]
      exact (flush_of_accepts hm (by simpa using hdue.1) hall).1
    · exact absurd hdue hnot

/-- **An insert that fits leaves room for the next.** -/
theorem firstFits_insert {m : Moment} {rows : List PyObj} {s : WriterState}
    {later : List (Moment × List PyObj)} (hm : m.Accepts)
    (hlater : ∀ i ∈ later, (i.2.length : ℤ) ≤ w.batchRows)
    (hbatch : 1 ≤ w.batchRows) (hbuffer : s.buffer.all w.serializable)
    (hrows : rows.all w.serializable) (hfirst : w.FirstFits ((m, rows) :: later) s) :
    w.Fits m rows s ∧ w.FirstFits later (w.insert m rows s).2 := by
  by_cases hempty : rows = []
  · subst hempty
    refine ⟨.inr (.inl rfl), ?_⟩
    rw [insert_of_empty]
    exact (firstFits_cons_nil m later s).mp hfirst
  · have hfits : w.Fits m rows s := by
      refine hfirst (m, rows) ?_
      rw [List.dropWhile_cons, if_neg (by simpa using hempty)]
      rfl
    refine ⟨hfits, fun i hi ↦ ?_⟩
    by_cases hnoop : w.isNoop
    · exact .inl hnoop
    · refine fits_of_lt ?_ (hlater i ?_)
      · by_cases hdue : w.Due m rows s
        · rw [(insert_of_fits hm hfits hbuffer hrows).2.2 hdue]
          exact_mod_cast hbatch
        · rcases w.insert_cases m rows s with ⟨hnot, -⟩ | ⟨-, hyes, -⟩ | ⟨-, -, h⟩
          · exact absurd hfits hnot
          · exact absurd hyes hdue
          · rw [h, buffer_buffered]
            by_contra hle
            exact hdue ⟨hnoop, hempty, .inl (not_lt.mp hle)⟩
      · have hmem : i ∈ later.dropWhile fun i ↦ i.2.isEmpty := List.mem_of_mem_head? hi
        exact (List.dropWhile_suffix _).subset hmem

/-- The first insert with rows is made in the state the inserts start from. -/
theorem firstFits_of_stores {s : WriterState} {later : List (Moment × List PyObj)}
    (h : ∀ p m rows, p ++ [(m, rows)] <+: later →
      ¬ ∃ e, (w.insert m rows (w.inserts p s)).1 = .error e) :
    w.FirstFits later s := by
  induction later with
  | nil => exact fun i hi ↦ nomatch hi
  | cons i later ih =>
    obtain ⟨m, rows⟩ := i
    by_cases hempty : rows = []
    · subst hempty
      refine (firstFits_cons_nil m later s).mpr (ih fun p m' rows hp ↦ ?_)
      have hmore := h ((m, []) :: p) m' rows (by simpa using hp)
      rwa [inserts, List.foldl_cons, insert_of_empty, ← inserts] at hmore
    · rintro i hi
      rw [List.dropWhile_cons, if_neg (by simpa using hempty)] at hi
      cases hi
      exact not_not.mp (mt raises_iff.mpr (h [] m rows (by simp)))

/-- **When a writer recovers.** -/
theorem recovers_of_firstFits {later : List (Moment × List PyObj)} {s : WriterState}
    (hbatch : 1 ≤ w.batchRows)
    (hlater : ∀ i ∈ later, i.1.Accepts ∧ (i.2.length : ℤ) ≤ w.batchRows ∧
      i.2.all w.serializable)
    (hbuffer : s.buffer.all w.serializable) (hfirst : w.FirstFits later s) :
    w.Recovers later s := by
  -- what holds of each state the inserts pass through
  have hrun : ∀ p rest, later = p ++ rest →
      (w.inserts p s).buffer.all w.serializable ∧ w.FirstFits rest (w.inserts p s) ∧
        objectsOf s.stored ++ s.buffer <+:
          objectsOf (w.inserts p s).stored ++ (w.inserts p s).buffer := by
    intro p
    induction p using List.reverseRecOn with
    | nil =>
      rintro rest rfl
      exact ⟨hbuffer, hfirst, List.prefix_rfl⟩
    | append_singleton p i ih =>
      obtain ⟨m, rows⟩ := i
      intro rest hrest
      rw [List.append_assoc, List.singleton_append] at hrest
      obtain ⟨hall, hfits, hprefix⟩ := ih _ hrest
      obtain ⟨hm, -, hrows⟩ := hlater (m, rows) (by rw [hrest]; simp)
      obtain ⟨hnow, hnext⟩ := firstFits_insert hm
        (fun i hi ↦ (hlater i (by rw [hrest]; simp [hi])).2.1) hbatch hall hrows hfits
      obtain ⟨hall', hconserved, -⟩ := insert_of_fits hm hnow hall hrows
      rw [inserts_append_singleton]
      refine ⟨hall', hnext, ?_⟩
      rw [hconserved]
      exact hprefix.trans (List.prefix_append _ _)
  have hat : ∀ p m rows, p ++ [(m, rows)] <+: later →
      m.Accepts ∧ rows.all w.serializable ∧ w.Fits m rows (w.inserts p s) := by
    rintro p m rows ⟨rest, hrest⟩
    rw [List.append_assoc, List.singleton_append] at hrest
    obtain ⟨hall, hfits, -⟩ := hrun p _ hrest.symm
    obtain ⟨hm, -, hrows⟩ := hlater (m, rows) (by rw [← hrest]; simp)
    exact ⟨hm, hrows, (firstFits_insert hm
      (fun i hi ↦ (hlater i (by rw [← hrest]; simp [hi])).2.1) hbatch hall hrows hfits).1⟩
  refine ⟨fun p m rows hp ↦ ?_, fun p m rows hp hdue ↦ ?_⟩
  · exact fun he ↦ raises_iff.mp he (hat p m rows hp).2.2
  · obtain ⟨hm, hrows, hfits⟩ := hat p m rows hp
    obtain ⟨rest, hrest⟩ := hp
    have hprefix := (hrun _ _ hrest.symm).2.2
    rw [List.append_assoc] at hrest
    have hempty := (insert_of_fits hm hfits (hrun p _ hrest.symm).1 hrows).2.2 hdue
    rw [inserts_append_singleton, hempty, List.append_nil] at hprefix
    rwa [inserts_append_singleton]

/-- A buffer that is full stays so: an insert that accepts a row raises, and stores nothing. -/
theorem insert_of_full {m : Moment} {rows : List PyObj} {s : WriterState}
    (hfull : (s.buffer.length : ℤ) = w.bufferMax) (haccepted : w.accepted m rows s ≠ []) :
    (∃ e, (w.insert m rows s).1 = .error e) ∧ (w.insert m rows s).2.buffer = s.buffer ∧
      (w.insert m rows s).2.stored = s.stored := by
  have hnot : ¬ w.Fits m rows s := by
    have hpos := List.length_pos_iff.mpr haccepted
    rintro (hnoop | hrows | hroom)
    · exact haccepted (by rw [accepted, hnoop, Bool.true_or, if_pos rfl])
    · exact haccepted (by rw [accepted, hrows, List.isEmpty_nil, Bool.or_true, if_pos rfl])
    · rw [List.length_append] at hroom
      omega
  rcases w.insert_cases m rows s with ⟨-, e, h⟩ | ⟨hfits, -⟩ | ⟨hfits, -⟩
  · rw [h]
    refine ⟨⟨e, rfl⟩, ?_, stored_buffered m rows s⟩
    dsimp only
    rw [sliceTo, ← hfull, if_pos (Int.natCast_nonneg _), Int.toNat_natCast, List.take_left]
  · exact absurd hfits hnot
  · exact absurd hfits hnot

theorem failing_append_singleton (run : List (Moment × List PyObj)) (m : Moment)
    (rows : List PyObj) (s : WriterState) (failed : Bool) :
    w.failing (run ++ [(m, rows)]) s failed =
      match w.insertAttempt m rows (w.inserts run s) with
      | none => w.failing run s failed
      | some stored => !stored := by
  induction run generalizing s failed with
  | nil => rfl
  | cons i run ih => exact ih _ _

/-- Unless a flush has failed, an insert of few rows leaves less than a batch in the buffer. -/
theorem lt_or_failing_insert {m : Moment} {rows : List PyObj} {s : WriterState} {failed : Bool}
    (hbatch : 1 ≤ w.batchRows) (hrows : (rows.length : ℤ) ≤ w.batchRows + 1)
    (h : failed ∨ (s.buffer.length : ℤ) < w.batchRows) :
    (match w.insertAttempt m rows s with
      | none => failed
      | some stored => !stored) = true ∨
      ((w.insert m rows s).2.buffer.length : ℤ) < w.batchRows := by
  have haccepted := (accepted_sublist (w := w) m rows s).length_le
  rw [insertAttempt]
  rcases w.insert_cases m rows s with ⟨hnot, e, hi⟩ | ⟨hfits, hdue, hi⟩ | ⟨hfits, hnot, hi⟩
  · rw [if_neg fun h ↦ hnot h.1]
    rcases h with hfailed | hlt
    · exact .inl hfailed
    · refine absurd (.inr (.inr ?_)) hnot
      rw [List.length_append, bufferMax]
      omega
  · rw [if_pos ⟨hfits, hdue⟩, hi]
    rcases w.flush_cases m (w.buffered m rows s) with
      ⟨hattempt, hbuffer, -⟩ | ⟨_, -, -, -, hbuffer, -⟩
    · cases ha : w.flushAttempt m (w.buffered m rows s) with
      | some stored =>
        cases stored with
        | true => exact absurd ha hattempt
        | false => exact .inl rfl
      | none =>
        -- nothing was attempted, so nothing was buffered
        rw [flushAttempt] at ha
        split at ha
        · rename_i hidle
          have hempty : (w.buffered m rows s).buffer = [] := by
            rcases Bool.or_eq_true_iff.mp hidle with hnoop | hempty
            · exact absurd hnoop hdue.1
            · exact List.isEmpty_iff.mp hempty
          right
          rw [hbuffer, hempty]
          exact_mod_cast hbatch
        · cases ha
    · right
      rw [hbuffer]
      exact_mod_cast hbatch
  · rw [if_neg fun h ↦ hnot h.2, hi]
    rcases h with hfailed | hlt
    · exact .inl hfailed
    · right
      dsimp only
      rw [buffer_buffered]
      by_cases hidle : w.isNoop ∨ rows = []
      · rw [accepted, if_pos (by simpa using hidle), List.append_nil]
        exact hlt
      · by_contra hle
        exact hnot ⟨(not_or.mp hidle).1, (not_or.mp hidle).2, .inl (not_lt.mp hle)⟩

/-- **A full buffer is raised only after a failed flush**, in a run of inserts each of which is at
most one row larger than a batch. -/
theorem failing_of_error (hbatch : 1 ≤ w.batchRows) {now : ℚ} {run : List (Moment × List PyObj)}
    (hrun : ∀ i ∈ run, (i.2.length : ℤ) ≤ w.batchRows + 1) {p : List (Moment × List PyObj)}
    {m : Moment} {rows : List PyObj} (hp : p ++ [(m, rows)] <+: run)
    (he : ∃ e, (w.insert m rows (w.inserts p (w.init now))).1 = .error e) :
    w.failing p (w.init now) false := by
  have hbefore : ∀ p, p <+: run → w.failing p (w.init now) false ∨
      ((w.inserts p (w.init now)).buffer.length : ℤ) < w.batchRows := by
    intro p
    induction p using List.reverseRecOn with
    | nil => exact fun _ ↦ .inr (by exact_mod_cast hbatch)
    | append_singleton p i ih =>
      obtain ⟨m, rows⟩ := i
      intro hp
      rw [failing_append_singleton, inserts_append_singleton]
      exact lt_or_failing_insert hbatch (hrun (m, rows) (hp.subset (by simp)))
        (ih ((List.prefix_append p _).trans hp))
  rcases hbefore p ((List.prefix_append p _).trans hp) with hfailing | hlt
  · exact hfailing
  · refine absurd (.inr (.inr ?_)) (raises_iff.mp he)
    have hrows : (rows.length : ℤ) ≤ w.batchRows + 1 := hrun (m, rows) (hp.subset (by simp))
    have haccepted := (accepted_sublist (w := w) m rows (w.inserts p (w.init now))).length_le
    rw [List.length_append, bufferMax]
    omega

/-- A quiet writer takes the rows of an insert as they are. -/
theorem accepted_init {rows : List PyObj} (hnoop : w.isNoop = false) (now : ℚ) (hrows : rows ≠ []) :
    w.accepted {} rows (w.init now) = rows := by
  rw [accepted, if_neg (by simpa [hnoop] using hrows), judge]
  split
  · rfl
  · rfl

/-- One row short of a batch, at the moment the writer was made, is buffered. -/
theorem insert_init {rows : List PyObj} (hnoop : w.isNoop = false) (hrows : rows ≠ [])
    (hlt : (rows.length : ℤ) < w.batchRows) :
    w.Fits {} rows (w.init 0) ∧ ¬ w.Due {} rows (w.init 0) ∧
      (w.buffered {} rows (w.init 0)).buffer = rows := by
  have hbuffer : (w.buffered {} rows (w.init 0)).buffer = rows := by
    rw [buffer_buffered, accepted_init hnoop 0 hrows]
    rfl
  refine ⟨.inr (.inr ?_), fun h ↦ ?_, hbuffer⟩
  · rw [← buffer_buffered, hbuffer, bufferMax]
    omega
  · obtain ⟨-, -, hdue⟩ := h
    rw [← buffer_buffered, hbuffer] at hdue
    refine hdue.elim (not_le.mpr hlt) fun hover ↦ ?_
    rw [overdue, Bool.and_eq_true, Bool.and_eq_true, decide_eq_true_eq, decide_eq_true_eq] at hover
    obtain ⟨⟨hpos, -⟩, hage⟩ := hover
    have hlast : (w.buffered {} rows (w.init 0)).lastFlushMonotonic = 0 := by
      rw [buffered, if_neg (by simpa [hnoop] using hrows)]
      exact (sameRows_judge _ _ _).lastFlushMonotonic
    rw [hlast, sub_zero] at hage
    exact absurd (lt_of_lt_of_le hpos hage) (lt_irrefl 0)

/-- **Two rows more than a batch can be too many**, before any flush has been attempted. -/
theorem raises_of_large (hbatch : 1 ≤ w.batchRows) (hnoop : w.isNoop = false) {k : ℕ}
    (hk : w.batchRows + 1 < k) :
    ∃ run : List (Moment × List PyObj), (∀ i ∈ run, i.2.length ≤ k) ∧ ∃ p m rows,
      p ++ [(m, rows)] <+: run ∧ (∃ e, (w.insert m rows (w.inserts p (w.init 0))).1 = .error e) ∧
        ¬ w.failing p (w.init 0) false := by
  obtain ⟨n, hn⟩ : ∃ n : ℕ, w.batchRows = n + 1 := ⟨(w.batchRows - 1).toNat, by omega⟩
  set few : List PyObj := List.replicate n (.dict []) with hfew
  set many : List PyObj := List.replicate k (.dict []) with hmany
  have hne : many ≠ [] := by
    rw [hmany, ne_eq, List.replicate_eq_nil_iff]
    omega
  refine ⟨[({}, few), ({}, many)], fun i hi ↦ ?_, [({}, few)], {}, many, List.prefix_rfl, ?_⟩
  · rcases List.mem_pair.mp hi with rfl | rfl
    · rw [hfew, List.length_replicate]
      omega
    · rw [hmany, List.length_replicate]
  -- the few insert leaves its rows in the buffer
  have hstate : (w.inserts [({}, few)] (w.init 0)).buffer = few ∧
      w.failing [({}, few)] (w.init 0) false = false ∧
      w.accepted {} many (w.inserts [({}, few)] (w.init 0)) = many := by
    by_cases hempty : few = []
    · rw [hempty, failing, failing, insertAttempt, inserts, List.foldl_cons, List.foldl_nil,
        insert_of_empty, if_neg fun h ↦ h.2.2.1 rfl]
      exact ⟨rfl, rfl, accepted_init hnoop 0 hne⟩
    · obtain ⟨hfits, hnot, hbuffer⟩ := insert_init hnoop hempty (by
        rw [hfew, List.length_replicate]
        omega)
      have hinsert : w.insert {} few (w.init 0) = (.ok (), w.buffered {} few (w.init 0)) := by
        rcases w.insert_cases {} few (w.init 0) with ⟨hno, -⟩ | ⟨-, hdue, -⟩ | ⟨-, -, h⟩
        · exact absurd hfits hno
        · exact absurd hdue hnot
        · exact h
      rw [inserts, List.foldl_cons, List.foldl_nil, hinsert, failing, failing, insertAttempt,
        if_neg fun h ↦ hnot h.2]
      refine ⟨hbuffer, rfl, ?_⟩
      have hquiet : (w.buffered {} few (w.init 0)).dropping = [] := by
        rw [buffered, if_neg (by simpa [hnoop] using hempty), judge]
        split <;> rfl
      rw [accepted, if_neg (by simpa [hnoop] using hne), judge]
      split
      · rfl
      · dsimp only
        rw [hquiet]
        rfl
  obtain ⟨hbuffer, hfailing, haccepted⟩ := hstate
  refine ⟨raises_iff.mpr ?_, by rw [hfailing]; exact Bool.false_ne_true⟩
  rintro (h | h | h)
  · rw [hnoop] at h
    cases h
  · exact hne h
  · rw [hbuffer, haccepted, List.length_append, hfew, hmany, List.length_replicate,
      List.length_replicate, bufferMax] at h
    push_cast at h
    omega

/-- **Recovery after an outage.**  A writer raises over a full buffer only after a failed flush, in
every run of inserts of at most `k` rows each and whatever SQLite answers, if and only if `k` is at
most one row more than a batch, or the writer does nothing.  Over inserts that follow an outage and
are accepted, of a batch at most each and of rows that can be encoded, it recovers if and only if
the first of them finds room. -/
theorem recovers_iff (w : Writer) (hbatch : 1 ≤ w.batchRows) :
    (∀ k : ℕ, (∀ (now : ℚ) (run : List (Moment × List PyObj)), (∀ i ∈ run, i.2.length ≤ k) →
        ∀ p m rows, p ++ [(m, rows)] <+: run →
          (∃ e, (w.insert m rows (w.inserts p (w.init now))).1 = .error e) →
            w.failing p (w.init now) false) ↔
      w.isNoop ∨ (k : ℤ) ≤ w.batchRows + 1) ∧
    ∀ (now : ℚ) (run : List (Moment × List PyObj)),
      (w.inserts run (w.init now)).buffer.all w.serializable → ∀ later,
      (∀ i ∈ later, i.1.Accepts ∧ (i.2.length : ℤ) ≤ w.batchRows ∧
        i.2.all w.serializable) →
      (w.Recovers later (w.inserts run (w.init now)) ↔
        w.FirstFits later (w.inserts run (w.init now))) := by
  refine ⟨fun k ↦ ⟨fun h ↦ ?_, fun h now run hrun p m rows hp he ↦ ?_⟩,
    fun now run hbuffer later hlater ↦
      ⟨fun h ↦ firstFits_of_stores h.stores, recovers_of_firstFits hbatch hlater hbuffer⟩⟩
  · by_contra hnot
    obtain ⟨hnoop, hk⟩ := not_or.mp hnot
    obtain ⟨run, hrun, p, m, rows, hp, he, hfails⟩ :=
      raises_of_large hbatch (Bool.eq_false_iff.mpr hnoop) (not_le.mp hk)
    exact hfails (h 0 run hrun p m rows hp he)
  · rcases h with hnoop | hk
    · exact absurd (.inl hnoop) (raises_iff.mp he)
    · exact failing_of_error hbatch (fun i hi ↦ by have := hrun i hi; omega) hp he

/-- A writer that an outage left five rows, and the insert that stores them with its own; and runs
of inserts of one row each. -/
theorem recovers_below_full :
    let w : Writer := {
      database := "psk", table := "spots", batchRows := 3, config := some "/tmp/sink.db" }
    let outage : Moment := { connect := .error (.operationalError "simulated disk full") }
    (∀ (now : ℚ) (run : List (Moment × List PyObj)), (∀ i ∈ run, i.2.length ≤ 1) →
      ∀ p m rows, p ++ [(m, rows)] <+: run →
        (∃ e, (w.insert m rows (w.inserts p (w.init now))).1 = .error e) →
          w.failing p (w.init now) false) ∧
    w.Recovers [({}, [.dict []])]
      (w.inserts (List.replicate 5 (outage, [.dict []])) (w.init 0)) := by
  intro w outage
  refine ⟨((recovers_iff w (by decide)).1 1).mpr (.inr (by decide)),
    ((recovers_iff w (by decide)).2 0 (List.replicate 5 (outage, [.dict []]))
      (by decide +kernel) [({}, [.dict []])] fun i hi ↦ ?_).mpr ?_⟩
  · rw [List.mem_singleton.mp hi]
    exact ⟨⟨rfl, rfl, rfl, rfl⟩, by decide, by decide⟩
  · rintro i hi
    cases hi
    decide +kernel

/-- Seven rows in an outage fill a buffer of two batches of three, and the row after it raises. -/
theorem raises_after_outage :
    ¬ ∀ (w : Writer), 1 ≤ w.batchRows → ∀ (now : ℚ) (run later : List (Moment × List PyObj)),
      (∀ i ∈ later, i.1.Accepts ∧ (i.2.length : ℤ) ≤ w.batchRows ∧
        i.2.all w.serializable) →
      w.Recovers later (w.inserts run (w.init now)) := by
  intro h
  let w : Writer := {
    database := "psk", table := "spots", batchRows := 3, config := some "/tmp/sink.db" }
  let outage : Moment := { connect := .error (.operationalError "simulated disk full") }
  have hrecovers := h w (by decide) 0 (List.replicate 7 (outage, [.dict []]))
    [({}, [.dict []])] (by
      intro i hi
      rw [List.mem_singleton.mp hi]
      exact ⟨⟨rfl, rfl, rfl, rfl⟩, by decide, by decide⟩)
  refine hrecovers.stores [] {} [.dict []] List.prefix_rfl (raises_iff.mpr ?_)
  decide +kernel

/-! ## Rows that cannot be encoded -/

/-- After finitely many flushes that SQLite accepts, every row taken that can be encoded is stored,
and no flush fails any more. -/
def Clears (w : Writer) (rows : List PyObj) (s : WriterState) : Prop :=
  ∃ k, ∀ ms : List Moment, k ≤ ms.length → (∀ m ∈ ms, m.Accepts) →
    objectsOf (w.flushes ms s).stored = rows.filter w.serializable ∧
      ∀ m : Moment, m.Accepts → w.flushAttempt m (w.flushes ms s) ≠ some false

/-- What a run has stored and buffered, where no row in it does harm. -/
structure Clean (w : Writer) (rows : List PyObj) (s : WriterState) : Prop where
  buffer : s.buffer.all w.serializable
  conserved : objectsOf s.stored ++ s.buffer = rows.filter w.serializable
  idle : w.isNoop → s.buffer = []

/-- The rows an insert takes can be encoded, and those it leaves cannot. -/
def Harmless (w : Writer) (m : Moment) (rows : List PyObj) (s : WriterState) : Prop :=
  (w.taking m rows s).all w.serializable ∧
    (w.leaving m rows s).all fun row ↦ !w.serializable row

theorem filter_leaving {rows : List PyObj} (h : rows.all fun row ↦ !w.serializable row) :
    rows.filter w.serializable = [] := by
  rw [List.filter_eq_nil_iff]
  intro row hrow
  simpa using List.all_eq_true.mp h row hrow

theorem insert_of_isNoop {m : Moment} {rows : List PyObj} {s : WriterState} (hnoop : w.isNoop) :
    w.insert m rows s = (.ok (), s) := by
  rw [insert, if_pos (by rw [hnoop, Bool.true_or])]

/-- An insert that does no harm leaves the state clean. -/
theorem Clean.insert {m : Moment} {rows sofar : List PyObj} {s : WriterState}
    (h : w.Clean sofar s) (hharmless : w.Harmless m rows s) :
    w.Clean (sofar ++ w.accepted m rows s) (w.insert m rows s).2 where
  buffer := by
    rcases w.insert_takes m rows s with ⟨hbuffer, -⟩ | ⟨_, -, -, hbuffer, -⟩
    · rw [hbuffer]
      exact hharmless.1
    · rw [hbuffer]
      rfl
  conserved := by
    have hall : (s.buffer ++ w.accepted m rows s).filter w.serializable =
        w.taking m rows s := by
      rw [← taking_append_leaving, List.filter_append, filter_leaving hharmless.2,
        List.append_nil, List.filter_eq_self]
      exact List.all_eq_true.mp hharmless.1
    rw [insert_conserves, ← hall, List.filter_append, List.filter_append, ← h.conserved,
      List.append_assoc, List.filter_eq_self.mpr (List.all_eq_true.mp h.buffer)]
  idle := fun hnoop ↦ by
    rw [insert_of_isNoop hnoop]
    exact h.idle hnoop

theorem Clean.clears {rows : List PyObj} {s : WriterState} (h : w.Clean rows s) :
    w.Clears rows s := by
  refine ⟨1, fun ms hlength hms ↦ ?_⟩
  -- one flush empties the buffer, and those after it find nothing
  suffices hbuffer : (w.flushes ms s).buffer = [] by
    have hconserved := flushes_conserve (w := w) ms s
    rw [hbuffer, List.append_nil, h.conserved] at hconserved
    refine ⟨hconserved, fun m _ ↦ ?_⟩
    rw [flushAttempt, hbuffer, List.isEmpty_nil, Bool.or_true, if_pos rfl]
    intro hflush
    cases hflush
  have hempty : ∀ (ms : List Moment) (s : WriterState), s.buffer = [] →
      (w.flushes ms s).buffer = [] := fun ms ↦ by
    induction ms with
    | nil => exact fun _ hs ↦ hs
    | cons m ms ih =>
      intro s hs
      refine ih _ ?_
      dsimp only
      rwa [flush_of_empty (.inr hs)]
  cases ms with
  | nil => cases hlength
  | cons m ms =>
    refine hempty ms _ ?_
    dsimp only
    rcases Bool.eq_false_or_eq_true w.isNoop with hnoop | hnoop
    · rw [flush_of_empty (.inl hnoop), h.idle hnoop]
    · exact (flush_of_accepts (hms m List.mem_cons_self) hnoop h.buffer).1

/-- A row in the buffer that cannot be encoded stops every flush. -/
theorem Clears.buffer {rows : List PyObj} {s : WriterState} (h : w.Clears rows s)
    (hnoop : w.isNoop = false) : s.buffer.all w.serializable := by
  by_contra hrows
  have hstuck : ∀ ms : List Moment, (w.flushes ms s).buffer = s.buffer := fun ms ↦ by
    induction ms using List.reverseRecOn with
    | nil => rfl
    | append_singleton ms m ih =>
      rw [flushes_append_singleton]
      refine ((flush_of_not_serializable hnoop ?_).2.1).trans ih
      rwa [ih]
  obtain ⟨k, hk⟩ := h
  have haccepts : ({} : Moment).Accepts := ⟨rfl, rfl, rfl, rfl⟩
  refine (hk (List.replicate k {}) (by simp) fun m hm ↦ ?_).2 {} haccepts
    (flush_of_not_serializable hnoop ?_).1
  · rw [List.eq_of_mem_replicate hm]
    exact haccepts
  · rwa [hstuck]

/-- Where the writer clears after an insert on a clean state, the insert did no harm. -/
theorem Clean.harmless {m : Moment} {rows sofar : List PyObj} {s : WriterState}
    (h : w.Clean sofar s)
    (hclears : w.Clears (sofar ++ w.accepted m rows s) (w.insert m rows s).2) :
    w.Harmless m rows s := by
  rcases Bool.eq_false_or_eq_true w.isNoop with hnoop | hnoop
  · have hnone : s.buffer ++ w.accepted m rows s = [] := by
      rw [h.idle hnoop, accepted, hnoop, Bool.true_or, if_pos rfl, List.append_nil]
    have hboth := taking_append_leaving (w := w) m rows s
    rw [hnone] at hboth
    rw [Harmless, (List.append_eq_nil_iff.mp hboth).1, (List.append_eq_nil_iff.mp hboth).2]
    exact ⟨rfl, rfl⟩
  · have htaking : (w.taking m rows s).all w.serializable := by
      rcases w.insert_takes m rows s with ⟨hbuffer, -⟩ | ⟨stored, hobjects, hparams, -⟩
      · rw [← hbuffer]
        exact hclears.buffer hnoop
      · rw [← hobjects, objectsOf, List.all_map, List.all_eq_true]
        intro r hr
        have hok := hparams r hr
        rw [params] at hok
        obtain ⟨text, htext, -⟩ := exists_of_bind_eq_ok hok
        rw [Function.comp_apply, serializable, htext]
        rfl
    refine ⟨htaking, ?_⟩
    -- what is stored in the end is part of what was taken, so nothing left could be encoded
    obtain ⟨k, hk⟩ := hclears
    have hstored := (hk (List.replicate k {}) (by simp) fun m hm ↦ by
      rw [List.eq_of_mem_replicate hm]
      exact ⟨rfl, rfl, rfl, rfl⟩).1
    have hconserved := flushes_conserve (w := w) (List.replicate k {}) (w.insert m rows s).2
    rw [hstored, insert_conserves, List.filter_append, ← h.conserved, List.append_assoc,
      List.append_assoc] at hconserved
    have hsplit : s.buffer ++ (w.accepted m rows s).filter w.serializable =
        w.taking m rows s ++ (w.leaving m rows s).filter w.serializable := by
      have hfilter := congrArg (List.filter w.serializable)
        (taking_append_leaving (w := w) m rows s)
      rw [List.filter_append, List.filter_append,
        List.filter_eq_self.mpr (List.all_eq_true.mp h.buffer),
        List.filter_eq_self.mpr (List.all_eq_true.mp htaking)] at hfilter
      exact hfilter.symm
    rw [← List.append_assoc s.buffer, hsplit] at hconserved
    have hnil : (w.leaving m rows s).filter w.serializable = [] := by
      have hlength := congrArg List.length hconserved
      simp only [List.length_append] at hlength
      exact List.length_eq_zero_iff.mp (by omega)
    rw [List.all_eq_true]
    intro row hrow
    simpa using List.filter_eq_nil_iff.mp hnil row hrow

/-- **Rows that cannot be encoded.**  At every point of a run of inserts, the rows taken that can be
encoded are stored after finitely many flushes and no flush goes on failing, if and only if each
insert takes only rows that can be encoded and leaves only rows that cannot. -/
theorem stores_serializable_iff (w : Writer) (now : ℚ) (run : List (Moment × List PyObj)) :
    (∀ p, p <+: run → w.Clears (w.taken p (w.init now)) (w.inserts p (w.init now))) ↔
      ∀ p m rows, p ++ [(m, rows)] <+: run → w.Harmless m rows (w.inserts p (w.init now)) := by
  have hstart : w.Clean (w.taken [] (w.init now)) (w.inserts [] (w.init now)) :=
    ⟨rfl, rfl, fun _ ↦ rfl⟩
  constructor
  · intro h
    have hclean : ∀ p, p <+: run → w.Clean (w.taken p (w.init now)) (w.inserts p (w.init now)) := by
      intro p
      induction p using List.reverseRecOn with
      | nil => exact fun _ ↦ hstart
      | append_singleton p i ih =>
        obtain ⟨m, rows⟩ := i
        intro hp
        have hbefore := ih ((List.prefix_append p _).trans hp)
        have hclears := h _ hp
        rw [taken_append_singleton, inserts_append_singleton] at hclears ⊢
        exact hbefore.insert (hbefore.harmless hclears)
    intro p m rows hp
    have hclears := h _ hp
    rw [taken_append_singleton, inserts_append_singleton] at hclears
    exact (hclean p ((List.prefix_append p _).trans hp)).harmless hclears
  · intro h
    have hclean : ∀ p, p <+: run → w.Clean (w.taken p (w.init now)) (w.inserts p (w.init now)) := by
      intro p
      induction p using List.reverseRecOn with
      | nil => exact fun _ ↦ hstart
      | append_singleton p i ih =>
        obtain ⟨m, rows⟩ := i
        intro hp
        rw [taken_append_singleton, inserts_append_singleton]
        exact (ih ((List.prefix_append p _).trans hp)).insert (h p m rows hp)
    exact fun p hp ↦ (hclean p hp).clears

/-- One row that cannot be encoded, and no row is stored any more. -/
theorem blocked_by_one_row :
    ¬ ∀ (w : Writer) (now : ℚ) (run : List (Moment × List PyObj)),
      (∀ i ∈ run, i.1.Accepts) →
        w.Clears (w.taken run (w.init now)) (w.inserts run (w.init now)) := by
  intro h
  let w : Writer := {
    database := "psk", table := "spots", batchRows := 2, config := some "/tmp/sink.db" }
  have hclears := h w 0 [({}, [.other "object"]), ({}, [.dict []])] (by
    intro i hi
    rcases List.mem_pair.mp hi with rfl | rfl
    · exact ⟨rfl, rfl, rfl, rfl⟩
    · exact ⟨rfl, rfl, rfl, rfl⟩)
  have hbuffer := hclears.buffer rfl
  revert hbuffer
  decide +kernel

end Writer

end HsUploader
