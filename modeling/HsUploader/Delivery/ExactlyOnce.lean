import HsUploader.Delivery.Simulation

/-!
# At least once, and exactly once

Two guarantees of a pipeline over a plain source of queue rows: one that does not rank its rows, has
no ceiling and starts from the beginning.

* Without crashes the rows delivered are exactly the rows in scope up to the stored cursor, each
  once and in the order of their ids, after any number of pumps.
* With crashes at any step, and restarts, every row in scope up to the stored cursor was delivered
  at least once.

Both are `Outbox`'s theorems, once the batch query of a plain source is known to select the next
rows in scope and no others.

## What is here

* `SqliteSource.Plain` — the options a plain source does without.
* `ScopeIsObjects` — what is asked of a table: the rows in scope have payloads that give records.  A
  row that gives none is passed by, as the source says it does.
* `SqliteSource.Plain.precise` — a read of such a table is one that `Outbox` calls exact.
* `delivered_eq_scope_le_cursor` — without stops: a list equality, so neither a duplicate nor a row
  out of order.
* `mem_delivered_of_scope_le_cursor` — with stops before any step, restarts and retries.
-/

set_option autoImplicit false

namespace HsUploader

open Outbox

/-- The source has none of the options that make it pass rows by. -/
structure SqliteSource.Plain (src : SqliteSource) : Prop where
  dedup : src.dedup = none
  ceilingColumn : src.ceilingColumn = none
  startAt : src.startAt = false

/-- Whenever the transport answers, it acks, asks for a retry or gives the batch up. -/
def AnswersWhole (env : ℕ → Choice Act QueuedRecord) : Prop :=
  ∀ n o, (env n).outcome = .ok o → o.kind = .acked ∨ o.kind = .retryLater ∨ o.kind = .permanent

/-- The condition on a read of a plain source: the rows in scope give records. -/
def ScopeIsObjects (src : SqliteSource) (columns : Bool × Bool) (table : List Row) (_cur : ℤ)
    (_hit : List Row) : Prop :=
  ∀ r ∈ table, src.InScope columns r → r.payloadJson.IsObject

section plain

variable {src : SqliteSource} {set : PipelineSettings} {env : ℕ → Choice Act QueuedRecord}
  {columns : Bool × Bool}

/-- **A read of a plain source** takes the next rows in scope and no others. -/
theorem SqliteSource.Plain.precise (hplain : src.Plain) (limit : ℤ) (crashes : Prop) :
    (src.protocol columns limit (ScopeIsObjects src columns) crashes).Precise
      fun r ↦ decide (src.InScope columns r) := by
  rintro table c b - ⟨hinc, ceiling, hit, x, hsel, hx, hid, hrows, -, hgood⟩
  have hmem := List.mem_of_getLast? hx
  have hsub := sublist_of_selectRows hsel
  have hobj : objectRows hit = hit := List.filter_eq_self.mpr fun r hr ↦
    decide_eq_true (hgood r (hsub.subset hr) (inScope_of_selectRows hsel hr).2)
  refine ⟨hid ▸ (inScope_of_selectRows hsel hmem).1.le, ?_⟩
  rw [hrows, hobj]
  refine (hinc.sublist hsub).eq_of_mem_iff ((hinc.filter _).filter _) fun r ↦ ?_
  change r ∈ hit ↔ r ∈ Table.window Row.id c b.upTo (table.filter _)
  rw [Table.mem_window, List.mem_filter, decide_eq_true_eq]
  constructor
  · intro hr
    have hscope := inScope_of_selectRows hsel hr
    exact ⟨⟨hsub.subset hr, hscope.2⟩, hscope.1, hid ▸ (hinc.sublist hsub).le_getLast hx hr⟩
  · rintro ⟨⟨hr, hscope⟩, hcur, hle⟩
    exact mem_of_selectRows_plain hplain.dedup hplain.ceilingColumn hsel hinc hr hcur hscope hx
      (hid ▸ hle)

/-- When every row in scope is an object and the transport acks whole batches, the run meets the
condition. -/
theorem Base.meets {ph : QueuePhase} {w : QueueWorld} (h : Base src set env columns ph w)
    (hout : AnswersWhole env)
    (hobj : ∀ r ∈ everStored w.sys.here, src.InScope columns r → r.payloadJson.IsObject) :
    Meets (ScopeIsObjects src columns) w where
  reads := fun st hst ↦ by
    rw [Statement.IsGood]
    split
    · exact fun _ r hr ↦ hobj r (List.mem_append.mpr (h.read_mem st hst r hr))
    all_goals trivial
  accepted := fun e he ↦ by
    cases e with
    | shipped b o =>
      intro hk
      obtain ⟨n, hn⟩ := h.answered b o he
      rcases hout n o hn with hk' | hk' | hk' <;> rw [hk] at hk' <;> cases hk'
    | _ => trivial

end plain

/-- **Crash-free delivery is exactly once and in order.** -/
theorem delivered_eq_scope_le_cursor (u : Uploader) {src : SqliteSource} {set : PipelineSettings}
    {w : QueueWorld} (hplain : src.Plain) (hkeep : src.deleteOnCommit = false)
    (hfresh : Fresh src set w) (hwrites : Writes w.sys.env)
    (hcrash : ∀ k, (w.sys.env k).stop = false) (hout : AnswersWhole w.sys.env) (n : ℕ)
    (hobj : ∀ r ∈ (run u (src.pipeline set) src.restart n w).sys.here.sink.rows,
      src.InScope (run u (src.pipeline set) src.restart n w).sys.here.sink.columns r →
        r.payloadJson.IsObject) :
    let w' := run u (src.pipeline set) src.restart n w
    ∃ c, storedCursor (src.pipeline set) w'.store = .ok c ∧
      deliveredRows w'.trace = w'.sys.here.sink.rows.filter
        (fun r ↦ decide (src.InScope w'.sys.here.sink.columns r ∧ r.id ≤ c)) ∧
      Table.Increasing Row.id (deliveredRows w'.trace) := by
  intro w'
  have hrun : Follows src set w.sys.env w.sys.here.sink.columns
      (ScopeIsObjects src w.sys.here.sink.columns) (startState w) .done w' :=
    (follows_of_fresh hfresh).run u hwrites hplain.startAt n
  have hcol : w'.sys.here.sink.columns = w.sys.here.sink.columns := hrun.base.columns
  have hdeleted : deletedRows w'.sys.here.log = [] := hrun.base.kept hkeep
  have hmeets : Meets (ScopeIsObjects src w.sys.here.sink.columns) w' := by
    refine hrun.base.meets hout fun r hr hscope ↦ hobj r ?_ (hcol.symm ▸ hscope)
    rwa [everStored, hdeleted, List.append_nil] at hr
  obtain ⟨d, hd, hmatch⟩ := hrun.reaches hmeets
  have hno : ¬ ∃ k, (w.sys.env k).stop = true := by
    rintro ⟨k, hk⟩
    rw [hcrash k] at hk
    cases hk
  have hsound : Sound _ d := (sound_startState rfl w).run hd
  have hexact := (exact_startState w).run (hplain.precise set.limit _) hno
    (sound_startState rfl w) hd
  -- nothing was deleted, so the rows there ever were are those in the sink
  have hever : d.ever = w'.sys.here.sink.rows := by
    rw [hmatch.table]
    refine hsound.increasing.eq_of_mem_iff hsound.table_increasing fun r ↦ ?_
    rw [hsound.mem_ever, ← hmatch.removed, hdeleted]
    simp
  have hdelivered : deliveredRows w'.trace = w'.sys.here.sink.rows.filter
      (fun r ↦ decide (src.InScope w'.sys.here.sink.columns r ∧ r.id ≤ d.cursor)) := by
    have hidle : d.hand = .idle := hmatch.hand
    rw [hmatch.delivered, hexact.delivered, hidle, hever, hcol, span, Table.window,
      List.filter_filter, List.nil_append, Hand.inFlight, List.append_nil]
    refine List.filter_congr fun r hr ↦ ?_
    have hpos : 0 < r.id := (Sink.bounded hr).1
    rw [← Bool.decide_and, decide_eq_decide]
    constructor
    · rintro ⟨⟨-, hle⟩, hscope⟩
      exact ⟨hscope, hle⟩
    · rintro ⟨hscope, hle⟩
      exact ⟨⟨hpos, hle⟩, hscope⟩
  refine ⟨d.cursor, hmatch.cursor, hdelivered, ?_⟩
  rw [hdelivered]
  exact w'.sys.here.sink.increasing.filter _

/-- Two spots, two pumps. -/
theorem delivered_eq_scope_le_cursor_two_spots :
    let w' := run {} (spotSource.pipeline spotSettings) spotSource.restart 2
      (freshWorld spotSource [spot (.obj []), spot (.obj [])] fun _ ↦ {})
    ∃ c, storedCursor (spotSource.pipeline spotSettings) w'.store = .ok c ∧
      deliveredRows w'.trace = w'.sys.here.sink.rows.filter
        (fun r ↦ decide (spotSource.InScope w'.sys.here.sink.columns r ∧ r.id ≤ c)) ∧
      Table.Increasing Row.id (deliveredRows w'.trace) :=
  delivered_eq_scope_le_cursor {} ⟨rfl, rfl, rfl⟩ rfl (fresh_freshWorld ..)
    (Quiet.writes fun _ ↦ rfl) (fun _ ↦ rfl) (fun _ o h ↦ .inl (by cases h; rfl)) 2
    (by decide +kernel)

/-- **Delivery is at least once, whatever step the process is stopped at**: every row in scope up to
the stored cursor, also one a commit has deleted since, was delivered. -/
theorem mem_delivered_of_scope_le_cursor (u : Uploader) {src : SqliteSource}
    {set : PipelineSettings} {w : QueueWorld} (hplain : src.Plain) (hfresh : Fresh src set w)
    (hwrites : Writes w.sys.env) (hout : AnswersWhole w.sys.env) (n : ℕ)
    (hobj : ∀ r ∈ everStored (run u (src.pipeline set) src.restart n w).sys.here,
      src.InScope (run u (src.pipeline set) src.restart n w).sys.here.sink.columns r →
        r.payloadJson.IsObject) :
    let w' := run u (src.pipeline set) src.restart n w
    ∃ c, storedCursor (src.pipeline set) w'.store = .ok c ∧
      ∀ r ∈ everStored w'.sys.here, src.InScope w'.sys.here.sink.columns r → r.id ≤ c →
        r ∈ deliveredRows w'.trace := by
  intro w'
  have hrun : Follows src set w.sys.env w.sys.here.sink.columns
      (ScopeIsObjects src w.sys.here.sink.columns) (startState w) .done w' :=
    (follows_of_fresh hfresh).run u hwrites hplain.startAt n
  have hcol : w'.sys.here.sink.columns = w.sys.here.sink.columns := hrun.base.columns
  have hmeets : Meets (ScopeIsObjects src w.sys.here.sink.columns) w' :=
    hrun.base.meets hout fun r hr hscope ↦ hobj r hr (hcol.symm ▸ hscope)
  obtain ⟨d, hd, hmatch⟩ := hrun.reaches hmeets
  have hsound : Sound _ d := (sound_startState rfl w).run hd
  have hcovered := (covered_startState rfl w).run
    ((hplain.precise set.limit _).complete fun _ _ _ hread ↦ hread.1) (sound_startState rfl w) hd
  refine ⟨d.cursor, hmatch.cursor, fun r hr hscope hle ↦ ?_⟩
  rw [hmatch.delivered]
  refine hcovered.cursor r ?_ (decide_eq_true (hcol ▸ hscope)) hle
  rw [hsound.mem_ever, ← hmatch.table, ← hmatch.removed]
  exact List.mem_append.mp hr

/-- Two spots, and the process is stopped at its sixth step. -/
theorem mem_delivered_of_scope_le_cursor_stopped :
    let w' := run {} (spotSource.pipeline spotSettings) spotSource.restart 2
      (freshWorld spotSource [spot (.obj []), spot (.obj [])] fun k ↦ { stop := decide (k = 6) })
    ∃ c, storedCursor (spotSource.pipeline spotSettings) w'.store = .ok c ∧
      ∀ r ∈ everStored w'.sys.here, spotSource.InScope w'.sys.here.sink.columns r → r.id ≤ c →
        r ∈ deliveredRows w'.trace :=
  mem_delivered_of_scope_le_cursor {} ⟨rfl, rfl, rfl⟩ (fresh_freshWorld ..)
    (Quiet.writes fun _ ↦ rfl) (fun _ o h ↦ .inl (by cases h; rfl)) 2 (by decide +kernel)

end HsUploader
