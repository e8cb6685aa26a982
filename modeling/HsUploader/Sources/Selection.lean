import HsUploader.Sources.Sqlite

/-!
# Which rows a batch is made of

What the batch query selects, said in terms of the rows in scope, and what the loop over the
selected rows keeps of them.  `InScope` is the source's own filter without the cursor and without
the ceiling; a selected row is always in scope and past the cursor, whatever the configuration
(`inScope_of_selectRows`).  The converse holds of a source that neither ranks its rows nor asks for
a ceiling: it selects the first rows in scope past the cursor (`selectRows_plain`).

## What is here

* `SqliteSource.InScope` — the filters but for the ceiling and the cursor, in a table with or
  without the two younger columns.
* `SqliteSource.Legible` — where evaluating the filters does not raise.
* `inScope_of_selectRows` and `passes_of_selectRows` — every selected row, of any source.
* `selectRows_plain` — the selected rows of a source without ranking and ceiling, as a list.
* `buildRecords_eq` — the records are those of the selected rows that are objects, and the cursor is
  that of the last selected row, object or not.
-/

set_option autoImplicit false

namespace HsUploader

open Prog

/-- The rows among these whose payload is a JSON object: those that give a record. -/
def objectRows (rows : List Row) : List Row := rows.filter fun r ↦ decide r.payloadJson.IsObject

@[simp] theorem mem_objectRows {rows : List Row} {r : Row} :
    r ∈ objectRows rows ↔ r ∈ rows ∧ r.payloadJson.IsObject := by
  simp [objectRows]

theorem takeLimit_isPrefix (limit : Option ℕ) (rows : List Row) : takeLimit limit rows <+: rows := by
  cases limit with
  | none => exact List.prefix_rfl
  | some n => exact List.take_prefix n rows

theorem takeLimit_eq_nil {limit : ℤ} (h : limit ≠ 0) {rows : List Row}
    (hnil : takeLimit (sqlLimit limit) rows = []) : rows = [] := by
  rw [sqlLimit] at hnil
  split at hnil
  · exact hnil
  · rw [takeLimit, List.take_eq_nil_iff] at hnil
    exact hnil.resolve_left (by omega)

namespace SqliteSource

variable (src : SqliteSource)

/-! ## Scope -/

/-- The row passes the source's filters other than the ceiling, in a table with these columns. -/
def InScope (columns : Bool × Bool) (r : Row) : Prop :=
  match src.filters columns.1 columns.2 none with
  | .ok cs => Passes cs r
  | .error _ => False

instance (columns : Bool × Bool) : DecidablePred (src.InScope columns) := fun r ↦
  match h : src.filters columns.1 columns.2 none with
  | .ok cs => decidable_of_iff (Passes cs r) (by rw [InScope, h])
  | .error _ => isFalse fun hs ↦ by rw [InScope, h] at hs; exact hs

variable {src} {hasProducer hasLocal : Bool} {ceiling : Option String} {cs : List Clause} {r : Row}

/-- The filters under a ceiling are those without one, and the clause of the ceiling. -/
theorem filters_ceiling (h : src.filters hasProducer hasLocal ceiling = .ok cs) :
    ∃ cs₀, src.filters hasProducer hasLocal none = .ok cs₀ ∧
      ∀ r, Passes cs r ↔ Passes cs₀ r ∧ Passes (ceilingClauses src.ceilingColumn ceiling) r := by
  rw [filters] at h
  obtain ⟨extra, hextra, h⟩ := exists_of_bind_eq_ok h
  cases h
  refine ⟨_, by rw [filters, hextra]; rfl, fun r ↦ ?_⟩
  have hnone : ceilingClauses src.ceilingColumn none = [] := by
    cases src.ceilingColumn <;> rfl
  rw [hnone]
  simp only [passes_append, passes_nil, and_true]
  tauto

theorem inScope_of_passes (h : src.filters hasProducer hasLocal ceiling = .ok cs)
    (hr : Passes cs r) : src.InScope (hasProducer, hasLocal) r := by
  obtain ⟨cs₀, h₀, hiff⟩ := filters_ceiling h
  rw [InScope, h₀]
  exact ((hiff r).mp hr).1

/-- Without a ceiling the rows that pass are those in scope. -/
theorem inScope_iff_passes (hc : src.ceilingColumn = none)
    (h : src.filters hasProducer hasLocal ceiling = .ok cs) (r : Row) :
    src.InScope (hasProducer, hasLocal) r ↔ Passes cs r := by
  obtain ⟨cs₀, h₀, hiff⟩ := filters_ceiling h
  have hnil : ceilingClauses none ceiling = [] := by
    cases ceiling <;> rfl
  rw [InScope, h₀, hiff, hc, hnil]
  exact ⟨fun hr ↦ ⟨hr, passes_nil r⟩, fun hr ↦ hr.1⟩

/-- A row in scope lies in the part of the table a commit cleans up. -/
theorem passes_presentClauses (h : src.InScope (hasProducer, hasLocal) r) :
    Passes (src.presentClauses hasProducer hasLocal) r := by
  rw [InScope] at h
  split at h
  · rename_i cs hcs
    rw [filters] at hcs
    obtain ⟨extra, hextra, hcs⟩ := exists_of_bind_eq_ok hcs
    cases hcs
    simp only [passes_append] at h
    rw [presentClauses]
    simp only [passes_append]
    exact h.1.1.1
  · exact h.elim

/-- A later ceiling lets through what an earlier one does. -/
theorem passes_ceiling_mono {col : Option String} {d e : String} {r : Row} (hle : d ≤ e)
    (h : Passes (ceilingClauses col (some d)) r) : Passes (ceilingClauses col (some e)) r := by
  cases col with
  | none => exact passes_nil r
  | some col =>
    rw [ceilingClauses, passes_cons] at h ⊢
    refine ⟨?_, passes_nil r⟩
    obtain ⟨v, hv, hp⟩ := exists_of_map_eq_ok h.1
    rw [Clause.json, hv]
    refine congrArg Except.ok ?_
    cases v with
    | text s =>
      simp only [SqlValue.compare_text, Option.map_some, Option.some.injEq, bne_iff_ne, ne_eq,
        compare_gt_iff_gt, not_lt] at hp ⊢
      exact hp.trans hle
    | null => simp [SqlValue.compare, SqlValue.key] at hp
    | integer n => exact hp
    | real q => exact hp

/-! ## Statements that do not raise -/

theorem exists_map_ok {α β : Type} {x : Except Exn α} (f : α → β) (h : ∃ a, x = .ok a) :
    ∃ b, x.map f = .ok b := by
  obtain ⟨a, rfl⟩ := h
  exact ⟨f a, rfl⟩

theorem d12Mode_ok {r : Row} (h : r.payloadJson.sql ≠ none) : ∃ m, d12Mode r = .ok m :=
  exists_map_ok _ ((Payload.jsonExtract_ok _).mpr h)

theorem d12ByProducer_ok {producer : String} {d12 : Clause} {r : Row}
    (hd : d12ByProducer producer = some d12) (h : r.payloadJson.sql ≠ none) :
    ∃ v, d12 r = .ok v := by
  rw [d12ByProducer] at hd
  split_ifs at hd <;> cases hd <;> exact exists_map_ok _ (d12Mode_ok h)

theorem producerClause_ok {producer : String} {d12 : Clause} {r : Row} (h : ∃ v, d12 r = .ok v) :
    ∃ v, producerClause producer d12 r = .ok v := by
  rw [producerClause]
  split_ifs
  · exact ⟨_, rfl⟩
  · exact h
  · exact ⟨_, rfl⟩

/-- The clauses of a scope raise on no payload that can be read. -/
theorem scopeClauses_ok {hp : Bool} {scope : Option Scope} {r : Row} (h : r.payloadJson.sql ≠ none) :
    ∀ x ∈ scopeClauses hp scope, ∃ v, x r = .ok v := by
  cases scope with
  | none => exact fun x hx ↦ nomatch hx
  | some sc =>
    rw [scopeClauses.eq_def]
    intro x hx
    rcases List.mem_cons.mp hx with rfl | hx
    · cases hd : d12ByProducer sc.producer with
      | none => cases hp <;> exact ⟨_, rfl⟩
      | some d12 =>
        have hd12 := d12ByProducer_ok hd h
        cases hp with
        | false => exact hd12
        | true => exact producerClause_ok hd12
    · cases hrid : sc.radiodId with
      | none =>
        rw [hrid] at hx
        cases hx
      | some rid =>
        rw [hrid] at hx
        obtain rfl := List.mem_singleton.mp hx
        exact exists_map_ok _ ((Payload.jsonExtract_ok _).mpr h)

theorem ExtraWhere.clause_ok {x : ExtraWhere} {c : Clause} (hx : x.clause = .ok c)
    (h : r.payloadJson.sql ≠ none) : ∃ v, c r = .ok v := by
  have hjson : ∀ (p : SqlValue → Option Bool), ∃ v, Clause.json x.col p r = .ok v := fun p ↦
    exists_map_ok _ ((Payload.jsonExtract_ok _).mpr h)
  rw [ExtraWhere.clause.eq_def] at hx
  split at hx <;> cases hx <;> exact hjson _

theorem extraClauses_ok {xs : List ExtraWhere} {extra : List Clause}
    (hxs : xs.mapM ExtraWhere.clause = .ok extra) (h : r.payloadJson.sql ≠ none) :
    ∀ c ∈ extra, ∃ v, c r = .ok v := by
  induction xs generalizing extra with
  | nil =>
    cases hxs
    exact fun c hc ↦ nomatch hc
  | cons x xs ih =>
    rw [List.mapM_cons] at hxs
    obtain ⟨c, hc, hxs⟩ := exists_of_bind_eq_ok hxs
    obtain ⟨cs, hcs, hxs⟩ := exists_of_bind_eq_ok hxs
    cases hxs
    intro c' hc'
    rcases List.mem_cons.mp hc' with rfl | hc'
    · exact ExtraWhere.clause_ok hc h
    · exact ih hcs c' hc'

/-- SQLite can read the payload of the row, if it is one of the source's table. -/
def Legible (src : SqliteSource) (r : Row) : Prop :=
  r.targetDb = src.database → r.targetTable = src.table → r.payloadJson.sql ≠ none

/-- Behind the clauses of the target only a row of the source's table is looked at. -/
theorem exists_holds_target {ds : List Clause}
    (h : r.targetDb = src.database → r.targetTable = src.table → ∀ c ∈ ds, ∃ v, c r = .ok v) :
    ∃ hit, holds (targetClauses src.database src.table ++ ds) r = .ok hit := by
  rw [targetClauses, List.cons_append, List.cons_append, List.nil_append, holds_column,
    holds_column]
  split
  · split
    · rename_i hdb htable
      exact exists_holds (h (by simpa using hdb) (by simpa using htable))
    · exact ⟨_, rfl⟩
  · exact ⟨_, rfl⟩

/-- The filters raise on no row whose payload can be read. -/
theorem exists_holds_filters (hcs : src.filters hasProducer hasLocal ceiling = .ok cs)
    (hr : src.Legible r) : ∃ hit, holds cs r = .ok hit := by
  rw [filters] at hcs
  obtain ⟨extra, hextra, hcs⟩ := exists_of_bind_eq_ok hcs
  cases hcs
  simp only [List.append_assoc]
  refine exists_holds_target fun hdb htable c hc ↦ ?_
  have hsql := hr hdb htable
  simp only [List.mem_append] at hc
  rcases hc with hc | hc | hc | hc | hc
  · exact scopeClauses_ok hsql c hc
  · split at hc
    · rw [List.mem_singleton.mp hc]
      exact ⟨_, rfl⟩
    · cases hc
  · rw [schemaClauses] at hc
    split at hc
    · cases hc
    · rw [List.mem_singleton.mp hc]
      exact ⟨_, rfl⟩
  · rw [ceilingClauses.eq_def] at hc
    split at hc
    · rw [List.mem_singleton.mp hc]
      exact exists_map_ok _ ((Payload.jsonExtract_ok _).mpr hsql)
    · cases hc
  · exact extraClauses_ok hextra hsql c hc

/-- Nor does the probe for stale rows. -/
theorem exists_holds_staleClauses (hr : src.Legible r) :
    ∃ hit, holds (src.staleClauses hasProducer) r = .ok hit := by
  rw [staleClauses, List.append_assoc]
  refine exists_holds_target fun hdb htable c hc ↦ ?_
  rcases List.mem_append.mp hc with hc | hc
  · exact scopeClauses_ok (hr hdb htable) c hc
  · rw [List.mem_singleton.mp hc]
    exact ⟨_, rfl⟩

/-! ## What is selected -/

theorem map_row_of_mapM_rank {d : Dedup} {pool : List Row} {ranked : List Ranked}
    (h : pool.mapM d.rank = .ok ranked) : ranked.map Ranked.row = pool := by
  induction pool generalizing ranked with
  | nil =>
    cases h
    rfl
  | cons r pool ih =>
    rw [List.mapM_cons] at h
    obtain ⟨a, ha, h⟩ := exists_of_bind_eq_ok h
    obtain ⟨as, has, h⟩ := exists_of_bind_eq_ok h
    cases h
    rw [Dedup.rank] at ha
    obtain ⟨part, -, ha⟩ := exists_of_bind_eq_ok ha
    obtain ⟨order, -, ha⟩ := exists_of_bind_eq_ok ha
    cases ha
    rw [List.map_cons, ih has]

theorem dedupWinners_sublist (pool : List Ranked) (cur : ℤ) :
    (dedupWinners pool cur).Sublist (pool.map Ranked.row) :=
  List.filter_sublist.map Ranked.row

theorem lt_of_mem_dedupWinners {pool : List Ranked} {cur : ℤ} (h : r ∈ dedupWinners pool cur) :
    cur < r.id := by
  obtain ⟨a, ha, rfl⟩ := List.mem_map.mp h
  exact (of_decide_eq_true (List.mem_filter.mp ha).2).2.1

variable {cur limit : ℤ} {rows hit : List Row}

/-- The selected rows are rows of the table, in its order. -/
theorem sublist_of_selectRows
    (h : src.selectRows hasProducer hasLocal ceiling cur limit rows = .ok hit) :
    hit.Sublist rows := by
  rw [selectRows] at h
  obtain ⟨cs, hcs, h⟩ := exists_of_bind_eq_ok h
  cases hd : src.dedup with
  | none =>
    rw [hd] at h
    rw [firstMatching_eq h]
    exact (takeLimit_isPrefix _ _).sublist.trans List.filter_sublist
  | some d =>
    rw [hd] at h
    obtain ⟨pool, hpool, h⟩ := exists_of_bind_eq_ok h
    obtain ⟨ranked, hranked, h⟩ := exists_of_bind_eq_ok h
    cases h
    refine (takeLimit_isPrefix _ _).sublist.trans ((dedupWinners_sublist ranked cur).trans ?_)
    rw [map_row_of_mapM_rank hranked, matching_eq hpool]
    exact List.filter_sublist

/-- **A selected row passes the filters and lies past the cursor.** -/
theorem passes_of_selectRows
    (h : src.selectRows hasProducer hasLocal ceiling cur limit rows = .ok hit) (hr : r ∈ hit) :
    cur < r.id ∧ ∃ cs, src.filters hasProducer hasLocal ceiling = .ok cs ∧ Passes cs r := by
  rw [selectRows] at h
  obtain ⟨cs, hcs, h⟩ := exists_of_bind_eq_ok h
  cases hd : src.dedup with
  | none =>
    rw [hd] at h
    rw [firstMatching_eq h] at hr
    have hr := (takeLimit_isPrefix _ _).subset hr
    rw [List.mem_filter, decide_eq_true_eq, passes_cons] at hr
    obtain ⟨-, hcur, hpass⟩ := hr
    exact ⟨by simpa [afterCursor, Clause.column] using hcur, cs, hcs, hpass⟩
  | some d =>
    rw [hd] at h
    obtain ⟨pool, hpool, h⟩ := exists_of_bind_eq_ok h
    obtain ⟨ranked, hranked, h⟩ := exists_of_bind_eq_ok h
    cases h
    have hr := (takeLimit_isPrefix _ _).subset hr
    refine ⟨lt_of_mem_dedupWinners hr, cs, hcs, ?_⟩
    have hmem := (dedupWinners_sublist ranked cur).subset hr
    rw [map_row_of_mapM_rank hranked, matching_eq hpool, List.mem_filter, decide_eq_true_eq] at hmem
    exact hmem.2

theorem inScope_of_selectRows
    (h : src.selectRows hasProducer hasLocal ceiling cur limit rows = .ok hit) (hr : r ∈ hit) :
    cur < r.id ∧ src.InScope (hasProducer, hasLocal) r := by
  obtain ⟨hcur, cs, hcs, hpass⟩ := passes_of_selectRows h hr
  exact ⟨hcur, inScope_of_passes hcs hpass⟩

/-- **A source that neither ranks its rows nor asks for a ceiling** selects the first rows in scope
past the cursor. -/
theorem selectRows_plain (hd : src.dedup = none) (hc : src.ceilingColumn = none)
    (h : src.selectRows hasProducer hasLocal ceiling cur limit rows = .ok hit) :
    hit = takeLimit (sqlLimit limit)
      (rows.filter fun r ↦ decide (cur < r.id ∧ src.InScope (hasProducer, hasLocal) r)) := by
  rw [selectRows, hd] at h
  obtain ⟨cs, hcs, h⟩ := exists_of_bind_eq_ok h
  rw [firstMatching_eq h]
  congr 1
  refine List.filter_congr fun r _ ↦ decide_eq_decide.mpr ?_
  rw [passes_cons, inScope_iff_passes hc hcs]
  simp [afterCursor, Clause.column]

/-- It leaves out no row in scope between the cursor and the last row it selects. -/
theorem mem_of_selectRows_plain (hd : src.dedup = none) (hc : src.ceilingColumn = none)
    (h : src.selectRows hasProducer hasLocal ceiling cur limit rows = .ok hit)
    (hinc : Table.Increasing Row.id rows) (hr : r ∈ rows) (hcur : cur < r.id)
    (hscope : src.InScope (hasProducer, hasLocal) r) {x : Row} (hx : hit.getLast? = some x)
    (hle : r.id ≤ x.id) : r ∈ hit := by
  have hhit := selectRows_plain hd hc h
  have hpre := takeLimit_isPrefix (sqlLimit limit)
    (rows.filter fun r ↦ decide (cur < r.id ∧ src.InScope (hasProducer, hasLocal) r))
  rw [← hhit] at hpre
  rw [Table.prefix_eq_filter_le (hinc.filter _) hpre hx]
  simp only [List.mem_filter, decide_eq_true_eq]
  exact ⟨⟨hr, hcur, hscope⟩, hle⟩

/-! ## What becomes of the selected rows -/

theorem recordOf_eq {now : ℚ} {q : Option QueuedRecord} (h : src.recordOf now r = .ok q) :
    (q.toList.map QueuedRecord.row) = objectRows [r] := by
  rw [recordOf] at h
  have hiff : r.payloadJson.IsObject ↔ r.payloadJson.loads.IsObject := Iff.rfl
  split at h
  · rename_i hl
    cases h
    rw [hl] at hiff
    simp [objectRows, hiff, Loaded.IsObject]
  · cases h
  · rename_i hl
    cases h
    rw [hl] at hiff
    simp [objectRows, hiff, Loaded.IsObject, Json.IsObject]
  · cases h

/-- **The loop over the selected rows** keeps those whose payload is a JSON object, and answers with
the id of the last row. -/
theorem buildRecords_eq {now : ℚ} {records : List QueuedRecord} {lastId : ℤ}
    (h : src.buildRecords now hit cur = .ok (records, lastId)) :
    records.map QueuedRecord.row = objectRows hit ∧
      lastId = (hit.getLast?.map Row.id).getD cur := by
  induction hit generalizing records cur with
  | nil =>
    cases h
    exact ⟨rfl, rfl⟩
  | cons r rs ih =>
    rw [buildRecords] at h
    obtain ⟨q, hq, h⟩ := exists_of_bind_eq_ok h
    obtain ⟨⟨qs, id⟩, hqs, h⟩ := exists_of_bind_eq_ok h
    cases h
    obtain ⟨hrows, hid⟩ := ih hqs
    constructor
    · rw [List.map_append, recordOf_eq hq, hrows, objectRows, objectRows, objectRows,
        ← List.filter_append, List.singleton_append]
    · rw [hid]
      cases rs with
      | nil => rfl
      | cons r' rs => rw [List.getLast?_cons_cons, List.getLast?_cons]; rfl

/-- The loop raises at a payload that is JSON and no object, and at one `json.loads` refuses. -/
theorem exists_buildRecords {now : ℚ} (h : ∀ r ∈ hit, r.payloadJson.IsObject ∨
    ∃ m, r.payloadJson.loads = .corrupt m) :
    ∃ p, src.buildRecords now hit cur = .ok p := by
  induction hit generalizing cur with
  | nil => exact ⟨_, rfl⟩
  | cons r rs ih =>
    obtain ⟨p, hp⟩ : ∃ p, src.buildRecords now rs r.id = .ok p :=
      ih fun x hx ↦ h x (List.mem_cons_of_mem r hx)
    have hr : ∃ q, src.recordOf now r = .ok q := by
      rw [recordOf]
      rcases h r List.mem_cons_self with hobj | ⟨m, hm⟩
      · obtain ⟨ms, hms⟩ := Payload.isObject_iff.mp hobj
        exact ⟨_, by rw [hms]⟩
      · exact ⟨_, by rw [hm]⟩
    obtain ⟨q, hq⟩ := hr
    refine ⟨(q.toList ++ p.1, p.2), ?_⟩
    rw [buildRecords, hq]
    change (src.buildRecords now rs r.id >>= _) = _
    rw [hp]
    rfl

end SqliteSource

end HsUploader
