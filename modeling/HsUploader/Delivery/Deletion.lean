import HsUploader.Delivery.Ceiling
import HsUploader.Library.Except

/-!
# What a commit deletes

A commit deletes every row of the source's database, table, producer scope and side of the local
filter up to the id its token names.  The batch query looks at more: at the accepted schema
versions, the extra conditions, the ceiling, the ranking, and at whether the payload can be
decoded.  Each of these can leave a row out of a batch that the commit of the batch then deletes.

When a read leaves nothing out is said of the table it finds, of its cursor and of its ceiling, by
what the source is configured to send (`SqliteSource.offered`) and not by what its query answers:
up to the last row offered, every row past the cursor that a commit may delete is offered and can be
decoded (`SqliteSource.Spares`).  `covers_of_spares` connects this to the query, ranked or not.

So a deleted row was delivered in every run whose reads meet that, and in which no partial ack stops
short of the batch's end or reaches past it (`mem_delivered_of_deleted`).  A row of another schema
version is one that is deleted unsent.

## What is here

* `SqliteSource.InDeletionScope` — the rows a commit may delete, by the table's columns.
* `SameKind`, `Beats` and `Outdone` — the ranking of copies, said without the query.
* `offered`, `Spares` and `FindsAll` — what is to be sent of a table, and the condition on the
  table.
* `dedupWinners_eq` and `selectRows_offered` — the window function and the query come to that.
* `covers_of_spares` — a read of such a table leaves out no row that its commit deletes.
* `mem_delivered_of_deleted` — the run; `not_mem_delivered_of_stale` — a row of another schema
  version, deleted unsent.
-/

set_option autoImplicit false

namespace HsUploader

/-! ## What is offered -/

namespace Dedup

variable (d : Dedup)

/-- The two rows are copies of one thing: their payloads agree where the partition looks. -/
def SameKind (x r : Row) : Prop :=
  ∀ f ∈ d.partitionBy, (x.payloadJson.jsonExtract f).toOption.map SqlValue.key =
    (r.payloadJson.jsonExtract f).toOption.map SqlValue.key

instance : DecidableRel d.SameKind := fun x r ↦
  inferInstanceAs (Decidable (∀ f ∈ d.partitionBy,
    (x.payloadJson.jsonExtract f).toOption.map SqlValue.key =
      (r.payloadJson.jsonExtract f).toOption.map SqlValue.key))

/-- What the row is ranked by; a payload that cannot be read ranks lowest. -/
def score (r : Row) : WithBot ℚ :=
  match r.payloadJson.jsonExtract d.orderByDesc with
  | .ok v => v.castReal
  | .error _ => ⊥

/-- The row `x` ranks before `r`, or lies at or below the cursor. -/
def Beats (cur : ℤ) (x r : Row) : Prop :=
  d.score r < d.score x ∨ d.score x = d.score r ∧ x.id < r.id ∨ x.id ≤ cur

instance (cur : ℤ) : DecidableRel (d.Beats cur) := fun x r ↦
  inferInstanceAs (Decidable
    (d.score r < d.score x ∨ d.score x = d.score r ∧ x.id < r.id ∨ x.id ≤ cur))

end Dedup

/-- The rows a commit may delete, in a table with these columns. -/
def SqliteSource.InDeletionScope (src : SqliteSource) (columns : Bool × Bool) (r : Row) : Prop :=
  Passes (src.presentClauses columns.1 columns.2) r

instance (src : SqliteSource) (columns : Bool × Bool) : DecidablePred (src.InDeletionScope columns) :=
  fun r ↦ inferInstanceAs (Decidable (Passes (src.presentClauses columns.1 columns.2) r))

namespace SqliteSource

variable (src : SqliteSource)

/-- A source that ranks its rows has a copy of the row in the table that beats it. -/
def Outdone (columns : Bool × Bool) (ceiling : Option String) (cur : ℤ) (table : List Row)
    (r : Row) : Prop :=
  match src.dedup with
  | none => False
  | some d => ∃ x ∈ table, src.InScope columns x ∧ src.LetThrough ceiling x ∧ d.SameKind x r ∧
      d.Beats cur x r

instance (columns : Bool × Bool) (ceiling : Option String) (cur : ℤ) (table : List Row) :
    DecidablePred (src.Outdone columns ceiling cur table) := fun r ↦
  match h : src.dedup with
  | none => isFalse (by rw [Outdone, h]; exact id)
  | some d => decidable_of_iff (∃ x ∈ table, src.InScope columns x ∧ src.LetThrough ceiling x ∧
      d.SameKind x r ∧ d.Beats cur x r) (by rw [Outdone, h])

/-- The row is one to send in the next batches: in scope, let through, and not outdone. -/
def Offers (columns : Bool × Bool) (ceiling : Option String) (cur : ℤ) (table : List Row)
    (r : Row) : Prop :=
  src.InScope columns r ∧ src.LetThrough ceiling r ∧ ¬ src.Outdone columns ceiling cur table r

instance (columns : Bool × Bool) (ceiling : Option String) (cur : ℤ) (table : List Row) :
    DecidablePred (src.Offers columns ceiling cur table) := fun r ↦
  inferInstanceAs (Decidable (src.InScope columns r ∧ src.LetThrough ceiling r ∧
    ¬ src.Outdone columns ceiling cur table r))

/-- The rows to send past a cursor, as many as a batch takes. -/
def offered (columns : Bool × Bool) (limit : ℤ) (ceiling : Option String) (cur : ℤ)
    (table : List Row) : List Row :=
  takeLimit (sqlLimit limit)
    (table.filter fun r ↦ decide (cur < r.id ∧ src.Offers columns ceiling cur table r))

/-- If a row that is offered can be decoded, then each row past the cursor that a commit may delete
is offered and can be decoded, up to the last one offered. -/
def Spares (columns : Bool × Bool) (limit : ℤ) (ceiling : Option String) (cur : ℤ)
    (table : List Row) : Prop :=
  (∃ y ∈ src.offered columns limit ceiling cur table, y.payloadJson.IsObject) →
    ∀ x ∈ src.offered columns limit ceiling cur table, ∀ r ∈ table, src.InDeletionScope columns r →
      cur < r.id → r.id ≤ x.id →
        src.Offers columns ceiling cur table r ∧ r.payloadJson.IsObject

instance (columns : Bool × Bool) (limit : ℤ) (ceiling : Option String) (cur : ℤ)
    (table : List Row) : Decidable (src.Spares columns limit ceiling cur table) :=
  inferInstanceAs (Decidable
    ((∃ y ∈ src.offered columns limit ceiling cur table, y.payloadJson.IsObject) →
      ∀ x ∈ src.offered columns limit ceiling cur table, ∀ r ∈ table,
        src.InDeletionScope columns r → cur < r.id → r.id ≤ x.id →
          src.Offers columns ceiling cur table r ∧ r.payloadJson.IsObject))

/-- If the statement is a batch query, the table it finds leaves nothing out. -/
def FindsAll (columns : Bool × Bool) (limit : ℤ) (st : Statement) : Prop :=
  match st.kind with
  | .select cur ceiling => src.Spares columns limit ceiling cur st.rows
  | .selectCycle _ | .delete => True

instance (columns : Bool × Bool) (limit : ℤ) : DecidablePred (src.FindsAll columns limit) :=
  fun st ↦
    match h : st.kind with
    | .select cur ceiling => decidable_of_iff (src.Spares columns limit ceiling cur st.rows) (by
        rw [FindsAll, h])
    | .selectCycle _ | .delete => isTrue (by rw [FindsAll, h]; trivial)

end SqliteSource

/-! ## What the query makes of it -/

section query

variable {src : SqliteSource} {hasProducer hasLocal : Bool} {ceiling : Option String} {cur limit : ℤ}
  {table hit : List Row}

/-- Two lists of values read from payloads are the same when each value is. -/
theorem mapM_eq_iff {fields : List String} {g g' : String → Except Exn SqlKey}
    {ks ks' : List SqlKey} (h : fields.mapM g = .ok ks) (h' : fields.mapM g' = .ok ks') :
    ks = ks' ↔ ∀ f ∈ fields, (g f).toOption = (g' f).toOption := by
  induction fields generalizing ks ks' with
  | nil =>
    cases h
    cases h'
    simp
  | cons f fields ih =>
    obtain ⟨k, rest, hk, hrest, rfl⟩ := Except.mapM_cons_eq_ok.mp h
    obtain ⟨k', rest', hk', hrest', rfl⟩ := Except.mapM_cons_eq_ok.mp h'
    rw [List.cons_eq_cons, ih hrest hrest', List.forall_mem_cons, hk, hk']
    simp [Except.toOption]

theorem rank_row {d : Dedup} {r : Row} {a : Ranked} (h : d.rank r = .ok a) :
    a.row = r ∧ a.order = d.score r ∧
      d.partitionBy.mapM (fun f ↦ (r.payloadJson.jsonExtract f).map SqlValue.key) = .ok a.part := by
  rw [Dedup.rank] at h
  obtain ⟨part, hpart, h⟩ := Prog.exists_of_bind_eq_ok h
  obtain ⟨order, horder, h⟩ := Prog.exists_of_bind_eq_ok h
  cases h
  obtain ⟨v, hv, rfl⟩ := Prog.exists_of_map_eq_ok horder
  exact ⟨rfl, by rw [Dedup.score, hv], hpart⟩

theorem part_eq_iff {d : Dedup} {r r' : Row} {a b : Ranked} (ha : d.rank r = .ok a)
    (hb : d.rank r' = .ok b) : b.part = a.part ↔ d.SameKind r' r := by
  rw [mapM_eq_iff (rank_row hb).2.2 (rank_row ha).2.2, Dedup.SameKind]
  refine forall_congr' fun f ↦ imp_congr_right fun _ ↦ ?_
  cases r'.payloadJson.jsonExtract f <;> cases r.payloadJson.jsonExtract f <;>
    simp [Except.toOption, Except.map]

/-- **The winners are the rows that are not outdone**, among the rows of a pool that has been
ranked. -/
theorem dedupWinners_eq {d : Dedup} {pool : List Row} {ranked : List Ranked}
    (h : pool.mapM d.rank = .ok ranked) (cur : ℤ) :
    dedupWinners ranked cur =
      pool.filter fun r ↦ decide (cur < r.id ∧ ¬ ∃ x ∈ pool, d.SameKind x r ∧ d.Beats cur x r) := by
  have hrows : ranked.map Ranked.row = pool := SqliteSource.map_row_of_mapM_rank h
  have hrank : ∀ a ∈ ranked, d.rank a.row = .ok a := fun a ha ↦ by
    obtain ⟨r, -, hr⟩ := (Except.exists_of_mapM h).2 a ha
    rwa [(rank_row hr).1]
  rw [dedupWinners, ← hrows, List.filter_map]
  congr 1
  refine List.filter_congr fun a ha ↦ ?_
  rw [Function.comp_apply, decide_eq_decide]
  have hpool : (∃ x ∈ ranked.map Ranked.row, d.SameKind x a.row ∧ d.Beats cur x a.row) ↔
      ∃ b ∈ ranked, b.part = a.part ∧ (b.Before a ∨ b.row.id ≤ cur) := by
    simp only [List.mem_map, exists_exists_and_eq_and]
    refine exists_congr fun b ↦ and_congr_right fun hb ↦ ?_
    rw [part_eq_iff (hrank a ha) (hrank b hb), Dedup.Beats, Ranked.Before, or_assoc,
      ← (rank_row (hrank a ha)).2.1, ← (rank_row (hrank b hb)).2.1]
  rw [hpool]
  constructor
  · rintro ⟨hfirst, hcur, hnew⟩
    refine ⟨hcur, fun ⟨b, hb, hpart, hbeats⟩ ↦ ?_⟩
    exact hbeats.elim (hfirst b hb hpart) (not_le.mpr (hnew b hb hpart))
  · rintro ⟨hcur, hnone⟩
    exact ⟨fun b hb hpart hbefore ↦ hnone ⟨b, hb, hpart, .inl hbefore⟩, hcur,
      fun b hb hpart ↦ not_le.mp fun hle ↦ hnone ⟨b, hb, hpart, .inr hle⟩⟩

/-- **The query selects what is offered**, whatever the source is configured to look at. -/
theorem selectRows_offered
    (h : src.selectRows hasProducer hasLocal ceiling cur limit table = .ok hit) :
    hit = src.offered (hasProducer, hasLocal) limit ceiling cur table := by
  cases hd : src.dedup with
  | none =>
    rw [SqliteSource.selectRows_eligible hd h, SqliteSource.eligible, SqliteSource.offered]
    congr 1
    refine List.filter_congr fun r _ ↦ ?_
    rw [decide_eq_decide, SqliteSource.Offers, SqliteSource.Outdone, hd]
    simp
  | some d =>
    rw [SqliteSource.selectRows, hd] at h
    obtain ⟨cs, hcs, h⟩ := Prog.exists_of_bind_eq_ok h
    obtain ⟨pool, hpool, h⟩ := Prog.exists_of_bind_eq_ok h
    obtain ⟨ranked, hranked, h⟩ := Prog.exists_of_bind_eq_ok h
    cases h
    obtain ⟨cs₀, h₀, hiff⟩ := SqliteSource.filters_ceiling hcs
    have hpasses : ∀ r, Passes cs r ↔
        src.InScope (hasProducer, hasLocal) r ∧ src.LetThrough ceiling r := fun r ↦ by
      rw [hiff, SqliteSource.InScope, h₀, SqliteSource.LetThrough]
    rw [SqliteSource.offered, dedupWinners_eq hranked, matching_eq hpool, List.filter_filter]
    congr 1
    refine List.filter_congr fun r _ ↦ ?_
    rw [← Bool.decide_and, decide_eq_decide, SqliteSource.Offers, SqliteSource.Outdone, hd]
    simp only [List.mem_filter, decide_eq_true_eq, hpasses, and_assoc]
    tauto

/-- **A read of a table that leaves nothing out covers the deletion scope.** -/
theorem covers_of_spares (hinc : Table.Increasing Row.id table)
    (h : src.selectRows hasProducer hasLocal ceiling cur limit table = .ok hit)
    (hne : objectRows hit ≠ []) (hspares : src.Spares (hasProducer, hasLocal) limit ceiling cur table) :
    Covers (src.InDeletionScope (hasProducer, hasLocal)) table cur hit := by
  intro r hr hscope hcur hlast
  have hhit := selectRows_offered h
  obtain ⟨y, hy⟩ := List.exists_mem_of_ne_nil _ hne
  obtain ⟨hyhit, hyobject⟩ := mem_objectRows.mp hy
  obtain ⟨x, hx⟩ : ∃ x, hit.getLast? = some x :=
    Option.isSome_iff_exists.mp (by
      rw [List.getLast?_isSome]
      exact List.ne_nil_of_mem hyhit)
  have hle : r.id ≤ x.id := hlast x hx
  obtain ⟨hoffers, hobject⟩ := hspares ⟨y, hhit ▸ hyhit, hyobject⟩ x
    (hhit ▸ List.mem_of_getLast? hx) r hr hscope hcur hle
  have hmem : r ∈ hit := by
    have hpre := takeLimit_isPrefix (sqlLimit limit) (table.filter fun r ↦
      decide (cur < r.id ∧ src.Offers (hasProducer, hasLocal) ceiling cur table r))
    rw [← SqliteSource.offered, ← hhit] at hpre
    rw [Table.prefix_eq_filter_le (hinc.filter _) hpre hx]
    simp only [List.mem_filter, decide_eq_true_eq]
    exact ⟨⟨hr, hcur, hoffers⟩, hle⟩
  exact List.mem_map_of_mem (mem_objectRows.mpr ⟨hmem, hobject⟩)

end query

/-- A run whose reads find tables that leave nothing out, and whose partial acks accept the whole
batch, passes no row of the deletion scope by. -/
theorem Base.meets_of_findsAll {src : SqliteSource} {set : PipelineSettings}
    {env : ℕ → Choice Act QueuedRecord} {columns : Bool × Bool} {ph : QueuePhase} {w : QueueWorld}
    (h : Base src set env columns ph w)
    (hreads : ∀ st ∈ w.sys.here.log, src.FindsAll columns set.limit st)
    (haccepted : ∀ e ∈ w.trace, e.FullyAccepted) :
    Meets (Covers (src.InDeletionScope columns)) w where
  reads := fun st hst ↦ by
    rw [Statement.IsGood]
    split
    · rename_i cur ceiling hkind
      intro hone
      obtain ⟨ceiling', sink, sight, hit, hcol, hsel, rfl⟩ := h.selected st hst cur ceiling hkind
      cases hkind
      have hsome : sink.isSome := by
        cases sink with
        | none =>
          have hnil : hit = [] := List.sublist_nil.mp (SqliteSource.sublist_of_selectRows hsel)
          rw [hnil] at hone
          exact absurd rfl hone
        | some q => rfl
      have hcolumns : columns = (sink.hasProducer, sink.hasLocal) := by
        rw [← h.columns, ← hcol]
        exact Sink.columns_of_isSome hsome
      have hfound := hreads _ hst
      rw [hcolumns] at hfound ⊢
      exact covers_of_spares sink.increasing hsel hone hfound
    all_goals trivial
  accepted := haccepted

end HsUploader
