import HsUploader.Delivery.Progress

/-!
# What a ceiling holds back

A ceiling filters the batch query by cycle time, and the cursor is the largest row id selected: two
orders that disagree as soon as a second receiver writes a row of an older cycle after one of a
newer cycle.  The row that is held back, with a smaller id than a row that ships, is passed by the
cursor and never looked at again (`held_row_is_passed`).

As long as no read finds its rows in such an order (`InOrder`), the ceiling only delays: what lies
at or below the cursor was delivered, and a row the ceiling has come to let through is reached
after as many pumps as its id lies past the cursor (`ceiling_only_delays`).

## What is here

* `LetThrough` and `eligible` — what a ceiling lets through, and the rows a read may take of a
  table.
* `InOrder` and `FoundInOrder` — the condition: on the table, the cursor and the ceiling a read
  finds, before it reads.
* `selectRows_eligible` — the query of a source that does not rank its rows selects what is
  eligible, and nothing else decides it.
* `GoesOn` and `Ready` — from some pump on nobody stops the process, the transport acks, the
  payloads can be read and the ceiling does not fall.
* `ceiling_only_delays` — both halves: nothing at or below the cursor is missing, and a row that is
  let through is reached within a number of pumps that its id gives.
* `held_row_is_passed` — two receivers whose rows come in the other order.
-/

set_option autoImplicit false

namespace HsUploader

open Prog

namespace SqliteSource

variable (src : SqliteSource)

/-- The ceiling lets the row through. -/
def LetThrough (ceiling : Option String) (r : Row) : Prop :=
  Passes (ceilingClauses src.ceilingColumn ceiling) r

instance (ceiling : Option String) : DecidablePred (src.LetThrough ceiling) := fun r ↦
  inferInstanceAs (Decidable (Passes (ceilingClauses src.ceilingColumn ceiling) r))

/-- The rows a batch query may take: the first in scope past the cursor that the ceiling lets
through. -/
def eligible (columns : Bool × Bool) (limit : ℤ) (ceiling : Option String) (cur : ℤ)
    (table : List Row) : List Row :=
  takeLimit (sqlLimit limit) (table.filter fun r ↦
    decide (cur < r.id ∧ src.InScope columns r ∧ src.LetThrough ceiling r))

/-- A row in scope past the cursor that the ceiling holds back stands behind all of those, and each
of those gives a record. -/
structure InOrder (columns : Bool × Bool) (limit : ℤ) (ceiling : Option String) (cur : ℤ)
    (table : List Row) : Prop where
  behind : ∀ r ∈ table, src.InScope columns r → cur < r.id → ¬ src.LetThrough ceiling r →
    ∀ x ∈ src.eligible columns limit ceiling cur table, x.id < r.id
  objects : ∀ x ∈ src.eligible columns limit ceiling cur table, x.payloadJson.IsObject

instance (columns : Bool × Bool) (limit : ℤ) (ceiling : Option String) (cur : ℤ)
    (table : List Row) : Decidable (src.InOrder columns limit ceiling cur table) :=
  decidable_of_iff ((∀ r ∈ table, src.InScope columns r → cur < r.id →
      ¬ src.LetThrough ceiling r → ∀ x ∈ src.eligible columns limit ceiling cur table, x.id < r.id) ∧
    ∀ x ∈ src.eligible columns limit ceiling cur table, x.payloadJson.IsObject)
    ⟨fun h ↦ ⟨h.1, h.2⟩, fun h ↦ ⟨h.1, h.2⟩⟩

/-- If the statement is a batch query, it found its rows in order. -/
def FoundInOrder (columns : Bool × Bool) (limit : ℤ) (st : Statement) : Prop :=
  match st.kind with
  | .select cur ceiling => src.InOrder columns limit ceiling cur st.rows
  | .selectCycle _ | .delete => True

instance (columns : Bool × Bool) (limit : ℤ) : DecidablePred (src.FoundInOrder columns limit) :=
  fun st ↦
    match h : st.kind with
    | .select cur ceiling => decidable_of_iff (src.InOrder columns limit ceiling cur st.rows) (by
        rw [FoundInOrder, h])
    | .selectCycle _ | .delete => isTrue (by rw [FoundInOrder, h]; trivial)

/-! ## What is selected under a ceiling -/

variable {src} {hasProducer hasLocal : Bool} {ceiling : Option String} {cur limit : ℤ}
  {table hit : List Row} {r : Row}

/-- **A source that does not rank its rows** selects the first eligible ones. -/
theorem selectRows_eligible (hd : src.dedup = none)
    (h : src.selectRows hasProducer hasLocal ceiling cur limit table = .ok hit) :
    hit = src.eligible (hasProducer, hasLocal) limit ceiling cur table := by
  rw [selectRows, hd] at h
  obtain ⟨cs, hcs, h⟩ := exists_of_bind_eq_ok h
  obtain ⟨cs₀, h₀, hiff⟩ := filters_ceiling hcs
  rw [firstMatching_eq h, eligible]
  congr 1
  refine List.filter_congr fun r _ ↦ ?_
  rw [decide_eq_decide, passes_cons, hiff, InScope, h₀, LetThrough]
  simp [afterCursor, Clause.column]

/-- A row in scope is one of the source's table. -/
theorem target_of_inScope {columns : Bool × Bool} (h : src.InScope columns r) :
    r.targetDb = src.database ∧ r.targetTable = src.table := by
  have hpass := passes_presentClauses h
  rw [presentClauses, List.append_assoc, passes_append, targetClauses, passes_cons, passes_cons]
    at hpass
  simpa [Clause.column] using And.intro hpass.1.1 hpass.1.2.1

/-- In order, a read leaves out no row in scope up to the last it selects. -/
theorem covers_of_inOrder (hd : src.dedup = none) (hinc : Table.Increasing Row.id table)
    (h : src.selectRows hasProducer hasLocal ceiling cur limit table = .ok hit) (hne : hit ≠ [])
    (horder : src.InOrder (hasProducer, hasLocal) limit ceiling cur table) :
    Covers (src.InScope (hasProducer, hasLocal)) table cur hit := by
  intro r hr hscope hcur hlast
  have hhit := selectRows_eligible hd h
  obtain ⟨x, hx⟩ : ∃ x, hit.getLast? = some x :=
    Option.isSome_iff_exists.mp (by rw [List.getLast?_isSome]; exact hne)
  have hle : r.id ≤ x.id := hlast x hx
  have hthrough : src.LetThrough ceiling r := by
    by_contra hheld
    have hlt := horder.behind r hr hscope hcur hheld x (hhit ▸ List.mem_of_getLast? hx)
    exact absurd hlt (not_lt.mpr hle)
  have hmem : r ∈ hit := by
    have hpre := takeLimit_isPrefix (sqlLimit limit) (table.filter fun r ↦
      decide (cur < r.id ∧ src.InScope (hasProducer, hasLocal) r ∧ src.LetThrough ceiling r))
    rw [← eligible, ← hhit] at hpre
    rw [Table.prefix_eq_filter_le (hinc.filter _) hpre hx]
    simp only [List.mem_filter, decide_eq_true_eq]
    exact ⟨⟨hr, hcur, hscope, hthrough⟩, hle⟩
  exact List.mem_map_of_mem (mem_objectRows.mpr ⟨hmem, horder.objects r (hhit ▸ hmem)⟩)

end SqliteSource

section ceiling

variable {src : SqliteSource} {set : PipelineSettings} {env : ℕ → Choice Act QueuedRecord}
  {columns : Bool × Bool}

/-- A run whose reads find their rows in order and whose transport acks leaves no row out. -/
theorem Base.meets_of_inOrder {ph : QueuePhase} {w : QueueWorld}
    (h : Base src set env columns ph w) (hd : src.dedup = none)
    (hacks : ∀ k o, (env k).outcome = .ok o → o.kind = .acked)
    (horder : ∀ st ∈ w.sys.here.log, src.FoundInOrder columns set.limit st) :
    Meets (Covers (src.InScope columns)) w where
  reads := fun st hst ↦ by
    rw [Statement.IsGood]
    split
    · rename_i cur ceiling hkind
      intro hone
      obtain ⟨ceiling', sink, sight, hit, hcol, hsel, rfl⟩ := h.selected st hst cur ceiling hkind
      cases hkind
      have hne : hit ≠ [] := by
        rintro rfl
        exact hone rfl
      have hsome : sink.isSome := by
        cases sink with
        | none => exact absurd (List.sublist_nil.mp (SqliteSource.sublist_of_selectRows hsel)) hne
        | some q => rfl
      have hcolumns : columns = (sink.hasProducer, sink.hasLocal) := by
        rw [← h.columns, ← hcol]
        exact Sink.columns_of_isSome hsome
      have hfound := horder _ hst
      rw [hcolumns] at hfound ⊢
      exact SqliteSource.covers_of_inOrder hd sink.increasing hsel hne hfound
    all_goals trivial
  accepted := fun e he ↦ by
    cases e with
    | shipped b o =>
      intro hk
      obtain ⟨n, hn⟩ := h.answered b o he
      rw [hacks n o hn] at hk
      cases hk
    | _ => trivial

/-! ## Pumping on -/

/-- The second answer of a ceiling provider is not below the first. -/
def NotBelow : Option String → Option String → Prop
  | none, _ => True
  | some _, none => False
  | some a, some b => a ≤ b

/-- The payload of a row of the source's table is one that SQLite reads and that gives a record. -/
def SqliteSource.Sound (src : SqliteSource) (database table : String) (p : Payload) : Prop :=
  database = src.database → table = src.table → p.sql ≠ none ∧ p.IsObject

instance (src : SqliteSource) (database table : String) (p : Payload) :
    Decidable (src.Sound database table p) :=
  inferInstanceAs (Decidable (database = src.database → table = src.table →
    p.sql ≠ none ∧ p.IsObject))

/-- From this world on pumping goes on undisturbed: the process runs and the transport acks, the file
can be read, the rows there are and those that are inserted are sound, and the ceiling provider
never answers less than it does now. -/
structure GoesOn (src : SqliteSource) (w : QueueWorld) : Prop where
  acking : AcksHere w.sys.env w.sys.tick
  reachable : w.sys.here.reachable = true
  stays : ∀ k, w.sys.tick ≤ k → .reachable false ∉ (w.sys.env k).ops
  sound : ∀ r ∈ w.sys.here.sink.rows, src.Sound r.targetDb r.targetTable r.payloadJson
  inserts : ∀ k, w.sys.tick ≤ k → ∀ gap row, .sink (.insert gap row) ∈ (w.sys.env k).ops →
    src.Sound row.targetDb row.targetTable row.payloadJson
  rises : ∀ k, w.sys.tick ≤ k → ∀ c, .ceiling c ∈ (w.sys.env k).ops →
    NotBelow w.sys.here.ceiling c

/-- What the outside is like from there on, for a row the ceiling lets through. -/
structure Ready (src : SqliteSource) (columns : Bool × Bool) (r : Row) (o : Outside SqliteMem) :
    Prop where
  reachable : o.reachable = true
  columns : o.sink.columns = columns
  sound : ∀ x ∈ o.sink.rows, src.Sound x.targetDb x.targetTable x.payloadJson
  through : ∃ ceiling, src.answer o = some ceiling ∧ src.LetThrough ceiling r

/-- A row that an answer lets through is let through by every answer that is not below it. -/
theorem SqliteSource.through_of_notBelow {o : Outside SqliteMem} {c : Option String} {r : Row}
    (h : ∃ ceiling, src.answer o = some ceiling ∧ src.LetThrough ceiling r)
    (hc : NotBelow o.ceiling c) :
    ∃ ceiling, src.answer { o with ceiling := c } = some ceiling ∧ src.LetThrough ceiling r := by
  obtain ⟨ceiling, hans, hthrough⟩ := h
  rw [answer] at hans ⊢
  cases hcol : src.ceilingColumn with
  | none =>
    rw [hcol] at hans
    exact ⟨ceiling, hans, hthrough⟩
  | some col =>
    rw [hcol] at hans
    dsimp only at hans ⊢
    cases ho : o.ceiling with
    | none =>
      rw [ho] at hans
      cases hans
    | some a =>
      rw [ho] at hans hc
      cases c with
      | none => exact hc.elim
      | some b =>
        obtain rfl : some a = ceiling := Option.some.inj hans
        exact ⟨some b, rfl, passes_ceiling_mono hc hthrough⟩

/-- **What `GoesOn` gives stays so.** -/
theorem GoesOn.stable {w : QueueWorld} (h : GoesOn src w) (hw : Writes w.sys.env) {r : Row}
    (hthrough : ∃ ceiling, src.answer w.sys.here = some ceiling ∧ src.LetThrough ceiling r) :
    Stable w.sys.env w.sys.tick (Ready src columns r) where
  react := fun k hk op hop o ho ↦ by
    cases op with
    | sink op =>
      have hwrite : op.IsWrite := hw k _ hop
      refine ⟨ho.reachable, (Sink.Grows.apply hwrite o.sink).columns.trans ho.columns,
        fun x hx ↦ ?_, ho.through⟩
      change x ∈ (op.apply o.sink).rows at hx
      cases op with
      | create =>
        cases hsink : o.sink with
        | none =>
          rw [hsink] at hx
          cases hx
        | some q =>
          refine ho.sound x ?_
          rw [hsink] at hx ⊢
          exact hx
      | insert gap row =>
        cases hsink : o.sink with
        | none =>
          rw [hsink] at hx
          cases hx
        | some q =>
          rw [hsink] at hx
          rcases List.mem_append.mp hx with hx | hx
          · exact ho.sound x (hsink ▸ hx)
          · rw [List.mem_singleton.mp hx]
            exact h.inserts k hk gap row hop
      | ensureColumns => exact hwrite.elim
      | delete hit => exact hwrite.elim
    | reachable b =>
      cases b with
      | false => exact absurd hop (h.stays k hk)
      | true => exact { ho with reachable := rfl }
    | ceiling c =>
      refine { ho with through := ?_ }
      obtain ⟨ceiling, hans, hlet⟩ := SqliteSource.through_of_notBelow hthrough (h.rises k hk c hop)
      exact ⟨ceiling, hans, hlet⟩
    | switches s => exact { ho with }
  mem := fun _ _ ho ↦ { ho with }
  log := fun _ _ ho ↦ { ho with }

theorem SqliteSource.exists_filters {hasProducer hasLocal : Bool} {r : Row}
    (h : src.InScope (hasProducer, hasLocal) r) (ceiling : Option String) :
    ∃ cs, src.filters hasProducer hasLocal ceiling = .ok cs := by
  rw [InScope] at h
  split at h
  · rename_i cs hcs
    rw [filters] at hcs
    obtain ⟨extra, hextra, -⟩ := exists_of_bind_eq_ok hcs
    exact ⟨_, by rw [filters, hextra]; rfl⟩
  · exact h.elim

/-- **A pump under such a ceiling is served**: it reads without raising, and as long as the row lies
ahead it reads something. -/
theorem serves_ready (hd : src.dedup = none) (hlimit : set.limit ≠ 0) {r : Row}
    (hscope : src.InScope columns r) :
    Serves src set.limit (· = r) r (fun _ ↦ True) (Ready src columns r) where
  reachable _ ho := ho.reachable
  answers o ho hnone := by
    obtain ⟨ceiling, hans, -⟩ := ho.through
    rw [hnone] at hans
    cases hans
  probes o e ho he := by
    obtain ⟨out, hout⟩ : ∃ out, firstMatching (src.staleClauses o.sink.hasProducer) (some 1)
        o.sink.rows = .ok out := exists_firstMatching fun x hx ↦
      SqliteSource.exists_holds_staleClauses fun hdb htable ↦ (ho.sound x hx hdb htable).1
    rw [hout] at he
    cases he
  reads o o' ceiling c ho hans ho' hsome _ hT := by
    have hcol : columns = (o'.sink.hasProducer, o'.sink.hasLocal) := by
      rw [← ho'.columns]
      exact Sink.columns_of_isSome hsome
    subst hcol
    obtain ⟨cs, hcs⟩ := SqliteSource.exists_filters hscope ceiling
    obtain ⟨hit, hhit⟩ : ∃ hit, firstMatching (afterCursor c :: cs) (sqlLimit set.limit)
        o'.sink.rows = .ok hit := exists_firstMatching fun x hx ↦
      holds_cons_ok rfl fun _ ↦ SqliteSource.exists_holds_filters hcs fun hdb htable ↦
        (ho'.sound x hx hdb htable).1
    have hsel : src.selectOn ceiling c set.limit o'.sink = .ok hit := by
      rw [SqliteSource.selectOn, SqliteSource.selectRows, hcs, hd]
      exact hhit
    have hobj : ∀ x ∈ hit, x.payloadJson.IsObject := fun x hx ↦ by
      obtain ⟨hdb, htable⟩ :=
        SqliteSource.target_of_inScope (SqliteSource.inScope_of_selectRows hsel hx).2
      exact (ho'.sound x ((SqliteSource.sublist_of_selectRows hsel).subset hx) hdb htable).2
    refine ⟨hit, hsel, fun now ↦ ?_, fun _ _ ↦ trivial, fun hlt hnil ↦ ?_⟩
    · exact SqliteSource.exists_buildRecords fun x hx ↦ .inl (hobj x hx)
    · -- the row itself is eligible
      have hself : objectRows hit = hit := List.filter_eq_self.mpr fun x hx ↦
        decide_eq_true (hobj x hx)
      rw [hself] at hnil
      obtain ⟨ceiling', hans', hthrough⟩ := ho.through
      obtain rfl := Option.some.inj (hans.symm.trans hans')
      have heligible := SqliteSource.selectRows_eligible hd hsel
      rw [hnil, SqliteSource.eligible] at heligible
      have hempty := takeLimit_eq_nil hlimit heligible.symm
      have hmem : r ∈ o'.sink.rows.filter fun x ↦ decide (c < x.id ∧
          src.InScope (o'.sink.hasProducer, o'.sink.hasLocal) x ∧ src.LetThrough ceiling x) :=
        List.mem_filter.mpr ⟨hT r rfl hlt, decide_eq_true ⟨hlt, hscope, hthrough⟩⟩
      rw [hempty] at hmem
      cases hmem
  deleted o hit log ho :=
    { reachable := ho.reachable
      columns := (Sink.columns_delete _ _).trans ho.columns
      sound := fun x hx ↦ by
        change x ∈ (o.sink.delete hit).rows at hx
        rw [Sink.rows_delete] at hx
        exact ho.sound x (List.mem_of_mem_filter hx)
      through := ho.through }

end ceiling

/-! ## The guarantee -/

theorem run_add {σ ω ρ π : Type} [Surroundings ω σ] (u : Uploader) (pipe : Pipeline σ ω ρ π)
    (restart : σ → σ) (m k : ℕ) (w : World σ ω ρ π) :
    run u pipe restart (m + k) w = run u pipe restart k (run u pipe restart m w) := by
  induction k with
  | zero => rfl
  | succ k ih => exact congrArg (cycle u pipe restart) ih

/-- **A ceiling only delays**, as long as the reads find their rows in order: each row in scope at or
below the stored cursor was delivered, and a row that the ceiling has come to let through is
delivered after as many pumps as its id lies past the cursor. -/
theorem ceiling_only_delays (u : Uploader) {src : SqliteSource} {set : PipelineSettings}
    {w : QueueWorld} (hd : src.dedup = none) (hstart : src.startAt = false)
    (hfresh : Fresh src set w) (hwrites : Writes w.sys.env)
    (hacks : ∀ k o, (w.sys.env k).outcome = .ok o → o.kind = .acked) (n : ℕ)
    (horder : ∀ st ∈ (run u (src.pipeline set) src.restart n w).sys.here.log,
      src.FoundInOrder w.sys.here.sink.columns set.limit st) :
    let w' := run u (src.pipeline set) src.restart n w
    ∃ c, storedCursor (src.pipeline set) w'.store = .ok c ∧
      (∀ r ∈ everStored w'.sys.here, src.InScope w.sys.here.sink.columns r → r.id ≤ c →
        r ∈ deliveredRows w'.trace) ∧
      (Pumping u src set → set.limit ≠ 0 → ∀ m ≤ n,
        let v := run u (src.pipeline set) src.restart m w
        GoesOn src v → ∀ r ∈ v.sys.here.sink.rows, src.InScope w.sys.here.sink.columns r →
          (∃ ceiling, src.answer v.sys.here = some ceiling ∧ src.LetThrough ceiling r) →
          ∀ c₀, storedCursor (src.pipeline set) v.store = .ok c₀ → r.id ≤ c₀ + (n - m : ℕ) →
            r ∈ deliveredRows w'.trace) := by
  intro w'
  have hrun : ∀ m, Follows src set w.sys.env w.sys.here.sink.columns
      (Covers (src.InScope w.sys.here.sink.columns)) (startState w) .done
      (run u (src.pipeline set) src.restart m w) := fun m ↦
    (follows_of_fresh hfresh).run u hwrites hstart m
  have hmeets := (hrun n).base.meets_of_inOrder hd hacks horder
  obtain ⟨-, c, hc, hcovered, -⟩ := hfresh.covered u hwrites hstart n hmeets
  refine ⟨c, hc, hcovered, ?_⟩
  intro hpump hlimit m hm v hgo r hr hscope hthrough c₀ hc₀ hfar
  have hbase := (hrun m).base
  have henv : v.sys.env = w.sys.env := hbase.env
  have hw : Writes v.sys.env := henv ▸ hwrites
  have hstable : Stable v.sys.env v.sys.tick (Ready src w.sys.here.sink.columns r) :=
    hgo.stable hw hthrough
  have hsome : v.sys.here.sink.isSome := by
    cases hsink : v.sys.here.sink with
    | none =>
      rw [hsink] at hr
      cases hr
    | some q => rfl
  have hacked : AllAcked v.trace := fun b o hbo ↦ by
    obtain ⟨k, hk⟩ := hbase.answered b o hbo
    exact hacks k o hk
  have hbegin : Progress src set (· = r) r (fun _ ↦ True) (Ready src w.sys.here.sink.columns r)
      v.sys.env v.sys.tick c₀ .start v :=
    { env := rfl
      tick := le_rfl
      keeps := ⟨hgo.reachable, hbase.columns, hgo.sound, hthrough⟩
      isSome := hsome
      memOk := hbase.memOk
      queue := hfresh.unqueued u m hacked
      ever := fun x hx ↦ hx ▸ List.mem_append_left _ hr
      cursor := ⟨c₀, hc₀, trivial, fun x hx _ ↦ hx ▸ hr, rfl⟩ }
  obtain ⟨c', hend, hreached⟩ := hbegin.run (u := u) hw hstable hgo.acking
    (serves_ready hd hlimit hscope) hpump (n - m)
  have hsplit : run u (src.pipeline set) src.restart (n - m) v = w' := by
    rw [← run_add, Nat.add_sub_cancel' hm]
  rw [hsplit] at hend
  obtain ⟨c'', hc'', -, -, hstage⟩ := hend.cursor
  obtain rfl : c'' = c := Except.ok.inj (hc''.symm.trans hc)
  obtain rfl : c'' = c' := hstage
  exact hcovered r (hend.ever r rfl) hscope (by omega)

/-! ## Two receivers -/

/-- A source of spots under a ceiling. -/
def cappedSource : SqliteSource := { spotSource with ceilingColumn := some "time" }

/-- A spot of the cycle with this key. -/
def spotOf (cycle : String) : NewRow := spot (.obj [("time", .str cycle)])

/-- The ceiling is the first cycle, and from the 20th step on the second. -/
def secondCycleLater (k : ℕ) : Choice Act QueuedRecord where
  ops :=
    if k = 0 then [.ceiling (some "2026-01-01T00:00:00Z")]
    else if k = 20 then [.ceiling (some "2026-01-01T00:02:00Z")]
    else []

/-- **A row that is held back is passed**: the second receiver's spot of the older cycle has the
larger id, so the cursor moves past the first receiver's spot of the newer cycle; when the ceiling
has come to let that one through, no pump selects it. -/
theorem held_row_is_passed :
    let w' := run {} (cappedSource.pipeline spotSettings) cappedSource.restart 4
      (freshWorld cappedSource [spotOf "2026-01-01T00:02:00Z", spotOf "2026-01-01T00:00:00Z"]
        secondCycleLater)
    storedCursor (cappedSource.pipeline spotSettings) w'.store = .ok 2 ∧
      ¬ ∀ r ∈ w'.sys.here.sink.rows, cappedSource.InScope w'.sys.here.sink.columns r →
        cappedSource.LetThrough w'.sys.here.ceiling r → r.id ≤ 2 →
        r.id ∈ (deliveredRows w'.trace).map Row.id := by
  decide +kernel

theorem secondCycleLater_ops {k : ℕ} (hk : 20 < k) : (secondCycleLater k).ops = [] := by
  rw [secondCycleLater, if_neg (by omega), if_neg (by omega)]

/-- The older cycle's spot first. -/
def twoReceivers : QueueWorld := freshWorld cappedSource
  [spotOf "2026-01-01T00:00:00Z", spotOf "2026-01-01T00:02:00Z"] secondCycleLater

theorem writes_secondCycleLater : Writes secondCycleLater := fun k op hop ↦ by
  rw [secondCycleLater] at hop
  split_ifs at hop
  · rw [List.mem_singleton.mp hop]
    trivial
  · rw [List.mem_singleton.mp hop]
    trivial
  · cases hop

/-- After three pumps nothing changes any more. -/
theorem goesOn_twoReceivers : GoesOn cappedSource
    (run {} (cappedSource.pipeline spotSettings) cappedSource.restart 3 twoReceivers) := by
  have hfresh : Fresh cappedSource spotSettings twoReceivers := fresh_freshWorld ..
  have hrun : Follows cappedSource spotSettings secondCycleLater (true, true) (fun _ _ _ ↦ True)
      (startState twoReceivers) .done _ :=
    (follows_of_fresh hfresh).run {} writes_secondCycleLater rfl 3
  have henv := hrun.base.env
  have htick : 20 < (run {} (cappedSource.pipeline spotSettings) cappedSource.restart 3
      twoReceivers).sys.tick := by decide +kernel
  have hops : ∀ k, (run {} (cappedSource.pipeline spotSettings) cappedSource.restart 3
      twoReceivers).sys.tick ≤ k → (secondCycleLater k).ops = [] := fun k hk ↦
    secondCycleLater_ops (htick.trans_le hk)
  constructor
  · rw [henv]
    exact ⟨fun _ _ ↦ rfl, fun _ _ ↦ ⟨.acked, rfl, rfl⟩⟩
  · decide +kernel
  · intro k hk hop
    rw [henv, hops k hk] at hop
    cases hop
  · decide +kernel
  · intro k hk gap row hop
    rw [henv, hops k hk] at hop
    cases hop
  · intro k hk c hop
    rw [henv, hops k hk] at hop
    cases hop

/-- Both are delivered, the second once the ceiling lets it through. -/
theorem ceiling_only_delays_two_receivers :
    let v := run {} (cappedSource.pipeline spotSettings) cappedSource.restart 3 twoReceivers
    let w' := run {} (cappedSource.pipeline spotSettings) cappedSource.restart 5 twoReceivers
    ∃ c, storedCursor (cappedSource.pipeline spotSettings) w'.store = .ok c ∧
      (∀ r ∈ everStored w'.sys.here, cappedSource.InScope twoReceivers.sys.here.sink.columns r →
        r.id ≤ c → r ∈ deliveredRows w'.trace) ∧
      ∀ r ∈ v.sys.here.sink.rows, cappedSource.InScope twoReceivers.sys.here.sink.columns r →
        (∃ ceiling, cappedSource.answer v.sys.here = some ceiling ∧
          cappedSource.LetThrough ceiling r) →
        ∀ c₀, storedCursor (cappedSource.pipeline spotSettings) v.store = .ok c₀ →
          r.id ≤ c₀ + (5 - 3 : ℕ) → r ∈ deliveredRows w'.trace := by
  have hfresh : Fresh cappedSource spotSettings twoReceivers := fresh_freshWorld ..
  obtain ⟨c, hc, hcovered, hlive⟩ := ceiling_only_delays {} rfl rfl hfresh writes_secondCycleLater
    (fun _ o h ↦ by cases h; rfl) 5 (by decide +kernel)
  exact ⟨c, hc, hcovered, hlive ⟨nofun, rfl, rfl, rfl⟩ (by decide) 3 (by decide)
    goesOn_twoReceivers⟩

end HsUploader
