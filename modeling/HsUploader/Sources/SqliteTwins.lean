import HsUploader.Sources.Selection
import HsUploader.Sources.Twins

/-!
# Local rows and the source of queue rows

Every statement of `SqliteSource` that decides about a batch carries `local = 0`, so over two queues
that differ in local rows alone it yields the same batch (`SqliteSource.both_yields`), with two
provisos.  The clauses of a scope stand before `local = 0` and read the payload, which raises over
one that is no JSON (`ReadableLocals`); and a ceiling that the completion gate answers may itself
depend on local rows (`SameCeiling`).

## What is here

* `SqliteMem.Like` and `SqliteTwins` — two objects that may have looked at their files at different
  times.
* `ReadableLocals` and `SameCeiling` — the two provisos, on the rows and on the answers of the
  ceiling provider.
* `behindLocal` — the clauses that stand behind `local = 0`, and are evaluated on shared rows only.
* `Steady` and `both_yields` — method by method, up to the batch.
-/

set_option autoImplicit false

namespace HsUploader

open Prog

variable {α : Type}

/-- What two sources hold that differ in what they remember of their files' columns alone, and that
is right: the file has the `local` column, and the other as it is said here. -/
structure SqliteMem.Like (hasProducer : Bool) (m m' : SqliteMem) : Prop where
  conn : m.conn = m'.conn
  opened : m.opened = m'.opened
  schemaChecked : m.schemaChecked = m'.schemaChecked
  startAtCursor : m.startAtCursor = m'.startAtCursor
  producer : ∀ b, m.hasProducerColumn = some b → b = hasProducer
  producer' : ∀ b, m'.hasProducerColumn = some b → b = hasProducer
  sighted : m.localRows.Sighted
  sighted' : m'.localRows.Sighted

theorem SqliteMem.Like.symm {hasProducer : Bool} {m m' : SqliteMem} (h : m.Like hasProducer m') :
    m'.Like hasProducer m :=
  ⟨h.conn.symm, h.opened.symm, h.schemaChecked.symm, h.startAtCursor.symm, h.producer', h.producer,
    h.sighted', h.sighted⟩

namespace SqliteSource

variable (src : SqliteSource) {hp : Bool} {now : ℚ} {c c' : Option String} {k k' : Sink}

/-- Two processes of the source, and what their ceiling providers answer. -/
abbrev SqliteTwins (hp : Bool) (c c' : Option String) (now : ℚ) (k k' : Sink) :=
  Twins (ρ := QueuedRecord) (SqliteMem.Like hp) (fun x y ↦ x = c ∧ y = c') now k k'

theorem twins_comm {s t : Sys (Outside SqliteMem) Act QueuedRecord} :
    SqliteTwins hp c c' now k k' s t ↔ SqliteTwins hp c' c now k' k t s :=
  ⟨fun h ↦ ⟨h.right, h.left, h.clock', h.clock, h.ceiling.symm, h.switches.symm, h.mem.symm⟩,
    fun h ↦ ⟨h.right, h.left, h.clock', h.clock, h.ceiling.symm, h.switches.symm, h.mem.symm⟩⟩

/-! ### What the selections see -/

/-- A scope's clauses can be evaluated on the local rows of the source's table. -/
def ReadableLocals (rows : List Row) : Prop :=
  src.scope ≠ none → ∀ r ∈ rows, r.isLocal = true → r.targetDb = src.database →
    r.targetTable = src.table → r.payloadJson.sql ≠ none

/-- The ceiling lets the row through; a source without one lets every row through. -/
def Under (ceiling : Option String) (r : Row) : Prop :=
  src.ceilingColumn ≠ none → ceiling ≠ none ∧ Passes (ceilingClauses src.ceilingColumn ceiling) r

/-- The ceilings let the same rows of the source's table through. -/
def SameCeiling (c c' : Option String) (rows : List Row) : Prop :=
  ∀ r ∈ rows, r.targetDb = src.database → r.targetTable = src.table →
    (src.Under c r ↔ src.Under c' r)

/-- Behind clauses that do not raise `local = 0` shuts a local row out. -/
theorem holds_shut_out {cs ds : List Clause} {r : Row} (hr : r.isLocal = true)
    (h : ∀ x ∈ cs, ∃ v, x r = .ok v) : holds (cs ++ localClause :: ds) r = .ok false := by
  induction cs with
  | nil => exact holds_localClause hr
  | cons x cs ih =>
    obtain ⟨v, hv⟩ := h x List.mem_cons_self
    rw [List.cons_append, holds, hv]
    rcases v with _ | _ | _
    · rfl
    · rfl
    · exact ih fun y hy ↦ h y (List.mem_cons_of_mem x hy)

theorem holds_local {rows : List Row} (h : src.ReadableLocals rows) (ds : List Clause) :
    ∀ r ∈ rows, r.isLocal = true →
      holds (targetClauses src.database src.table ++
        (scopeClauses hp src.scope ++ localClause :: ds)) r = .ok false := by
  intro r hr hlocal
  rw [targetClauses, List.cons_append, List.cons_append, List.nil_append, holds_column, holds_column]
  split_ifs with hdb htable
  · refine holds_shut_out hlocal ?_
    by_cases hscope : src.scope = none
    · rw [hscope]
      exact fun x hx ↦ absurd hx List.not_mem_nil
    · exact scopeClauses_ok (h hscope r hr hlocal (by simpa using hdb) (by simpa using htable))
  · rfl
  · rfl

/-- The clauses of a batch query over a file with a `local` column. -/
def behindLocal (hp : Bool) (ceiling : Option String) (extra : List Clause) : List Clause :=
  targetClauses src.database src.table ++ (scopeClauses hp src.scope ++
    localClause :: (schemaClauses src.acceptedSchemaVersions ++
      (ceilingClauses src.ceilingColumn ceiling ++ extra)))

theorem filters_eq (ceiling : Option String) :
    src.filters hp true ceiling =
      (src.extraWhere.mapM ExtraWhere.clause).map (src.behindLocal hp ceiling) := by
  rw [filters]
  cases src.extraWhere.mapM ExtraWhere.clause with
  | error e => rfl
  | ok extra =>
    refine congrArg Except.ok ?_
    simp only [behindLocal, if_true, List.append_assoc, List.cons_append, List.nil_append]

/-- Two batch queries give the same when their statements do. -/
theorem selectRows_eq_of {ceiling ceiling' : Option String} {rows rows' : List Row} {cur limit : ℤ}
    (hmatch : ∀ extra, matching (src.behindLocal hp ceiling extra) rows =
      matching (src.behindLocal hp ceiling' extra) rows')
    (hfirst : ∀ extra, firstMatching (afterCursor cur :: src.behindLocal hp ceiling extra)
        (sqlLimit limit) rows =
      firstMatching (afterCursor cur :: src.behindLocal hp ceiling' extra) (sqlLimit limit) rows') :
    src.selectRows hp true ceiling cur limit rows =
      src.selectRows hp true ceiling' cur limit rows' := by
  rw [selectRows, selectRows, filters_eq, filters_eq]
  cases src.extraWhere.mapM ExtraWhere.clause with
  | error e => rfl
  | ok extra =>
    cases src.dedup with
    | none => exact hfirst extra
    | some d =>
      change matching (src.behindLocal hp ceiling extra) rows >>= _ =
        matching (src.behindLocal hp ceiling' extra) rows' >>= _
      rw [hmatch extra]

theorem holds_afterCursor {cur : ℤ} {cs ds : List Clause} {r : Row} (h : holds cs r = holds ds r) :
    holds (afterCursor cur :: cs) r = holds (afterCursor cur :: ds) r := by
  rw [afterCursor, holds_column, holds_column, h]

/-- The batch query of a table sees none of its local rows. -/
theorem selectRows_shared {rows : List Row} (h : src.ReadableLocals rows) (ceiling : Option String)
    (cur limit : ℤ) :
    src.selectRows hp true ceiling cur limit rows =
      src.selectRows hp true ceiling cur limit (shared rows) := by
  have hlocal : ∀ extra, ∀ r ∈ rows, r.isLocal = true →
      holds (src.behindLocal hp ceiling extra) r = .ok false := fun extra ↦ src.holds_local h _
  refine src.selectRows_eq_of (fun extra ↦ matching_shared (hlocal extra)) fun extra ↦
    firstMatching_shared fun r hr hl ↦ ?_
  rw [afterCursor, holds_column, hlocal extra r hr hl]
  split_ifs <;> rfl

/-- Conditions that raise alike and are true alike. -/
theorem holds_json_congr {field : String} {p q : SqlValue → Option Bool} {r : Row} {ds : List Clause}
    (h : Clause.json field p r = .ok (some true) ↔ Clause.json field q r = .ok (some true)) :
    holds (.json field p :: ds) r = holds (.json field q :: ds) r := by
  rw [holds, holds]
  rw [Clause.json] at h ⊢
  rw [Clause.json] at h ⊢
  cases hv : r.payloadJson.jsonExtract field with
  | error e => rfl
  | ok v =>
    rw [hv] at h
    simp only [Except.map, Except.ok.injEq] at h ⊢
    by_cases hp : p v = some true
    · rw [hp, h.mp hp]
    · -- where neither answers true the row is left out, whatever else they answer
      have hq : q v ≠ some true := fun hq ↦ hp (h.mpr hq)
      rcases hpv : p v with _ | _ | _
      all_goals rcases hqv : q v with _ | _ | _
      all_goals first | rfl | exact absurd hpv hp | exact absurd hqv hq

theorem target_of_passes {r : Row} (h : Passes (targetClauses src.database src.table) r) :
    r.targetDb = src.database ∧ r.targetTable = src.table := by
  simpa [targetClauses, passes_column, passes_nil] using h

/-- Two ceilings that let the same rows through. -/
theorem holds_ceiling {a b : Option String} {extra : List Clause} {r : Row}
    (hset : src.ceilingColumn ≠ none → a ≠ none ∧ b ≠ none)
    (h : r.targetDb = src.database → r.targetTable = src.table → (src.Under a r ↔ src.Under b r)) :
    holds (src.behindLocal hp a extra) r = holds (src.behindLocal hp b extra) r := by
  refine holds_append_congr fun htarget ↦ ?_
  have htarget := src.target_of_passes htarget
  have hunder := h htarget.1 htarget.2
  refine holds_append_congr fun _ ↦ ?_
  rw [localClause, holds_column, holds_column]
  congr 1
  refine holds_append_congr fun _ ↦ ?_
  rw [Under, Under] at hunder
  cases hcol : src.ceilingColumn with
  | none => cases a <;> cases b <;> rfl
  | some col =>
    obtain ⟨ha, hb⟩ := hset (by rw [hcol]; exact Option.some_ne_none _)
    obtain ⟨text, rfl⟩ := Option.ne_none_iff_exists'.mp ha
    obtain ⟨text', rfl⟩ := Option.ne_none_iff_exists'.mp hb
    refine holds_json_congr ?_
    simpa [hcol, ceilingClauses, passes_cons, passes_nil] using hunder

/-- The batch queries of two queues under two ceilings. -/
theorem selectRows_eq (hk : SameButLocal k k') (hr : src.ReadableLocals k.rows)
    (hr' : src.ReadableLocals k'.rows) {a b : Option String}
    (hset : src.ceilingColumn ≠ none → a ≠ none ∧ b ≠ none)
    (h : src.SameCeiling a b (shared k.rows)) (cur limit : ℤ) :
    src.selectRows hp true a cur limit k.rows = src.selectRows hp true b cur limit k'.rows := by
  have hholds : ∀ extra, ∀ r ∈ shared k.rows,
      holds (src.behindLocal hp a extra) r = holds (src.behindLocal hp b extra) r :=
    fun extra r hr ↦ src.holds_ceiling hset (h r hr)
  rw [src.selectRows_shared hr, src.selectRows_shared hr', ← hk.rows]
  exact src.selectRows_eq_of (fun extra ↦ matching_congr (hholds extra)) fun extra ↦
    firstMatching_congr fun r hr ↦ holds_afterCursor (hholds extra r hr)

/-- A ceiling that lets nothing through. -/
theorem selectRows_under {rows : List Row} (hr : src.ReadableLocals rows) {text : String}
    (h : ∀ r ∈ shared rows, r.targetDb = src.database → r.targetTable = src.table →
      ¬ src.Under (some text) r) {cur limit : ℤ} {hit : List Row}
    (hsel : src.selectRows hp true (some text) cur limit rows = .ok hit) : hit = [] := by
  rw [src.selectRows_shared hr] at hsel
  refine List.eq_nil_iff_forall_not_mem.mpr fun r hhit ↦ ?_
  obtain ⟨-, cs, hcs, hpass⟩ := passes_of_selectRows hsel hhit
  rw [filters_eq] at hcs
  obtain ⟨extra, -, rfl⟩ := exists_of_map_eq_ok hcs
  rw [behindLocal, passes_append, passes_append, passes_cons, passes_append, passes_append] at hpass
  obtain ⟨htarget, -, -, -, hceiling, -⟩ := hpass
  obtain ⟨hdb, htable⟩ := src.target_of_passes htarget
  exact h r ((sublist_of_selectRows hsel).subset hhit) hdb htable
    fun _ ↦ ⟨Option.some_ne_none _, hceiling⟩

/-! ### The programs -/

/-- A program that runs alike over both queues. -/
abbrev Steady (hp : Bool) (c c' : Option String) (now : ℚ) (k k' : Sink) (p : SqliteM α) : Prop :=
  Both (SqliteTwins hp c c' now k k') (Alike (· = ·)) p p

/-- What one of the two does alone, both do. -/
theorem both_alone {p q : SqliteM α} {P Q : Except Exn α → Prop}
    {R : Except Exn α → Except Exn α → Prop}
    (h : Alone (SqliteTwins hp c c' now k k') P p) (h' : Alone (SqliteTwins hp c' c now k' k) Q q)
    (hR : ∀ x y, P x → Q y → R x y) : Both (SqliteTwins hp c c' now k k') R p q :=
  .of_alone h h' (fun _ _ ↦ twins_comm) hR

theorem alone_probeProducer (hk : k.hasProducer = hp) :
    Alone (SqliteTwins hp c c' now k k') (· = .ok (src.scope.isSome && hp)) src.probeProducer := by
  rw [probeProducer]
  cases src.scope with
  | none => exact .pure rfl
  | some sc =>
    refine alone_mem.bind (fun m ⟨m', hM⟩ ↦ ?_) fun _ h ↦ h.elim
    cases hcol : m.hasProducerColumn with
    | some b => exact .pure (by rw [hM.producer b hcol]; rfl)
    | none =>
      refine alone_query.bind (fun b hb ↦ ?_) fun _ h ↦ nomatch h
      obtain rfl := Except.ok.inj hb
      refine (alone_setMem fun m m' hM ↦ ?_).bind (fun _ _ ↦ .pure (by rw [hk]; rfl))
        fun _ h ↦ nomatch h
      exact ⟨hM.conn, hM.opened, hM.schemaChecked, hM.startAtCursor, fun b hb ↦ by
        rw [← Option.some.inj hb, hk], hM.producer', hM.sighted, hM.sighted'⟩

theorem alone_probeLocal (hcol : k.hasLocal = true) (conn : ℕ) :
    Alone (SqliteTwins hp c c' now k k') (· = .ok true) (probeLocal conn) := by
  rw [probeLocal]
  refine alone_mem.bind (fun m ⟨m', hM⟩ ↦ ?_) fun _ h ↦ h.elim
  refine (alone_probe hcol hM.sighted conn).bind (fun f hf ↦ ?_) fun _ ⟨_, h, _⟩ ↦ nomatch h
  obtain ⟨g, hg, hlocal⟩ := hf
  obtain rfl := Except.ok.inj hg
  refine (alone_setMem fun m m' hM ↦ ?_).bind (fun _ _ ↦ .pure (congrArg _ hlocal))
    fun _ h ↦ nomatch h
  exact ⟨hM.conn, hM.opened, hM.schemaChecked, hM.startAtCursor, hM.producer, hM.producer',
    fun _ ↦ hlocal, hM.sighted'⟩

/-- What the stale-schema check finds changes the health alone. -/
theorem alone_checkStaleSchema (hk : k.hasProducer = hp) :
    Alone (SqliteTwins hp c c' now k k') (fun _ ↦ True) src.checkStaleSchema := by
  rw [checkStaleSchema]
  split
  · exact .pure trivial
  · refine (src.alone_probeProducer hk).bind (fun b _ ↦ ?_) fun _ _ ↦ trivial
    refine alone_query.bind (fun stale _ ↦ ?_) fun _ _ ↦ trivial
    split
    · exact .pure trivial
    · refine (alone_setMem fun m m' hM ↦ ?_).mono fun _ _ ↦ trivial
      exact ⟨hM.conn, hM.opened, hM.schemaChecked, hM.startAtCursor, hM.producer, hM.producer',
        hM.sighted, hM.sighted'⟩

theorem steady_connect : Steady hp c c' now k k' connect := by
  rw [Steady, connect]
  refine both_mem.bind (fun m m' hM ↦ ?_) fun _ ↦ rfl
  rw [hM.conn, hM.opened]
  cases m'.conn with
  | some c => exact .pure rfl
  | none =>
    -- what the ghost says of the column may differ
    have hask : Both (SqliteTwins hp c c' now k k') (Alike fun _ _ ↦ True)
        (query fun s ↦ .ok s.hasLocal) (query fun s ↦ .ok s.hasLocal) := both_query trivial
    refine hask.bind (fun _ _ _ ↦ ?_) fun _ ↦ rfl
    refine (both_setMem fun m m' hM ↦ ?_).bind (fun _ _ _ ↦ .pure rfl) fun _ ↦ rfl
    exact ⟨by rw [hM.opened], by rw [hM.opened], hM.schemaChecked, hM.startAtCursor, nofun, nofun,
      hM.sighted, hM.sighted'⟩

theorem steady_ensureReady (hk : SameButLocal k k') : Steady hp c c' now k k' ensureReady := by
  rw [Steady, ensureReady]
  refine both_mem.bind (fun m m' hM ↦ ?_) fun _ ↦ rfl
  rw [hM.schemaChecked]
  split
  · exact .pure rfl
  · have hready : Both (SqliteTwins hp c c' now k k') (Alike fun b b' ↦ b = true ∧ b' = true)
        (query fun s ↦ .ok s.isSome) (query fun s ↦ .ok s.isSome) :=
      both_query ⟨Sink.isSome_of_hasLocal hk.column, Sink.isSome_of_hasLocal hk.column'⟩
    refine steady_connect.bind (fun _ _ _ ↦ ?_) fun _ ↦ rfl
    refine hready.bind (fun b b' h ↦ ?_) fun _ ↦ rfl
    rw [h.1, h.2]
    refine (both_setMem fun m m' hM ↦ ?_).bind (fun _ _ _ ↦ .pure rfl) fun _ ↦ rfl
    exact ⟨hM.conn, hM.opened, rfl, hM.startAtCursor, hM.producer, hM.producer', hM.sighted,
      hM.sighted'⟩

/-- The two probes of a statement, one after the other. -/
theorem both_probes {p q : Bool → Bool → SqliteM α} {R : Except Exn α → Except Exn α → Prop}
    (hk : SameButLocal k k') (hp' : k.hasProducer = hp) (conn : ℕ)
    (h : Both (SqliteTwins hp c c' now k k') R (p (src.scope.isSome && hp) true)
      (q (src.scope.isSome && hp) true)) (herr : ∀ e, R (.error e) (.error e)) :
    Both (SqliteTwins hp c c' now k k') R
      (src.probeProducer >>= fun b ↦ probeLocal conn >>= fun l ↦ p b l)
      (src.probeProducer >>= fun b ↦ probeLocal conn >>= fun l ↦ q b l) := by
  have hproducer : Both (SqliteTwins hp c c' now k k')
      (Alike fun b b' ↦ b = (src.scope.isSome && hp) ∧ b' = (src.scope.isSome && hp))
      src.probeProducer src.probeProducer :=
    both_alone (src.alone_probeProducer hp') (src.alone_probeProducer (hk.producer ▸ hp'))
      fun x y hx hy ↦ by
        subst hx hy
        exact ⟨rfl, rfl⟩
  have hlocal : Both (SqliteTwins hp c c' now k k') (Alike fun b b' ↦ b = true ∧ b' = true)
      (probeLocal conn) (probeLocal conn) :=
    both_alone (alone_probeLocal hk.column conn) (alone_probeLocal hk.column' conn)
      fun x y hx hy ↦ by
        subst hx hy
        exact ⟨rfl, rfl⟩
  refine hproducer.bind (fun b b' hb ↦ ?_) herr
  rw [hb.1, hb.2]
  refine hlocal.bind (fun l l' hl ↦ ?_) herr
  rw [hl.1, hl.2]
  exact h

theorem steady_cursorFromStartAt (hk : SameButLocal k k') (hp' : k.hasProducer = hp)
    (hr : src.ReadableLocals k.rows) (hr' : src.ReadableLocals k'.rows) :
    Steady hp c c' now k k' src.cursorFromStartAt := by
  rw [Steady, cursorFromStartAt]
  refine both_mem.bind (fun m m' hM ↦ ?_) fun _ ↦ rfl
  rw [hM.startAtCursor]
  cases m'.startAtCursor with
  | some c => exact .pure rfl
  | none =>
    refine steady_connect.bind (fun conn _ h ↦ ?_) fun _ ↦ rfl
    subst h
    refine src.both_probes hk hp' conn ?_ fun _ ↦ rfl
    have hpresent : Steady hp c c' now k k'
        (query fun s ↦ matching (src.presentClauses (src.scope.isSome && hp) true) s.rows) := by
      refine both_query (alike_of_eq (hk.matching_eq (fun r hr₀ hlocal ↦ ?_) fun r hr₀ hlocal ↦ ?_)) <;>
        rw [presentClauses, if_pos rfl, List.append_assoc]
      · exact src.holds_local hr [] r hr₀ hlocal
      · exact src.holds_local hr' [] r hr₀ hlocal
    refine hpresent.bind (fun present _ h ↦ ?_) fun _ ↦ rfl
    subst h
    refine (both_setMem fun m m' hM ↦ ?_).bind (fun _ _ _ ↦ .pure rfl) fun _ ↦ rfl
    exact ⟨hM.conn, hM.opened, hM.schemaChecked, rfl, hM.producer, hM.producer', hM.sighted,
      hM.sighted'⟩

/-! ### The batch -/

/-- The batch a resumption yields. -/
def batchOf : Except Exn (Option (RecordBatch QueuedRecord)) → Option (RecordBatch QueuedRecord)
  | .ok b => b
  | .error _ => none

/-- `_iter_one_batch` from the ceiling on. -/
def batchUnder (conn : ℕ) (ceiling : Option String) (cur limit : ℤ) :
    SqliteM (Option (RecordBatch QueuedRecord)) := do
  let hasProducer ← src.probeProducer
  let hasLocal ← probeLocal conn
  let rows ← src.select hasProducer hasLocal ceiling cur limit
  if rows.isEmpty then
    src.checkStaleSchema
    pure none
  else
    let now ← clock
    let (records, lastId) ← ofExcept (src.buildRecords now rows cur)
    pure (some { records, cursorAfter := .ofInt lastId, commitToken := .ofInt lastId })

theorem alone_noBatch (hk : k.hasProducer = hp) :
    Alone (SqliteTwins hp c c' now k k') (fun x ↦ batchOf x = none)
      (do src.checkStaleSchema; pure none) :=
  (src.alone_checkStaleSchema hk).bind (fun _ _ ↦ .pure rfl) fun _ _ ↦ rfl

/-- The batches of two queues under two ceilings. -/
theorem both_batchUnder (hk : SameButLocal k k') (hp' : k.hasProducer = hp)
    (hr : src.ReadableLocals k.rows) (hr' : src.ReadableLocals k'.rows) {a b : Option String}
    (hset : src.ceilingColumn ≠ none → a ≠ none ∧ b ≠ none)
    (h : src.SameCeiling a b (shared k.rows)) (conn : ℕ) (cur limit : ℤ) :
    Both (SqliteTwins hp c c' now k k') (fun x y ↦ batchOf x = batchOf y)
      (src.batchUnder conn a cur limit) (src.batchUnder conn b cur limit) := by
  rw [batchUnder, batchUnder]
  refine src.both_probes hk hp' conn ?_ fun _ ↦ rfl
  have hselect : Both (SqliteTwins hp c c' now k k') (Alike (· = ·))
      (src.select (src.scope.isSome && hp) true a cur limit)
      (src.select (src.scope.isSome && hp) true b cur limit) :=
    both_selection (alike_of_eq (src.selectRows_eq hk hr hr' hset h cur limit))
  refine hselect.bind (fun rows _ h ↦ ?_) fun _ ↦ rfl
  subst h
  split
  · exact both_alone (src.alone_noBatch hp') (src.alone_noBatch (hk.producer ▸ hp'))
      fun x y hx hy ↦ hx.trans hy.symm
  · refine both_clock.bind (fun t t' ht ↦ ?_) fun _ ↦ rfl
    rw [ht.1, ht.2]
    refine (Both.ofExcept (alike_refl _)).bind (fun r _ h ↦ ?_) fun _ ↦ rfl
    subst h
    exact .pure rfl

/-- Under a ceiling that lets nothing through there is no batch. -/
theorem alone_batchUnder (hcol : k.hasLocal = true) (hp' : k.hasProducer = hp)
    (hr : src.ReadableLocals k.rows) {text : String}
    (h : ∀ r ∈ shared k.rows, r.targetDb = src.database → r.targetTable = src.table →
      ¬ src.Under (some text) r) (conn : ℕ) (cur limit : ℤ) :
    Alone (SqliteTwins hp c c' now k k') (fun x ↦ batchOf x = none)
      (src.batchUnder conn (some text) cur limit) := by
  rw [batchUnder]
  refine (src.alone_probeProducer hp').bind (fun b hb ↦ ?_) fun _ h ↦ nomatch h
  obtain rfl := Except.ok.inj hb
  refine (alone_probeLocal hcol conn).bind (fun l hl ↦ ?_) fun _ h ↦ nomatch h
  obtain rfl := Except.ok.inj hl
  refine (alone_selection (g := src.selectRows (src.scope.isSome && hp) true (some text) cur
    limit)).bind (fun rows hrows ↦ ?_) fun _ _ ↦ rfl
  rw [src.selectRows_under hr h hrows.symm, if_pos List.isEmpty_nil]
  exact src.alone_noBatch hp'

/-- What the two providers answer. -/
theorem both_askCeiling (hset : src.ceilingColumn ≠ none) :
    Both (SqliteTwins hp c c' now k k') (Alike fun a b ↦ a = c.map some ∧ b = c'.map some)
      src.askCeiling src.askCeiling := by
  rw [askCeiling]
  cases hcol : src.ceilingColumn with
  | none => exact absurd hcol hset
  | some col =>
    have hask : Both (SqliteTwins hp c c' now k k') (Alike fun a b ↦ a = c ∧ b = c')
        (statement fun o ↦ .ok (o.ceiling, o)) (statement fun o ↦ .ok (o.ceiling, o)) := by
      intro s t hT
      refine ⟨.ok s.here.ceiling, .ok t.here.ceiling, ?_, ?_, hT.ceiling, ?_⟩
      · rw [hT.left.run_statement]
        rfl
      · rw [hT.right.run_statement]
        rfl
      · rw [hT.left.run_statement, hT.right.run_statement, ← hT.left.here_next,
          ← hT.right.here_next]
        exact hT.next
    exact hask.bind (fun a b h ↦ .pure (by rw [h.1, h.2]; exact ⟨rfl, rfl⟩)) fun _ ↦ rfl

theorem both_iterOneBatch (hk : SameButLocal k k') (hp' : k.hasProducer = hp)
    (hr : src.ReadableLocals k.rows) (hr' : src.ReadableLocals k'.rows)
    (h : src.SameCeiling c c' (shared k.rows)) (cur limit : ℤ) :
    Both (SqliteTwins hp c c' now k k') (fun x y ↦ batchOf x = batchOf y)
      (src.iterOneBatch cur limit) (src.iterOneBatch cur limit) := by
  have hbatch : src.iterOneBatch cur limit = connect >>= fun conn ↦ src.askCeiling >>= fun c ↦
      c.elim (pure none) fun ceiling ↦ src.batchUnder conn ceiling cur limit := by
    rw [iterOneBatch]
    refine congrArg (connect >>= ·) (funext fun conn ↦
      congrArg (src.askCeiling >>= ·) (funext fun c ↦ ?_))
    cases c <;> rfl
  rw [hbatch]
  refine steady_connect.bind (fun conn _ hconn ↦ ?_) fun _ ↦ rfl
  subst hconn
  by_cases hcol : src.ceilingColumn = none
  · have hnone : src.askCeiling = pure (some none) := by
      rw [askCeiling, hcol]
    rw [hnone]
    exact src.both_batchUnder hk hp' hr hr' (fun hne ↦ absurd hcol hne)
      (fun r _ _ _ ↦ Iff.rfl) conn cur limit
  · refine (src.both_askCeiling hcol).bind (fun a b hab ↦ ?_) fun _ ↦ rfl
    rw [hab.1, hab.2]
    cases c with
    | none =>
      cases c' with
      | none => exact .pure rfl
      | some text =>
        refine both_alone (P := fun x ↦ batchOf x = none) (Alone.pure rfl)
          (src.alone_batchUnder hk.column' (hk.producer ▸ hp') hr' ?_ conn cur limit)
          fun x y hx hy ↦ hx.trans hy.symm
        rw [← hk.rows]
        exact fun r hrow hdb htable hu ↦ ((h r hrow hdb htable).mpr hu hcol).1 rfl
    | some text =>
      cases c' with
      | none =>
        refine both_alone (Q := fun x ↦ batchOf x = none)
          (src.alone_batchUnder hk.column hp' hr ?_ conn cur limit) (Alone.pure rfl)
          fun x y hx hy ↦ hx.trans hy.symm
        exact fun r hrow hdb htable hu ↦ ((h r hrow hdb htable).mp hu hcol).1 rfl
      | some text' =>
        exact src.both_batchUnder hk hp' hr hr'
          (fun _ ↦ ⟨Option.some_ne_none _, Option.some_ne_none _⟩) h conn cur limit

theorem steady_iterBatches (hk : SameButLocal k k') (hp' : k.hasProducer = hp)
    (hr : src.ReadableLocals k.rows) (hr' : src.ReadableLocals k'.rows) (cursor : Bytes) (limit : ℤ) :
    Both (SqliteTwins hp c c' now k k') (Alike fun ps qs ↦ ps = qs ∧
        (ps = [] ∨ ∃ cur, ps = [src.iterOneBatch cur limit]))
      (src.iterBatches cursor limit) (src.iterBatches cursor limit) := by
  have hhealth : ∀ health : Health, Steady hp c c' now k k' (setMem fun m ↦ { m with health }) :=
    fun health ↦ both_setMem fun m m' hM ↦ ⟨hM.conn, hM.opened, hM.schemaChecked, hM.startAtCursor,
      hM.producer, hM.producer', hM.sighted, hM.sighted'⟩
  rw [iterBatches]
  split
  · exact .pure ⟨rfl, .inl rfl⟩
  · refine (steady_ensureReady hk).attempt.bind (fun x y h ↦ ?_) fun _ ↦ rfl
    match x, y, h with
    | .error _, .error _, _ =>
      exact (hhealth .unreachable).bind (fun _ _ _ ↦ .pure ⟨rfl, .inl rfl⟩) fun _ ↦ rfl
    | .ok false, .ok _, rfl =>
      exact (hhealth .unreachable).bind (fun _ _ _ ↦ .pure ⟨rfl, .inl rfl⟩) fun _ ↦ rfl
    | .ok true, .ok _, rfl =>
      refine (hhealth .ok).bind (fun _ _ _ ↦ ?_) fun _ ↦ rfl
      refine (Both.ofExcept (alike_refl _)).bind (fun cur _ h ↦ ?_) fun _ ↦ rfl
      subst h
      split
      · refine (src.steady_cursorFromStartAt hk hp' hr hr').bind (fun cur _ h ↦ ?_) fun _ ↦ rfl
        subst h
        exact .pure ⟨rfl, .inr ⟨cur, rfl⟩⟩
      · exact .pure ⟨rfl, .inr ⟨cur, rfl⟩⟩

/-- **Both yield the same batch**, where the ceilings let the same shared rows through. -/
theorem both_yields (hk : SameButLocal k k') (hp' : k.hasProducer = hp)
    (hr : src.ReadableLocals k.rows) (hr' : src.ReadableLocals k'.rows)
    (h : src.SameCeiling c c' (shared k.rows)) (cursor : Bytes) (limit : ℤ) :
    Both (SqliteTwins hp c c' now k k') (Alike fun r r' ↦ r.1 = r'.1)
      (src.source.yields cursor limit) (src.source.yields cursor limit) := by
  rw [Source.yields]
  refine (src.steady_iterBatches hk hp' hr hr' cursor limit).attempt.bind (fun x y hxy ↦ ?_)
    fun _ ↦ rfl
  match x, y, hxy with
  | .error _, .error _, rfl => exact .pure rfl
  | .ok ps, .ok _, ⟨rfl, hps⟩ =>
    rcases hps with rfl | ⟨cur, rfl⟩
    · exact .pure rfl
    · dsimp only
      rw [drain]
      refine (src.both_iterOneBatch hk hp' hr hr' h cur limit).attempt.bind (fun x y hxy ↦ ?_)
        fun _ ↦ rfl
      match x, y, hxy with
      | .error _, .error _, _ => exact .pure rfl
      | .error _, .ok _, rfl => exact .pure rfl
      | .ok _, .error _, rfl => exact .pure rfl
      | .ok _, .ok _, rfl => exact .pure rfl

end SqliteSource

end HsUploader
