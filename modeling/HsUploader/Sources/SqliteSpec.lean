import HsUploader.Sources.Sqlite

/-!
# What the source of queue rows does

One specification for each method of `SqliteSource`, in a run in which writers create the queue and
insert rows but no one changes its columns or deletes rows behind the source's back (`Writes`).

`Later L s s'` says how the outside moved from `s` to `s'` while the source was at work: the table
grew at its end, its columns are the same, and the log got longer by statements that satisfy `L`.
`MemOk` says that what the source remembers about the columns is right.  A method's specification
then reads: it ends in some later state with `MemOk`, and this is what it answered.

## What is here

* `Writes` and `Stable` — what is supposed of the environment, and which facts its moves keep.
* `Works`, `Reading` and `Moves` — the source at work: what it has done to the outside up to now.
* `wp_iterOneBatch` — one resumption of the generator.  `Yields`, `Idle` and `Fails` are its three
  ends: a batch with the statement it was selected by, a reason for nothing, an exception.
* The specifications of the ceiling, the anchor, the scope and the commit, each in the form of the
  one above, so that a caller cites it and unfolds no method.

The ceiling is asked before the query is run, and rows may be written in between; the two moments
are two states of the outside (`Reads`), and nothing is said of the rows that come between them but
that they are past what the ceiling was computed from.
-/

set_option autoImplicit false

namespace HsUploader

open Prog

/-- The state a method of the source runs on. -/
abbrev SqliteSys := Sys (Outside SqliteMem) Act QueuedRecord

/-- The act creates the queue, inserts into it, or is none of a sink writer's. -/
def Act.IsWrite : Act → Prop
  | .sink op => op.IsWrite
  | .reachable _ | .ceiling _ | .switches _ => True

/-- In every move of the environment the sink is only created and written to. -/
def Writes (env : ℕ → Choice Act QueuedRecord) : Prop :=
  ∀ n, ∀ op ∈ (env n).ops, op.IsWrite

/-- The environment never acts. -/
def Quiet (env : ℕ → Choice Act QueuedRecord) : Prop := ∀ n, (env n).ops = []

theorem Quiet.writes {env : ℕ → Choice Act QueuedRecord} (h : Quiet env) : Writes env :=
  fun n op hop ↦ by rw [h n] at hop; cases hop

/-- A property of the outside that the environment's moves from the `n`-th on keep, and that does not
depend on what the source remembers or what was logged. -/
structure Stable (env : ℕ → Choice Act QueuedRecord) (n : ℕ) (K : Outside SqliteMem → Prop) :
    Prop where
  react : ∀ k, n ≤ k → ∀ op ∈ (env k).ops, ∀ o, K o → K (Surroundings.react op o)
  mem : ∀ o m, K o → K { o with mem := m }
  log : ∀ o l, K o → K { o with log := l }

theorem Stable.later {env : ℕ → Choice Act QueuedRecord} {n m : ℕ} {K : Outside SqliteMem → Prop}
    (h : Stable env n K) (hnm : n ≤ m) : Stable env m K :=
  { h with react := fun k hk ↦ h.react k (hnm.trans hk) }

/-- How the outside of the source moves on: every statement that joins the log is a selection, of
rows that are still there, and satisfies `L`. -/
structure Later (L : Statement → Prop) (s s' : SqliteSys) : Prop where
  env : s'.env = s.env
  tick : s.tick ≤ s'.tick
  grows : Sink.Grows s.here.sink s'.here.sink
  logged : ∃ l, s'.here.log = s.here.log ++ l ∧
    ∀ st ∈ l, st.kind ≠ .delete ∧ (∀ r ∈ st.rows, r ∈ s'.here.sink.rows) ∧ L st
  kept : ∀ K, Stable s.env s.tick K → K s.here → K s'.here

namespace Later

variable {L : Statement → Prop} {s s' s'' : SqliteSys}

theorem refl (s : SqliteSys) : Later L s s where
  env := rfl
  tick := le_rfl
  grows := .refl _
  logged := ⟨[], (List.append_nil _).symm, fun _ h ↦ nomatch h⟩
  kept := fun _ _ h ↦ h

theorem trans (h : Later L s s') (h' : Later L s' s'') : Later L s s'' where
  env := h'.env.trans h.env
  tick := h.tick.trans h'.tick
  grows := h.grows.trans h'.grows
  logged := by
    obtain ⟨l, hl, hk⟩ := h.logged
    obtain ⟨l', hl', hk'⟩ := h'.logged
    refine ⟨l ++ l', by rw [hl', hl, List.append_assoc], fun st hst ↦ ?_⟩
    rcases List.mem_append.mp hst with hst | hst
    · obtain ⟨hkind, hrows, hL⟩ := hk st hst
      exact ⟨hkind, fun r hr ↦ h'.grows.mem_rows (hrows r hr), hL⟩
    · exact hk' st hst
  kept := fun K hK hs ↦ h'.kept K (h.env ▸ hK.later h.tick) (h.kept K hK hs)

/-- A change of what the source holds in memory. -/
theorem setMem (s : SqliteSys) (m : SqliteMem) :
    Later L s { s with here := { s.here with mem := m } } :=
  { refl s with kept := fun _ hK hs ↦ hK.mem _ m hs }

/-- A logged selection. -/
theorem select (s : SqliteSys) (st : Statement) (hst : st.kind ≠ .delete)
    (hrows : st.rows = s.here.sink.rows) (hL : L st) :
    Later L s { s with here := { s.here with log := s.here.log ++ [st] } } :=
  { refl (L := L) s with
    logged := ⟨[st], rfl, fun _ h ↦ by
      rw [List.mem_singleton.mp h]
      exact ⟨hst, fun r hr ↦ hrows ▸ hr, hL⟩⟩
    kept := fun _ hK hs ↦ hK.log _ _ hs }

end Later

/-! ## The environment moves -/

/-- One act of the environment in a run of writers. -/
theorem react_isWrite {op : Act} (h : op.IsWrite) (o : Outside SqliteMem) :
    Sink.Grows o.sink (Surroundings.react op o).sink ∧
      (Surroundings.react op o).log = o.log ∧ (Surroundings.react op o).mem = o.mem := by
  cases op with
  | sink op => exact ⟨.apply h o.sink, rfl, rfl⟩
  | reachable b => exact ⟨.refl _, rfl, rfl⟩
  | ceiling c => exact ⟨.refl _, rfl, rfl⟩
  | switches sw => exact ⟨.refl _, rfl, rfl⟩

theorem foldl_react {ops : List Act} (h : ∀ op ∈ ops, op.IsWrite) (o : Outside SqliteMem) :
    let o' := ops.foldl (fun x op ↦ Surroundings.react op x) o
    Sink.Grows o.sink o'.sink ∧ o'.log = o.log ∧ o'.mem = o.mem := by
  induction ops generalizing o with
  | nil => exact ⟨.refl _, rfl, rfl⟩
  | cons op ops ih =>
    obtain ⟨hg, hl, hm⟩ := react_isWrite (h op List.mem_cons_self) o
    obtain ⟨hg', hl', hm'⟩ := ih (fun op' hop' ↦ h op' (List.mem_cons_of_mem _ hop'))
      (Surroundings.react op o)
    exact ⟨hg.trans hg', hl'.trans hl, hm'.trans hm⟩

/-- The environment's move before a step leaves the source's memory alone. -/
theorem mem_next {s : SqliteSys} (hw : Writes s.env) : s.next.here.mem = s.here.mem :=
  (foldl_react (hw s.tick) s.here).2.2

theorem foldl_stable {K : Outside SqliteMem → Prop} {ops : List Act}
    (h : ∀ op ∈ ops, ∀ o, K o → K (Surroundings.react op o)) {o : Outside SqliteMem} (ho : K o) :
    K (ops.foldl (fun x op ↦ Surroundings.react op x) o) := by
  induction ops generalizing o with
  | nil => exact ho
  | cons op ops ih =>
    exact ih (fun op' hop' ↦ h op' (List.mem_cons_of_mem _ hop'))
      (h op List.mem_cons_self o ho)

theorem Later.next {L : Statement → Prop} {s : SqliteSys} (hw : Writes s.env) :
    Later L s s.next := by
  obtain ⟨hg, hl, -⟩ := foldl_react (hw s.tick) s.here
  exact ⟨rfl, Nat.le_succ _, hg, ⟨[], hl.trans (List.append_nil _).symm, fun _ h ↦ nomatch h⟩,
    fun K hK hs ↦ foldl_stable (fun op hop ↦ hK.react s.tick le_rfl op hop) hs⟩

/-- In an environment that never acts the outside stays as it is. -/
theorem Later.still {L : Statement → Prop} {s s' : SqliteSys} (h : Later L s s')
    (hq : Quiet s.env) :
    s'.here.sink = s.here.sink ∧ s'.here.reachable = s.here.reachable ∧
      s'.here.ceiling = s.here.ceiling := by
  refine h.kept (fun o ↦ o.sink = s.here.sink ∧ o.reachable = s.here.reachable ∧
    o.ceiling = s.here.ceiling) ⟨fun k _ op hop ↦ ?_, fun _ _ ho ↦ ho, fun _ _ ho ↦ ho⟩
    ⟨rfl, rfl, rfl⟩
  rw [hq k] at hop
  cases hop

/-! ## What the source remembers right -/

/-- What the source remembers of the table is right. -/
structure MemOk (o : Outside SqliteMem) : Prop where
  checked : o.mem.schemaChecked = true → o.sink.isSome
  producer : ∀ b, o.mem.hasProducerColumn = some b → o.sink.isSome ∧ b = o.sink.hasProducer
  loc : ∀ c, o.mem.conn = some c → o.mem.localRows.conn = some c →
    o.sink.isSome ∧ o.mem.localRows.hasLocal = o.sink.hasLocal
  conn_lt : ∀ c, o.mem.conn = some c → c < o.mem.opened
  loc_lt : ∀ c, o.mem.localRows.conn = some c → c < o.mem.opened

theorem memOk_freshMem (src : SqliteSource) (o : Outside SqliteMem) :
    MemOk { o with mem := src.freshMem } where
  checked := fun h ↦ by cases h
  producer := fun b h ↦ by cases h
  loc := fun c h ↦ by cases h
  conn_lt := fun c h ↦ by cases h
  loc_lt := fun c h ↦ by cases h

theorem Sink.Grows.hasProducer {s s' : Sink} (h : Grows s s') (hs : s.isSome) :
    s'.hasProducer = s.hasProducer := by
  have hc := h.columns
  rw [columns_of_isSome hs, columns_of_isSome (h.isSome hs)] at hc
  exact (Prod.mk.inj hc).1

theorem Sink.Grows.hasLocal {s s' : Sink} (h : Grows s s') (hs : s.isSome) :
    s'.hasLocal = s.hasLocal := by
  have hc := h.columns
  rw [columns_of_isSome hs, columns_of_isSome (h.isSome hs)] at hc
  exact (Prod.mk.inj hc).2

/-- What is remembered stays right as the sink grows. -/
theorem MemOk.grows {o o' : Outside SqliteMem} (h : MemOk o) (hg : Sink.Grows o.sink o'.sink)
    (hm : o'.mem = o.mem) : MemOk o' where
  checked := fun hc ↦ hg.isSome (h.checked (hm ▸ hc))
  producer := fun b hb ↦ by
    obtain ⟨hs, hb⟩ := h.producer b (hm ▸ hb)
    exact ⟨hg.isSome hs, hb.trans (hg.hasProducer hs).symm⟩
  loc := fun c hc hl ↦ by
    obtain ⟨hs, hl⟩ := h.loc c (hm ▸ hc) (hm ▸ hl)
    rw [hm]
    exact ⟨hg.isSome hs, hl.trans (hg.hasLocal hs).symm⟩
  conn_lt := fun c hc ↦ by
    rw [hm] at hc ⊢
    exact h.conn_lt c hc
  loc_lt := fun c hc ↦ by
    rw [hm] at hc ⊢
    exact h.loc_lt c hc

/-- The source at work: the outside has moved on, what the source remembers is right, and its anchor
is the same. -/
structure Works (L : Statement → Prop) (s s' : SqliteSys) : Prop extends Later L s s' where
  memOk : MemOk s'.here
  anchor : s'.here.mem.startAtCursor = s.here.mem.startAtCursor

theorem Works.trans {L : Statement → Prop} {s s' s'' : SqliteSys} (h : Works L s s')
    (h' : Works L s' s'') : Works L s s'' :=
  { h.toLater.trans h'.toLater with
    memOk := h'.memOk
    anchor := h'.anchor.trans h.anchor }

theorem Works.refl {L : Statement → Prop} {s : SqliteSys} (h : MemOk s.here) : Works L s s :=
  { Later.refl s with
    memOk := h
    anchor := rfl }

theorem Works.next {L : Statement → Prop} {s : SqliteSys} (hw : Writes s.env) (h : MemOk s.here) :
    Works L s s.next := by
  have hl : Later L s s.next := .next hw
  exact
    { hl with
      memOk := h.grows hl.grows (mem_next hw)
      anchor := by rw [mem_next hw] }

/-! ## The methods -/

section methods

variable {α : Type} {L : Statement → Prop} {s : SqliteSys} {E : Exn → SqliteSys → Prop}
  {S : SqliteSys → Prop}

theorem wp_query_works {f : Sink → Except Exn α} {Q : α → SqliteSys → Prop}
    (hw : Writes s.env) (hm : MemOk s.here) (hS : ∀ s', Works L s s' → S s')
    (hE : ∀ s', Works L s s' → s'.here.reachable = false → E unreachable s')
    (hf : ∀ s', Works L s s' → s'.here.mem = s.here.mem →
      match f s'.here.sink with
      | .ok a => Q a s'
      | .error e => E e s') :
    wp (query f) Q E S s := by
  have hn : Works L s s.next := .next hw hm
  rw [wp_query]
  split
  · exact hS _ hn
  · split
    · exact hf _ hn (mem_next hw)
    · rename_i hr
      exact hE _ hn (by simpa using hr)

theorem wp_clock_works {Q : ℚ → SqliteSys → Prop} (hw : Writes s.env) (hm : MemOk s.here)
    (hS : ∀ s', Works L s s' → S s') (hQ : ∀ now s', Works L s s' → Q now s') :
    wp clock Q E S s := by
  have hn : Works L s s.next := .next hw hm
  rw [wp_clock]
  split
  · exact hS _ hn
  · exact hQ _ _ hn

/-- A change of the source's memory that keeps what it remembers right. -/
theorem Works.setMem {m : SqliteMem} (hm : MemOk { s.here with mem := m })
    (ha : m.startAtCursor = s.here.mem.startAtCursor) :
    Works L s { s with here := { s.here with mem := m } } :=
  { Later.setMem s m with
    memOk := hm
    anchor := ha }

theorem wp_connect {Q : ℕ → SqliteSys → Prop} (hw : Writes s.env) (hm : MemOk s.here)
    (hS : ∀ s', Works L s s' → S s')
    (hE : ∀ s', Works L s s' → s'.here.reachable = false → E unreachable s')
    (hQ : ∀ c s', Works L s s' → s'.here.mem.conn = some c → Q c s') :
    wp SqliteSource.connect Q E S s := by
  rw [SqliteSource.connect, wp_bind, wp_mem]
  split
  · rename_i c hc
    exact hQ c s (.refl hm) hc
  · rw [wp_bind]
    refine wp_query_works hw hm hS hE fun s' h hmem ↦ ?_
    dsimp only
    rw [wp_bind, wp_setMem, wp_pure, hmem]
    refine hQ _ _ (h.trans (.setMem ?_ (by rw [← hmem]))) rfl
    exact
      { checked := fun hc ↦ h.memOk.checked (hmem ▸ hc)
        producer := fun b hb ↦ by cases hb
        loc := fun c hc hl ↦ by
          -- the new connection is not the one the filter remembers
          cases hc
          have := hm.loc_lt _ hl
          omega
        conn_lt := fun c hc ↦ by
          cases hc
          exact Nat.lt_succ_self _
        loc_lt := fun c hc ↦ (hm.loc_lt c hc).trans (Nat.lt_succ_self _) }

theorem wp_ensureReady {Q : Bool → SqliteSys → Prop} (hw : Writes s.env) (hm : MemOk s.here)
    (hS : ∀ s', Works L s s' → S s')
    (hE : ∀ s', Works L s s' → s'.here.reachable = false → E unreachable s')
    (hQ : ∀ s', Works L s s' → Q s'.here.sink.isSome s') :
    wp SqliteSource.ensureReady Q E S s := by
  rw [SqliteSource.ensureReady, wp_bind, wp_mem]
  split
  · rename_i hc
    have := hQ s (.refl hm)
    rwa [hm.checked hc] at this
  · rw [wp_bind]
    refine wp_connect hw hm hS hE fun c s₁ h₁ _ ↦ ?_
    rw [wp_bind]
    refine wp_query_works (h₁.env ▸ hw) h₁.memOk (fun s' h ↦ hS s' (h₁.trans h))
      (fun s' h ↦ hE s' (h₁.trans h)) fun s' h hmem ↦ ?_
    dsimp only
    split
    · rename_i hsome
      rw [wp_bind, wp_setMem, wp_pure]
      have := hQ _ ((h₁.trans h).trans (.setMem (m := { s'.here.mem with schemaChecked := true })
        { h.memOk with checked := fun _ ↦ hsome } rfl))
      rwa [show s'.here.sink.isSome = true from hsome] at this
    · rename_i hsome
      rw [wp_pure]
      have := hQ _ (h₁.trans h)
      rwa [show s'.here.sink.isSome = false by simpa using hsome] at this

/-- The scope a source selects by, once the columns are known. -/
theorem wp_probeProducer {src : SqliteSource} {Q : Bool → SqliteSys → Prop} (hw : Writes s.env)
    (hm : MemOk s.here) (hs : s.here.sink.isSome) (hS : ∀ s', Works L s s' → S s')
    (hE : ∀ s', Works L s s' → s'.here.reachable = false → E unreachable s')
    (hQ : ∀ b s', Works L s s' → s'.here.mem.conn = s.here.mem.conn →
      scopeClauses b src.scope = scopeClauses s'.here.sink.hasProducer src.scope → Q b s') :
    wp src.probeProducer Q E S s := by
  rw [SqliteSource.probeProducer]
  cases hscope : src.scope with
  | none =>
    rw [hscope] at hQ
    exact hQ false s (.refl hm) rfl rfl
  | some sc =>
    rw [hscope] at hQ
    rw [wp_bind, wp_mem]
    split
    · rename_i b hb
      rw [wp_pure]
      exact hQ b s (.refl hm) rfl (by rw [(hm.producer b hb).2])
    · rw [wp_bind]
      refine wp_query_works hw hm hS hE fun s' h hmem ↦ ?_
      dsimp only
      rw [wp_bind, wp_setMem, wp_pure]
      refine hQ _ _ (h.trans (.setMem ?_ rfl)) (by rw [← hmem]) rfl
      exact
        { h.memOk with
          producer := fun b hb ↦ by
            cases hb
            exact ⟨h.grows.isSome hs, rfl⟩ }

theorem wp_probeLocal {conn : ℕ} {Q : Bool → SqliteSys → Prop} (hw : Writes s.env)
    (hm : MemOk s.here) (hs : s.here.sink.isSome) (hc : s.here.mem.conn = some conn)
    (hS : ∀ s', Works L s s' → S s')
    (hE : ∀ s', Works L s s' → s'.here.reachable = false → E unreachable s')
    (hQ : ∀ s', Works L s s' → Q s'.here.sink.hasLocal s') :
    wp (SqliteSource.probeLocal conn) Q E S s := by
  rw [SqliteSource.probeLocal, wp_bind, wp_mem, LocalRowFilter.probe]
  split
  · rename_i hf
    rw [wp_bind, wp_pure, wp_bind, wp_setMem, wp_pure, (hm.loc conn hc hf).2]
    exact hQ _ (.setMem hm rfl)
  · rw [wp_bind, wp_bind]
    refine wp_query_works hw hm hS hE fun s' h hmem ↦ ?_
    dsimp only
    rw [wp_pure, wp_bind, wp_setMem, wp_pure]
    have hc' : s'.here.mem.conn = some conn := hmem ▸ hc
    have hok : MemOk { s'.here with
        mem := { s'.here.mem with localRows := ⟨some conn, s'.here.sink.hasLocal, s'.here.sink.hasLocal⟩ } } :=
      { h.memOk with
        loc := fun c _ _ ↦ ⟨h.grows.isSome hs, rfl⟩
        loc_lt := fun c hl ↦ by
          cases hl
          exact h.memOk.conn_lt conn hc' }
    exact hQ _ (h.trans (.setMem hok rfl))

end methods

/-! ## One batch -/

namespace SqliteSource

variable (src : SqliteSource)

/-- What the ceiling provider answers, `some none` for a source without one. -/
def answer (o : Outside SqliteMem) : Option (Option String) :=
  match src.ceilingColumn with
  | none => some none
  | some _ => o.ceiling.map some

/-- The batch query on a table, with its columns known. -/
def selectOn (ceiling : Option String) (cur limit : ℤ) (sink : Sink) : Except Exn (List Row) :=
  src.selectRows sink.hasProducer sink.hasLocal ceiling cur limit sink.rows

theorem filters_congr {hp hp' : Bool} (h : scopeClauses hp src.scope = scopeClauses hp' src.scope)
    (hl : Bool) (ceiling : Option String) :
    src.filters hp hl ceiling = src.filters hp' hl ceiling := by
  rw [filters, filters, h]

theorem selectRows_congr {hp hp' : Bool}
    (h : scopeClauses hp src.scope = scopeClauses hp' src.scope) (hl : Bool)
    (ceiling : Option String) (cur limit : ℤ) (rows : List Row) :
    src.selectRows hp hl ceiling cur limit rows = src.selectRows hp' hl ceiling cur limit rows := by
  rw [selectRows, selectRows, src.filters_congr h]

theorem staleClauses_congr {hp hp' : Bool}
    (h : scopeClauses hp src.scope = scopeClauses hp' src.scope) :
    src.staleClauses hp = src.staleClauses hp' := by
  rw [staleClauses, staleClauses, h]

theorem deleteClauses_congr {hp hp' : Bool}
    (h : scopeClauses hp src.scope = scopeClauses hp' src.scope) (hl : Bool) (lastId : ℤ) :
    src.deleteClauses hp hl lastId = src.deleteClauses hp' hl lastId := by
  rw [deleteClauses, deleteClauses, h]

/-- The statement the log keeps of a batch query. -/
def selection (ceiling : Option String) (cur : ℤ) (sink : Sink) (sight : Sight) (hit : List Row) :
    Statement where
  kind := .select cur ceiling
  rows := sink.rows
  localColumn := sink.hasLocal
  sight := sight
  hit := hit

/-- The statement is a batch query past this cursor, on a table with these columns. -/
def Selected (columns : Bool × Bool) (cur limit : ℤ) (st : Statement) : Prop :=
  ∃ ceiling sink sight hit, sink.columns = columns ∧
    src.selectOn ceiling cur limit sink = .ok hit ∧ st = selection ceiling cur sink sight hit

/-- The source at work, reading past this cursor. -/
abbrev Reading (cur limit : ℤ) (s s' : SqliteSys) : Prop :=
  Works (src.Selected s.here.sink.columns cur limit) s s'

/-- The source asked for the ceiling in `s₁` and ran its query in `s₂`. -/
structure Reads (cur limit : ℤ) (s s₁ s₂ : SqliteSys) (ceiling : Option String) : Prop where
  asked : src.Reading cur limit s s₁
  ran : Works (src.Selected s.here.sink.columns cur limit) s₁ s₂
  answer : src.answer s₁.here = some ceiling

/-- Why a batch raised. -/
inductive Fails (cur limit : ℤ) (s s' : SqliteSys) : Exn → Prop
  /-- The file could not be read. -/
  | unreachable : s'.here.reachable = false → Fails cur limit s s' unreachable
  /-- The query raised. -/
  | select {s₁ s₂ ceiling e} : src.Reads cur limit s s₁ s₂ ceiling →
      src.selectOn ceiling cur limit s₂.here.sink = .error e → Fails cur limit s s' e
  /-- Nothing was selected, and the probe for stale rows raised. -/
  | stale {s₁ e} : src.Reading cur limit s s₁ →
      firstMatching (src.staleClauses s₁.here.sink.hasProducer) (some 1) s₁.here.sink.rows
        = .error e → Fails cur limit s s' e
  /-- A selected row's payload made the loop raise. -/
  | build {s₁ s₂ ceiling hit now e} : src.Reads cur limit s s₁ s₂ ceiling →
      src.selectOn ceiling cur limit s₂.here.sink = .ok hit →
      src.buildRecords now hit cur = .error e → Fails cur limit s s' e

/-- Why a resumption yielded nothing. -/
inductive Idle (cur limit : ℤ) (s : SqliteSys) : Prop
  /-- Nothing is complete enough to ship. -/
  | held {s₁} : src.Reading cur limit s s₁ → src.answer s₁.here = none → Idle cur limit s
  /-- Nothing was selected. -/
  | empty {s₁ s₂ ceiling} : src.Reads cur limit s s₁ s₂ ceiling →
      src.selectOn ceiling cur limit s₂.here.sink = .ok [] → Idle cur limit s

/-- The batch `b` was read and built. -/
structure Yields (cur limit : ℤ) (s s' : SqliteSys) (b : RecordBatch QueuedRecord) : Prop where
  exists_read : ∃ s₁ s₂ ceiling sight hit now lastId,
    src.Reads cur limit s s₁ s₂ ceiling ∧
    Works (src.Selected s.here.sink.columns cur limit) s₂ s' ∧
    src.selectOn ceiling cur limit s₂.here.sink = .ok hit ∧ hit ≠ [] ∧
    src.buildRecords now hit cur = .ok (b.records, lastId) ∧
    b.cursorAfter = Bytes.ofInt lastId ∧ b.commitToken = Bytes.ofInt lastId ∧
    selection ceiling cur s₂.here.sink sight hit ∈ s'.here.log

end SqliteSource

section batch

variable {src : SqliteSource} {L : Statement → Prop} {s : SqliteSys} {E : Exn → SqliteSys → Prop}
  {S : SqliteSys → Prop}

theorem wp_checkStaleSchema {Q : Unit → SqliteSys → Prop} (hw : Writes s.env) (hm : MemOk s.here)
    (hs : s.here.sink.isSome) (hS : ∀ s', Works L s s' → S s')
    (hE : ∀ s', Works L s s' → s'.here.reachable = false → E unreachable s')
    (hstale : ∀ e s₁, Works L s s₁ → firstMatching (src.staleClauses s₁.here.sink.hasProducer)
      (some 1) s₁.here.sink.rows = .error e → E e s₁)
    (hQ : ∀ s', Works L s s' → Q () s') :
    wp src.checkStaleSchema Q E S s := by
  rw [SqliteSource.checkStaleSchema]
  split
  · exact hQ s (.refl hm)
  · rw [wp_bind]
    refine wp_probeProducer hw hm hs hS hE fun b s₁ h₁ _ hb ↦ ?_
    rw [wp_bind]
    refine wp_query_works (h₁.env ▸ hw) h₁.memOk (fun s' h ↦ hS s' (h₁.trans h))
      (fun s' h ↦ hE s' (h₁.trans h)) fun s₂ h₂ _ ↦ ?_
    have hb₂ : src.staleClauses b = src.staleClauses s₂.here.sink.hasProducer := by
      refine src.staleClauses_congr (hb.trans ?_)
      rw [h₂.grows.hasProducer (h₁.grows.isSome hs)]
    rw [hb₂]
    cases hf : firstMatching (src.staleClauses s₂.here.sink.hasProducer) (some 1)
        s₂.here.sink.rows with
    | error e => exact hstale e s₂ (h₁.trans h₂) hf
    | ok stale =>
      dsimp only
      split
      · exact hQ s₂ (h₁.trans h₂)
      · rw [wp_setMem]
        exact hQ _ ((h₁.trans h₂).trans (.setMem { h₂.memOk with } rfl))

theorem wp_askCeiling {Q : Option (Option String) → SqliteSys → Prop} (hw : Writes s.env)
    (hm : MemOk s.here) (hS : ∀ s', Works L s s' → S s')
    (hE : ∀ s', Works L s s' → s'.here.reachable = false → E unreachable s')
    (hQ : ∀ s', Works L s s' → s'.here.mem.conn = s.here.mem.conn → Q (src.answer s'.here) s') :
    wp src.askCeiling Q E S s := by
  have hn : Works L s s.next := .next hw hm
  rw [SqliteSource.askCeiling]
  simp only [SqliteSource.answer] at hQ
  split
  · rename_i hc
    simp only [hc] at hQ
    exact hQ s (.refl hm) rfl
  · rename_i col hc
    simp only [hc] at hQ
    rw [wp_bind, wp_statement]
    split
    · exact hS _ hn
    · split
      · exact hQ _ hn (by rw [mem_next hw])
      · rename_i hr
        exact hE _ hn (by simpa using hr)

theorem wp_select {Q : List Row → SqliteSys → Prop} {hp hl : Bool} {ceiling : Option String}
    {columns : Bool × Bool} {cur limit : ℤ} (hw : Writes s.env) (hm : MemOk s.here)
    (hs : s.here.sink.isSome) (hcol : s.here.sink.columns = columns)
    (hb : scopeClauses hp src.scope = scopeClauses s.here.sink.hasProducer src.scope)
    (hb' : hl = s.here.sink.hasLocal)
    (hS : ∀ s', Works (src.Selected columns cur limit) s s' → S s')
    (hE : ∀ s', Works (src.Selected columns cur limit) s s' → s'.here.reachable = false →
      E unreachable s')
    (hraise : ∀ e s', Works (src.Selected columns cur limit) s s' →
      src.selectOn ceiling cur limit s'.here.sink = .error e → E e s')
    (hQ : ∀ hit sight s₁ s', Works (src.Selected columns cur limit) s s₁ →
      src.selectOn ceiling cur limit s₁.here.sink = .ok hit →
      Works (src.Selected columns cur limit) s₁ s' →
      SqliteSource.selection ceiling cur s₁.here.sink sight hit ∈ s'.here.log → Q hit s') :
    wp (src.select hp hl ceiling cur limit) Q E S s := by
  have hn : Works (src.Selected columns cur limit) s s.next := .next hw hm
  have hsel : src.selectRows hp hl ceiling cur limit s.next.here.sink.rows =
      src.selectOn ceiling cur limit s.next.here.sink := by
    rw [SqliteSource.selectOn, hb', hn.grows.hasLocal hs, hn.grows.hasProducer hs]
    exact src.selectRows_congr hb _ _ _ _ _
  rw [SqliteSource.select, wp_statement]
  split
  · exact hS _ hn
  · split
    · rw [hsel]
      cases hsel' : src.selectOn ceiling cur limit s.next.here.sink with
      | error e => exact hraise e _ hn hsel'
      | ok hit =>
        refine hQ hit _ s.next _ hn hsel'
          { Later.select s.next _ StatementKind.noConfusion rfl
            ⟨ceiling, s.next.here.sink, _, hit, hn.grows.columns.trans hcol, hsel', rfl⟩ with
            memOk := ?_
            anchor := rfl } (List.mem_append_right _ (List.mem_singleton.mpr rfl))
        exact hn.memOk.grows (.refl _) rfl
    · rename_i hr
      exact hE _ hn (by simpa using hr)

/-- **What one resumption of the generator does.** -/
theorem wp_iterOneBatch {Q : Option (RecordBatch QueuedRecord) → SqliteSys → Prop} {cur limit : ℤ}
    (hw : Writes s.env) (hm : MemOk s.here) (hs : s.here.sink.isSome)
    (hS : ∀ s', src.Reading cur limit s s' → S s')
    (hE : ∀ e s', src.Reading cur limit s s' → src.Fails cur limit s s' e → E e s')
    (hnone : ∀ s', src.Reading cur limit s s' → src.Idle cur limit s → Q none s')
    (hsome : ∀ b s', src.Reading cur limit s s' → src.Yields cur limit s s' b → Q (some b) s') :
    wp (src.iterOneBatch cur limit) Q E S s := by
  rw [SqliteSource.iterOneBatch, wp_bind]
  refine wp_connect hw hm hS (fun s' h hr ↦ hE _ s' h (.unreachable hr)) fun conn s₀ h₀ hc₀ ↦ ?_
  rw [wp_bind]
  refine wp_askCeiling (h₀.env ▸ hw) h₀.memOk (fun s' h ↦ hS s' (h₀.trans h))
    (fun s' h hr ↦ hE _ s' (h₀.trans h) (.unreachable hr)) fun s₁ h₁ hc₁ ↦ ?_
  have hw₁ := h₀.trans h₁
  cases ha : src.answer s₁.here with
  | none => exact hnone s₁ hw₁ (.held hw₁ ha)
  | some ceiling =>
    dsimp only
    rw [wp_bind]
    refine wp_probeProducer (hw₁.env ▸ hw) h₁.memOk (hw₁.grows.isSome hs)
      (fun s' h ↦ hS s' (hw₁.trans h)) (fun s' h hr ↦ hE _ s' (hw₁.trans h) (.unreachable hr))
      fun hp s₂ h₂ hc₂ hb ↦ ?_
    have hw₂ := hw₁.trans h₂
    rw [wp_bind]
    refine wp_probeLocal (hw₂.env ▸ hw) h₂.memOk (hw₂.grows.isSome hs)
      (hc₂.trans (hc₁.trans hc₀)) (fun s' h ↦ hS s' (hw₂.trans h))
      (fun s' h hr ↦ hE _ s' (hw₂.trans h) (.unreachable hr)) fun s₃ h₃ ↦ ?_
    have hw₃ := hw₂.trans h₃
    rw [wp_bind]
    refine wp_select (hw₃.env ▸ hw) h₃.memOk (hw₃.grows.isSome hs) hw₃.grows.columns
      (hb.trans (by rw [h₃.grows.hasProducer (hw₂.grows.isSome hs)])) rfl
      (fun s' h ↦ hS s' (hw₃.trans h)) (fun s' h hr ↦ hE _ s' (hw₃.trans h) (.unreachable hr))
      (fun e s' h he ↦ hE e s' (hw₃.trans h)
        (.select ⟨hw₁, (h₂.trans h₃).trans h, ha⟩ he)) fun hit sight s₄ s₅ h₄ hsel h₅ hlog ↦ ?_
    have hread : src.Reads cur limit s s₁ s₄ ceiling := ⟨hw₁, (h₂.trans h₃).trans h₄, ha⟩
    have hw₅ := (hw₃.trans h₄).trans h₅
    split
    · rename_i hempty
      obtain rfl : hit = [] := by simpa using hempty
      rw [wp_bind]
      refine wp_checkStaleSchema (hw₅.env ▸ hw) h₅.memOk (hw₅.grows.isSome hs)
        (fun s' h ↦ hS s' (hw₅.trans h)) (fun s' h hr ↦ hE _ s' (hw₅.trans h) (.unreachable hr))
        (fun e s' h he ↦ hE e s' (hw₅.trans h) (.stale (hw₅.trans h) he)) fun s' h ↦ ?_
      rw [wp_pure]
      exact hnone s' (hw₅.trans h) (.empty hread hsel)
    · rename_i hne
      rw [wp_bind]
      refine wp_clock_works (hw₅.env ▸ hw) h₅.memOk (fun s' h ↦ hS s' (hw₅.trans h))
        fun now s₆ h₆ ↦ ?_
      have hw₆ := hw₅.trans h₆
      rw [wp_bind, wp_ofExcept]
      cases hbuild : src.buildRecords now hit cur with
      | error e => exact hE e s₆ hw₆ (.build hread hsel hbuild)
      | ok p =>
        obtain ⟨records, lastId⟩ := p
        refine hsome _ s₆ hw₆ ⟨s₁, s₄, ceiling, sight, hit, now, lastId, hread, h₅.trans h₆, hsel,
          by simpa using hne, hbuild, rfl, rfl, ?_⟩
        obtain ⟨l, hl, -⟩ := h₆.logged
        rw [hl]
        exact List.mem_append_left _ hlog

end batch

/-! ## Opening the generator -/

/-- The source at work, reading nothing. -/
abbrev Moves : SqliteSys → SqliteSys → Prop := Works fun _ ↦ False

section iter

variable {src : SqliteSource} {s : SqliteSys} {E : Exn → SqliteSys → Prop} {S : SqliteSys → Prop}

/-- The anchor of `start_at`, if it is not fixed yet: the highest id in scope in `s₁`. -/
structure SqliteSource.Anchors (src : SqliteSource) (s s' : SqliteSys) (c : ℤ) : Prop where
  anchor : s'.here.mem.startAtCursor = some c
  memOk : MemOk s'.here
  later : Later (fun _ ↦ False) s s'
  from_present : s.here.mem.startAtCursor = some c ∨
    ∃ s₁ present, Moves s s₁ ∧ c = (present.map Row.id).foldr max 0 ∧
      matching (src.presentClauses s₁.here.sink.hasProducer s₁.here.sink.hasLocal)
        s₁.here.sink.rows = .ok present

theorem wp_cursorFromStartAt {Q : ℤ → SqliteSys → Prop} (hw : Writes s.env) (hm : MemOk s.here)
    (hs : s.here.sink.isSome) (hS : ∀ s', Moves s s' → S s') (hE : ∀ e s', Moves s s' → E e s')
    (hQ : ∀ c s', src.Anchors s s' c → Q c s') :
    wp src.cursorFromStartAt Q E S s := by
  rw [SqliteSource.cursorFromStartAt, wp_bind, wp_mem]
  split
  · rename_i c hc
    exact hQ c s ⟨hc, hm, .refl s, .inl hc⟩
  · rw [wp_bind]
    refine wp_connect hw hm hS (fun s' h _ ↦ hE _ s' h) fun conn s₁ h₁ hc₁ ↦ ?_
    rw [wp_bind]
    refine wp_probeProducer (h₁.env ▸ hw) h₁.memOk (h₁.grows.isSome hs)
      (fun s' h ↦ hS s' (h₁.trans h)) (fun s' h _ ↦ hE _ s' (h₁.trans h)) fun b s₂ h₂ hc₂ hb ↦ ?_
    have hw₂ := h₁.trans h₂
    rw [wp_bind]
    refine wp_probeLocal (hw₂.env ▸ hw) h₂.memOk (hw₂.grows.isSome hs) (hc₂.trans hc₁)
      (fun s' h ↦ hS s' (hw₂.trans h)) (fun s' h _ ↦ hE _ s' (hw₂.trans h)) fun s₃ h₃ ↦ ?_
    have hw₃ := hw₂.trans h₃
    rw [wp_bind]
    refine wp_query_works (hw₃.env ▸ hw) h₃.memOk (fun s' h ↦ hS s' (hw₃.trans h))
      (fun s' h _ ↦ hE _ s' (hw₃.trans h)) fun s₄ h₄ hmem ↦ ?_
    have hw₄ := hw₃.trans h₄
    cases hp : matching (src.presentClauses b s₃.here.sink.hasLocal) s₄.here.sink.rows with
    | error e => exact hE e s₄ hw₄
    | ok present =>
      dsimp only
      rw [wp_bind, wp_setMem, wp_pure]
      have hscope : scopeClauses b src.scope =
          scopeClauses s₄.here.sink.hasProducer src.scope := by
        rw [hb, (h₃.trans h₄).grows.hasProducer (hw₂.grows.isSome hs)]
      rw [SqliteSource.presentClauses, hscope, ← h₄.grows.hasLocal (hw₃.grows.isSome hs)] at hp
      refine hQ _ _ ⟨rfl, { h₄.memOk with }, hw₄.toLater.trans (.setMem s₄ _), .inr ?_⟩
      exact ⟨s₄, present, hw₄, rfl, hp⟩

/-- **What opening the generator does.** -/
theorem wp_iterBatches {Q : List (SqliteM (Option (RecordBatch QueuedRecord))) → SqliteSys → Prop}
    {cursor : Bytes} {limit : ℤ} (hw : Writes s.env) (hm : MemOk s.here)
    (hS : ∀ s', Moves s s' → S s')
    (hE : ∀ e s', Moves s s' → cursorFromBytes cursor = .error e ∨ src.startAt = true → E e s')
    (hshut : ∀ s', Moves s s' → (src.configured = true →
      ∃ s₁, Moves s s₁ ∧ (s₁.here.reachable = false ∨ s₁.here.sink = none)) → Q [] s')
    (hcursor : ∀ cur s', Moves s s' → s'.here.sink.isSome → cursorFromBytes cursor = .ok cur →
      (cursor = [] → src.startAt = false) → Q [src.iterOneBatch cur limit] s')
    (hanchor : ∀ c s₁ s', Moves s s₁ → s₁.here.sink.isSome → src.Anchors s₁ s' c → cursor = [] →
      src.startAt = true → Q [src.iterOneBatch c limit] s') :
    wp (src.iterBatches cursor limit) Q E S s := by
  rw [SqliteSource.iterBatches]
  split
  · rename_i hc
    exact hshut s (.refl hm) fun hc' ↦ by rw [hc'] at hc; cases hc
  · rw [wp_bind, wp_attempt]
    refine wp_ensureReady hw hm hS (fun s' h hr ↦ ?_) fun s' h ↦ ?_
    · dsimp only
      rw [wp_bind, wp_setMem, wp_pure]
      exact hshut _ (h.trans (.setMem { h.memOk with } rfl)) fun _ ↦ ⟨s', h, .inl hr⟩
    · cases hsome : s'.here.sink.isSome with
      | false =>
        dsimp only
        rw [wp_bind, wp_setMem, wp_pure]
        exact hshut _ (h.trans (.setMem { h.memOk with } rfl)) fun _ ↦
          ⟨s', h, .inr (by simpa using hsome)⟩
      | true =>
        dsimp only
        rw [wp_bind, wp_setMem, wp_bind, wp_ofExcept]
        have h' : Moves s' { s' with here := { s'.here with
            mem := { s'.here.mem with health := .ok } } } := .setMem { h.memOk with } rfl
        cases hcur : cursorFromBytes cursor with
        | error e => exact hE e _ (h.trans h') (.inl hcur)
        | ok cur =>
          dsimp only
          split
          · rename_i hstart
            rw [Bool.and_eq_true, List.isEmpty_iff] at hstart
            rw [wp_bind]
            refine wp_cursorFromStartAt ((h.trans h').env ▸ hw) h'.memOk hsome
              (fun s'' h'' ↦ hS s'' ((h.trans h').trans h''))
              (fun e s'' h'' ↦ hE e s'' ((h.trans h').trans h'') (.inr hstart.2))
              fun c s'' hc ↦ ?_
            rw [wp_pure]
            exact hanchor c _ s'' (h.trans h') hsome hc hstart.1 hstart.2
          · rename_i hstart
            rw [wp_pure]
            refine hcursor cur _ (h.trans h') hsome hcur fun hnil ↦ ?_
            subst hnil
            simpa using hstart

/-! ## Committing -/

/-- A commit deleted the rows up to `lastId`, in `s₁`. -/
structure SqliteSource.Deletes (src : SqliteSource) (lastId : ℤ) (s s' : SqliteSys) : Prop where
  exists_delete : ∃ s₁ sight hit, Moves s s₁ ∧
    matching (src.deleteClauses s₁.here.sink.hasProducer s₁.here.sink.hasLocal lastId)
      s₁.here.sink.rows = .ok hit ∧
    s' = { s₁ with here := { s₁.here with
      sink := s₁.here.sink.delete fun r ↦ decide (Passes
        (src.deleteClauses s₁.here.sink.hasProducer s₁.here.sink.hasLocal lastId) r)
      log := s₁.here.log ++
        [{ kind := .delete, rows := s₁.here.sink.rows, localColumn := s₁.here.sink.hasLocal
           sight, hit }] } }

/-- Why a commit deleted nothing. -/
inductive SqliteSource.Skips (src : SqliteSource) (token : Bytes) (s : SqliteSys) : Prop
  /-- The source is not configured to delete, or the token names no id. -/
  | off : src.configured = false ∨ src.deleteOnCommit = false ∨ token.toInt = none →
      Skips src token s
  /-- The file could not be read. -/
  | unreachable {s₁} : Moves s s₁ → s₁.here.reachable = false → Skips src token s
  /-- The statement raised. -/
  | raised {s₁ lastId e} : Moves s s₁ → token.toInt = some lastId →
      matching (src.deleteClauses s₁.here.sink.hasProducer s₁.here.sink.hasLocal lastId)
        s₁.here.sink.rows = .error e → Skips src token s

/-- **What a commit does**: it deletes up to the id its token names, or nothing, and never
raises. -/
theorem wp_commit {Q : Unit → SqliteSys → Prop} {token : Bytes} (hw : Writes s.env)
    (hm : MemOk s.here) (hs : s.here.sink.isSome) (hS : ∀ s', Moves s s' → S s')
    (hskip : ∀ s', Moves s s' → src.Skips token s → Q () s')
    (hdel : ∀ lastId s', src.deleteOnCommit = true → token.toInt = some lastId →
      src.Deletes lastId s s' → Q () s') :
    wp (src.commit token) Q E S s := by
  rw [SqliteSource.commit]
  split
  · rename_i hoff
    rw [wp_pure]
    rw [Bool.or_eq_true, List.isEmpty_iff, Bool.not_eq_true'] at hoff
    refine hskip s (.refl hm) (.off ?_)
    rcases hoff with hoff | rfl
    · exact .inl hoff
    · exact .inr (.inr rfl)
  · split
    · rename_i hoff
      rw [Bool.not_eq_true'] at hoff
      exact hskip s (.refl hm) (.off (.inr (.inl hoff)))
    · rename_i hon
      rw [Bool.not_eq_true', Bool.not_eq_false] at hon
      split
      · rename_i hnone
        exact hskip s (.refl hm) (.off (.inr (.inr hnone)))
      · rename_i lastId htok
        rw [wp_tryCatch, wp_bind]
        refine wp_connect hw hm hS (fun s' h hr ↦ hskip s' h (.unreachable h hr))
          fun conn s₁ h₁ hc₁ ↦ ?_
        rw [wp_bind]
        refine wp_probeProducer (h₁.env ▸ hw) h₁.memOk (h₁.grows.isSome hs)
          (fun s' h ↦ hS s' (h₁.trans h))
          (fun s' h hr ↦ hskip s' (h₁.trans h) (.unreachable (h₁.trans h) hr))
          fun b s₂ h₂ hc₂ hb ↦ ?_
        have hw₂ := h₁.trans h₂
        rw [wp_bind]
        refine wp_probeLocal (hw₂.env ▸ hw) h₂.memOk (hw₂.grows.isSome hs) (hc₂.trans hc₁)
          (fun s' h ↦ hS s' (hw₂.trans h))
          (fun s' h hr ↦ hskip s' (hw₂.trans h) (.unreachable (hw₂.trans h) hr)) fun s₃ h₃ ↦ ?_
        have hw₃ := hw₂.trans h₃
        have hn : Moves s₃ s₃.next := .next (hw₃.env ▸ hw) h₃.memOk
        have hw₄ := hw₃.trans hn
        have hl := hn.grows.hasLocal (hw₃.grows.isSome hs)
        have hcl : src.deleteClauses b s₃.here.sink.hasLocal lastId =
            src.deleteClauses s₃.next.here.sink.hasProducer s₃.next.here.sink.hasLocal lastId := by
          rw [hl]
          refine src.deleteClauses_congr (hb.trans ?_) _ _
          rw [(h₃.trans hn).grows.hasProducer (hw₂.grows.isSome hs)]
        rw [SqliteSource.deleteUpTo, wp_statement, hcl]
        split
        · exact hS _ hw₄
        · split
          · cases hmatch : matching (src.deleteClauses s₃.next.here.sink.hasProducer
                s₃.next.here.sink.hasLocal lastId) s₃.next.here.sink.rows with
            | error e => exact hskip _ hw₄ (.raised hw₄ htok hmatch)
            | ok hit =>
              exact hdel lastId _ hon htok ⟨s₃.next, _, hit, hw₄, hmatch, rfl⟩
          · rename_i hr
            exact hskip _ hw₄ (.unreachable hw₄ (by simpa using hr))

end iter

end HsUploader
