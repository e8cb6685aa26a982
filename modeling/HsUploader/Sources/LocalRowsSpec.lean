import HsUploader.Sources.Selection
import HsUploader.Sources.WsprCycle

/-!
# What the sources do to the log

Every statement a source logs is `Clean`: if the table had the `local` column when the connection
was opened, or when the filter looked through it, the statement hit no local row.  That holds in any
environment.

What carries it is `Sharp`, an invariant of what lies outside: the table never loses the column, a
connection opened on a table with it is one the filter will see it through, and a filter that has
looked remembers what it saw.  `Answered` says that the filter has answered of the connection in
hand, and `Extends` that the answer stands while the source goes on: connections are opened and
never closed, and each has a number of its own.

`LogsFrom` is the form in which all this goes through a program, statement by statement, and
`KeepsLocal` what it comes to for the methods of a source.

## How a statement is judged

A statement is logged with the rows it hit and with what could be seen when it ran, so that `Clean`
is a property of the log alone.  The filter has two memories, the connection it looked through and
what it saw there, and a look costs a statement of its own (`logs_probe`).  A connection that is new
has a new number, so an old answer never speaks for it (`logs_open`).

The two sources use the filter at different places, and the invariant that is carried through both
is the same: each has its `keepsLocal`.
-/

set_option autoImplicit false

namespace HsUploader

open Prog

variable {μ α β : Type}

/-- If there was a `local` column to be seen before the statement, it hit no local row. -/
def Statement.Clean (st : Statement) : Prop :=
  (st.localColumn = true → st.sight.opened = true ∨ st.sight.probed = true) →
    ∀ r ∈ st.hit, r.isLocal = false

/-! ## The connection a source holds -/

/-- What a source object holds of its connection. -/
structure View where
  conn : Option ℕ
  opened : ℕ
  onColumn : Bool
  localRows : LocalRowFilter

/-- The objects of which the view is known. -/
class Connected (μ : Type) where
  view : μ → View

instance : Connected SqliteMem where
  view := fun m ↦ ⟨m.conn, m.opened, m.onColumn, m.localRows⟩

instance : Connected WsprMem where
  view := fun m ↦ ⟨m.conn, m.opened, m.onColumn, m.localRows⟩

variable [Connected μ]

/-- What the source object outside holds of its connection. -/
def Outside.view (o : Outside μ) : View := Connected.view o.mem

/-- The filter saw the column if there was one to be seen: when the connection was opened, or when
the filter looked through it. -/
structure Sharp (o : Outside μ) : Prop where
  column : o.view.onColumn = true → o.sink.hasLocal = true
  found : o.view.localRows.found = true → o.view.localRows.hasLocal = true
  conn_lt : ∀ c, o.view.conn = some c → c < o.view.opened
  filter_lt : ∀ c, o.view.localRows.conn = some c → c < o.view.opened
  same : ∀ c, o.view.conn = some c → o.view.localRows.conn = some c → o.view.onColumn = true →
    o.view.localRows.hasLocal = true

/-- The filter has answered `b` of the connection `c`, which the source holds. -/
structure Answered (c : ℕ) (b : Bool) (o : Outside μ) : Prop where
  conn : o.view.conn = some c
  filter : o.view.localRows.conn = some c
  answer : o.view.localRows.hasLocal = b

/-- An answer there was a column to be seen for is that there is one. -/
theorem Answered.saw {c : ℕ} {b : Bool} {o : Outside μ} (h : Answered c b o) (hs : Sharp o) :
    o.view.onColumn = true ∨ o.view.localRows.found = true → b = true := by
  rw [← h.answer]
  rintro (ho | hf)
  · exact hs.same c h.conn h.filter ho
  · exact hs.found hf

/-- The source at work: the log has got longer by clean statements, the connection is kept, and what
the filter has answered of it stands. -/
structure Extends (o o' : Outside μ) : Prop where
  exists_new : ∃ new, o'.log = o.log ++ new ∧ ∀ st ∈ new, st.Clean
  conn : ∀ c, o.view.conn = some c → o'.view.conn = some c
  answered : ∀ c b, Answered c b o → Answered c b o'

namespace Extends

variable {o o' o'' : Outside μ}

/-- The log and the view are as they were. -/
theorem of_eq (hlog : o'.log = o.log) (hview : o'.view = o.view) : Extends o o' where
  exists_new := ⟨[], by simp [hlog], by simp⟩
  conn := fun _ hc ↦ hview ▸ hc
  answered := fun _ _ h ↦ ⟨hview ▸ h.conn, hview ▸ h.filter, hview ▸ h.answer⟩

theorem refl (o : Outside μ) : Extends o o := of_eq rfl rfl

/-- A clean statement joins the log. -/
theorem logged {st : Statement} (hst : st.Clean) (hlog : o'.log = o.log ++ [st])
    (hview : o'.view = o.view) : Extends o o' where
  exists_new := ⟨[st], hlog, fun _ h ↦ List.mem_singleton.mp h ▸ hst⟩
  conn := fun _ hc ↦ hview ▸ hc
  answered := fun _ _ h ↦ ⟨hview ▸ h.conn, hview ▸ h.filter, hview ▸ h.answer⟩

theorem trans (h : Extends o o') (h' : Extends o' o'') : Extends o o'' where
  exists_new := by
    obtain ⟨new, hlog, hnew⟩ := h.exists_new
    obtain ⟨new', hlog', hnew'⟩ := h'.exists_new
    refine ⟨new ++ new', by rw [hlog', hlog, List.append_assoc], fun st hst ↦ ?_⟩
    rcases List.mem_append.mp hst with hst | hst
    · exact hnew st hst
    · exact hnew' st hst
  conn := fun c hc ↦ h'.conn c (h.conn c hc)
  answered := fun c b ha ↦ h'.answered c b (h.answered c b ha)

theorem subset (h : Extends o o') : o.log ⊆ o'.log := by
  obtain ⟨new, hlog, -⟩ := h.exists_new
  rw [hlog]
  exact List.subset_append_left _ _

theorem clean (h : Extends o o') (hl : ∀ st ∈ o.log, st.Clean) : ∀ st ∈ o'.log, st.Clean := by
  obtain ⟨new, hlog, hnew⟩ := h.exists_new
  intro st hst
  rw [hlog] at hst
  rcases List.mem_append.mp hst with hst | hst
  · exact hl st hst
  · exact hnew st hst

end Extends

/-- No act of another process takes the column away. -/
theorem SinkOp.hasLocal_apply {s : Sink} (op : SinkOp) (h : s.hasLocal = true) :
    (op.apply s).hasLocal = true := by
  cases s with
  | none => cases h
  | some q =>
    cases op with
    | create => exact h
    | ensureColumns => rfl
    | insert gap row => exact h
    | delete hit => exact h

/-- A step of the source or of its surroundings that leaves the view as it was, and the column. -/
theorem Sharp.of_eq {o o' : Outside μ} (h : Sharp o) (hview : o'.view = o.view)
    (hcol : o.sink.hasLocal = true → o'.sink.hasLocal = true) : Sharp o' where
  column := fun hc ↦ hcol (h.column (hview ▸ hc))
  found := fun hf ↦ by
    rw [hview] at hf ⊢
    exact h.found hf
  conn_lt := fun c hc ↦ by
    rw [hview] at hc ⊢
    exact h.conn_lt c hc
  filter_lt := fun c hc ↦ by
    rw [hview] at hc ⊢
    exact h.filter_lt c hc
  same := fun c hc hf ho ↦ by
    rw [hview] at hc hf ho ⊢
    exact h.same c hc hf ho

/-- Started outside as `o` says, the program logs clean statements, and what it answers is as `Q`
says of what it leaves. -/
def LogsFrom (o : Outside μ) (p : SqlM μ QueuedRecord α) (Q : α → Outside μ → Prop) : Prop :=
  ∀ s, s.here = o → Sharp o →
    wp p (fun a s' ↦ Sharp s'.here ∧ Extends o s'.here ∧ Q a s'.here)
      (fun _ s' ↦ Sharp s'.here ∧ Extends o s'.here)
      (fun s' ↦ Sharp s'.here ∧ Extends o s'.here) s

/-- The program logs clean statements. -/
abbrev Logs (p : SqlM μ QueuedRecord α) : Prop := ∀ o, LogsFrom o p fun _ _ ↦ True

/-! ## Rules -/

section rules

variable {o : Outside μ} {Q : α → Outside μ → Prop}

/-- No act of another process is a statement of the source, touches what the source object holds, or
takes the column away. -/
theorem next_spec {μ : Type} (s : Sys (Outside μ) Act QueuedRecord) : s.next.here.log = s.here.log ∧
    s.next.here.mem = s.here.mem ∧ (s.here.sink.hasLocal = true → s.next.here.sink.hasLocal = true) := by
  have hfold : ∀ (ops : List Act) (o : Outside μ),
      let o' := ops.foldl (fun x op ↦ Surroundings.react op x) o
      o'.log = o.log ∧ o'.mem = o.mem ∧ (o.sink.hasLocal = true → o'.sink.hasLocal = true) := by
    intro ops
    induction ops with
    | nil => exact fun o ↦ ⟨rfl, rfl, id⟩
    | cons op ops ih =>
      intro o
      obtain ⟨hlog, hmem, hcol⟩ := ih (Surroundings.react op o)
      rw [List.foldl_cons]
      cases op with
      | sink op => exact ⟨hlog, hmem, fun h ↦ hcol (op.hasLocal_apply h)⟩
      | reachable b => exact ⟨hlog, hmem, hcol⟩
      | ceiling c => exact ⟨hlog, hmem, hcol⟩
      | switches sw => exact ⟨hlog, hmem, hcol⟩
  exact hfold _ _

/-- The surroundings move. -/
theorem sharp_next {s : Sys (Outside μ) Act QueuedRecord} (h : Sharp s.here) :
    Sharp s.next.here ∧ Extends s.here s.next.here := by
  obtain ⟨hlog, hmem, hcol⟩ := next_spec s
  have hview : s.next.here.view = s.here.view := congrArg Connected.view hmem
  exact ⟨h.of_eq hview hcol, .of_eq hlog hview⟩

theorem LogsFrom.pure {a : α} (h : Q a o) : LogsFrom o (Pure.pure a) Q := by
  rintro s rfl hs
  exact ⟨hs, .refl _, h⟩

theorem LogsFrom.raise {e : Exn} : LogsFrom o (Prog.raise e) Q := by
  rintro s rfl hs
  exact ⟨hs, .refl _⟩

theorem LogsFrom.bind {p : SqlM μ QueuedRecord α} {f : α → SqlM μ QueuedRecord β}
    {R : β → Outside μ → Prop} (hp : LogsFrom o p Q)
    (hf : ∀ a o', Extends o o' → Q a o' → LogsFrom o' (f a) R) : LogsFrom o (p >>= f) R := by
  intro s hs hsharp
  rw [wp_bind]
  refine wp_mono_ok (hp s hs hsharp) fun a s' ⟨hsharp', hext, ha⟩ ↦ ?_
  refine wp_mono (hf a _ hext ha s' rfl hsharp') ?_ ?_ ?_
  · intro b s'' ⟨hs'', hext', hb⟩
    exact ⟨hs'', hext.trans hext', hb⟩
  · intro e s'' ⟨hs'', hext'⟩
    exact ⟨hs'', hext.trans hext'⟩
  · intro s'' ⟨hs'', hext'⟩
    exact ⟨hs'', hext.trans hext'⟩

theorem LogsFrom.ofExcept {x : Except Exn α} (h : ∀ a, x = .ok a → Q a o) :
    LogsFrom o (Prog.ofExcept x) Q := by
  rintro s rfl hs
  rw [wp_ofExcept]
  cases hx : x with
  | error e => exact ⟨hs, .refl _⟩
  | ok a => exact ⟨hs, .refl _, h a hx⟩

theorem LogsFrom.tryCatch {p : SqlM μ QueuedRecord α} {f : Exn → SqlM μ QueuedRecord α}
    (hp : LogsFrom o p Q) (hf : ∀ e o', LogsFrom o' (f e) Q) :
    LogsFrom o (Prog.tryCatch p f) Q := by
  intro s hs hsharp
  rw [wp_tryCatch]
  refine wp_mono (hp s hs hsharp) (fun a s' h ↦ h) (fun e s' ⟨hsharp', hext⟩ ↦ ?_) fun s' h ↦ h
  refine wp_mono (hf e _ s' rfl hsharp') ?_ ?_ ?_
  · intro b s'' ⟨hs'', hext', hb⟩
    exact ⟨hs'', hext.trans hext', hb⟩
  · intro e s'' ⟨hs'', hext'⟩
    exact ⟨hs'', hext.trans hext'⟩
  · intro s'' ⟨hs'', hext'⟩
    exact ⟨hs'', hext.trans hext'⟩

theorem Logs.attempt {p : SqlM μ QueuedRecord α} (hp : Logs p) : Logs (Prog.attempt p) := by
  intro o s hs hsharp
  rw [wp_attempt]
  exact wp_mono (hp o s hs hsharp) (fun a s' h ↦ h) (fun e s' ⟨h, hext⟩ ↦ ⟨h, hext, trivial⟩)
    fun s' h ↦ h

/-- What the source object holds, as it stands. -/
theorem logsFrom_mem : LogsFrom o (mem : SqlM μ QueuedRecord μ) fun m o' ↦ m = o.mem ∧ o' = o := by
  rintro s rfl hs
  exact ⟨hs, .refl _, rfl, rfl⟩

theorem logs_mem : Logs (mem : SqlM μ QueuedRecord μ) := by
  rintro o s rfl hs
  exact ⟨hs, .refl _, trivial⟩

/-- A change of what the source object holds beside its connection. -/
theorem logs_setMem (f : μ → μ) (o : Outside μ)
    (hf : ∀ m, Connected.view (f m) = Connected.view m) :
    LogsFrom o (setMem f : SqlM μ QueuedRecord Unit) fun _ _ ↦ True := by
  rintro s rfl hs
  exact ⟨hs.of_eq (hf _) id, .of_eq rfl (hf _), trivial⟩

theorem logs_breathe : Logs (Sys.breathe : SqlM μ QueuedRecord _) := by
  rintro o s rfl hs
  obtain ⟨hs', hext⟩ := sharp_next hs
  rw [Sys.wp_breathe]
  split
  · exact ⟨hs', hext⟩
  · exact ⟨hs', hext, trivial⟩

/-- One statement, as it runs on the outside the surroundings leave. -/
theorem logs_statement {f : Outside μ → Except Exn (α × Outside μ)}
    (hf : ∀ o₁ a o', Extends o o₁ → Sharp o₁ → f o₁ = .ok (a, o') →
      Sharp o' ∧ Extends o₁ o' ∧ Q a o') :
    LogsFrom o (statement f : SqlM μ QueuedRecord α) Q := by
  rintro s rfl hs
  obtain ⟨hs', hext⟩ := sharp_next hs
  rw [wp_statement]
  split
  · exact ⟨hs', hext⟩
  · split
    · cases h : f s.next.here with
      | error e => exact ⟨hs', hext⟩
      | ok r =>
        obtain ⟨hr, hext', hQ⟩ := hf _ r.1 r.2 hext hs' h
        exact ⟨hr, hext.trans hext', hQ⟩
    · exact ⟨hs', hext⟩

theorem logs_query (f : Sink → Except Exn α) : Logs (query f : SqlM μ QueuedRecord α) := by
  intro o
  refine logs_statement fun o₁ a o' _ hs h ↦ ?_
  obtain ⟨a', -, ha⟩ := exists_of_map_eq_ok h
  cases ha
  exact ⟨hs, .refl _, trivial⟩

theorem logs_clock : Logs (clock : SqlM μ QueuedRecord ℚ) := by
  intro o
  exact (logs_breathe o).bind fun c o' _ _ ↦ .pure trivial

/-- **A new connection**: what the filter remembers is of an older one. -/
theorem logs_open {f : Bool → μ → μ} (hnone : o.view.conn = none)
    (hf : ∀ b m, Connected.view (f b m) = { Connected.view m with
      conn := some (Connected.view m).opened, opened := (Connected.view m).opened + 1
      onColumn := b }) :
    LogsFrom o (do
      let b ← query fun s ↦ .ok s.hasLocal
      setMem (f b)
      pure o.view.opened : SqlM μ QueuedRecord ℕ) fun c o' ↦ o'.view.conn = some c := by
  rintro s rfl hs
  obtain ⟨hs', hext⟩ := sharp_next hs
  have hview : s.next.here.view = s.here.view := congrArg Connected.view (next_spec s).2.1
  rw [wp_bind, wp_query]
  split
  · exact ⟨hs', hext⟩
  split
  · dsimp only
    rw [wp_bind, wp_setMem, wp_pure]
    generalize hb : s.next.here.sink.hasLocal = b
    have hnew : ({ s.next.here with mem := f b s.next.here.mem } : Outside μ).view =
        { s.here.view with conn := some s.here.view.opened, opened := s.here.view.opened + 1
                           onColumn := b } := by
      rw [← hview]
      exact hf b _
    refine ⟨?_, ?_, by rw [hnew]⟩
    · constructor <;> rw [hnew]
      · exact fun h ↦ hb.trans h
      · exact hs.found
      · intro c hc
        cases hc
        exact Nat.lt_succ_self _
      · exact fun c hc ↦ Nat.lt_succ_of_lt (hs.filter_lt c hc)
      · intro c hc hfc
        cases hc
        exact absurd (hs.filter_lt _ hfc) (Nat.lt_irrefl _)
    · refine ⟨⟨[], by simpa using (next_spec s).1, by simp⟩, fun c hc ↦ ?_, fun c b' ha ↦ ?_⟩
      · cases hnone.symm.trans hc
      · cases hnone.symm.trans ha.conn
  · exact ⟨hs', hext⟩

/-- **The filter looks through the connection the source holds**, or remembers what it saw there. -/
theorem logs_probe {f : LocalRowFilter → μ → μ} {conn : ℕ} (hconn : o.view.conn = some conn)
    (hf : ∀ g m, Connected.view (f g m) = { Connected.view m with localRows := g }) :
    LogsFrom o (do
      let g ← o.view.localRows.probe conn
      setMem (f g)
      pure g.hasLocal : SqlM μ QueuedRecord Bool) fun b o' ↦ Answered conn b o' := by
  rintro s rfl hs
  rw [LocalRowFilter.probe]
  split
  next hold =>
    have hview : ({ s.here with mem := f s.here.view.localRows s.here.mem } : Outside μ).view =
        s.here.view := hf _ _
    have hans : Answered conn s.here.view.localRows.hasLocal
        ({ s.here with mem := f s.here.view.localRows s.here.mem } : Outside μ) := by
      constructor <;> rw [hview]
      · exact hconn
      · exact hold
    exact ⟨hs.of_eq hview id, .of_eq rfl hview, hans⟩
  next hold =>
    obtain ⟨hs', hext⟩ := sharp_next hs
    have hview : s.next.here.view = s.here.view := congrArg Connected.view (next_spec s).2.1
    rw [wp_bind, wp_bind, wp_query]
    split
    · exact ⟨hs', hext⟩
    split
    · dsimp only
      rw [wp_pure, wp_bind, wp_setMem, wp_pure]
      generalize hb : s.next.here.sink.hasLocal = b
      have hnew : ({ s.next.here with mem := f ⟨some conn, b, b⟩ s.next.here.mem } :
          Outside μ).view = { s.here.view with localRows := ⟨some conn, b, b⟩ } := by
        rw [← hview]
        exact hf _ _
      have hcol : s.here.view.onColumn = true → b = true := by
        intro ho
        rw [← hb]
        exact hs'.column (hview ▸ ho)
      refine ⟨?_, ⟨⟨[], by simpa using (next_spec s).1, by simp⟩, fun c hc ↦ ?_, fun c b' ha ↦ ?_⟩,
        ?_⟩
      · constructor <;> rw [hnew]
        · exact fun ho ↦ hb.trans (hcol ho)
        · exact id
        · exact hs.conn_lt
        · intro c hc
          cases hc
          exact hs.conn_lt conn hconn
        · exact fun c _ _ ho ↦ hcol ho
      · rw [hnew]
        exact hc
      · obtain rfl : c = conn := Option.some_injective _ (ha.conn.symm.trans hconn)
        exact absurd ha.filter hold
      · constructor <;> rw [hnew]
        exact hconn
    · exact ⟨hs', hext⟩

end rules

/-! ## The statements that are logged -/

theorem Sink.local_default {s : Sink} (h : s.hasLocal = false) : ∀ r ∈ s.rows, r.isLocal = false := by
  cases s with
  | none => exact fun r hr ↦ nomatch hr
  | some q => exact q.local_default h

/-- A statement that hits no local row if there was a column to be seen, or ran on a table without
the column. -/
theorem Statement.clean_of {sink : Sink} {sight : Sight} {hit : List Row} {kind : StatementKind}
    (hsub : ∀ r ∈ hit, r ∈ sink.rows)
    (hclause : sight.opened = true ∨ sight.probed = true → ∀ r ∈ hit, r.isLocal = false) :
    Statement.Clean { kind, rows := sink.rows, localColumn := sink.hasLocal, sight, hit } := by
  intro hheeded r hr
  cases hcol : sink.hasLocal with
  | false => exact Sink.local_default hcol r (hsub r hr)
  | true => exact hclause (hheeded hcol) r hr

theorem isLocal_of_passes_localClause {cs : List Clause} {r : Row}
    (h : Passes (localClause :: cs) r) : r.isLocal = false := by
  simpa [localClause, Clause.column] using (passes_cons.mp h).1

/-! ## The source of queue rows -/

/-- The rows of the batch were hit by statements of the log. -/
def FromHits (l : List Statement) (b : RecordBatch QueuedRecord) : Prop :=
  ∀ q ∈ b.records, ∃ st ∈ l, q.row ∈ st.hit

theorem FromHits.mono {l l' : List Statement} {b : RecordBatch QueuedRecord} (h : FromHits l b)
    (hl : l ⊆ l') : FromHits l' b := by
  intro q hq
  obtain ⟨st, hst, hhit⟩ := h q hq
  exact ⟨st, hl hst, hhit⟩

/-- Whenever the source goes on from `o`, the resumption yields what logged statements have hit. -/
def Resumes (o : Outside μ) (p : SqlM μ QueuedRecord (Option (RecordBatch QueuedRecord))) : Prop :=
  ∀ o', Extends o o' → LogsFrom o' p fun b o'' ↦ ∀ b' ∈ b, FromHits o''.log b'

theorem Resumes.mono {o o' : Outside μ}
    {p : SqlM μ QueuedRecord (Option (RecordBatch QueuedRecord))} (h : Resumes o p)
    (hext : Extends o o') : Resumes o' p :=
  fun o'' hext' ↦ h o'' (hext.trans hext')

/-- The methods of the source log clean statements, and its batches are what they have hit. -/
structure KeepsLocal (source : Source (Outside μ) Act QueuedRecord) : Prop where
  iterBatches : ∀ cursor limit o, LogsFrom o (source.iterBatches cursor limit) fun rest o' ↦
    ∀ p ∈ rest, Resumes o' p
  commit : ∀ token, Logs (source.commit token)

namespace SqliteSource

variable (src : SqliteSource)

theorem logs_connect (o : Outside SqliteMem) :
    LogsFrom o connect fun conn o' ↦ o'.view.conn = some conn := by
  rw [connect]
  refine logsFrom_mem.bind ?_
  rintro m o₁ - ⟨rfl, rfl⟩
  split
  next hc => exact .pure hc
  next hnone => exact logs_open hnone fun _ _ ↦ rfl

theorem logs_ensureReady : Logs ensureReady := by
  intro o
  rw [ensureReady]
  refine (logs_mem o).bind fun m o₁ _ _ ↦ ?_
  split
  · exact .pure trivial
  · refine (logs_connect o₁).bind fun _ o₂ _ _ ↦ (logs_query _ o₂).bind fun ready o₃ _ _ ↦ ?_
    split
    · exact (logs_setMem _ o₃ (by intro m; rfl)).bind fun _ o₄ _ _ ↦ .pure trivial
    · exact .pure trivial

theorem logs_probeProducer : Logs src.probeProducer := by
  intro o
  rw [probeProducer]
  split
  · exact .pure trivial
  · refine (logs_mem o).bind fun m o₁ _ _ ↦ ?_
    split
    · exact .pure trivial
    · exact (logs_query _ o₁).bind fun b o₂ _ _ ↦
        (logs_setMem _ o₂ (by intro m; rfl)).bind fun _ o₃ _ _ ↦ .pure trivial

theorem logs_probeLocal {conn : ℕ} {o : Outside SqliteMem} (hconn : o.view.conn = some conn) :
    LogsFrom o (probeLocal conn) fun b o' ↦ Answered conn b o' := by
  rw [probeLocal]
  refine logsFrom_mem.bind ?_
  rintro m o₁ - ⟨rfl, rfl⟩
  exact logs_probe hconn fun _ _ ↦ rfl

theorem logs_checkStaleSchema : Logs src.checkStaleSchema := by
  intro o
  rw [checkStaleSchema]
  split
  · exact .pure trivial
  · refine (src.logs_probeProducer o).bind fun b o₁ _ _ ↦ (logs_query _ o₁).bind fun stale o₂ _ _ ↦ ?_
    split
    · exact .pure trivial
    · exact logs_setMem _ o₂ (by intro m; rfl)

theorem logs_askCeiling : Logs src.askCeiling := by
  intro o
  rw [askCeiling]
  split
  · exact .pure trivial
  · refine LogsFrom.bind (Q := fun _ _ ↦ True) (logs_statement fun o₁ a o' _ hs h ↦ ?_)
      fun c o₁ _ _ ↦ .pure trivial
    cases h
    exact ⟨hs, .refl _, trivial⟩

theorem logs_cursorFromStartAt : Logs src.cursorFromStartAt := by
  intro o
  rw [cursorFromStartAt]
  refine (logs_mem o).bind fun m o₁ _ _ ↦ ?_
  split
  · exact .pure trivial
  · exact (logs_connect o₁).bind fun conn o₂ _ hc ↦ (src.logs_probeProducer o₂).bind fun b o₃ h₃ _ ↦
      (logs_probeLocal (h₃.conn conn hc)).bind fun hl o₄ _ _ ↦ (logs_query _ o₄).bind fun present o₅ _ _ ↦
        (logs_setMem _ o₅ (by intro m; rfl)).bind fun _ o₆ _ _ ↦ .pure trivial

/-- **The batch query is clean**: it hits rows that pass `local = 0`, or there was no such column to
be seen. -/
theorem logs_select {o : Outside SqliteMem} {c : ℕ} {hl : Bool} (hans : Answered c hl o) (hp : Bool)
    (ceiling : Option String) (cur limit : ℤ) :
    LogsFrom o (src.select hp hl ceiling cur limit) fun hit o' ↦ ∃ st ∈ o'.log, st.hit = hit := by
  rw [select]
  refine logs_statement fun o₁ hit o' hext hs h ↦ ?_
  obtain ⟨hit', hsel, he⟩ := exists_of_map_eq_ok h
  cases he
  refine ⟨hs.of_eq rfl id, .logged ?_ rfl rfl, _, List.mem_append_right _ List.mem_cons_self, rfl⟩
  refine Statement.clean_of (fun r hr ↦ (sublist_of_selectRows hsel).subset hr) fun hsight r hr ↦ ?_
  have hpass := passes_presentClauses (inScope_of_selectRows hsel hr).2
  rw [presentClauses, (hext.answered _ _ hans).saw hs hsight, if_pos rfl] at hpass
  exact isLocal_of_passes_localClause (passes_append.mp hpass).2

theorem logs_deleteUpTo {o : Outside SqliteMem} {c : ℕ} {hl : Bool} (hans : Answered c hl o)
    (hp : Bool) (lastId : ℤ) : LogsFrom o (src.deleteUpTo hp hl lastId) fun _ _ ↦ True := by
  rw [deleteUpTo]
  refine logs_statement fun o₁ a o' hext hs h ↦ ?_
  obtain ⟨hit, hmatch, he⟩ := exists_of_map_eq_ok h
  cases he
  refine ⟨hs.of_eq rfl (SinkOp.hasLocal_apply (.delete _)), .logged ?_ rfl rfl, trivial⟩
  have hhit := matching_eq hmatch
  refine Statement.clean_of (fun r hr ↦ ?_) fun hsight r hr ↦ ?_
  · rw [hhit] at hr
    exact (List.mem_filter.mp hr).1
  · rw [hhit, List.mem_filter, decide_eq_true_eq, deleteClauses, passes_cons,
      (hext.answered _ _ hans).saw hs hsight, if_pos rfl] at hr
    exact isLocal_of_passes_localClause (passes_append.mp hr.2.2).2

theorem resumes_iterOneBatch (o₀ : Outside SqliteMem) (cur limit : ℤ) :
    Resumes o₀ (src.iterOneBatch cur limit) := by
  intro o _
  rw [iterOneBatch]
  refine (logs_connect o).bind fun conn o₁ _ hc ↦ (src.logs_askCeiling o₁).bind fun c o₂ h₂ _ ↦ ?_
  split
  · exact .pure (by simp)
  · refine (src.logs_probeProducer o₂).bind fun hp o₃ h₃ _ ↦
      (logs_probeLocal (h₃.conn conn (h₂.conn conn hc))).bind fun hl o₄ _ hans ↦
        (src.logs_select hans hp _ cur limit).bind fun hit o₅ _ ⟨st, hst, hhit⟩ ↦ ?_
    split
    · exact (src.logs_checkStaleSchema o₅).bind fun _ o₆ _ _ ↦ .pure (by simp)
    · refine (logs_clock o₅).bind fun now o₆ hext _ ↦ ?_
      refine LogsFrom.bind (Q := fun p _ ↦ ∀ q ∈ p.1, q.row ∈ hit)
        (.ofExcept fun p hbuild q hq ↦ ?_) fun p o₇ hext' hrows ↦ .pure ?_
      · have hmem : q.row ∈ p.1.map QueuedRecord.row := List.mem_map_of_mem hq
        rw [(buildRecords_eq hbuild).1] at hmem
        exact (mem_objectRows.mp hmem).1
      · intro b' hb' q hq
        obtain rfl := Option.mem_some_iff.mp hb'
        exact ⟨st, hext'.subset (hext.subset hst), hhit ▸ hrows q hq⟩

/-- The source of queue rows logs clean statements. -/
theorem keepsLocal : KeepsLocal src.source where
  iterBatches := fun cursor limit o ↦ by
    change LogsFrom o (src.iterBatches cursor limit) _
    have hone : ∀ o' cur, ∀ p ∈ [src.iterOneBatch cur limit], Resumes o' p := by
      intro o' cur p hp
      rw [List.mem_singleton.mp hp]
      exact src.resumes_iterOneBatch o' cur limit
    rw [iterBatches]
    split
    · exact .pure (by simp)
    · refine (logs_ensureReady.attempt o).bind fun ready o₁ _ _ ↦ ?_
      split
      · exact (logs_setMem _ o₁ (by intro m; rfl)).bind fun _ o₂ _ _ ↦ .pure (by simp)
      · exact (logs_setMem _ o₁ (by intro m; rfl)).bind fun _ o₂ _ _ ↦ .pure (by simp)
      · refine (logs_setMem _ o₁ (by intro m; rfl)).bind fun _ o₂ _ _ ↦
          LogsFrom.bind (Q := fun _ _ ↦ True) (.ofExcept fun _ _ ↦ trivial) fun cur o₃ _ _ ↦ ?_
        split
        · exact (src.logs_cursorFromStartAt o₃).bind fun c o₄ _ _ ↦ .pure (hone o₄ c)
        · exact .pure (hone o₃ cur)
  commit := fun token o ↦ by
    change LogsFrom o (src.commit token) _
    rw [commit]
    split
    · exact .pure trivial
    · split
      · exact .pure trivial
      · split
        · exact .pure trivial
        · refine .tryCatch ?_ fun _ o' ↦ .pure trivial
          exact (logs_connect o).bind fun conn o₁ _ hc ↦
            (src.logs_probeProducer o₁).bind fun hp o₂ h₂ _ ↦
              (logs_probeLocal (h₂.conn conn hc)).bind fun hl o₃ _ hans ↦
                src.logs_deleteUpTo hans hp _

end SqliteSource

/-! ## The source of WSPR cycles -/

namespace WsprCycleSource

variable (src : WsprCycleSource)

theorem logs_connect (o : Outside WsprMem) :
    LogsFrom o connect fun conn o' ↦ o'.view.conn = some conn := by
  rw [connect]
  refine logsFrom_mem.bind ?_
  rintro m o₁ - ⟨rfl, rfl⟩
  split
  next hc => exact .pure hc
  next hnone => exact logs_open hnone fun _ _ ↦ rfl

theorem logs_probeLocal {conn : ℕ} {o : Outside WsprMem} (hconn : o.view.conn = some conn) :
    LogsFrom o (probeLocal conn) fun b o' ↦ Answered conn b o' := by
  rw [probeLocal]
  refine logsFrom_mem.bind ?_
  rintro m o₁ - ⟨rfl, rfl⟩
  exact logs_probe hconn fun _ _ ↦ rfl

theorem logs_hasProducer (conn : ℕ) : Logs (hasProducer conn) := by
  have hprobe : Logs (hasProducer.probe conn) := by
    intro o
    rw [hasProducer.probe]
    exact (logs_query _ o).bind fun b o₁ _ _ ↦
      (logs_setMem _ o₁ (by intro m; rfl)).bind fun _ o₂ _ _ ↦ .pure trivial
  intro o
  rw [hasProducer]
  refine (logs_mem o).bind fun m o₁ _ _ ↦ ?_
  split
  · split
    · exact .pure trivial
    · exact hprobe o₁
  · exact hprobe o₁

theorem logs_effectiveCursor (cursor : Bytes) : Logs (src.effectiveCursor cursor) := by
  intro o
  rw [effectiveCursor]
  split
  · split
    · exact .pure trivial
    · exact .raise
  · split
    · exact .pure trivial
    · refine (logs_mem o).bind fun m o₁ _ _ ↦ ?_
      split
      · exact .pure trivial
      · exact (logs_clock o₁).bind fun now o₂ _ _ ↦
          (logs_setMem _ o₂ (by intro m; rfl)).bind fun _ o₃ _ _ ↦ .pure trivial

theorem logs_cycleComplete (cycle : String) : Logs (src.cycleComplete cycle) := by
  intro o
  rw [cycleComplete]
  split
  · exact .pure trivial
  · exact (logs_query _ o).bind fun rows o₁ _ _ ↦ .pure trivial

theorem logs_walkCycles (forceBefore : Instant) (cycles : List String) (ceiling : Option String) :
    Logs (src.walkCycles forceBefore cycles ceiling) := by
  induction cycles generalizing ceiling with
  | nil => exact fun o ↦ .pure trivial
  | cons cycle rest ih =>
    intro o
    rw [walkCycles]
    refine (src.logs_cycleComplete cycle o).bind fun complete o₂ _ _ ↦ ?_
    split
    · exact ih _ o₂
    · split
      · exact ih _ o₂
      · split
        · exact ih _ o₂
        · exact .pure trivial

theorem logs_askCeiling (cursor : String) : Logs (src.askCeiling cursor) := by
  intro o
  rw [askCeiling]
  split
  · exact (logs_clock o).bind fun now o₁ _ _ ↦ .pure trivial
  · rw [shippableCeiling]
    refine (logs_clock o).bind fun now o₁ _ _ ↦ (logs_query _ o₁).bind fun cycles o₂ _ _ ↦ ?_
    split
    · exact .pure trivial
    · exact src.logs_walkCycles _ _ _ o₂

/-- **The statement that selects the rows to send of a cycle is clean**, as long as the clause stands
where the filter says. -/
theorem logs_selectCycle {o : Outside WsprMem} {c : ℕ} {hl : Bool} (hans : Answered c hl o)
    (cycle : String) {clauses : List Clause}
    (hclause : hl = true → ∀ r, Passes clauses r → r.isLocal = false) :
    LogsFrom o (selectCycle cycle clauses) fun hit o' ↦ ∃ st ∈ o'.log, st.hit = hit := by
  rw [selectCycle]
  refine logs_statement fun o₁ hit o' hext hs h ↦ ?_
  obtain ⟨hit', hmatch, he⟩ := exists_of_map_eq_ok h
  cases he
  refine ⟨hs.of_eq rfl id, .logged ?_ rfl rfl, _, List.mem_append_right _ List.mem_cons_self, rfl⟩
  have hhit := matching_eq hmatch
  refine Statement.clean_of (fun r hr ↦ ?_) fun hsight r hr ↦ ?_ <;>
    rw [hhit, List.mem_filter, decide_eq_true_eq] at hr
  · exact hr.1
  · exact hclause ((hext.answered _ _ hans).saw hs hsight) r hr.2

theorem isLocal_of_cycleClauses {cycle : String} {r : Row} (h : Passes (cycleClauses true cycle) r) :
    r.isLocal = false := by
  rw [cycleClauses, if_pos rfl, passes_append, passes_append] at h
  exact isLocal_of_passes_localClause h.1.2

theorem isLocal_of_riderClauses {cycle next : String} {r : Row}
    (h : Passes (riderClauses true cycle next) r) : r.isLocal = false := by
  rw [riderClauses, if_pos rfl, passes_append, passes_append] at h
  exact isLocal_of_passes_localClause h.1.2

theorem row_recordOf {cycle table : String} {rider : Bool} {r : Row} {j : Json} {q : QueuedRecord}
    (h : src.recordOf cycle table rider r j = .ok q) : q.row = r := by
  cases j with
  | obj payload =>
    obtain ⟨time, -, h⟩ := exists_of_bind_eq_ok h
    cases h
    rfl
  | _ => cases h

theorem mem_of_wsprRecords {cycle : String} {rows : List Row} {qs : List QueuedRecord}
    (h : src.wsprRecords cycle rows = .ok qs) : ∀ q ∈ qs, q.row ∈ rows := by
  induction rows generalizing qs with
  | nil =>
    cases h
    simp
  | cons r rs ih =>
    rw [wsprRecords] at h
    split at h
    · exact fun q hq ↦ List.mem_cons_of_mem _ (ih h q hq)
    · cases h
    · obtain ⟨q, hq, h⟩ := exists_of_bind_eq_ok h
      obtain ⟨qs', hqs', h⟩ := exists_of_bind_eq_ok h
      cases h
      intro q' hq'
      rcases List.mem_cons.mp hq' with rfl | hq'
      · rw [src.row_recordOf hq]
        exact List.mem_cons_self
      · exact List.mem_cons_of_mem _ (ih hqs' q' hq')

theorem mem_of_readable {rows : List Row} {riders : List (Row × Json)}
    (h : readable rows = .ok riders) : ∀ p ∈ riders, p.1 ∈ rows := by
  induction rows generalizing riders with
  | nil =>
    cases h
    simp
  | cons r rs ih =>
    rw [readable] at h
    split at h
    · exact fun p hp ↦ List.mem_cons_of_mem _ (ih h p hp)
    · cases h
    · obtain ⟨rest, hrest, h⟩ := exists_of_bind_eq_ok h
      cases h
      intro p hp
      rcases List.mem_cons.mp hp with rfl | hp
      · exact List.mem_cons_self
      · exact List.mem_cons_of_mem _ (ih hrest p hp)

theorem logs_judge (verdict : List (String × Bool)) (riders : List (String × Json)) :
    Logs (judge verdict riders) := by
  induction riders generalizing verdict with
  | nil => exact fun o ↦ .pure trivial
  | cons p rest ih =>
    intro o
    rw [judge]
    split
    · exact (ih _ o).bind fun out o₁ _ _ ↦ .pure trivial
    · refine (logs_breathe o).bind fun _ o₁ _ _ ↦ ?_
      refine LogsFrom.bind (Q := fun _ _ ↦ True) ?_ fun sw o₂ _ _ ↦ ?_
      · rintro s rfl hs
        exact ⟨hs, .refl _, trivial⟩
      · exact LogsFrom.bind (Q := fun _ _ ↦ True) (.ofExcept fun _ _ ↦ trivial) fun st o₃ _ _ ↦
          (ih _ o₃).bind fun out o₄ _ _ ↦ .pure trivial

theorem logs_judgeRiders (riders : List (String × Json)) : Logs (judgeRiders riders) := by
  intro o
  rw [judgeRiders]
  split
  · exact .pure trivial
  · refine (Logs.attempt (fun o ↦ ?_) o).bind fun verdict o₁ _ _ ↦ .pure trivial
    refine (logs_breathe o).bind fun _ o₁ _ _ ↦ ?_
    refine LogsFrom.bind (Q := fun _ _ ↦ True) ?_ fun sw o₂ _ _ ↦ ?_
    · rintro s rfl hs
      exact ⟨hs, .refl _, trivial⟩
    · split
      · exact logs_judge _ _ o₂
      · exact .pure trivial

theorem logs_pskRecords {o : Outside WsprMem} {conn : ℕ} {hl : Bool} (hans : Answered conn hl o)
    (cycle : String) : LogsFrom o (src.pskRecords conn hl cycle) fun qs o' ↦
      ∀ q ∈ qs, ∃ st ∈ o'.log, q.row ∈ st.hit := by
  rw [pskRecords]
  split
  · refine (logs_hasProducer conn o).bind fun pc o₁ h₁ _ ↦
      (logs_selectCycle (h₁.answered _ _ hans) cycle
        fun h r hr ↦ isLocal_of_riderClauses (h ▸ hr)).bind fun rows o₂ _ ⟨st, hst, hhit⟩ ↦ ?_
    refine LogsFrom.bind (Q := fun riders _ ↦ ∀ p ∈ riders, p.1 ∈ rows)
      (.ofExcept fun riders hr ↦ mem_of_readable hr) fun riders o₃ hext hriders ↦
        (logs_judgeRiders _ o₃).bind fun rides o₄ hext' _ ↦ .ofExcept fun qs hqs q hq ↦ ?_
    obtain ⟨p, hp, hrec⟩ := exists_of_mem_mapM hqs q hq
    have hzip : p.1 ∈ riders := (List.of_mem_zip (a := p.1) (b := p.2) (List.mem_filter.mp hp).1).1
    refine ⟨st, hext'.subset (hext.subset hst), ?_⟩
    rw [src.row_recordOf hrec, hhit]
    exact hriders _ hzip
  · exact .pure (by simp)

theorem resumes_buildBatchForCycle {o : Outside WsprMem} {conn : ℕ} (hconn : o.view.conn = some conn)
    (cycle : String) : Resumes o (src.buildBatchForCycle conn cycle) := by
  intro o' hext₀
  rw [buildBatchForCycle]
  refine (logs_probeLocal (hext₀.conn conn hconn)).bind fun hl o₁ _ hans ↦
    (logs_selectCycle hans cycle fun h r hr ↦ isLocal_of_cycleClauses (h ▸ hr)).bind
      fun rows o₂ h₂ ⟨st, hst, hhit⟩ ↦ ?_
  refine LogsFrom.bind (Q := fun qs _ ↦ ∀ q ∈ qs, q.row ∈ rows)
    (.ofExcept fun qs hqs ↦ src.mem_of_wsprRecords hqs) fun qs o₃ hext hrows ↦ ?_
  refine (src.logs_pskRecords ((h₂.trans hext).answered _ _ hans) cycle).bind fun psk o₄ hext' hpsk ↦ ?_
  split
  · exact .pure (by simp)
  · split
    · refine .pure fun b' hb' q hq ↦ ?_
      obtain rfl := Option.mem_some_iff.mp hb'
      rcases List.mem_append.mp hq with hq | hq
      · exact ⟨st, hext'.subset (hext.subset hst), hhit ▸ hrows q hq⟩
      · exact hpsk q hq
    · exact .raise

/-- The source of WSPR cycles logs clean statements. -/
theorem keepsLocal : KeepsLocal src.source where
  iterBatches := fun cursor limit o ↦ by
    change LogsFrom o (src.iterBatches cursor limit) _
    rw [iterBatches]
    refine (logs_connect o).bind fun conn o₁ _ hc ↦ (logs_query _ o₁).bind fun ready o₂ h₂ _ ↦ ?_
    split
    · refine (src.logs_effectiveCursor cursor o₂).bind fun c o₃ h₃ _ ↦
        (src.logs_askCeiling c o₃).bind fun ceiling o₄ h₄ _ ↦ ?_
      have hc₄ : o₄.view.conn = some conn := ((h₂.trans h₃).trans h₄).conn conn hc
      split
      · exact .pure (by simp)
      · refine (logs_probeLocal hc₄).bind fun hl o₅ _ hans ↦
          (logs_query _ o₅).bind fun cycles o₆ h₆ _ ↦ .pure fun p hp ↦ ?_
        obtain ⟨cycle, -, rfl⟩ := List.mem_map.mp hp
        exact src.resumes_buildBatchForCycle (h₆.conn conn hans.conn) cycle
    · exact .pure (by simp)
  commit := fun token o ↦ .pure trivial

end WsprCycleSource

end HsUploader
