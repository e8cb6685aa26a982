import HsUploader.Core.CallRules
import HsUploader.Delivery.Simulation
import HsUploader.Sources.Unstopped

/-!
# A pump moves on

Safety says what a pump does not do.  Here is what it does: with a transport that acks whatever it
gets, a pump over rows that can be read moves the cursor, and as the cursor is a number, every row
is reached after finitely many pumps.

What the surroundings have to give for that is `Serves`, a property of the outside of the source
together with the positions its cursor takes.  `PumpRules` is instantiated once more, with an
invariant under which no step of the pump raises and the pump ends past the position it began at.

## What is here

* `AcksHere`, `Pumping`, `Serves` — the process runs and the transport acks; the pipeline is not
  held and its source is configured; and the outside lets it read, with a batch as long as a row
  lies ahead.
* `Onward` and `Stage` — where the cursor is in each phase of a pump that began at `c₀`.  A phase
  after the first batch is one in which it has moved.
* `Progress.cycle` and `Progress.run` — one position a pump at least, so `k` after `k` pumps.
* `AllAcked` and `LeftAlone` — an acking transport leaves nothing on the queue, so that every pump
  comes to its source.
-/

set_option autoImplicit false

namespace HsUploader

open Prog

/-! ## What the surroundings have to give -/

/-- The process runs, and the transport acks whatever it gets: from the `n`-th step on. -/
structure AcksHere (env : ℕ → Choice Act QueuedRecord) (n : ℕ) : Prop where
  runs : ∀ k, n ≤ k → (env k).stop = false
  acks : ∀ k, n ≤ k → ∃ o, (env k).outcome = .ok o ∧ o.kind = .acked

/-- The pipeline pumps on its own: no gate holds it, it may send one batch at least, and its source
is configured and starts from the beginning. -/
structure Pumping (u : Uploader) (src : SqliteSource) (set : PipelineSettings) : Prop where
  ungated : ¬ u.gated
  budget : (src.pipeline set).budgetLeft 0 = true
  configured : src.configured = true
  startAt : src.startAt = false

/-- As long as the outside satisfies `K`, the rows of `T` past the cursor are in the queue and the
cursor stands at a position of `At`, no read raises, and one from before `r` gives a batch. -/
structure Serves (src : SqliteSource) (limit : ℤ) (T : Row → Prop) (r : Row) (At : ℤ → Prop)
    (K : Outside SqliteMem → Prop) : Prop where
  reachable : ∀ o, K o → o.reachable = true
  answers : ∀ o, K o → src.answer o ≠ none
  probes : ∀ o e, K o →
    firstMatching (src.staleClauses o.sink.hasProducer) (some 1) o.sink.rows ≠ .error e
  reads : ∀ o o' ceiling c, K o → src.answer o = some ceiling → K o' → o'.sink.isSome → At c →
    (∀ x, T x → c < x.id → x ∈ o'.sink.rows) →
    ∃ hit, src.selectOn ceiling c limit o'.sink = .ok hit ∧
      (∀ now, ∃ p, src.buildRecords now hit c = .ok p) ∧ (∀ x ∈ hit.getLast?, At x.id) ∧
      (c < r.id → objectRows hit ≠ [])
  deleted : ∀ o hit log, K o → K { o with sink := o.sink.delete hit, log := log }

/-! ## The invariant of a pump -/

/-- Whether a batch has been shipped, as the cursor shows it. -/
def SteppedOn (any : Bool) (c₀ c : ℤ) : Prop := if any then c₀ < c else c = c₀

/-- The batch moves the cursor on from `c`. -/
def Onward (At : ℤ → Prop) (c : ℤ) (b : RecordBatch QueuedRecord) : Prop :=
  ∃ m, b.cursorAfter = Bytes.ofInt m ∧ b.commitToken = Bytes.ofInt m ∧ c < m ∧ 0 < m ∧ At m

/-- Where the cursor stands in each phase of a pump that began at `c₀`. -/
def Stage (src : SqliteSource) (set : PipelineSettings) (r : Row) (At : ℤ → Prop) (c₀ c : ℤ)
    (s : Store (List QueuedRecord)) : QueuePhase → Prop
  | .start | .retrying | .deferred => c = c₀
  | .draining any => SteppedOn any c₀ c
  | .opened cur any => s.getCursor (src.pipeline set).key = .ok cur ∧ SteppedOn any c₀ c
  | .reading rest any => SteppedOn any c₀ c ∧
    (rest = [] ∧ (any = true ∨ r.id ≤ c₀) ∨ rest = [src.iterOneBatch c set.limit])
  | .fetched b rest _ => rest = [] ∧ c₀ ≤ c ∧ Onward At c b
  | .shipped b o rest => rest = [] ∧ c₀ ≤ c ∧ Onward At c b ∧ o.kind = .acked
  | .advanced b _ rest => rest = [] ∧ c₀ < c ∧ b.commitToken = Bytes.ofInt c
  | .done => c₀ ≤ c ∧ (c₀ < r.id → c₀ < c)
  | .popped _ | .replayed _ _ | .replayAdvanced _ | .serialized _ _ _ => False

/-- A pump that began at `c₀`, on its way to the row `r`. -/
structure Progress (src : SqliteSource) (set : PipelineSettings) (T : Row → Prop) (r : Row)
    (At : ℤ → Prop) (K : Outside SqliteMem → Prop) (env : ℕ → Choice Act QueuedRecord) (n : ℕ)
    (c₀ : ℤ) (ph : QueuePhase) (w : QueueWorld) : Prop where
  env : w.sys.env = env
  tick : n ≤ w.sys.tick
  keeps : K w.sys.here
  isSome : w.sys.here.sink.isSome
  memOk : MemOk w.sys.here
  queue : ∀ d ∈ w.store.deliverables, d.pipeline ≠ set.name
  ever : ∀ x, T x → x ∈ everStored w.sys.here
  cursor : ∃ c, storedCursor (src.pipeline set) w.store = .ok c ∧ At c ∧
    (∀ x, T x → c < x.id → x ∈ w.sys.here.sink.rows) ∧ Stage src set r At c₀ c w.store ph

section progress

variable {u : Uploader} {src : SqliteSource} {set : PipelineSettings} {T : Row → Prop} {r : Row}
  {At : ℤ → Prop} {K : Outside SqliteMem → Prop} {env : ℕ → Choice Act QueuedRecord} {n : ℕ}
  {c₀ : ℤ}

theorem SteppedOn.le {any : Bool} {c : ℤ} (h : SteppedOn any c₀ c) : c₀ ≤ c := by
  rw [SteppedOn] at h
  split at h
  · exact h.le
  · exact h.ge

/-- A row there ever was is still one as the source works. -/
theorem Works.everStored {L : Statement → Prop} {s s' : SqliteSys} (h : Works L s s') {x : Row}
    (hx : x ∈ HsUploader.everStored s.here) : x ∈ HsUploader.everStored s'.here := by
  obtain ⟨l, hl, -⟩ := h.logged
  rw [HsUploader.everStored, hl, deletedRows_append]
  rcases List.mem_append.mp hx with hx | hx
  · exact List.mem_append_left _ (h.grows.mem_rows hx)
  · exact List.mem_append_right _ (List.mem_append_left _ hx)

namespace Progress

variable {ph ph' : QueuePhase} {w : QueueWorld}

/-- The source at work, or the environment's move before a step. -/
theorem works {L : Statement → Prop} {s' : SqliteSys} (hK : Stable env n K)
    (h : Progress src set T r At K env n c₀ ph w) (hw : Works L w.sys s') :
    Progress src set T r At K env n c₀ ph { w with sys := s' } where
  env := hw.env.trans h.env
  tick := h.tick.trans hw.tick
  keeps := hw.kept K (h.env ▸ hK.later h.tick) h.keeps
  isSome := hw.grows.isSome h.isSome
  memOk := hw.memOk
  queue := h.queue
  ever := fun x hx ↦ hw.everStored (h.ever x hx)
  cursor := by
    obtain ⟨c, hc, hat, hT, hstage⟩ := h.cursor
    exact ⟨c, hc, hat, fun x hx hlt ↦ hw.grows.mem_rows (hT x hx hlt), hstage⟩

theorem next (hw : Writes env) (hK : Stable env n K)
    (h : Progress src set T r At K env n c₀ ph w) : Progress src set T r At K env n c₀ ph w.next :=
  h.works (L := fun _ ↦ False) hK (.next (h.env ▸ hw) h.memOk)

/-- The store changes elsewhere. -/
theorem stored {s : Store (List QueuedRecord)} (h : Progress src set T r At K env n c₀ ph w)
    (hw : s.watermarks = w.store.watermarks) (hd : s.deliverables = w.store.deliverables) :
    Progress src set T r At K env n c₀ ph (w.stored s) := by
  have hget : s.getCursor (src.pipeline set).key = w.store.getCursor (src.pipeline set).key := by
    rw [Store.getCursor, Store.getCursor, hw]
  refine { h with queue := fun d hd' ↦ h.queue d (hd ▸ hd'), cursor := ?_ }
  obtain ⟨c, hc, hat, hT, hstage⟩ := h.cursor
  refine ⟨c, ?_, hat, hT, ?_⟩
  · change storedCursor _ s = _
    rw [storedCursor, hget]
    exact hc
  · cases ph with
    | opened cur any => exact ⟨hget.trans hstage.1, hstage.2⟩
    | _ => exact hstage

/-- The pump goes on to another phase. -/
theorem goOn (h : Progress src set T r At K env n c₀ ph w)
    (hstage : ∀ c, storedCursor (src.pipeline set) w.store = .ok c →
      Stage src set r At c₀ c w.store ph → Stage src set r At c₀ c w.store ph') :
    Progress src set T r At K env n c₀ ph' w := by
  obtain ⟨c, hc, hat, hT, hs⟩ := h.cursor
  exact { h with cursor := ⟨c, hc, hat, hT, hstage c hc hs⟩ }

/-- A phase that this pump does not enter. -/
theorem elim {P : Prop} (h : Progress src set T r At K env n c₀ ph w)
    (hno : ∀ c, ¬ Stage src set r At c₀ c w.store ph) : P := by
  obtain ⟨c, -, -, -, hs⟩ := h.cursor
  exact (hno c hs).elim

/-- No retry of this pipeline is queued. -/
theorem deliverableCount (h : Progress src set T r At K env n c₀ ph w) :
    w.store.deliverableCount set.name = 0 :=
  Store.deliverableCount_eq_zero.mpr h.queue

/-- The send record advances to the batch's cursor. -/
theorem advance {b : RecordBatch QueuedRecord} {o : Outcome QueuedRecord}
    {rest : List (SqliteM (Option (RecordBatch QueuedRecord)))} (t : Stamp)
    (h : Progress src set T r At K env n c₀ (.shipped b o rest) w) :
    Progress src set T r At K env n c₀ (.advanced b o rest)
      (w.stored (w.store.advanceCursor (src.pipeline set).key b.cursorAfter t
        (isAfterFor (src.pipeline set).source)).2) := by
  obtain ⟨c, hc, hat, hT, hrest, hle, ⟨m, hm, htok, hlt, hpos, hatm⟩, -⟩ := h.cursor
  have hdecode : cursorFromBytes b.cursorAfter = .ok m := by rw [hm, cursorFromBytes_ofInt]
  have hnew := storedCursor_advanceCursor t hc hdecode hpos
  rw [max_eq_right hlt.le] at hnew
  refine { h with queue := fun d hd ↦ h.queue d ?_, cursor := ⟨m, hnew, hatm, ?_, ?_⟩ }
  · rwa [World.stored, Store.deliverables_advanceCursor] at hd
  · exact fun x hx hmx ↦ hT x hx (hlt.trans hmx)
  · exact ⟨hrest, hle.trans_lt hlt, htok⟩

theorem unhindered (hack : AcksHere env n) (h : Progress src set T r At K env n c₀ ph w) :
    ¬ Hindered w.sys := by
  rintro ⟨k, hk, hstop⟩
  rw [h.env, hack.runs k (h.tick.trans hk)] at hstop
  cases hstop

theorem not_stop (hack : AcksHere env n) (h : Progress src set T r At K env n c₀ ph w) :
    ¬ w.sys.choice.stop = true := by
  rw [Sys.choice, h.env, hack.runs _ h.tick]
  exact Bool.false_ne_true

/-- The commit that follows takes rows up to the cursor only. -/
theorem commit {b : RecordBatch QueuedRecord} {o : Outcome QueuedRecord}
    {rest : List (SqliteM (Option (RecordBatch QueuedRecord)))} (hw : Writes env)
    (hK : Stable env n K) (hack : AcksHere env n) (hs : Serves src set.limit T r At K) :
    Triple (Progress src set T r At K env n c₀ (.advanced b o rest))
      (onSys (src.commit b.commitToken))
      (fun _ ↦ Progress src set T r At K env n c₀ (.reading rest true)) (fun _ _ ↦ False)
      (fun _ ↦ False) := by
  intro w h
  rw [wp_onSys]
  refine (src.goes_commit _).wp (S := fun _ ↦ True) (h.unhindered hack) ?_
  refine wp_commit (h.env ▸ hw) h.memOk h.isSome (fun _ _ ↦ trivial) (fun s' hmove _ ↦ ?_)
    fun lastId s' _ htok hdel ↦ ?_
  · exact (h.works hK hmove).goOn fun c _ ⟨hrest, hlt, _⟩ ↦
      ⟨by rw [SteppedOn, if_pos rfl]; exact hlt, .inl ⟨hrest, .inl rfl⟩⟩
  · obtain ⟨s₁, sight, hit, hmove, hmatch, rfl⟩ := hdel.exists_delete
    have h₁ := h.works hK hmove
    obtain ⟨c, hc, hat, hT, hrest, hlt, hto⟩ := h₁.cursor
    rw [hto, Bytes.toInt_ofInt] at htok
    obtain rfl : c = lastId := Option.some.inj htok
    exact
      { env := h₁.env
        tick := h₁.tick
        keeps := hs.deleted _ _ _ h₁.keeps
        isSome := (Sink.isSome_delete _ _).trans h₁.isSome
        memOk := h₁.memOk.delete _ _
        queue := h₁.queue
        ever := fun x hx ↦ by
          -- what the statement takes it has hit, and the log says so
          rw [everStored, deletedRows_append, ← List.append_assoc, List.mem_append]
          rcases List.mem_append.mp (h₁.ever x hx) with hx | hx
          · by_cases hpass : Passes (src.deleteClauses s₁.here.sink.hasProducer
                s₁.here.sink.hasLocal c) x
            · refine .inr ?_
              rw [deletedRows, List.flatMap_cons, List.flatMap_nil, List.append_nil, if_pos rfl,
                matching_eq hmatch, List.mem_filter]
              exact ⟨hx, decide_eq_true hpass⟩
            · refine .inl (List.mem_append_left _ ?_)
              change x ∈ (s₁.here.sink.delete _).rows
              rw [Sink.rows_delete, List.mem_filter]
              exact ⟨hx, by simpa using hpass⟩
          · exact .inl (List.mem_append_right _ hx)
        cursor := by
          refine ⟨c, hc, hat, fun x hx hcx ↦ ?_, ?_, .inl ⟨hrest, .inl rfl⟩⟩
          · change x ∈ (s₁.here.sink.delete _).rows
            rw [Sink.rows_delete, List.mem_filter]
            refine ⟨hT x hx hcx, ?_⟩
            rw [Bool.not_eq_true', decide_eq_false_iff_not, SqliteSource.deleteClauses, passes_cons]
            rintro ⟨hle, -⟩
            have hle : x.id ≤ c := by simpa [Clause.column] using hle
            exact absurd hle (not_le.mpr hcx)
          · rw [SteppedOn, if_pos rfl]
            exact hlt }

/-- A resumption gives a batch that moves the cursor on, or nothing where there is nothing to do. -/
theorem resume {any : Bool} {p : SqliteM (Option (RecordBatch QueuedRecord))}
    {rest : List (SqliteM (Option (RecordBatch QueuedRecord)))} (hw : Writes env)
    (hK : Stable env n K) (hack : AcksHere env n) (hs : Serves src set.limit T r At K) :
    Triple (Progress src set T r At K env n c₀ (.reading (p :: rest) any)) (onSys p)
      (fun b w ↦ match b with
        | none => Progress src set T r At K env n c₀ (.reading rest any) w
        | some b => if b.records.isEmpty then Progress src set T r At K env n c₀ (.reading rest any) w
          else Progress src set T r At K env n c₀ (.fetched b rest any) w)
      (fun _ _ ↦ False) (fun _ ↦ False) := by
  intro w h
  obtain ⟨c, hc, hat, hT, hmoved, hrest⟩ := h.cursor
  obtain ⟨rfl, rfl⟩ : p = src.iterOneBatch c set.limit ∧ rest = [] := by
    rcases hrest with ⟨hnil, -⟩ | hone
    · cases hnil
    · cases hone
      exact ⟨rfl, rfl⟩
  -- what a read from here comes to, whenever the ceiling is asked for and the query run
  have hread : ∀ {s₁ s₂ : SqliteSys} {ceiling : Option String},
      src.Reads c set.limit w.sys s₁ s₂ ceiling →
      ∃ hit, src.selectOn ceiling c set.limit s₂.here.sink = .ok hit ∧
        (∀ now, ∃ p, src.buildRecords now hit c = .ok p) ∧ (∀ x ∈ hit.getLast?, At x.id) ∧
        (c < r.id → objectRows hit ≠ []) := fun hr ↦ by
    have h₁ := h.works hK hr.asked
    have h₂ := h.works hK (hr.asked.trans hr.ran)
    exact hs.reads _ _ _ c h₁.keeps hr.answer h₂.keeps h₂.isSome hat fun x hx hlt ↦
      (hr.asked.trans hr.ran).grows.mem_rows (hT x hx hlt)
  -- nothing is read, or nothing that gives a record: the row has been passed
  have hnothing : ∀ s', src.Reading c set.limit w.sys s' → r.id ≤ c →
      Progress src set T r At K env n c₀ (.reading [] any) { w with sys := s' } := fun s' hr hle ↦ by
    have h' := h.works hK hr
    refine { h' with cursor := ⟨c, hc, hat, fun x hx hlt ↦ hr.grows.mem_rows (hT x hx hlt), hmoved,
      .inl ⟨rfl, ?_⟩⟩ }
    cases any with
    | true => exact .inl rfl
    | false => exact .inr (hle.trans_eq hmoved)
  rw [wp_onSys]
  refine (src.goes_iterOneBatch _ _).wp (S := fun _ ↦ True) (h.unhindered hack) ?_
  refine wp_iterOneBatch (h.env ▸ hw) h.memOk h.isSome (fun _ _ ↦ trivial)
    (fun e s' hr hfail ↦ ?_) (fun s' hr hidle ↦ ?_) fun b s' hr hy ↦ ?_
  · -- no read raises
    cases hfail with
    | unreachable hno =>
      rw [hs.reachable _ (h.works hK hr).keeps] at hno
      cases hno
    | select hreads hsel =>
      obtain ⟨hit, hok, -⟩ := hread hreads
      rw [hok] at hsel
      cases hsel
    | stale hread₁ hstale => exact hs.probes _ _ (h.works hK hread₁).keeps hstale
    | build hreads hsel hbuild =>
      obtain ⟨hit, hok, hrec, -⟩ := hread hreads
      obtain rfl := Except.ok.inj (hok.symm.trans hsel)
      obtain ⟨p, hp⟩ := hrec _
      rw [hp] at hbuild
      cases hbuild
  · refine hnothing s' hr ?_
    cases hidle with
    | held hread₁ hnone => exact absurd hnone (hs.answers _ (h.works hK hread₁).keeps)
    | empty hreads hsel =>
      obtain ⟨hit, hok, -, -, hsome⟩ := hread hreads
      obtain rfl := Except.ok.inj (hok.symm.trans hsel)
      exact not_lt.mp fun hlt ↦ hsome hlt rfl
  · obtain ⟨s₁, s₂, ceiling, sight, hit, now, lastId, hreads, hrest₂, hsel, hne, hbuild, hca, hct, -⟩ :=
      hy.exists_read
    obtain ⟨hit', hok, -, hlast, hsome⟩ := hread hreads
    obtain rfl := Except.ok.inj (hok.symm.trans hsel)
    obtain ⟨hrows, hid⟩ := SqliteSource.buildRecords_eq hbuild
    dsimp only
    split
    · rename_i hnil
      rw [List.isEmpty_iff] at hnil
      rw [hnil, List.map_nil] at hrows
      exact hnothing s' hr (not_lt.mp fun hlt ↦ hsome hlt hrows.symm)
    · obtain ⟨x, hx⟩ : ∃ x, hit'.getLast? = some x :=
        Option.isSome_iff_exists.mp (by rw [List.getLast?_isSome]; exact hne)
      rw [hx, Option.map_some, Option.getD_some] at hid
      subst hid
      have hmem := List.mem_of_getLast? hx
      have hlt := (SqliteSource.inScope_of_selectRows hsel hmem).1
      have hpos := (Sink.bounded ((SqliteSource.sublist_of_selectRows hsel).subset hmem)).1
      have h' := h.works hK hr
      exact { h' with cursor := ⟨c, hc, hat, fun y hy hcy ↦ hr.grows.mem_rows (hT y hy hcy), rfl,
        hmoved.le, x.id, hca, hct, hlt, hpos, hlast x hx⟩ }

/-- The generator opens and has one batch to look for. -/
theorem iter {any : Bool} {cur : Bytes} (hw : Writes env) (hK : Stable env n K)
    (hack : AcksHere env n) (hs : Serves src set.limit T r At K) (hp : Pumping u src set) :
    Triple (Progress src set T r At K env n c₀ (.opened cur any))
      (onSys (src.iterBatches cur set.limit))
      (fun rest ↦ Progress src set T r At K env n c₀ (.reading rest any)) (fun _ _ ↦ False)
      (fun _ ↦ False) := by
  intro w h
  obtain ⟨c, hc, -, -, hget, -⟩ := h.cursor
  have hcur : cursorFromBytes cur = .ok c := by
    rw [storedCursor, hget] at hc
    exact hc
  rw [wp_onSys]
  refine (src.goes_iterBatches _ _).wp (S := fun _ ↦ True) (h.unhindered hack) ?_
  refine wp_iterBatches (h.env ▸ hw) h.memOk (fun _ _ ↦ trivial) (fun e s' hmove hwhy ↦ ?_)
    (fun s' hmove hshut ↦ ?_) (fun c' s' hmove hsome hc' _ ↦ ?_) fun c' s₁ s' hmove _ _ _ hat ↦ ?_
  · rcases hwhy with hbad | hat
    · rw [hcur] at hbad
      cases hbad
    · rw [hp.startAt] at hat
      cases hat
  · obtain ⟨s₁, hmove₁, hshut⟩ := hshut hp.configured
    have h₁ := h.works hK hmove₁
    rcases hshut with hno | hnone
    · rw [hs.reachable _ h₁.keeps] at hno
      cases hno
    · have hsome := h₁.isSome
      rw [hnone] at hsome
      cases hsome
  · obtain rfl := Except.ok.inj (hcur.symm.trans hc')
    refine (h.works hK hmove).goOn fun c' hc' hstage ↦ ⟨hstage.2, .inr ?_⟩
    rw [← Except.ok.inj (hc.symm.trans hc')]
  · rw [hp.startAt] at hat
    cases hat

/-- The batch is shipped, and acked. -/
theorem ship {b : RecordBatch QueuedRecord} {any : Bool}
    {rest : List (SqliteM (Option (RecordBatch QueuedRecord)))} (hw : Writes env)
    (hK : Stable env n K) (hack : AcksHere env n) :
    Triple (Progress src set T r At K env n c₀ (.fetched b rest any))
      (callShip (src.pipeline set) b)
      (fun o ↦ Progress src set T r At K env n c₀ (.shipped b o rest)) (fun _ _ ↦ False)
      (fun _ ↦ False) := by
  intro w h
  obtain ⟨o, ho, hk⟩ := hack.acks w.sys.tick h.tick
  have hanswer : w.sys.choice.outcome = .ok o := by rw [Sys.choice, h.env, ho]
  refine wp_callNoted (fun hstop ↦ ?_) (fun e _ he ↦ ?_) fun o' _ ho' ↦ ?_
  · exact absurd hstop (h.not_stop hack)
  · rw [hanswer] at he
    cases he
  · obtain rfl := Except.ok.inj (hanswer.symm.trans ho')
    have hn := h.next hw hK
    obtain ⟨c, hc, hat, hT, hrest, hle, hon⟩ := hn.cursor
    exact { hn with cursor := ⟨c, hc, hat, hT, hrest, hle, hon, hk⟩ }

/-- **No step of the pump raises, and it ends past where it began**, unless the row has been
passed. -/
theorem rules (hw : Writes env) (hK : Stable env n K) (hack : AcksHere env n)
    (hs : Serves src set.limit T r At K) (hp : Pumping u src set) :
    PumpRules u (src.pipeline set) (Progress src set T r At K env n c₀) (fun _ ↦ False)
      (fun _ ↦ False) where
  breathe ph w h := by
    rw [if_neg (h.not_stop hack)]
    exact h.next hw hK
  gate _ _ _ h := { h with }
  attempt _ _ _ _ h := h.stored (Store.watermarks_recordAttempt ..)
    (Store.deliverables_recordAttempt ..)
  heldStart hu := absurd hu hp.ungated
  heldDraining hu := absurd hu hp.ungated
  heldFetched hu := absurd hu hp.ungated
  enter _ h := h.goOn fun _ _ hs ↦ hs
  pop w w' _ d _ h hg hpop := by
    obtain ⟨hmem, hname, -⟩ := Store.popDueDeliverable_some hpop
    rw [(CallRules.store_trace_of_granted hg).1] at hmem
    exact absurd hname (h.queue d hmem)
  replay _ _ h := h.elim fun _ hs ↦ hs
  replayAdvance _ _ _ _ h := h.elim fun _ hs ↦ hs
  replayNoCursor _ _ _ h := h.elim fun _ hs ↦ hs
  replayCommit _ _ h := h.elim fun _ hs ↦ hs
  requeue _ _ _ _ _ h := h.elim fun _ hs ↦ hs
  requeueRaised _ _ _ h := h.elim fun _ hs ↦ hs
  replayDead _ _ _ _ h := h.elim fun _ hs ↦ hs
  replaySpent _ _ _ _ h := h.elim fun _ hs ↦ hs
  replayOdd _ _ _ h := h.elim fun _ hs ↦ hs
  queued w h hc := by
    rcases h with h | h
    · exact absurd h.deliverableCount hc
    · exact absurd h.deliverableCount hc
  queueEmpty w h _ := by
    rcases h with h | h
    · exact h.goOn fun _ _ hs ↦ hs
    · exact h.goOn fun _ _ hs ↦ hs
  noBudget any w h hno := h.goOn fun c _ hmoved ↦ by
    cases any with
    | false =>
      rw [hp.budget] at hno
      cases hno rfl
    | true => exact ⟨SteppedOn.le hmoved, fun _ ↦ hmoved⟩
  cursor _ _ _ h hget := h.goOn fun _ _ hmoved ↦ ⟨hget, hmoved⟩
  cursorRaised _ w e h he := by
    obtain ⟨c, hc, -⟩ := h.cursor
    rw [storedCursor, he] at hc
    cases hc
  iter _ _ := iter hw hK hack hs hp
  resume _ _ _ w h := wp_mono_ok (resume hw hK hack hs w h) fun b _ hb ↦ by
    cases b <;> exact hb
  exhausted any w h := h.goOn fun c _ ⟨hmoved, hrest⟩ ↦ by
    refine ⟨hmoved.le, fun hlt ↦ ?_⟩
    rcases hrest with ⟨-, rfl | hle⟩ | hone
    · exact hmoved
    · exact absurd hle (not_le.mpr hlt)
    · cases hone
  again _ h := h.goOn fun _ _ ⟨hmoved, _⟩ ↦ hmoved
  ship _ _ _ w h := by
    obtain ⟨w₀, h₀, hg⟩ := h
    rw [Granted, if_neg hp.ungated] at hg
    exact ship hw hK hack w (hg ▸ h₀)
  acked _ _ _ _ ts h _ := h.advance ts
  ackedPart _ _ _ _ _ h hk := h.elim fun _ ⟨_, _, _, ha⟩ ↦ by
    rw [hk] at ha
    cases ha
  commit _ _ _ := commit hw hK hack hs
  serialize _ _ _ hk _ h := h.elim fun _ ⟨_, _, _, ha⟩ ↦ by
    rcases hk with hk | hk <;> rw [hk] at ha <;> cases ha
  enqueueRaised _ _ _ _ h _ := h.elim fun _ hs ↦ hs
  enqueue _ _ _ _ _ _ h _ := h.elim fun _ hs ↦ hs
  dead _ _ _ _ _ h _ _ := h.elim fun _ hs ↦ hs
  unhandled _ _ _ _ _ h hk := h.elim fun _ ⟨_, _, _, ha⟩ ↦ by
    rw [hk] at ha
    cases ha
  enough _ _ h := h.goOn fun _ _ ⟨hmoved, _⟩ ↦ ⟨hmoved.le, fun _ ↦ hmoved⟩

/-- **A pump moves the cursor on**, unless the row has been passed. -/
theorem cycle (hw : Writes env) (hK : Stable env n K) (hack : AcksHere env n)
    (hs : Serves src set.limit T r At K) (hp : Pumping u src set)
    (h : Progress src set T r At K env n c₀ .start w) :
    Progress src set T r At K env n c₀ .done
      (HsUploader.cycle u (src.pipeline set) src.restart w) :=
  (rules hw hK hack hs hp).cycle (fun _ hx ↦ hx.elim) (fun _ hx ↦ hx.elim) h

/-- **After `k` pumps the cursor stands `k` positions further on at least**, or the row has been
passed. -/
theorem run (hw : Writes env) (hK : Stable env n K) (hack : AcksHere env n)
    (hs : Serves src set.limit T r At K) (hp : Pumping u src set)
    (h : Progress src set T r At K env n c₀ .start w) (k : ℕ) :
    ∃ c, Progress src set T r At K env n c .start
        (HsUploader.run u (src.pipeline set) src.restart k w) ∧ (r.id ≤ c ∨ c₀ + k ≤ c) := by
  induction k with
  | zero => exact ⟨c₀, h, .inr (by simp)⟩
  | succ k ih =>
    obtain ⟨c, hc, hfar⟩ := ih
    have hdone := hc.cycle hw hK hack hs hp
    obtain ⟨c', hc', hat, hT, hle, hlt⟩ := hdone.cursor
    refine ⟨c', { hdone with cursor := ⟨c', hc', hat, hT, rfl⟩ }, ?_⟩
    rcases hfar with hfar | hfar
    · exact .inl (hfar.trans hle)
    · rcases le_or_gt r.id c with hpast | hbefore
      · exact .inl (hpast.trans hle)
      · have := hlt hbefore
        exact .inr (by push_cast; omega)

end Progress

end progress

/-! ## An acking transport leaves nothing queued -/

theorem goes_callOpen {σ ω ρ : Type} [Surroundings ω σ] :
    Goes (callOpen : SysM σ ω ρ (Outcome ρ)) fun _ ↦ True :=
  goes_breathe.bind fun _ _ ↦ .ofExcept fun _ _ ↦ trivial

theorem SqliteSource.pipeline_returns (src : SqliteSource) (set : PipelineSettings) :
    (src.pipeline set).Returns where
  iter c limit s := wp_mono (src.goes_iterBatches c limit s)
    (fun _ _ h p hp ↦ (h.2 p hp).returns) (fun _ _ _ ↦ trivial) fun _ _ ↦ trivial
  commit token := (src.goes_commit token).returns
  ship _ := goes_callOpen.returns
  serialize _ := Goes.returns (R := fun _ ↦ True)
    (goes_callOpen.bind fun _ _ ↦ .pure trivial)
  replay _ := goes_callOpen.returns

/-- Every batch that was shipped was acked. -/
def AllAcked (t : List (Event QueuedRecord (List QueuedRecord))) : Prop :=
  ∀ b o, .shipped b o ∈ t → o.kind = .acked

/-- What a pump without retries has in hand: nothing, or a batch whose answer it has noted. -/
def Unretried : QueuePhase → List (Event QueuedRecord (List QueuedRecord)) → Prop
  | .popped _, _ | .replayed _ _, _ | .replayAdvanced _, _ | .serialized _ _ _, _ => False
  | .shipped b o _, t => .shipped b o ∈ t
  | _, _ => True

/-- As long as every batch is acked, the pipeline has no retry and makes none. -/
def LeftAlone (name : String) (ph : QueuePhase) (s : Store (List QueuedRecord))
    (t : List (Event QueuedRecord (List QueuedRecord))) : Prop :=
  AllAcked t → (∀ d ∈ s.deliverables, d.pipeline ≠ name) ∧ Unretried ph t

section undisturbed

variable {name : String} {ph ph' : QueuePhase} {s s' : Store (List QueuedRecord)}
  {t t' : List (Event QueuedRecord (List QueuedRecord))}

theorem LeftAlone.imp (h : LeftAlone name ph s t) (hd : s'.deliverables = s.deliverables)
    (ht : t ⊆ t') (hph : Unretried ph t → Unretried ph' t') : LeftAlone name ph' s' t' :=
  fun ha ↦ by
    obtain ⟨hq, hu⟩ := h fun b o hbo ↦ ha b o (ht hbo)
    exact ⟨hd ▸ hq, hph hu⟩

theorem Unretried.mono (ht : t ⊆ t') (h : Unretried ph t) : Unretried ph t' := by
  cases ph with
  | shipped b o rest => exact ht h
  | _ => exact h

theorem subset_granted (u : Uploader) (l : List (Event QueuedRecord (List QueuedRecord))) :
    t ⊆ granted u t ++ l := by
  rw [granted]
  split
  · rw [List.append_assoc]
    exact List.subset_append_left _ _
  · exact List.subset_append_left _ _

/-- Nothing a pump does queues a retry, unless a batch was not acked. -/
theorem undisturbed_rules (u : Uploader) (pipe : Pipeline (Outside SqliteMem) Act QueuedRecord
    (List QueuedRecord)) (hname : pipe.name = name) :
    CallRules u pipe (LeftAlone name) (LeftAlone name .done) (LeftAlone name .done) where
  stopped _ _ _ h := h.imp rfl (fun _ h ↦ h) fun _ ↦ trivial
  raised _ _ _ h _ := h.imp rfl (fun _ h ↦ h) fun _ ↦ trivial
  gate _ _ _ _ h := h.imp rfl (List.subset_append_left _ _) (.mono (List.subset_append_left _ _))
  attempt _ _ _ _ _ h := h.imp (Store.deliverables_recordAttempt ..) (fun _ h ↦ h) id
  heldStart _ _ _ h := h
  heldDraining _ _ _ _ h := h
  heldFetched _ _ _ _ _ _ h := h
  enter _ _ h := h
  pop _ t _ d _ h hpop ha := by
    obtain ⟨hmem, hd, -⟩ := Store.popDueDeliverable_some hpop
    have hsub := subset_granted u [] (t := t)
    rw [List.append_nil] at hsub
    exact absurd (hd.trans hname) ((h fun b o hbo ↦ ha b o (hsub hbo)).1 d hmem)
  replayStopped _ _ _ h := h.imp rfl (List.subset_append_left _ _) fun _ ↦ trivial
  replayRaised _ _ _ h := h.imp rfl (List.subset_append_left _ _) fun _ ↦ trivial
  replay _ _ _ _ h := h.imp rfl (List.subset_append_left _ _) False.elim
  replayAdvance _ _ _ _ _ h _ _ ha := (h ha).2.elim
  replayNoCursor _ _ _ _ h _ _ ha := (h ha).2.elim
  replayCommit _ _ _ h ha := (h ha).2.elim
  requeue _ _ _ _ _ _ h _ _ _ ha := (h ha).2.elim
  requeueRaised _ _ _ _ h _ _ _ ha := (h ha).2.elim
  replayDead _ _ _ _ _ h _ _ ha := (h ha).2.elim
  replaySpent _ _ _ _ _ h _ _ _ ha := (h ha).2.elim
  replayOdd _ _ _ _ h _ _ _ ha := (h ha).2.elim
  queued _ _ h _ := h.elim id id
  queueEmpty _ _ h _ := h.elim id id
  noBudget _ _ _ h := h
  cursor _ _ _ _ h _ := h
  iter _ _ _ _ _ h := h
  resumeNothing _ _ _ _ _ h := h
  resume _ _ _ _ _ _ h := h
  exhausted _ _ _ h := h
  again _ _ h := h
  shipStopped _ _ _ _ _ h := h.imp rfl (subset_granted u _) fun _ ↦ trivial
  shipRaised _ _ _ _ _ h := h.imp rfl (subset_granted u _) fun _ ↦ trivial
  ship _ _ _ _ _ _ h := h.imp rfl (subset_granted u _)
    fun _ ↦ List.mem_append_right _ (List.mem_cons_of_mem _ List.mem_cons_self)
  acked _ _ _ _ _ _ h _ := h.imp (Store.deliverables_advanceCursor ..) (fun _ h ↦ h)
    fun _ ↦ trivial
  ackedPart _ _ _ _ _ _ h _ := h.imp (Store.deliverables_advanceCursor ..) (fun _ h ↦ h)
    fun _ ↦ trivial
  commit _ _ _ _ _ h := h
  serialize _ _ b o _ _ h hk ha := by
    have hacked := ha b o (h ha).2
    rcases hk with hk | hk <;> rw [hacked] at hk <;> cases hk
  enqueue _ _ _ _ _ _ _ h _ ha := (h ha).2.elim
  dead _ _ _ _ _ _ h _ _ ha := (h ha).2.elim
  enough _ _ _ h := h

/-- **As long as the transport acks every batch, no retry of the pipeline is queued.** -/
theorem Fresh.unqueued (u : Uploader) {src : SqliteSource} {set : PipelineSettings}
    {w : QueueWorld} (hfresh : Fresh src set w) (n : ℕ)
    (hacked : AllAcked (run u (src.pipeline set) src.restart n w).trace) :
    ∀ d ∈ (run u (src.pipeline set) src.restart n w).store.deliverables, d.pipeline ≠ set.name := by
  suffices h : LeftAlone set.name .done (run u (src.pipeline set) src.restart n w).store
      (run u (src.pipeline set) src.restart n w).trace from (h hacked).1
  clear hacked
  induction n with
  | zero => exact fun _ ↦ ⟨hfresh.queue, trivial⟩
  | succ n ih =>
    exact (undisturbed_rules u (src.pipeline set) rfl).cycle (src.pipeline_returns set) src.restart
      (fun _ _ h ↦ h) (fun _ _ h ↦ h) (fun _ _ h ↦ h) ih

end undisturbed

end HsUploader
