import HsUploader.Delivery.World

/-!
# A pipeline over the queue follows the delivery protocol

Every step of a pump over a source of queue rows is a step, or no step, of `Outbox`.  `Matches` says
how a state of the protocol stands for the world in a phase of the pump, and `simulation_rules`
goes through the steps of the pump once.  What `Outbox` proves of its runs then holds of the runs of
the pipeline (`Follows.run`).

The two parts of the invariant are kept apart.  `Base` holds whatever the reads and the outcomes
were.  The protocol is followed as long as the run meets its condition, and the condition, being
about the log and the trace, can only be lost.

## What is here

* `Matches` — what the protocol has in hand in each phase of a pump: nothing, a batch that was read,
  a retry that was claimed, or a batch whose ack has come in and whose cursor is outstanding.
* `Base` and `PhaseOk` — what holds whatever the run was: every read was made from a cursor that has
  been reached by now, and the send record only ever grows.
* `Follows` — the invariant of the simulation.  Each of its lemmas is one kind of step: the
  environment moves (`Follows.breathe`), a deliverable is claimed or queued (`Follows.pop`,
  `Follows.join`), the transport answers (`Follows.answered`), the send record advances
  (`Follows.advance`), a commit deletes (`Follows.deletes`).
* `simulation_rules` — the steps of the pump, each of them by the lemma for its kind.
* `Fresh.covered` — what is carried back to the pipeline: a wanted row up to the stored cursor that
  no read left out has been delivered.

A restart keeps the store and drops what is in hand, so that it is a step of the protocol as well
(`Follows.restart`), and the results are about runs with any number of stops in them.
-/

set_option autoImplicit false

namespace HsUploader

open Prog Outbox

/-! ## The protocol's view of the world -/

/-- A batch of the uploader and the batch of the protocol it stands for. -/
structure IsBatch (b' : RecordBatch QueuedRecord) (b : Batch Row ℤ) : Prop where
  rows : rowsOf b'.records = b.rows
  cursorAfter : b'.cursorAfter = Bytes.ofInt b.upTo
  commitToken : b'.commitToken = Bytes.ofInt b.upTo
  pos : 0 < b.upTo
  le : ∀ r ∈ b.rows, r.id ≤ b.upTo

/-- A deliverable and the batch it carries. -/
structure Carries (src : SqliteSource) (set : PipelineSettings)
    (dl : Deliverable (List QueuedRecord)) (b : Batch Row ℤ) : Prop where
  rows : rowsOf dl.payloadBlob = b.rows
  cursorAfter : dl.cursorAfter = Bytes.ofInt b.upTo
  commitToken : dl.commitToken = Bytes.ofInt b.upTo
  pos : 0 < b.upTo
  key : dl.key (src.pipeline set) = (src.pipeline set).key

/-- The deliverables of the pipeline. -/
def PipelineSettings.queued (set : PipelineSettings) (s : Store (List QueuedRecord)) :
    List (Deliverable (List QueuedRecord)) :=
  s.deliverables.filter fun d ↦ decide (d.pipeline = set.name)

/-- What the protocol has in hand in a phase of the pump. -/
def InHand (src : SqliteSource) (set : PipelineSettings) (d : State Row ℤ) : QueuePhase → Prop
  | .start | .retrying | .deferred | .done => d.hand = .idle
  | .popped dl => ∃ b, Carries src set dl b ∧ d.hand = .held b
  | .replayed dl o =>
    ∃ b, Carries src set dl b ∧ d.hand = if o.kind = .acked then .acked b else .held b
  | .replayAdvanced dl => ∃ b, Carries src set dl b ∧ d.hand = .advanced b
  | .draining _ | .opened _ _ | .reading _ _ => d.hand = .idle ∧ d.queue = []
  | .fetched b' _ _ => ∃ b, IsBatch b' b ∧ d.hand = .held b ∧ d.queue = []
  | .shipped b' o _ =>
    ∃ b, IsBatch b' b ∧ (d.hand = if o.succeeded then .acked b else .held b) ∧ d.queue = []
  | .advanced b' _ _ => ∃ b, IsBatch b' b ∧ d.hand = .advanced b ∧ d.queue = []
  | .serialized b' _ payload =>
    ∃ b, IsBatch b' b ∧ payload = b'.records ∧ d.hand = .held b ∧ d.queue = []

/-- The state `d` of the protocol stands for the world in this phase. -/
structure Matches (src : SqliteSource) (set : PipelineSettings) (d : State Row ℤ)
    (ph : QueuePhase) (w : QueueWorld) : Prop where
  table : w.sys.here.sink.rows = d.table
  top : w.sys.here.sink.seq = d.top
  removed : deletedRows w.sys.here.log = d.removed
  /-- Every read was made from a cursor that has been reached by now. -/
  read_le : ∀ st ∈ w.sys.here.log, ∀ cur c, st.kind = .select cur c → cur ≤ d.cursor
  cursor : storedCursor (src.pipeline set) w.store = .ok d.cursor
  queue : List.Forall₂ (Carries src set) (set.queued w.store) d.queue
  delivered : deliveredRows w.trace = d.delivered
  hand : InHand src set d ph

/-- What a phase needs of the world, whatever the reads and the outcomes were. -/
def PhaseOk (src : SqliteSource) (set : PipelineSettings) (w : QueueWorld) : QueuePhase → Prop
  | .start | .retrying | .deferred | .done | .draining _ => True
  | .opened c _ => w.store.getCursor (src.pipeline set).key = .ok c
  | .popped dl | .replayed dl _ => w.sys.here.sink.isSome ∧ dl.pipeline = set.name
  | .replayAdvanced _ | .serialized _ _ _ => w.sys.here.sink.isSome
  | .reading rest _ =>
    rest = [] ∨ w.sys.here.sink.isSome ∧ ∃ cur, rest = [src.iterOneBatch cur set.limit] ∧
      storedCursor (src.pipeline set) w.store = .ok cur
  | .fetched _ rest _ | .advanced _ _ rest => w.sys.here.sink.isSome ∧ rest = []
  | .shipped b o rest => w.sys.here.sink.isSome ∧ rest = [] ∧ .shipped b o ∈ w.trace

/-- What holds of the world throughout a run of the pipeline. -/
structure Base (src : SqliteSource) (set : PipelineSettings) (env : ℕ → Choice Act QueuedRecord)
    (columns : Bool × Bool) (ph : QueuePhase) (w : QueueWorld) : Prop where
  /-- What the transport answered is what the environment chose. -/
  answered : ∀ b o, .shipped b o ∈ w.trace → ∃ n, (env n).outcome = .ok o
  env : w.sys.env = env
  memOk : MemOk w.sys.here
  columns : w.sys.here.sink.columns = columns
  /-- A row that was read is still there, or a commit has deleted it. -/
  read_mem : ∀ st ∈ w.sys.here.log, ∀ r ∈ st.rows,
    r ∈ w.sys.here.sink.rows ∨ r ∈ deletedRows w.sys.here.log
  /-- A batch query that was run selected what it selects. -/
  selected : ∀ st ∈ w.sys.here.log, ∀ cur c, st.kind = .select cur c →
    src.Selected w.sys.here.sink.columns cur set.limit st
  /-- A source that is not to delete has deleted nothing. -/
  kept : src.deleteOnCommit = false → deletedRows w.sys.here.log = []
  queued : set.queued w.store ≠ [] → w.sys.here.sink.isSome
  phase : PhaseOk src set w ph

section simulation

variable {src : SqliteSource} {set : PipelineSettings} {env : ℕ → Choice Act QueuedRecord}
  {columns : Bool × Bool} {good : List Row → ℤ → List Row → Prop} {d₀ : State Row ℤ}

/-- The rules of the protocol the pipeline follows in this environment. -/
abbrev pipelineRules (src : SqliteSource) (set : PipelineSettings)
    (env : ℕ → Choice Act QueuedRecord) (columns : Bool × Bool)
    (good : List Row → ℤ → List Row → Prop) : Rules Row ℤ :=
  src.protocol columns set.limit good (∃ n, (env n).stop = true)

/-- **The invariant**: as long as the run meets its condition, the world is one the protocol can
reach from `d₀`. -/
structure Follows (src : SqliteSource) (set : PipelineSettings)
    (env : ℕ → Choice Act QueuedRecord) (columns : Bool × Bool)
    (good : List Row → ℤ → List Row → Prop) (d₀ : State Row ℤ) (ph : QueuePhase)
    (w : QueueWorld) : Prop where
  base : Base src set env columns ph w
  reaches : Meets good w →
    ∃ d, Run (pipelineRules src set env columns good) d₀ d ∧ Matches src set d ph w

/-! ### Frames -/

/-- The source at work, or the environment's move before a step. -/
theorem PhaseOk.works {L : Statement → Prop} {ph : QueuePhase} {w : QueueWorld} {s' : SqliteSys}
    (h : PhaseOk src set w ph) (hw : Works L w.sys s') :
    PhaseOk src set { w with sys := s' } ph := by
  cases ph with
  | start | retrying | deferred | done | draining _ => trivial
  | opened _ _ => exact h
  | replayAdvanced _ | serialized _ _ _ => exact hw.grows.isSome h
  | reading rest _ => exact h.imp_right fun ⟨hs, hrest⟩ ↦ ⟨hw.grows.isSome hs, hrest⟩
  | popped _ | replayed _ _ | fetched _ _ _ | advanced _ _ _ | shipped _ _ _ =>
    exact ⟨hw.grows.isSome h.1, h.2⟩

theorem Base.works {L : Statement → Prop} {ph : QueuePhase} {w : QueueWorld} {s' : SqliteSys}
    (h : Base src set env columns ph w) (hw : Works L w.sys s')
    (hL : ∀ st, L st → ∀ cur c, st.kind = .select cur c →
      src.Selected w.sys.here.sink.columns cur set.limit st) :
    Base src set env columns ph { w with sys := s' } where
  env := hw.env.trans h.env
  memOk := hw.memOk
  columns := hw.grows.columns.trans h.columns
  read_mem := fun st hst r hr ↦ by
    obtain ⟨l, hl, hnew⟩ := hw.logged
    change st ∈ s'.here.log at hst
    change r ∈ s'.here.sink.rows ∨ r ∈ deletedRows s'.here.log
    rw [hl] at hst ⊢
    rw [deletedRows_append, List.mem_append]
    rcases List.mem_append.mp hst with hst | hst
    · rcases h.read_mem st hst r hr with hr | hr
      · exact .inl (hw.grows.mem_rows hr)
      · exact .inr (.inl hr)
    · exact .inl ((hnew st hst).2.1 r hr)
  selected := fun st hst ↦ by
    obtain ⟨l, hl, hnew⟩ := hw.logged
    change st ∈ s'.here.log at hst
    change ∀ cur c, st.kind = .select cur c → src.Selected s'.here.sink.columns cur set.limit st
    rw [hw.grows.columns]
    rw [hl] at hst
    rcases List.mem_append.mp hst with hst | hst
    · exact h.selected st hst
    · exact hL st (hnew st hst).2.2
  answered := h.answered
  kept := fun hk ↦ by
    obtain ⟨l, hl, hnew⟩ := hw.logged
    change deletedRows s'.here.log = []
    rw [hl, deletedRows_append, h.kept hk, deletedRows_of_select fun st hst ↦ (hnew st hst).1]
    rfl
  queued := fun hq ↦ hw.grows.isSome (h.queued hq)
  phase := h.phase.works hw

/-- The protocol's table grows as the sink does. -/
theorem Matches.works {L : Statement → Prop} {ph : QueuePhase} {w : QueueWorld} {s' : SqliteSys}
    {d : State Row ℤ} {R : Rules Row ℤ} (hkey : R.key = Row.id) (h : Matches src set d ph w)
    (hw : Works L w.sys s') (hL : ∀ st, L st → ∀ cur c, st.kind = .select cur c → cur ≤ d.cursor) :
    ∃ new, Outbox.Step R d
        { d with table := d.table ++ new, ever := d.ever ++ new, top := s'.here.sink.seq } ∧
      Matches src set
        { d with table := d.table ++ new, ever := d.ever ++ new, top := s'.here.sink.seq } ph
        { w with sys := s' } := by
  obtain ⟨new, hrows, hnew⟩ := hw.grows.rows
  obtain ⟨l, hl, hlog⟩ := hw.logged
  refine ⟨new, .grow new s'.here.sink.seq (fun r hr ↦ ?_) ?_ ?_, ?_⟩
  · rw [hkey, ← h.top]
    refine ⟨hnew r hr, (Sink.bounded (s := s'.here.sink) ?_).2⟩
    rw [hrows]
    exact List.mem_append_right _ hr
  · rw [hkey]
    refine s'.here.sink.increasing.sublist ?_
    rw [hrows]
    exact List.sublist_append_right _ _
  · rw [← h.top]
    exact hw.grows.seq_le
  · exact
      { h with
        table := hrows.trans (by rw [h.table])
        top := rfl
        removed := by
          change deletedRows s'.here.log = d.removed
          rw [hl, deletedRows_append, deletedRows_of_select fun st hst ↦ (hlog st hst).1,
            List.append_nil, h.removed]
        read_le := fun st hst cur c hk ↦ by
          change st ∈ s'.here.log at hst
          rw [hl] at hst
          rcases List.mem_append.mp hst with hst | hst
          · exact h.read_le st hst cur c hk
          · exact hL st (hlog st hst).2.2 cur c hk }

theorem Meets.works {L : Statement → Prop} {w : QueueWorld} {s' : SqliteSys}
    (h : Meets good { w with sys := s' }) (hw : Works L w.sys s') : Meets good w := by
  obtain ⟨l, hl, -⟩ := hw.logged
  exact h.anti ⟨l, hl.symm⟩ List.prefix_rfl

theorem Follows.works {L : Statement → Prop} {ph : QueuePhase} {w : QueueWorld} {s' : SqliteSys}
    (h : Follows src set env columns good d₀ ph w) (hw : Works L w.sys s')
    (hsel : ∀ st, L st → ∀ cur c, st.kind = .select cur c →
      src.Selected w.sys.here.sink.columns cur set.limit st)
    (hL : ∀ d, Matches src set d ph w → ∀ st, L st → ∀ cur c, st.kind = .select cur c →
      cur ≤ d.cursor) :
    Follows src set env columns good d₀ ph { w with sys := s' } where
  base := h.base.works hw hsel
  reaches := fun hm ↦ by
    obtain ⟨d, hd, hmatch⟩ := h.reaches (hm.works hw)
    obtain ⟨new, hstep, hmatch'⟩ :=
      hmatch.works (R := pipelineRules src set env columns good) rfl hw (hL d hmatch)
    exact ⟨_, hd.tail hstep, hmatch'⟩

theorem Follows.moves {ph : QueuePhase} {w : QueueWorld} {s' : SqliteSys}
    (h : Follows src set env columns good d₀ ph w) (hw : Moves w.sys s') :
    Follows src set env columns good d₀ ph { w with sys := s' } :=
  h.works hw (fun _ hf ↦ hf.elim) fun _ _ _ hf ↦ hf.elim

/-- An entry of the trace that delivers nothing. -/
theorem Follows.noted {ph : QueuePhase} {w : QueueWorld} {e : Event QueuedRecord (List QueuedRecord)}
    (h : Follows src set env columns good d₀ ph w) (he : e.delivered = [])
    (hne : ∀ b o, e ≠ .shipped b o) :
    Follows src set env columns good d₀ ph (w.noted e) where
  base :=
    { h.base with
      answered := fun b o hmem ↦ by
        rcases List.mem_append.mp hmem with hmem | hmem
        · exact h.base.answered b o hmem
        · exact absurd (List.mem_singleton.mp hmem).symm (hne b o)
      phase := by
        have hp := h.base.phase
        cases ph with
        | shipped b o rest => exact ⟨hp.1, hp.2.1, List.mem_append_left _ hp.2.2⟩
        | _ => exact hp }
  reaches := fun hm ↦ by
    obtain ⟨d, hd, hmatch⟩ := h.reaches (hm.anti List.prefix_rfl (List.prefix_append _ _))
    refine ⟨d, hd, { hmatch with delivered := ?_ }⟩
    rw [World.noted, deliveredRows_append, deliveredRows_singleton, he, List.append_nil]
    exact hmatch.delivered

/-- A method of the store that touches neither the send records nor the retry queue. -/
theorem Follows.stored {ph : QueuePhase} {w : QueueWorld} {s : Store (List QueuedRecord)}
    (h : Follows src set env columns good d₀ ph w) (hw : s.watermarks = w.store.watermarks)
    (hd : s.deliverables = w.store.deliverables) :
    Follows src set env columns good d₀ ph (w.stored s) := by
  have hq : set.queued s = set.queued w.store := by
    rw [PipelineSettings.queued, hd, PipelineSettings.queued]
  have hget : s.getCursor (src.pipeline set).key = w.store.getCursor (src.pipeline set).key := by
    rw [Store.getCursor, Store.getCursor, hw]
  have hc : storedCursor (src.pipeline set) s = storedCursor (src.pipeline set) w.store := by
    rw [storedCursor, storedCursor, hget]
  refine ⟨{ h.base with queued := fun hne ↦ h.base.queued (hq ▸ hne), phase := ?_ }, fun hm ↦ ?_⟩
  · have hp := h.base.phase
    cases ph with
    | opened c any => exact hget.trans hp
    | reading rest any =>
      refine hp.imp_right fun hopened ↦ ?_
      obtain ⟨hs, cur, hrest, hcur⟩ := hopened
      exact ⟨hs, cur, hrest, hc.trans hcur⟩
    | _ => exact hp
  · obtain ⟨d, hd, hmatch⟩ := h.reaches ⟨hm.reads, hm.accepted⟩
    exact ⟨d, hd,
      { hmatch with
        cursor := by
          rw [World.stored, hc]
          exact hmatch.cursor
        queue := by
          rw [World.stored, hq]
          exact hmatch.queue }⟩

/-- A step that changes what is in hand, and nothing else. -/
theorem Follows.hand {ph ph' : QueuePhase} {w : QueueWorld}
    (h : Follows src set env columns good d₀ ph w) (hp : PhaseOk src set w ph → PhaseOk src set w ph')
    (hstep : ∀ d, Matches src set d ph w → ∃ x,
      (x = d.hand ∨ Outbox.Step (pipelineRules src set env columns good) d { d with hand := x }) ∧
      InHand src set { d with hand := x } ph') :
    Follows src set env columns good d₀ ph' w where
  base := { h.base with phase := hp h.base.phase }
  reaches := fun hm ↦ by
    obtain ⟨d, hd, hmatch⟩ := h.reaches hm
    obtain ⟨x, hx, hin⟩ := hstep d hmatch
    refine ⟨{ d with hand := x }, ?_, { hmatch with hand := hin }⟩
    rcases hx with rfl | hx
    · exact hd
    · exact hd.tail hx

/-- Going from one phase to another with the same thing in hand. -/
theorem Follows.to {ph ph' : QueuePhase} {w : QueueWorld}
    (h : Follows src set env columns good d₀ ph w) (hp : PhaseOk src set w ph → PhaseOk src set w ph')
    (hin : ∀ d, Matches src set d ph w → InHand src set d ph') :
    Follows src set env columns good d₀ ph' w :=
  h.hand hp fun d hd ↦ ⟨d.hand, .inl rfl, hin d hd⟩

/-- The phases in which an ack has come in and the advance is outstanding. -/
def AckInHand : QueuePhase → Prop
  | .replayed _ o => o.kind = .acked
  | .shipped _ o _ => o.succeeded
  | _ => False

/-- Whatever is in hand is let go: the process is stopped, an exception is raised, or the batch has
become a dead letter. -/
theorem Follows.release {ph : QueuePhase} {w : QueueWorld}
    (h : Follows src set env columns good d₀ ph w) (hc : AckInHand ph → ∃ n, (env n).stop = true) :
    Follows src set env columns good d₀ .done w := by
  refine h.hand (fun _ ↦ trivial) fun d hd ↦ ⟨.idle, ?_, rfl⟩
  have hin := hd.hand
  cases ph with
  | start | retrying | deferred | done => exact .inl hin.symm
  | draining _ | opened _ _ | reading _ _ => exact .inl hin.1.symm
  | popped dl =>
    obtain ⟨b, -, hb⟩ := hin
    exact .inr (.drop b hb)
  | replayed dl o =>
    obtain ⟨b, -, hb⟩ := hin
    split at hb
    · exact .inr (.crash b (hc ‹_›) hb)
    · exact .inr (.drop b hb)
  | replayAdvanced dl =>
    obtain ⟨b, -, hb⟩ := hin
    exact .inr (.leave b hb)
  | fetched b' rest any =>
    obtain ⟨b, -, hb, -⟩ := hin
    exact .inr (.drop b hb)
  | shipped b' o rest =>
    obtain ⟨b, -, hb, -⟩ := hin
    split at hb
    · exact .inr (.crash b (hc ‹_›) hb)
    · exact .inr (.drop b hb)
  | advanced b' o rest =>
    obtain ⟨b, -, hb, -⟩ := hin
    exact .inr (.leave b hb)
  | serialized b' o payload =>
    obtain ⟨b, -, -, hb, -⟩ := hin
    exact .inr (.drop b hb)

/-- The environment's move before a step. -/
theorem Follows.breathe (hw : Writes env) {ph : QueuePhase} {w : QueueWorld}
    (h : Follows src set env columns good d₀ ph w) :
    if w.sys.choice.stop then Follows src set env columns good d₀ .done w.next
    else Follows src set env columns good d₀ ph w.next := by
  have hmove : Moves w.sys w.sys.next := .next (h.base.env ▸ hw) h.base.memOk
  have hnext : Follows src set env columns good d₀ ph w.next := h.moves hmove
  split
  · rename_i hstop
    exact hnext.release fun _ ↦ ⟨w.sys.tick, by rw [← h.base.env]; exact hstop⟩
  · exact hnext

/-- An answer of the transport: an ack delivers the batch in hand. -/
theorem Follows.answered {ph ph' : QueuePhase} {w : QueueWorld}
    {e : Event QueuedRecord (List QueuedRecord)}
    (h : Follows src set env columns good d₀ ph w)
    (hans : ∀ b o, e = .shipped b o → ∃ n, (env n).outcome = .ok o)
    (hp : PhaseOk src set w ph → PhaseOk src set (w.noted e) ph')
    (hstep : e.FullyAccepted → ∀ d, InHand src set d ph → ∃ b, d.hand = .held b ∧
      (e.delivered = b.rows ∧ InHand src set
          { d with delivered := d.delivered ++ b.rows, hand := .acked b } ph' ∨
        e.delivered = [] ∧ InHand src set d ph')) :
    Follows src set env columns good d₀ ph' (w.noted e) where
  base :=
    { h.base with
      answered := fun b o hmem ↦ by
        rcases List.mem_append.mp hmem with hmem | hmem
        · exact h.base.answered b o hmem
        · exact hans b o (List.mem_singleton.mp hmem).symm
      phase := hp h.base.phase }
  reaches := fun hm ↦ by
    obtain ⟨d, hd, hmatch⟩ := h.reaches (hm.anti List.prefix_rfl (List.prefix_append _ _))
    have hacc : e.FullyAccepted := hm.accepted e (List.mem_append_right _ List.mem_cons_self)
    obtain ⟨b, hb, ⟨hdel, hin⟩ | ⟨hdel, hin⟩⟩ := hstep hacc d hmatch.hand
    · refine ⟨_, hd.tail (.ack b hb), { hmatch with delivered := ?_, hand := hin }⟩
      rw [World.noted, deliveredRows_append, deliveredRows_singleton, hdel, hmatch.delivered]
    · refine ⟨d, hd, { hmatch with delivered := ?_, hand := hin }⟩
      rw [World.noted, deliveredRows_append, deliveredRows_singleton, hdel, List.append_nil]
      exact hmatch.delivered

/-- The send record advances to the key the acked batch accounts for. -/
theorem Follows.advance {ph ph' : QueuePhase} {w : QueueWorld} {key : SendKey} {c : Bytes}
    {t : Stamp} (h : Follows src set env columns good d₀ ph w)
    (hp : PhaseOk src set w ph → ∀ s, PhaseOk src set (w.stored s) ph')
    (hstep : Meets good w → ∀ d, InHand src set d ph → ∃ b, d.hand = .acked b ∧ 0 < b.upTo ∧
      key = (src.pipeline set).key ∧ cursorFromBytes c = .ok b.upTo ∧
      InHand src set { d with cursor := max d.cursor b.upTo, hand := .advanced b } ph') :
    Follows src set env columns good d₀ ph' (w.stored
      (w.store.advanceCursor key c t (isAfterFor (src.pipeline set).source)).2) := by
  have hq : set.queued (w.store.advanceCursor key c t (isAfterFor (src.pipeline set).source)).2 =
      set.queued w.store := by
    rw [PipelineSettings.queued, Store.deliverables_advanceCursor, PipelineSettings.queued]
  refine ⟨{ h.base with
    queued := fun hne ↦ h.base.queued (hq ▸ hne)
    phase := hp h.base.phase _ }, fun hm ↦ ?_⟩
  · have hm : Meets good w := ⟨hm.reads, hm.accepted⟩
    obtain ⟨d, hd, hmatch⟩ := h.reaches hm
    obtain ⟨b, hb, hpos, rfl, hc, hin⟩ := hstep hm d hmatch.hand
    exact ⟨_, hd.tail (.advance b hb),
      { hmatch with
        read_le := fun st hst cur c hk ↦
          (hmatch.read_le st hst cur c hk).trans (le_max_left _ _)
        cursor := storedCursor_advanceCursor t hmatch.cursor hc hpos
        queue := by
          rw [World.stored, hq]
          exact hmatch.queue
        hand := hin }⟩

/-! ### The retry queue -/

theorem forall₂_filter {β γ : Type} {r : β → γ → Prop} (p : β → Bool) {l : List β} {l' : List γ}
    (h : List.Forall₂ r l l') : ∃ q, q.Sublist l' ∧ List.Forall₂ r (l.filter p) q := by
  induction h with
  | nil => exact ⟨[], List.Sublist.refl _, .nil⟩
  | @cons a b l l' hab _ ih =>
    obtain ⟨q, hq, hr⟩ := ih
    rw [List.filter_cons]
    split
    · exact ⟨b :: q, hq.cons_cons b, .cons hab hr⟩
    · exact ⟨q, hq.cons b, hr⟩

theorem exists_of_forall₂_mem {β γ : Type} {r : β → γ → Prop} {l : List β} {l' : List γ}
    (h : List.Forall₂ r l l') {a : β} (ha : a ∈ l) : ∃ b ∈ l', r a b := by
  induction h with
  | nil => cases ha
  | @cons x y l l' hxy _ ih =>
    rcases List.mem_cons.mp ha with rfl | ha
    · exact ⟨y, List.mem_cons_self, hxy⟩
    · obtain ⟨b, hb, hr⟩ := ih ha
      exact ⟨b, List.mem_cons_of_mem y hb, hr⟩

/-- A deliverable is taken off the queue. -/
theorem Follows.pop {w : QueueWorld} {now : Stamp} {dl : Deliverable (List QueuedRecord)}
    {s' : Store (List QueuedRecord)} (h : Follows src set env columns good d₀ .retrying w)
    (hpop : w.store.popDueDeliverable set.name now = (some dl, s')) :
    Follows src set env columns good d₀ (.popped dl) (w.stored s') := by
  obtain ⟨hmem, hname, -, hrest⟩ := Store.popDueDeliverable_some hpop
  have hdl : dl ∈ set.queued w.store := List.mem_filter.mpr ⟨hmem, decide_eq_true hname⟩
  have hq : set.queued s' = (set.queued w.store).filter fun d ↦ decide (d.id ≠ dl.id) := by
    rw [PipelineSettings.queued, hrest, PipelineSettings.queued, List.filter_filter,
      List.filter_filter]
    exact List.filter_congr fun d _ ↦ Bool.and_comm _ _
  have hsome : w.sys.here.sink.isSome := h.base.queued (List.ne_nil_of_mem hdl)
  refine ⟨{ h.base with queued := fun _ ↦ hsome, phase := ⟨hsome, hname⟩ }, fun hm ↦ ?_⟩
  obtain ⟨d, hd, hmatch⟩ := h.reaches ⟨hm.reads, hm.accepted⟩
  obtain ⟨q, hsub, hforall⟩ := forall₂_filter (fun x ↦ decide (x.id ≠ dl.id)) hmatch.queue
  obtain ⟨b, hb, hcarries⟩ := exists_of_forall₂_mem hmatch.queue hdl
  have hlt : q.length < d.queue.length := by
    rw [← hforall.length_eq, ← hmatch.queue.length_eq, ← List.countP_eq_length_filter]
    refine lt_of_le_of_ne List.countP_le_length fun heq ↦ ?_
    simpa using List.countP_eq_length.mp heq dl hdl
  have hcursor : storedCursor (src.pipeline set) s' = .ok d.cursor := by
    have hw : s'.watermarks = w.store.watermarks := by
      have := Store.watermarks_popDueDeliverable w.store set.name now
      rwa [hpop] at this
    rw [← hmatch.cursor, storedCursor, storedCursor, Store.getCursor, Store.getCursor, hw]
  exact ⟨_, hd.tail (.take b q hmatch.hand hb hsub hlt),
    { hmatch with
      cursor := hcursor
      queue := by
        rw [World.stored, hq]
        exact hforall
      hand := ⟨b, hcarries, rfl⟩ }⟩

/-- A deliverable joins the queue. -/
theorem Follows.join {ph ph' : QueuePhase} {w : QueueWorld} {dl : Deliverable (List QueuedRecord)}
    {s' : Store (List QueuedRecord)} (h : Follows src set env columns good d₀ ph w)
    (hp : PhaseOk src set w ph → w.sys.here.sink.isSome)
    (hidle : ph' = .deferred ∨ ph' = .done) (hname : dl.pipeline = set.name)
    (hwater : s'.watermarks = w.store.watermarks)
    (hqueue : ∀ d, Matches src set d ph w → s'.deliverables = w.store.deliverables ++ [dl] ∧
      ∃ b, Carries src set dl b ∧ d.hand = .held b) :
    Follows src set env columns good d₀ ph' (w.stored s') := by
  have hsome : w.sys.here.sink.isSome := hp h.base.phase
  refine ⟨{ h.base with queued := fun _ ↦ hsome, phase := ?_ }, fun hm ↦ ?_⟩
  · rcases hidle with rfl | rfl <;> trivial
  · obtain ⟨d, hd, hmatch⟩ := h.reaches ⟨hm.reads, hm.accepted⟩
    obtain ⟨hs', b, hcarries, hb⟩ := hqueue d hmatch
    have hq : set.queued s' = set.queued w.store ++ [dl] := by
      rw [PipelineSettings.queued, hs', List.filter_append, List.filter_cons,
        if_pos (decide_eq_true hname), List.filter_nil, PipelineSettings.queued]
    have hcursor : storedCursor (src.pipeline set) s' = .ok d.cursor := by
      rw [← hmatch.cursor, storedCursor, storedCursor, Store.getCursor, Store.getCursor, hwater]
    refine ⟨_, hd.tail (.requeue b hb),
      { hmatch with
        cursor := hcursor
        queue := ?_
        hand := by rcases hidle with rfl | rfl <;> rfl }⟩
    rw [World.stored, hq]
    exact List.rel_append hmatch.queue (.cons hcarries .nil)

/-! ### The commit -/

theorem MemOk.delete {o : Outside SqliteMem} (h : MemOk o) (hit : Row → Bool) (log : List Statement) :
    MemOk { o with sink := o.sink.delete hit, log := log } where
  checked := fun hc ↦ (Sink.isSome_delete o.sink hit).trans (h.checked hc)
  producer := fun b hb ↦ by
    obtain ⟨hs, hb⟩ := h.producer b hb
    exact ⟨(Sink.isSome_delete o.sink hit).trans hs, hb.trans (Sink.hasProducer_delete _ _).symm⟩
  loc := fun c hc hl ↦ by
    obtain ⟨hs, hl⟩ := h.loc c hc hl
    exact ⟨(Sink.isSome_delete o.sink hit).trans hs, hl.trans (Sink.hasLocal_delete _ _).symm⟩
  conn_lt := h.conn_lt
  loc_lt := h.loc_lt

/-- A commit deletes the rows of its scope up to the id its token names, and the protocol removes
the same rows. -/
theorem Follows.deletes {ph ph' : QueuePhase} {w : QueueWorld} {s' : SqliteSys} {lastId : ℤ}
    (h : Follows src set env columns good d₀ ph w) (hon : src.deleteOnCommit = true)
    (hdel : src.Deletes lastId w.sys s') (hsome : w.sys.here.sink.isSome)
    (hp : ∀ w', PhaseOk src set w' ph → PhaseOk src set w' ph')
    (hstep : ∀ d, InHand src set d ph → ∃ b, d.hand = .advanced b ∧ b.upTo = lastId ∧
      InHand src set { d with hand := .idle } ph') :
    Follows src set env columns good d₀ ph' { w with sys := s' } := by
  obtain ⟨s₁, sight, hit, hmove, hmatching, rfl⟩ := hdel.exists_delete
  have h₁ : Follows src set env columns good d₀ ph { w with sys := s₁ } := h.moves hmove
  have hhit := matching_eq hmatching
  have hcol : columns = (s₁.here.sink.hasProducer, s₁.here.sink.hasLocal) := by
    rw [← h₁.base.columns]
    exact Sink.columns_of_isSome (hmove.grows.isSome hsome)
  set cs := src.deleteClauses s₁.here.sink.hasProducer s₁.here.sink.hasLocal lastId with hcs
  set st : Statement :=
    { kind := .delete, rows := s₁.here.sink.rows, localColumn := s₁.here.sink.hasLocal
      sight := sight, hit := hit } with hst
  have hlog : deletedRows (s₁.here.log ++ [st]) = deletedRows s₁.here.log ++ hit := by
    rw [deletedRows_append]
    congr 1
    rw [deletedRows, List.flatMap_cons, List.flatMap_nil, List.append_nil, hst, if_pos rfl]
  constructor
  · exact
      { env := h₁.base.env
        memOk := h₁.base.memOk.delete _ _
        columns := (Sink.columns_delete _ _).trans h₁.base.columns
        read_mem := fun st' hst' r hr ↦ by
          -- a row that was there is there, or was hit
          have hold : r ∈ s₁.here.sink.rows ∨ r ∈ deletedRows s₁.here.log := by
            rcases List.mem_append.mp hst' with hst' | hst'
            · exact h₁.base.read_mem st' hst' r hr
            · rw [List.mem_singleton.mp hst'] at hr
              exact .inl hr
          change r ∈ (s₁.here.sink.delete _).rows ∨ r ∈ deletedRows (s₁.here.log ++ [st])
          rw [Sink.rows_delete, hlog, hhit, List.mem_append, List.mem_filter, List.mem_filter]
          rcases hold with hold | hold
          · by_cases hpass : Passes cs r
            · exact .inr (.inr ⟨hold, decide_eq_true hpass⟩)
            · exact .inl ⟨hold, by simpa using hpass⟩
          · exact .inr (.inl hold)
        selected := fun st' hst' cur c hk ↦ by
          change src.Selected (s₁.here.sink.delete _).columns cur set.limit st'
          rw [Sink.columns_delete]
          rcases List.mem_append.mp hst' with hst' | hst'
          · exact h₁.base.selected st' hst' cur c hk
          · rw [List.mem_singleton.mp hst', hst] at hk
            cases hk
        answered := h₁.base.answered
        kept := fun hk ↦ by
          rw [hon] at hk
          cases hk
        queued := fun hq ↦ (Sink.isSome_delete _ _).trans (h₁.base.queued hq)
        phase := hp _ (by
          have hph := h₁.base.phase
          have hsome' := Sink.isSome_delete s₁.here.sink fun r ↦ decide (Passes cs r)
          cases ph with
          | start | retrying | deferred | done | draining _ => trivial
          | opened _ _ => exact hph
          | replayAdvanced _ | serialized _ _ _ => exact hsome'.trans hph
          | reading rest _ => exact hph.imp_right fun ⟨hs, hrest⟩ ↦ ⟨hsome'.trans hs, hrest⟩
          | popped _ | replayed _ _ | fetched _ _ _ | advanced _ _ _ | shipped _ _ _ =>
            exact ⟨hsome'.trans hph.1, hph.2⟩) }
  · intro hm
    obtain ⟨d, hd, hmatch⟩ := h₁.reaches (hm.anti (List.prefix_append _ _) List.prefix_rfl)
    obtain ⟨b, hb, hupTo, hin⟩ := hstep d hmatch.hand
    refine ⟨_, hd.tail (.clean b (fun r ↦ decide (Passes cs r)) hb fun r hr hpass ↦ ?_),
      { hmatch with
        table := ?_
        top := (Sink.seq_delete _ _).trans hmatch.top
        removed := ?_
        read_le := fun st' hst' cur c hk ↦ ?_
        hand := hin }⟩
    · have hpass : Passes cs r := of_decide_eq_true hpass
      rw [hcs, SqliteSource.deleteClauses, passes_cons] at hpass
      refine ⟨?_, ?_⟩
      · refine ⟨hon, ?_⟩
        rw [hcol]
        exact hpass.2
      · change r.id ≤ b.upTo
        rw [hupTo]
        simpa [Clause.column] using hpass.1
    · change (s₁.here.sink.delete _).rows = _
      rw [Sink.rows_delete, ← hmatch.table]
    · change deletedRows (s₁.here.log ++ [st]) = _
      rw [hlog, hhit, ← hmatch.removed, ← hmatch.table]
    · rcases List.mem_append.mp hst' with hst' | hst'
      · exact hmatch.read_le st' hst' cur c hk
      · rw [List.mem_singleton.mp hst', hst] at hk
        cases hk

/-! ### The read -/

/-- Reading past the stored cursor leaves only such reads in the log. -/
theorem Follows.reading {ph : QueuePhase} {w : QueueWorld} {s' : SqliteSys} {cur : ℤ}
    (h : Follows src set env columns good d₀ ph w)
    (hcur : storedCursor (src.pipeline set) w.store = .ok cur)
    (hread : src.Reading cur set.limit w.sys s') :
    Follows src set env columns good d₀ ph { w with sys := s' } := by
  refine h.works hread (fun st hst cur' c hk ↦ ?_) fun d hd st hst cur' c hk ↦ ?_
  · obtain ⟨ceiling, sink, sight, hit, hcol, hsel, rfl⟩ := hst
    cases hk
    exact ⟨_, sink, sight, hit, hcol, hsel, rfl⟩
  obtain ⟨ceiling, sink, sight, hit, -, -, rfl⟩ := hst
  cases hk
  have hc := hd.cursor
  rw [hcur] at hc
  exact (Except.ok.inj hc).le

/-- A batch with records has been read. -/
theorem Follows.fetch {any : Bool} {w : QueueWorld} {s' : SqliteSys} {cur : ℤ}
    {rest : List (SqliteM (Option (RecordBatch QueuedRecord)))} {b : RecordBatch QueuedRecord}
    (h : Follows src set env columns good d₀ (.reading rest any) w)
    (hsome : w.sys.here.sink.isSome)
    (hcur : storedCursor (src.pipeline set) w.store = .ok cur)
    (hy : src.Yields cur set.limit w.sys s' b) (hne : b.records ≠ []) :
    Follows src set env columns good d₀ (.fetched b [] any) { w with sys := s' } := by
  obtain ⟨s₁, s₂, ceiling, sight, hit, now, lastId, hread, hrest, hsel, hhit, hbuild, hca, hct, hlog⟩ :=
    hy.exists_read
  have hread₂ : src.Reading cur set.limit w.sys s₂ := hread.asked.trans hread.ran
  have h₂ := h.reading hcur hread₂
  have h' : Follows src set env columns good d₀ (.reading rest any) { w with sys := s' } :=
    h.reading hcur (hread₂.trans hrest)
  refine ⟨{ h'.base with phase := ⟨(hread₂.trans hrest).grows.isSome hsome, rfl⟩ }, fun hm ↦ ?_⟩
  obtain ⟨d, hd, hmatch⟩ := h₂.reaches (hm.works (w := { w with sys := s₂ }) hrest)
  obtain ⟨hrows, hlast⟩ := SqliteSource.buildRecords_eq hbuild
  have hobj : rowsOf b.records = objectRows hit := hrows
  have hone : objectRows hit ≠ [] := by
    rw [← hobj]
    exact fun hnil ↦ hne (List.map_eq_nil_iff.mp hnil)
  obtain ⟨x, hx⟩ : ∃ x, hit.getLast? = some x :=
    Option.isSome_iff_exists.mp (by rw [List.getLast?_isSome]; exact hhit)
  rw [hx, Option.map_some, Option.getD_some] at hlast
  subst hlast
  have hc := hmatch.cursor
  rw [show storedCursor _ _ = _ from hcur] at hc
  obtain rfl : cur = d.cursor := Except.ok.inj hc
  have hcol : columns = (s₂.here.sink.hasProducer, s₂.here.sink.hasLocal) := by
    rw [← h₂.base.columns]
    exact Sink.columns_of_isSome (hread₂.grows.isSome hsome)
  have hinc : Table.Increasing Row.id hit :=
    s₂.here.sink.increasing.sublist (SqliteSource.sublist_of_selectRows hsel)
  have htable : s₂.here.sink.rows = d.table := hmatch.table
  let b' : Batch Row ℤ := ⟨objectRows hit, x.id⟩
  have hreads : (pipelineRules src set env columns good).Reads d.table d.cursor b' := by
    refine ⟨htable ▸ s₂.here.sink.increasing, ceiling, hit, x, ?_, hx, rfl, rfl, hone, ?_⟩
    · rw [hcol, ← htable]
      exact hsel
    · rw [← htable]
      exact hm.reads _ hlog hone
  have hbatch : IsBatch b b' :=
    { rows := hobj
      cursorAfter := hca
      commitToken := hct
      pos := (Sink.bounded ((SqliteSource.sublist_of_selectRows hsel).subset
        (List.mem_of_getLast? hx))).1
      le := fun r hr ↦ hinc.le_getLast hx (mem_objectRows.mp hr).1 }
  obtain ⟨hidle, hqueue⟩ := hmatch.hand
  have hfetched : Matches src set { d with hand := .held b' } (.fetched b [] any)
      { w with sys := s₂ } := { hmatch with hand := ⟨b', hbatch, rfl, hqueue⟩ }
  obtain ⟨new, hgrow, hmatch'⟩ := hfetched.works
    (R := pipelineRules src set env columns good) rfl hrest (fun st hst cur' c hk ↦ by
      obtain ⟨ceiling, sink, sight, hit, -, -, rfl⟩ := hst
      cases hk
      exact le_rfl)
  exact ⟨_, (hd.tail (.read b' hidle hqueue hreads)).tail hgrow, hmatch'⟩

/-! ### The calls of the transport -/

/-- A call of the transport, from a phase with a batch in hand that is not acked. -/
theorem Follows.call (hw : Writes env) {ph : QueuePhase} {ph' : Outcome QueuedRecord → QueuePhase}
    {call : Event QueuedRecord (List QueuedRecord)}
    {answer : Outcome QueuedRecord → Event QueuedRecord (List QueuedRecord)}
    (hack : ¬ AckInHand ph) (hcall : call.delivered = []) (hne : ∀ b o, call ≠ .shipped b o)
    (hanswer : ∀ o w, (∃ n, (env n).outcome = .ok o) → Follows src set env columns good d₀ ph w →
      Follows src set env columns good d₀ (ph' o) (w.noted (answer o))) :
    Triple (Follows src set env columns good d₀ ph)
      (do
        note call
        let outcome ← onSys callOpen
        note (answer outcome)
        pure outcome)
      (fun o ↦ Follows src set env columns good d₀ (ph' o))
      (fun _ ↦ Follows src set env columns good d₀ .done)
      (Follows src set env columns good d₀ .done) := by
  intro w h
  have hb := (h.noted hcall hne).breathe hw
  change if w.sys.choice.stop = true then _ else _ at hb
  refine wp_callNoted (fun hstop ↦ ?_) (fun e hstop _ ↦ ?_) fun o hstop hout ↦ ?_
  · rwa [if_pos hstop] at hb
  · rw [hstop, if_neg Bool.false_ne_true] at hb
    exact hb.release fun ha ↦ absurd ha hack
  · rw [hstop, if_neg Bool.false_ne_true] at hb
    exact hanswer o _ ⟨w.sys.tick, h.base.env ▸ hout⟩ hb

theorem cursorFromBytes_of_fullyAccepted {b' : RecordBatch QueuedRecord} {b : Batch Row ℤ}
    {o : Outcome QueuedRecord} (hb : IsBatch b' b)
    (ho : (cursorFromBytes (o.acceptedOr b'.cursorAfter)).toOption =
      (cursorFromBytes b'.cursorAfter).toOption) :
    cursorFromBytes (o.acceptedOr b'.cursorAfter) = .ok b.upTo := by
  rw [hb.cursorAfter, cursorFromBytes_ofInt] at ho
  rw [hb.cursorAfter]
  cases h : cursorFromBytes (o.acceptedOr (Bytes.ofInt b.upTo)) with
  | error e => rw [h] at ho; cases ho
  | ok n => rw [h] at ho; rw [Option.some.inj ho]

theorem rowsOf_filter_accepts {b' : RecordBatch QueuedRecord} {b : Batch Row ℤ}
    {o : Outcome QueuedRecord} (hb : IsBatch b' b)
    (ho : (cursorFromBytes (o.acceptedOr b'.cursorAfter)).toOption =
      (cursorFromBytes b'.cursorAfter).toOption) :
    (rowsOf b'.records).filter (o.accepts b') = b.rows := by
  rw [hb.rows, List.filter_eq_self]
  intro r hr
  rw [Outcome.accepts, cursorFromBytes_of_fullyAccepted hb ho]
  exact decide_eq_true (hb.le r hr)

/-- The transport has answered a `ship`. -/
theorem Follows.shipped {b : RecordBatch QueuedRecord}
    {rest : List (SqliteM (Option (RecordBatch QueuedRecord)))} {any : Bool}
    (o : Outcome QueuedRecord) (w : QueueWorld) (ho : ∃ n, (env n).outcome = .ok o)
    (h : Follows src set env columns good d₀ (.fetched b rest any) w) :
    Follows src set env columns good d₀ (.shipped b o rest) (w.noted (.shipped b o)) := by
  refine h.answered (fun b' o' he ↦ by cases he; exact ho)
    (fun hp ↦ ⟨hp.1, hp.2, List.mem_append_right _ List.mem_cons_self⟩)
    fun hacc d ⟨b', hb', hheld, hq⟩ ↦ ⟨b', hheld, ?_⟩
  by_cases hs : o.succeeded = true
  · refine .inl ⟨?_, b', hb', by rw [if_pos hs], hq⟩
    rcases Outcome.succeeded_iff.mp hs with hk | hk
    · simp only [Event.delivered, hk]
      exact hb'.rows
    · simp only [Event.delivered, hk]
      exact rowsOf_filter_accepts hb' (hacc hk)
  · refine .inr ⟨?_, b', hb', by rw [if_neg hs]; exact hheld, hq⟩
    rw [Outcome.succeeded_iff, not_or] at hs
    cases hk : o.kind with
    | acked => exact absurd hk hs.1
    | partialAck => exact absurd hk hs.2
    | _ => simp only [Event.delivered, hk]

/-- The transport has answered a `replay`. -/
theorem Follows.replayed {dl : Deliverable (List QueuedRecord)} (o : Outcome QueuedRecord)
    (w : QueueWorld) (_ : ∃ n, (env n).outcome = .ok o)
    (h : Follows src set env columns good d₀ (.popped dl) w) :
    Follows src set env columns good d₀ (.replayed dl o) (w.noted (.replayed dl o)) := by
  refine h.answered nofun (fun hp ↦ hp) fun _ d ⟨b, hb, hheld⟩ ↦ ⟨b, hheld, ?_⟩
  by_cases hk : o.kind = .acked
  · refine .inl ⟨?_, b, hb, by rw [if_pos hk]⟩
    rw [Event.delivered, if_pos hk]
    exact hb.rows
  · refine .inr ⟨?_, b, hb, by rw [if_neg hk]; exact hheld⟩
    rw [Event.delivered, if_neg hk]

/-- A commit, from a phase in which the send record has been advanced. -/
theorem Follows.commit (hw : Writes env) {ph ph' : QueuePhase} {token : Bytes}
    (hsome : ∀ w', PhaseOk src set w' ph → w'.sys.here.sink.isSome)
    (hp : ∀ w', PhaseOk src set w' ph → PhaseOk src set w' ph') (hack : ¬ AckInHand ph)
    (hstep : ∀ d, InHand src set d ph → ∃ b, d.hand = .advanced b ∧ token = Bytes.ofInt b.upTo ∧
      InHand src set { d with hand := .idle } ph') :
    Triple (Follows src set env columns good d₀ ph) (onSys (src.commit token))
      (fun _ ↦ Follows src set env columns good d₀ ph')
      (fun _ ↦ Follows src set env columns good d₀ .done)
      (Follows src set env columns good d₀ .done) := by
  intro w h
  rw [wp_onSys]
  refine wp_commit (h.base.env ▸ hw) h.base.memOk (hsome w h.base.phase)
    (fun s' hmove ↦ ?_) (fun s' hmove _ ↦ ?_) fun lastId s' hon htok hdel ↦ ?_
  · exact (h.moves hmove).release fun ha ↦ absurd ha hack
  · refine (h.moves hmove).hand (hp _) fun d hd ↦ ⟨.idle, ?_, ?_⟩
    · obtain ⟨b, hb, -⟩ := hstep d hd.hand
      exact .inr (.leave b hb)
    · obtain ⟨b, hb, -, hin⟩ := hstep d hd.hand
      exact hin
  · refine h.deletes hon hdel (hsome w h.base.phase) hp fun d hd ↦ ?_
    obtain ⟨b, hb, rfl, hin⟩ := hstep d hd
    rw [Bytes.toInt_ofInt] at htok
    exact ⟨b, hb, Option.some.inj htok, hin⟩

/-- A retry that was not acked becomes a dead letter. -/
theorem Follows.deadLetter {dl : Deliverable (List QueuedRecord)} {o : Outcome QueuedRecord}
    {w : QueueWorld} (h : Follows src set env columns good d₀ (.replayed dl o) w)
    (l : DeadLetter (List QueuedRecord)) (hk : o.kind ≠ .acked) :
    Follows src set env columns good d₀ .done (w.stored (w.store.sendToDeadLetter l)) := by
  have hdone : Follows src set env columns good d₀ .done w := h.release fun ha ↦ absurd ha hk
  exact hdone.stored rfl rfl

/-! ### Every step of a pump -/

/-- **Each step of a pump is a step of the protocol, or none.** -/
theorem simulation_rules (u : Uploader) (hw : Writes env) (hstart : src.startAt = false) :
    PumpRules u (src.pipeline set) (Follows src set env columns good d₀)
      (Follows src set env columns good d₀ .done)
      (Follows src set env columns good d₀ .done) where
  breathe _ _ h := h.breathe hw
  gate _ _ _ h := h.noted rfl fun _ _ heq ↦ by cases heq
  attempt _ _ _ _ h := h.stored (Store.watermarks_recordAttempt ..)
    (Store.deliverables_recordAttempt ..)
  heldStart _ _ h := h.to (fun _ ↦ trivial) fun _ hd ↦ hd.hand
  heldDraining _ _ _ h := h.to (fun _ ↦ trivial) fun _ hd ↦ hd.hand.1
  heldFetched _ _ _ _ _ h := h.release fun ha ↦ ha.elim
  enter _ h := h.to (fun _ ↦ trivial) fun _ hd ↦ hd.hand
  pop w _ _ _ _ h hg hpop :=
    (hg.keeps h fun h ↦ h.noted rfl fun _ _ heq ↦ by cases heq).pop hpop
  replay _ := Follows.call hw id rfl (fun _ _ heq ↦ by cases heq) Follows.replayed
  replayAdvance w dl o ts h hk hne := by
    refine h.advance (fun hp _ ↦ hp.1) fun _ d hd ↦ ?_
    obtain ⟨b, hb, hhand⟩ := hd
    rw [if_pos hk] at hhand
    exact ⟨b, hhand, hb.pos, hb.key, by rw [hb.cursorAfter, cursorFromBytes_ofInt], b, hb, rfl⟩
  replayNoCursor w dl o h _ hnil := by
    refine ⟨{ h.base with phase := h.base.phase.1 }, fun hm ↦ ?_⟩
    obtain ⟨d, -, hmatch⟩ := h.reaches hm
    obtain ⟨b, hb, -⟩ := hmatch.hand
    exact absurd (hb.cursorAfter.symm.trans hnil) (Bytes.ofInt_ne_nil _)
  replayCommit dl := Follows.commit hw (fun _ hp ↦ hp) (fun _ _ ↦ trivial) id fun d hd ↦ by
    obtain ⟨b, hb, hhand⟩ := hd
    exact ⟨b, hhand, hb.commitToken, rfl⟩
  requeue w dl o t s' h hk hmax hs' := by
    have hname : ({ dl with attempts := dl.attempts + 1, nextAttemptAt := t } :
        Deliverable (List QueuedRecord)).pipeline = set.name := h.base.phase.2
    refine h.join (fun hp ↦ hp.1) (.inl rfl) hname
      (Store.watermarks_requeueDeliverable _ _ hs') fun d hd ↦ ⟨?_, ?_⟩
    · rw [Store.requeueDeliverable] at hs'
      split at hs'
      · cases hs'
      · cases hs'
        rfl
    · obtain ⟨b, hb, hhand⟩ := hd.hand
      rw [hk, if_neg (by decide)] at hhand
      exact ⟨b, { hb with }, hhand⟩
  requeueRaised w dl o h hk _ _ := h.release fun ha ↦ by
    have ha : o.kind = .acked := ha
    rw [hk] at ha
    cases ha
  replayDead w dl o l h hk _ := (h.deadLetter l (by rw [hk]; decide)).to (fun _ ↦ trivial)
    fun _ hd ↦ hd.hand
  replaySpent w dl o l h hk _ _ := (h.deadLetter l (by rw [hk]; decide)).to (fun _ ↦ trivial)
    fun _ hd ↦ hd.hand
  replayOdd w dl o h hk _ _ := (h.release fun ha ↦ absurd ha hk).to (fun _ ↦ trivial)
    fun _ hd ↦ hd.hand
  queued _ h _ := h.elim (fun h ↦ h.to (fun _ ↦ trivial) fun _ hd ↦ hd.hand)
    fun h ↦ h.to (fun _ ↦ trivial) fun _ hd ↦ hd.hand
  queueEmpty w h hcount := by
    have h : Follows src set env columns good d₀ .retrying w :=
      h.elim id fun h ↦ h.to (fun _ ↦ trivial) fun _ hd ↦ hd.hand
    refine h.to (fun _ ↦ trivial) fun d hd ↦ ⟨hd.hand, ?_⟩
    have hnil : set.queued w.store = [] := List.filter_eq_nil_iff.mpr fun x hx ↦ by
      rw [decide_eq_true_eq]
      exact Store.deliverableCount_eq_zero.mp hcount x hx
    have hq := hd.queue
    rw [hnil] at hq
    exact List.forall₂_nil_left_iff.mp hq
  noBudget _ _ h _ := h.to (fun _ ↦ trivial) fun _ hd ↦ hd.hand.1
  cursor _ _ _ h hc := h.to (fun _ ↦ hc) fun _ hd ↦ hd.hand
  cursorRaised _ _ _ h _ := h.to (fun _ ↦ trivial) fun _ hd ↦ hd.hand.1
  iter c any w h := by
    rw [wp_onSys]
    refine wp_iterBatches (h.base.env ▸ hw) h.base.memOk (fun s' hmove ↦ ?_)
      (fun e s' hmove _ ↦ ?_) (fun s' hmove _ ↦ ?_) (fun cur s' hmove hsome hcur _ ↦ ?_)
      fun c s₁ s' _ _ _ _ hat ↦ ?_
    · exact (h.moves hmove).release fun ha ↦ ha.elim
    · exact (h.moves hmove).release fun ha ↦ ha.elim
    · exact (h.moves hmove).to (fun _ ↦ .inl rfl) fun _ hd ↦ hd.hand
    · refine (h.moves hmove).to (fun hp ↦ .inr ⟨hsome, cur, rfl, ?_⟩) fun _ hd ↦ hd.hand
      rw [storedCursor, show Store.getCursor _ _ = _ from hp]
      exact hcur
    · rw [hstart] at hat
      cases hat
  resume p rest any w h := by
    rw [wp_onSys]
    rcases h.base.phase with hnil | ⟨hsome, cur, hrest, hcur⟩
    · cases hnil
    · cases hrest
      have hto : ∀ s', src.Reading cur set.limit w.sys s' →
          Follows src set env columns good d₀ (.reading [] any) { w with sys := s' } :=
        fun s' hread ↦ (h.reading hcur hread).to (fun _ ↦ .inl rfl) fun _ hd ↦ hd.hand
      refine wp_iterOneBatch (h.base.env ▸ hw) h.base.memOk hsome (fun s' hread ↦ ?_)
        (fun e s' hread _ ↦ ?_) (fun s' hread _ ↦ hto s' hread) fun b s' hread hy ↦ ?_
      · exact (hto s' hread).release fun ha ↦ ha.elim
      · exact (hto s' hread).release fun ha ↦ ha.elim
      · dsimp only
        split
        · exact hto s' hread
        · rename_i hne
          exact h.fetch hsome hcur hy (by simpa using hne)
  exhausted _ _ h := h.to (fun _ ↦ trivial) fun _ hd ↦ hd.hand.1
  again _ h := h.to (fun _ ↦ trivial) fun _ hd ↦ hd.hand
  ship b rest any w h := by
    obtain ⟨w₀, h₀, hg⟩ := h
    exact Follows.call hw id (rfl : (Event.shipping b).delivered = [])
      (fun _ _ heq ↦ by cases heq) Follows.shipped w
      (hg.keeps h₀ fun h ↦ h.noted rfl fun _ _ heq ↦ by cases heq)
  acked w b o rest ts h hk := by
    refine h.advance (fun hp _ ↦ ⟨hp.1, hp.2.1⟩) fun _ d hd ↦ ?_
    obtain ⟨b', hb', hhand, hq⟩ := hd
    rw [if_pos (Outcome.succeeded_iff.mpr (.inl hk))] at hhand
    refine ⟨b', hhand, hb'.pos, rfl, ?_, b', hb', rfl, hq⟩
    rw [hb'.cursorAfter, cursorFromBytes_ofInt]
  ackedPart w b o rest ts h hk := by
    refine h.advance (fun hp _ ↦ ⟨hp.1, hp.2.1⟩) fun hm d hd ↦ ?_
    obtain ⟨b', hb', hhand, hq⟩ := hd
    rw [if_pos (Outcome.succeeded_iff.mpr (.inr hk))] at hhand
    have hacc := hm.accepted _ h.base.phase.2.2 hk
    exact ⟨b', hhand, hb'.pos, rfl, cursorFromBytes_of_fullyAccepted hb' hacc, b', hb', rfl, hq⟩
  commit _ _ _ := Follows.commit hw (fun _ hp ↦ hp.1) (fun _ hp ↦ .inl hp.2) id fun d hd ↦ by
    obtain ⟨b, hb, hhand, hq⟩ := hd
    exact ⟨b, hhand, hb.commitToken, rfl, hq⟩
  serialize b o rest hk w h := by
    have hack : ¬ o.succeeded = true := by
      rw [Outcome.succeeded_iff]
      rcases hk with hk | hk <;> rw [hk] <;> decide
    have hb := h.breathe hw
    rw [wp_onSys]
    change wp (do let _ ← callOpen; pure b.records) _ _ _ w.sys
    rw [wp_bind, wp_callOpen]
    split
    · rwa [if_pos ‹_›] at hb
    · rw [if_neg ‹_›] at hb
      split
      · rw [wp_pure]
        refine hb.to (fun hp ↦ hp.1) fun d hd ↦ ?_
        obtain ⟨b', hb', hhand, hq⟩ := hd.hand
        rw [if_neg hack] at hhand
        exact ⟨b', hb', rfl, hhand, hq⟩
      · exact hb.release fun ha ↦ absurd ha hack
  enqueueRaised _ _ _ _ h _ := h.release fun ha ↦ ha.elim
  enqueue w b o payload t t' h hk := by
    let dl : Deliverable (List QueuedRecord) :=
      { id := w.store.deliverableSeq + 1, attempts := 0, pipeline := set.name
        payloadBlob := payload, enqueuedAt := t, nextAttemptAt := t'
        sourceId := src.sourceId, destId := set.transportName, table := set.primaryTable
        cursorAfter := b.cursorAfter, commitToken := b.commitToken }
    have hname : dl.pipeline = set.name := rfl
    have hkey : dl.key (src.pipeline set) = (src.pipeline set).key := by
      change SendKey.mk (orElse src.sourceId src.sourceId)
        (orElse set.transportName set.transportName) (orElse set.primaryTable set.primaryTable) = _
      rw [orElse_self, orElse_self, orElse_self]
      rfl
    refine h.join (fun hp ↦ hp) (.inr rfl) hname (Store.watermarks_enqueueDeliverable ..)
      fun d hd ↦ ⟨?_, ?_⟩
    · obtain ⟨b', hb', -, hhand, hq⟩ := hd.hand
      have hnil : set.queued w.store = [] := by
        have := hd.queue
        rw [hq] at this
        exact List.forall₂_nil_right_iff.mp this
      have hnone : ¬ ∃ d' ∈ w.store.deliverables, d'.pipeline = set.name ∧
          d'.cursorAfter = b.cursorAfter := by
        rintro ⟨d', hd', hd'name, -⟩
        have hmem : d' ∈ set.queued w.store := List.mem_filter.mpr ⟨hd', decide_eq_true hd'name⟩
        rw [hnil] at hmem
        cases hmem
      rw [Store.enqueueDeliverable, if_neg fun hc ↦ hnone hc.2]
      rfl
    · obtain ⟨b', hb', rfl, hhand, hq⟩ := hd.hand
      exact ⟨b', { hb' with key := hkey }, hhand⟩
  dead w b o payload l h hk _ := (h.release fun ha ↦ ha.elim).stored rfl rfl
  unhandled w b o rest k h hk := h.release fun ha ↦ by
    have ha := Outcome.succeeded_iff.mp ha
    rw [hk] at ha
    rcases ha with ha | ha <;> cases ha
  enough _ _ h := h.to (fun _ ↦ trivial) fun _ hd ↦ hd.hand.1

/-! ### Every run -/

/-- A restart of the process builds the source object anew. -/
theorem Follows.restart {w : QueueWorld} (h : Follows src set env columns good d₀ .done w) :
    Follows src set env columns good d₀ .done
      { w with sys := { w.sys with here := src.restart w.sys.here } } where
  base := { h.base with memOk := memOk_freshMem src _ }
  reaches := fun hm ↦ by
    obtain ⟨d, hd, hmatch⟩ := h.reaches ⟨hm.reads, hm.accepted⟩
    exact ⟨d, hd, { hmatch with }⟩

/-- **Every run of the pipeline is a run of the protocol**, as long as it meets its condition. -/
theorem Follows.run (u : Uploader) (hw : Writes env) (hstart : src.startAt = false)
    {w : QueueWorld} (h : Follows src set env columns good d₀ .done w) (n : ℕ) :
    Follows src set env columns good d₀ .done
      (HsUploader.run u (src.pipeline set) src.restart n w) :=
  (simulation_rules u hw hstart).run (fun _ hx ↦ hx) (fun _ hs ↦ hs.restart)
    (fun _ hd ↦ hd.to (fun _ ↦ trivial) fun _ hm ↦ hm.hand) h n

/-- The protocol's state when nothing has been sent. -/
def startState (w : QueueWorld) : State Row ℤ where
  table := w.sys.here.sink.rows
  top := w.sys.here.sink.seq
  ever := w.sys.here.sink.rows
  removed := []
  cursor := 0
  queue := []
  delivered := []
  hand := .idle

theorem follows_of_fresh {w : QueueWorld} (h : Fresh src set w) :
    Follows src set w.sys.env w.sys.here.sink.columns good (startState w) .done w where
  base :=
    { env := rfl
      memOk := by
        have := memOk_freshMem src w.sys.here
        rwa [← h.mem] at this
      columns := rfl
      read_mem := fun st hst ↦ by
        rw [h.log] at hst
        cases hst
      selected := fun st hst ↦ by
        rw [h.log] at hst
        cases hst
      answered := fun b o hbo ↦ by
        rw [h.trace] at hbo
        cases hbo
      kept := fun _ ↦ by
        rw [h.log]
        rfl
      queued := fun hq ↦ absurd (List.filter_eq_nil_iff.mpr fun d hd ↦ by
        rw [decide_eq_true_eq]
        exact h.queue d hd) hq
      phase := trivial }
  reaches := fun _ ↦ by
    have hq : set.queued w.store = [] := List.filter_eq_nil_iff.mpr fun d hd ↦ by
      rw [decide_eq_true_eq]
      exact h.queue d hd
    refine ⟨startState w, .refl,
      { table := rfl
        top := rfl
        removed := by rw [h.log]; rfl
        read_le := fun st hst ↦ ?_
        cursor := h.storedCursor
        queue := by rw [hq]; exact .nil
        delivered := by rw [h.trace]; rfl
        hand := rfl }⟩
    rw [h.log] at hst
    cases hst

theorem Sink.seq_nonneg (s : Sink) : 0 ≤ s.seq := by
  cases s with
  | none => exact le_rfl
  | some q => exact q.seq_nonneg

theorem sound_startState {R : Rules Row ℤ} (hkey : R.key = Row.id) (w : QueueWorld) :
    Sound R (startState w) where
  increasing := by
    rw [hkey]
    exact w.sys.here.sink.increasing
  sublist := List.Sublist.refl _
  mem_ever := fun r ↦ ⟨.inl, fun h ↦ h.resolve_right List.not_mem_nil⟩
  removes := fun r hr ↦ nomatch hr
  le_top := fun r hr ↦ by
    rw [hkey]
    exact (Sink.bounded hr).2
  cursor_le := w.sys.here.sink.seq_nonneg
  pending_le := fun b hb ↦ nomatch hb

theorem exact_startState {R : Rules Row ℤ} {want : Row → Bool} (w : QueueWorld) :
    Exact R want [] 0 (startState w) where
  tidy :=
    { ahead := fun r hr _ ↦ hr
      single := Nat.zero_le _
      queue := fun b hb ↦ nomatch hb
      hand := trivial }
  le := le_rfl
  delivered := by
    have hnil : span R want w.sys.here.sink.rows 0 0 = [] :=
      List.filter_eq_nil_iff.mpr fun r _ ↦ by
        simp
    change [] = [] ++ span R want w.sys.here.sink.rows 0 0 ++ []
    rw [hnil]
    rfl

theorem covered_startState {R : Rules Row ℤ} {want : Row → Prop} (hkey : R.key = Row.id)
    (w : QueueWorld) : Covered R want (startState w) where
  cursor := fun r hr _ hle ↦ by
    rw [hkey] at hle
    exact absurd (Sink.bounded hr).1 (not_lt.mpr hle)
  removed := fun r hr ↦ nomatch hr
  queue := fun b hb ↦ nomatch hb
  hand := trivial

/-- **Nothing wanted is passed by.**  If no read leaves a wanted row out, every wanted row up to the
stored cursor was delivered, and so was every wanted row that a commit has deleted. -/
theorem Fresh.covered (u : Uploader) {want : Row → Prop} {w : QueueWorld} (hfresh : Fresh src set w)
    (hwrites : Writes w.sys.env) (hstart : src.startAt = false) (n : ℕ)
    (hmeets : Meets (Covers want) (HsUploader.run u (src.pipeline set) src.restart n w)) :
    let w' := HsUploader.run u (src.pipeline set) src.restart n w
    w'.sys.here.sink.columns = w.sys.here.sink.columns ∧
      ∃ c, HsUploader.storedCursor (src.pipeline set) w'.store = .ok c ∧
      (∀ r ∈ everStored w'.sys.here, want r → r.id ≤ c → r ∈ deliveredRows w'.trace) ∧
      ∀ r ∈ deletedRows w'.sys.here.log, Passes
        (src.presentClauses w.sys.here.sink.columns.1 w.sys.here.sink.columns.2) r ∧
        (want r → r ∈ deliveredRows w'.trace) := by
  intro w'
  have hrun : Follows src set w.sys.env w.sys.here.sink.columns (Covers want) (startState w)
      .done w' := (follows_of_fresh hfresh).run u hwrites hstart n
  obtain ⟨d, hd, hmatch⟩ := hrun.reaches hmeets
  have hsound : Sound _ d := (sound_startState rfl w).run hd
  have hcovered := (covered_startState rfl w).run
    (src.complete_of_covers w.sys.here.sink.columns set.limit want _) (sound_startState rfl w) hd
  refine ⟨hrun.base.columns, d.cursor, hmatch.cursor, fun r hr hw hle ↦ ?_,
    fun r hr ↦ ⟨?_, fun hw ↦ ?_⟩⟩
  · rw [hmatch.delivered]
    refine hcovered.cursor r ?_ hw hle
    rw [hsound.mem_ever, ← hmatch.table, ← hmatch.removed]
    exact List.mem_append.mp hr
  · rw [hmatch.removed] at hr
    exact (hsound.removes r hr).2
  · rw [hmatch.removed] at hr
    rw [hmatch.delivered]
    exact hcovered.removed r hr hw

end simulation

end HsUploader
