import HsUploader.Sources.LocalRowsSpec
import HsUploader.Sources.WsprGate

/-!
# The source of cycles among writers

While `WsprCycleSource` reads, other processes write.  It writes nothing itself, so the sink is at
every step what the others have made of it by then: `sinkAfter` is that sink, a function of the
number of steps alone.  `From` says how a program of the source runs among them, and every statement
of the source is described by the sink of its own step: which cycles were listed and under which
ceiling (`from_iterBatches`), and which rows the batch of a cycle was built from
(`from_buildBatchForCycle`).

## What is here

* `sinkAfter` — the sink as the others have made it by a step.  It does not depend on what the
  source does, so a statement about the rows at a step is one about the environment.
* `Moved` and `From` — how a program of the source runs among the writers; `From` has a rule for a
  move, for a statement and for a bind, and a method's specification is put together from these.
* `BuiltFrom` — a batch and the rows the sink had of its cycle when they were selected.
* `Gated` and `Ceiling` — a ceiling with the steps at which it was read: the clock first, then the
  listing, then the cycles one by one, with writers at work in between.
* `Lists` and `Listed` — what a listing found, and what a generator that has it before it knows.
-/

set_option autoImplicit false

namespace HsUploader

open Prog

variable {ρ α β : Type}

/-! ## The sink, step by step -/

/-- What another process's act does to the sink. -/
def Act.onSink : Act → Sink → Sink
  | .sink op, s => op.apply s
  | .reachable _, s | .ceiling _, s | .switches _, s => s

/-- The sink after this many steps, of a process that does not write to it. -/
def sinkAfter (env : ℕ → Choice Act ρ) (sink : Sink) : ℕ → Sink
  | 0 => sink
  | k + 1 => (env k).ops.foldl (fun s op ↦ op.onSink s) (sinkAfter env sink k)

/-- The other processes delete nothing. -/
def NoDeletes (env : ℕ → Choice Act ρ) : Prop :=
  ∀ k, ∀ op ∈ (env k).ops, ∀ hit, op ≠ .sink (.delete hit)

theorem rows_onSink {op : Act} (h : ∀ hit, op ≠ .sink (.delete hit)) (s : Sink) :
    s.rows ⊆ (op.onSink s).rows := by
  match op, h with
  | .sink .create, _ =>
    cases s with
    | none => exact fun _ hr ↦ nomatch hr
    | some q => exact List.Subset.refl _
  | .sink .ensureColumns, _ => cases s <;> exact List.Subset.refl _
  | .sink (.insert gap row), _ =>
    cases s with
    | none => exact List.Subset.refl _
    | some q => exact List.subset_append_left _ _
  | .sink (.delete hit), h => exact absurd rfl (h hit)
  | .reachable _, _ | .ceiling _, _ | .switches _, _ => exact List.Subset.refl _

/-- A row that is in the sink stays there. -/
theorem NoDeletes.rows_subset {env : ℕ → Choice Act ρ} (h : NoDeletes env) (sink : Sink) {k k' : ℕ}
    (hk : k ≤ k') : (sinkAfter env sink k).rows ⊆ (sinkAfter env sink k').rows := by
  have hfold : ∀ (ops : List Act) (s : Sink), (∀ op ∈ ops, ∀ hit, op ≠ .sink (.delete hit)) →
      s.rows ⊆ (ops.foldl (fun s op ↦ op.onSink s) s).rows := by
    intro ops
    induction ops with
    | nil => exact fun s _ ↦ List.Subset.refl _
    | cons op ops ih =>
      intro s hops
      exact List.Subset.trans (rows_onSink (hops op List.mem_cons_self) s)
        (ih _ fun op' hop' ↦ hops op' (List.mem_cons_of_mem op hop'))
  induction hk with
  | refl => exact List.Subset.refl _
  | step _ ih => exact List.Subset.trans ih (hfold _ _ (h _))

/-- An environment that leaves the sink alone. -/
theorem sinkAfter_still {env : ℕ → Choice Act ρ} (h : ∀ k, (env k).ops = []) (sink : Sink) (k : ℕ) :
    sinkAfter env sink k = sink := by
  induction k with
  | zero => rfl
  | succ k ih =>
    rw [sinkAfter, h, ih]
    rfl

/-- An environment that writes in one step only. -/
theorem sinkAfter_once {env : ℕ → Choice Act ρ} {step : ℕ} (h : ∀ k, k ≠ step → (env k).ops = [])
    (sink : Sink) (k : ℕ) :
    sinkAfter env sink k =
      if k ≤ step then sink else (env step).ops.foldl (fun s op ↦ op.onSink s) sink := by
  induction k with
  | zero => rw [if_pos step.zero_le]; rfl
  | succ k ih =>
    rw [sinkAfter, ih]
    rcases lt_trichotomy k step with hk | rfl | hk
    · rw [if_pos hk.le, if_pos (show k + 1 ≤ step from hk), h k hk.ne]
      rfl
    · rw [if_pos le_rfl, if_neg (by omega)]
    · rw [if_neg (by omega), if_neg (by omega), h k hk.ne']
      rfl

/-! ## Programs among writers -/

/-- The source has got from one state to another among these writers: the sink is theirs, and an
anchor that was fixed stays as it was. -/
structure Moved (env : ℕ → Choice Act ρ) (sink : Sink) (s s' : Sys (Outside WsprMem) Act ρ) : Prop where
  env_eq : s'.env = env
  sink_eq : s'.here.sink = sinkAfter env sink s'.tick
  tick_le : s.tick ≤ s'.tick
  anchor : ∀ a, s.here.mem.startAtAnchor = some a → s'.here.mem.startAtAnchor = some a

/-- Run from `s` among these writers, the program ends among them, and its answer is as `Q` says.  It
is stopped only where the environment stops. -/
def From (env : ℕ → Choice Act ρ) (sink : Sink) (s : Sys (Outside WsprMem) Act ρ)
    (p : SqlM WsprMem ρ α) (Q : α → Sys (Outside WsprMem) Act ρ → Prop) : Prop :=
  wp p (fun a s' ↦ Moved env sink s s' ∧ Q a s') (fun _ ↦ Moved env sink s)
    (fun s' ↦ Moved env sink s s' ∧ ∃ k, (env k).stop = true) s

section rules

variable {env : ℕ → Choice Act ρ} {sink : Sink} {s s' s'' : Sys (Outside WsprMem) Act ρ}
  {Q : α → Sys (Outside WsprMem) Act ρ → Prop}

theorem Moved.trans (h : Moved env sink s s') (h' : Moved env sink s' s'') : Moved env sink s s'' :=
  ⟨h'.env_eq, h'.sink_eq, h.tick_le.trans h'.tick_le, fun a ha ↦ h'.anchor a (h.anchor a ha)⟩

/-- Where it has got to it may go on from. -/
theorem Moved.here (h : Moved env sink s s') : Moved env sink s' s' :=
  ⟨h.env_eq, h.sink_eq, le_rfl, fun _ ha ↦ ha⟩

theorem sink_react (ops : List Act) (o : Outside WsprMem) :
    (ops.foldl (fun x op ↦ Surroundings.react op x) o).sink =
        ops.foldl (fun s op ↦ op.onSink s) o.sink ∧
      (ops.foldl (fun x op ↦ Surroundings.react op x) o).mem = o.mem := by
  induction ops generalizing o with
  | nil => exact ⟨rfl, rfl⟩
  | cons op ops ih =>
    rw [List.foldl_cons, List.foldl_cons]
    obtain ⟨hsink, hmem⟩ := ih (Surroundings.react op o)
    rw [hsink, hmem]
    cases op <;> exact ⟨rfl, rfl⟩

/-- The environment's move. -/
theorem Moved.next (h : Moved env sink s s) : Moved env sink s s.next := by
  obtain ⟨hsink, hmem⟩ := sink_react s.choice.ops s.here
  refine ⟨h.env_eq, ?_, Nat.le_succ _, fun a ha ↦ ?_⟩
  · change (s.choice.ops.foldl (fun x op ↦ Surroundings.react op x) s.here).sink = _
    rw [hsink, h.sink_eq, Sys.choice, h.env_eq]
    rfl
  · change (s.choice.ops.foldl (fun x op ↦ Surroundings.react op x) s.here).mem.startAtAnchor = _
    rw [hmem, ha]

theorem Moved.stops (h : Moved env sink s s) (hstop : s.choice.stop = true) :
    ∃ k, (env k).stop = true := by
  rw [Sys.choice, h.env_eq] at hstop
  exact ⟨_, hstop⟩

theorem From.pure {a : α} (h : Moved env sink s s) (ha : Q a s) : From env sink s (Pure.pure a) Q :=
  ⟨h, ha⟩

theorem From.raise {e : Exn} (h : Moved env sink s s) : From env sink s (Prog.raise e) Q := h

theorem From.ofExcept {x : Except Exn α} (h : Moved env sink s s) (hx : ∀ a, x = .ok a → Q a s) :
    From env sink s (Prog.ofExcept x) Q := by
  rw [From, wp_ofExcept]
  cases hr : x with
  | error e => exact h
  | ok a => exact ⟨h, hx a hr⟩

theorem From.bind {p : SqlM WsprMem ρ α} {f : α → SqlM WsprMem ρ β}
    {R : β → Sys (Outside WsprMem) Act ρ → Prop} (hp : From env sink s p Q)
    (hf : ∀ a s', Moved env sink s s' → Q a s' → From env sink s' (f a) R) :
    From env sink s (p >>= f) R := by
  rw [From, wp_bind]
  refine wp_mono_ok hp fun a s' ⟨h, ha⟩ ↦ ?_
  refine wp_mono (hf a s' h ha) ?_ ?_ ?_
  · exact fun b s'' ⟨h', hb⟩ ↦ ⟨h.trans h', hb⟩
  · exact fun e s'' h' ↦ h.trans h'
  · exact fun s'' ⟨h', hstop⟩ ↦ ⟨h.trans h', hstop⟩

theorem From.attempt {p : SqlM WsprMem ρ α} (hp : From env sink s p fun _ _ ↦ True) :
    From env sink s (Prog.attempt p) fun _ _ ↦ True := by
  rw [From, wp_attempt]
  exact wp_mono hp (fun _ _ h ↦ h) (fun _ _ h ↦ ⟨h, trivial⟩) fun _ h ↦ h

theorem from_breathe (h : Moved env sink s s) :
    From env sink s Sys.breathe fun c s' ↦
      c = env s.tick ∧ s'.tick = s.tick + 1 ∧ s'.here.mem = s.here.mem := by
  rw [From, Sys.wp_breathe]
  split
  · exact ⟨h.next, h.stops ‹_›⟩
  · exact ⟨h.next, by rw [Sys.choice, h.env_eq], rfl, (sink_react s.choice.ops s.here).2⟩

theorem from_clock (h : Moved env sink s s) :
    From env sink s clock fun now s' ↦
      now = (env s.tick).now ∧ s'.tick = s.tick + 1 ∧ s'.here.mem = s.here.mem :=
  (from_breathe h).bind fun _ _ h' ⟨hc, hs⟩ ↦ .pure h'.here ⟨by rw [hc], hs⟩

/-- A statement that leaves the sink and the memory alone runs on the sink of its step. -/
theorem from_statement (h : Moved env sink s s) {f : Outside WsprMem → Except Exn (α × Outside WsprMem)}
    (hf : ∀ o r, f o = .ok r → r.2.sink = o.sink ∧ r.2.mem = o.mem)
    (hQ : ∀ o r s', f o = .ok r → o.sink = sinkAfter env sink s'.tick → Q r.1 s') :
    From env sink s (statement f) Q := by
  rw [From, wp_statement]
  split
  · exact ⟨h.next, h.stops ‹_›⟩
  · split
    · cases hr : f s.next.here with
      | error e => exact h.next
      | ok r =>
        obtain ⟨hsink, hmem⟩ := hf _ r hr
        refine ⟨⟨h.next.env_eq, hsink.trans h.next.sink_eq, h.next.tick_le, fun a ha ↦ ?_⟩,
          hQ _ r _ hr h.next.sink_eq⟩
        change r.2.mem.startAtAnchor = _
        rw [hmem]
        exact h.next.anchor a ha
    · exact h.next

theorem from_query (h : Moved env sink s s) (f : Sink → Except Exn α) :
    From env sink s (query f) fun a s' ↦ f (sinkAfter env sink s'.tick) = .ok a := by
  refine from_statement h (fun o r hr ↦ ?_) fun o r s' hr ho ↦ ?_
  · obtain ⟨a, -, rfl⟩ := exists_of_map_eq_ok hr
    exact ⟨rfl, rfl⟩
  · obtain ⟨a, ha, rfl⟩ := exists_of_map_eq_ok hr
    rw [← ho]
    exact ha

theorem from_mem (h : Moved env sink s s) :
    From env sink s mem fun m s' ↦ m = s.here.mem ∧ s' = s := ⟨h, rfl, rfl⟩

theorem from_setMem (h : Moved env sink s s) {f : WsprMem → WsprMem}
    (hf : ∀ a, s.here.mem.startAtAnchor = some a → (f s.here.mem).startAtAnchor = some a) :
    From env sink s (setMem f) fun _ s' ↦ s'.here.mem = f s.here.mem ∧ s'.tick = s.tick :=
  ⟨⟨h.env_eq, h.sink_eq, le_rfl, hf⟩, rfl, rfl⟩

theorem from_switches (h : Moved env sink s s) :
    From env sink s (Sys.inMemory fun o ↦ (o.switches, o)) fun _ _ ↦ True :=
  ⟨⟨h.env_eq, h.sink_eq, le_rfl, fun _ ha ↦ ha⟩, trivial⟩

theorem from_probe (h : Moved env sink s s) (f : LocalRowFilter) (conn : ℕ) :
    From env sink s (f.probe conn) fun _ _ ↦ True := by
  rw [LocalRowFilter.probe]
  split
  · exact .pure h trivial
  · exact (from_query h _).bind fun _ _ h' _ ↦ .pure h'.here trivial

end rules

/-! ## The rows of a batch -/

/-- A payload that `json.loads` reads or refuses: not one that it says is corrupt. -/
def Row.Sound (r : Row) : Prop := ∀ message, r.payloadJson.loads ≠ .corrupt message

/-- The rows of a list of records. -/
def QueuedRecord.rows (records : List QueuedRecord) : List Row := records.map QueuedRecord.row

namespace WsprCycleSource

variable (src : WsprCycleSource)

/-- Every sound row gives a record. -/
theorem mem_rows_wsprRecords {cycle : String} {rows : List Row} {qs : List QueuedRecord}
    (h : src.wsprRecords cycle rows = .ok qs) {r : Row} (hr : r ∈ rows) (hsound : r.Sound) :
    ∃ q ∈ qs, q.row = r := by
  induction rows generalizing qs with
  | nil => cases hr
  | cons r' rs ih =>
    rw [wsprRecords] at h
    split at h
    · rename_i message hcorrupt
      rcases List.mem_cons.mp hr with rfl | hr
      · exact absurd hcorrupt (hsound message)
      · exact ih h hr
    · cases h
    · obtain ⟨q, hq, h⟩ := exists_of_bind_eq_ok h
      obtain ⟨qs', hqs', h⟩ := exists_of_bind_eq_ok h
      cases h
      rcases List.mem_cons.mp hr with rfl | hr
      · exact ⟨q, List.mem_cons_self, src.row_recordOf hq⟩
      · obtain ⟨q', hq', hrow⟩ := ih hqs' hr
        exact ⟨q', List.mem_cons_of_mem q hq', hrow⟩

/-- The batch of a cycle: its cursor is the cycle, and every sound row the sink had of it is in it,
except for local ones. -/
structure BuiltFrom (sink : Sink) (cycle : String) (b : RecordBatch QueuedRecord) : Prop where
  cursor : b.cursorAfter = .ofAscii cycle.toList
  ascii : ∀ c ∈ cycle.toList, c.toNat < 128
  rows : ∀ r ∈ sink.rows, r.cycle = some cycle → r.isLocal = false → r.Sound →
    ∃ q ∈ b.records, q.row = r

variable {src} {env : ℕ → Choice Act QueuedRecord} {sink : Sink}
  {s : Sys (Outside WsprMem) Act QueuedRecord}

theorem from_connect (h : Moved env sink s s) : From env sink s connect fun _ _ ↦ True := by
  rw [connect]
  refine (from_mem h).bind fun m _ h' hm ↦ ?_
  split
  · exact .pure h'.here trivial
  · exact (from_query h'.here _).bind fun _ _ h'' _ ↦
      (from_setMem h''.here fun _ ha ↦ ha).bind fun _ _ h''' _ ↦ .pure h'''.here trivial

theorem from_probeLocal (h : Moved env sink s s) (conn : ℕ) :
    From env sink s (probeLocal conn) fun _ _ ↦ True := by
  rw [probeLocal]
  exact (from_mem h).bind fun _ _ h₁ _ ↦ (from_probe h₁.here _ _).bind fun _ _ h₂ _ ↦
    (from_setMem h₂.here fun _ ha ↦ ha).bind fun _ _ h₃ _ ↦ .pure h₃.here trivial

theorem from_hasProducer (h : Moved env sink s s) (conn : ℕ) :
    From env sink s (hasProducer conn) fun _ _ ↦ True := by
  have hprobe : ∀ {s : Sys (Outside WsprMem) Act QueuedRecord}, Moved env sink s s →
      From env sink s (hasProducer.probe conn) fun _ _ ↦ True := by
    intro s h
    rw [hasProducer.probe]
    exact (from_query h _).bind fun _ _ h₁ _ ↦
      (from_setMem h₁.here fun _ ha ↦ ha).bind fun _ _ h₂ _ ↦ .pure h₂.here trivial
  rw [hasProducer]
  refine (from_mem h).bind fun m _ h₁ _ ↦ ?_
  split
  · split
    · exact .pure h₁.here trivial
    · exact hprobe h₁.here
  · exact hprobe h₁.here

theorem from_selectCycle (h : Moved env sink s s) (cycle : String) (clauses : List Clause) :
    From env sink s (selectCycle cycle clauses) fun hit s' ↦
      matching clauses (sinkAfter env sink s'.tick).rows = .ok hit := by
  refine from_statement h (fun o r hr ↦ ?_) fun o r s' hr ho ↦ ?_
  · obtain ⟨hit, -, rfl⟩ := exists_of_map_eq_ok hr
    exact ⟨rfl, rfl⟩
  · obtain ⟨hit, hhit, rfl⟩ := exists_of_map_eq_ok hr
    rw [← ho]
    exact hhit

theorem from_judge (h : Moved env sink s s) (verdict : List (String × Bool))
    (riders : List (String × Json)) : From env sink s (judge verdict riders) fun _ _ ↦ True := by
  induction riders generalizing s verdict with
  | nil => exact .pure h trivial
  | cons p rest ih =>
    rw [judge]
    split
    · exact (ih h _).bind fun _ _ h₁ _ ↦ .pure h₁.here trivial
    · exact (from_breathe h).bind fun _ _ h₁ _ ↦ (from_switches h₁.here).bind fun sw _ h₂ _ ↦
        (From.ofExcept (Q := fun _ _ ↦ True) h₂.here fun _ _ ↦ trivial).bind fun _ _ h₃ _ ↦
          (ih h₃.here _).bind fun _ _ h₄ _ ↦ .pure h₄.here trivial

theorem from_judgeRiders (h : Moved env sink s s) (riders : List (String × Json)) :
    From env sink s (judgeRiders riders) fun _ _ ↦ True := by
  rw [judgeRiders]
  split
  · exact .pure h trivial
  · refine (From.attempt ?_).bind fun _ _ h₁ _ ↦ .pure h₁.here trivial
    refine (from_breathe h).bind fun _ _ h₁ _ ↦ (from_switches h₁.here).bind fun sw _ h₂ _ ↦ ?_
    split
    · exact from_judge h₂.here _ _
    · exact .pure h₂.here trivial

theorem from_pskRecords (h : Moved env sink s s) (conn : ℕ) (hasLocal : Bool) (cycle : String) :
    From env sink s (src.pskRecords conn hasLocal cycle) fun _ _ ↦ True := by
  rw [pskRecords]
  split
  · exact (from_hasProducer h conn).bind fun _ _ h₁ _ ↦
      (from_selectCycle h₁.here cycle _).bind fun _ _ h₂ _ ↦
        (From.ofExcept (Q := fun _ _ ↦ True) h₂.here fun _ _ ↦ trivial).bind fun _ _ h₃ _ ↦
          (from_judgeRiders h₃.here _).bind fun _ _ h₄ _ ↦ .ofExcept h₄.here fun _ _ ↦ trivial
  · exact .pure h trivial

/-- **The batch of a cycle holds what the sink had of it** when its rows were selected. -/
theorem from_buildBatchForCycle (h : Moved env sink s s) (conn : ℕ) (cycle : String) :
    From env sink s (src.buildBatchForCycle conn cycle) fun b s' ↦ ∃ k, s.tick ≤ k ∧ k ≤ s'.tick ∧
      (∀ b' ∈ b, BuiltFrom (sinkAfter env sink k) cycle b') ∧
      (b = none → ∀ r ∈ (sinkAfter env sink k).rows, r.cycle = some cycle → r.isLocal = false →
        ¬ r.Sound) := by
  rw [buildBatchForCycle]
  refine (from_probeLocal h conn).bind fun hl s₁ h₁ _ ↦
    (from_selectCycle h₁.here cycle _).bind fun rows s₂ h₂ hrows ↦ ?_
  have hsel : ∀ r ∈ (sinkAfter env sink s₂.tick).rows, r.cycle = some cycle → r.isLocal = false →
      r ∈ rows := by
    intro r hr hcycle hlocal
    rw [matching_eq hrows, List.mem_filter, decide_eq_true_eq, passes_cycleClauses]
    exact ⟨hr, hcycle, fun _ ↦ hlocal⟩
  refine From.bind (Q := fun qs s' ↦ src.wsprRecords cycle rows = .ok qs ∧ s' = s₂)
    (.ofExcept h₂.here fun qs hqs ↦ ⟨hqs, rfl⟩) fun qs s₃ h₃ hbuilt ↦ ?_
  obtain ⟨hqs, hs₃⟩ := hbuilt
  refine (from_pskRecords h₃.here conn hl cycle).bind fun psk s₄ h₄ _ ↦ ?_
  subst hs₃
  have hle : s.tick ≤ s₃.tick := h₁.tick_le.trans h₂.tick_le
  split
  · rename_i hempty
    refine .pure h₄.here ⟨s₃.tick, hle, h₄.tick_le, by simp, fun _ r hr hcycle hlocal hsound ↦ ?_⟩
    obtain ⟨q, hq, -⟩ := src.mem_rows_wsprRecords hqs (hsel r hr hcycle hlocal) hsound
    rw [List.isEmpty_iff, List.append_eq_nil_iff] at hempty
    rw [hempty.1] at hq
    cases hq
  · split
    · rename_i hascii
      refine .pure h₄.here ⟨s₃.tick, hle, h₄.tick_le, fun b hb ↦ ?_, fun hnone ↦ ?_⟩
      · obtain rfl := Option.mem_some_iff.mp hb
        refine ⟨rfl, by simpa using hascii, fun r hr hcycle hlocal hsound ↦ ?_⟩
        obtain ⟨q, hq, hrow⟩ := src.mem_rows_wsprRecords hqs (hsel r hr hcycle hlocal) hsound
        exact ⟨q, List.mem_append_left _ hq, hrow⟩
      · cases hnone
    · exact .raise h₄.here

/-! ## The cycles to ship -/

/-- The cursor the listing starts from, as `_effective_cursor` answers it. -/
def Starts (src : WsprCycleSource) (cursor : Bytes) (m : WsprMem) (t : String) : Prop :=
  if cursor ≠ [] then cursor.decodeAscii.map String.ofList = some t
  else if src.fromBeginning then t = ""
  else m.startAtAnchor = some t

theorem Starts.mono {cursor : Bytes} {m m' : WsprMem} {t : String} (h : src.Starts cursor m t)
    (hm : ∀ a, m.startAtAnchor = some a → m'.startAtAnchor = some a) : src.Starts cursor m' t := by
  rw [Starts] at h ⊢
  split_ifs at h ⊢
  · exact h
  · exact h
  · exact hm t h

theorem from_effectiveCursor (h : Moved env sink s s) (cursor : Bytes) :
    From env sink s (src.effectiveCursor cursor) fun t s' ↦ src.Starts cursor s'.here.mem t := by
  rw [effectiveCursor]
  cases cursor with
  | cons c cs =>
    simp only [List.isEmpty_cons, Bool.not_false, if_true]
    split
    · rename_i t ht
      refine .pure h ?_
      rw [Starts, if_pos (List.cons_ne_nil c cs), ht]
      rfl
    · exact .raise h
  | nil =>
    simp only [List.isEmpty_nil, Bool.not_true, Bool.false_eq_true, if_false]
    split
    · rename_i hbeginning
      refine .pure h ?_
      rw [Starts, if_neg (by simp), if_pos hbeginning]
    · rename_i hnow
      refine (from_mem h).bind fun m s₁ h₁ hread ↦ ?_
      obtain ⟨rfl, rfl⟩ := hread
      split
      · rename_i a ha
        refine .pure h₁.here ?_
        rw [Starts, if_neg (by simp), if_neg hnow, ha]
      · rename_i hnone
        refine (from_clock h₁.here).bind fun now s₂ h₂ hclock ↦
          (from_setMem h₂.here fun a ha ↦ ?_).bind fun _ s₃ h₃ hset ↦ .pure h₃.here ?_
        · rw [hclock.2.2, hnone] at ha
          cases ha
        · rw [Starts, if_neg (by simp), if_neg hnow, hset.1]

/-! ## The gate among writers -/

/-- How the gate comes to answer a ceiling past the cursor `t`: it read its clock at step `i`, listed
the queue at step `l`, and by step `n` it had found open every cycle listed up to the ceiling. -/
structure Gated (src : WsprCycleSource) (env : ℕ → Choice Act ρ) (sink : Sink) (t ceiling : String)
    (i l n : ℕ) : Prop where
  read : i < l
  listed : l ≤ n
  queued : Queued (sinkAfter env sink l).rows ceiling
  past : t < ceiling
  before : ceiling < isoZ (currentCycleFloor (fromTimestamp (env i).now))
  opened : ∀ c, Queued (sinkAfter env sink l).rows c → t < c → c ≤ ceiling → ∃ k, l ≤ k ∧ k ≤ n ∧
    src.OpenAt (sinkAfter env sink k).rows (src.forceBefore (env i).now) c

theorem from_cycleComplete (h : Moved env sink s s) (cycle : String) :
    From env sink s (src.cycleComplete cycle) fun b s' ↦ b = true →
      ∃ k, s.tick ≤ k ∧ k ≤ s'.tick ∧ src.Complete (sinkAfter env sink k).rows cycle := by
  rw [cycleComplete]
  split
  · rename_i hempty
    refine .pure h fun _ ↦ ⟨s.tick, le_rfl, le_rfl, fun e he ↦ ?_⟩
    rw [List.isEmpty_iff.mp hempty] at he
    cases he
  · refine (from_query h _).bind fun rows s₁ h₁ hrows ↦ .pure h₁.here fun hpresent ↦
      ⟨s₁.tick, h₁.tick_le, le_rfl, ?_⟩
    rw [matching_eq hrows, src.allPresent_eq] at hpresent
    exact of_decide_eq_true hpresent

/-- The walk goes through open cycles and answers the last of them. -/
theorem from_walkCycles (h : Moved env sink s s) (before : Instant) (cycles : List String)
    (ceiling : Option String) :
    From env sink s (src.walkCycles before cycles ceiling) fun o s' ↦ ∃ walked, walked <+: cycles ∧
      (∀ c ∈ walked, ∃ k, s.tick ≤ k ∧ k ≤ s'.tick ∧
        src.OpenAt (sinkAfter env sink k).rows before c) ∧
      o = walked.getLast?.or ceiling := by
  induction cycles generalizing s ceiling with
  | nil =>
    exact .pure h ⟨[], List.nil_prefix, fun _ hc ↦ absurd hc List.not_mem_nil, rfl⟩
  | cons cycle rest ih =>
    rw [walkCycles]
    refine (from_cycleComplete h cycle).bind fun complete s₁ h₁ hcomplete ↦ ?_
    -- an open cycle becomes the ceiling, and the walk goes on
    have hopen : (∃ k, s.tick ≤ k ∧ k ≤ s₁.tick ∧
        src.OpenAt (sinkAfter env sink k).rows before cycle) →
        From env sink s₁ (src.walkCycles before rest (some cycle)) fun o s' ↦ ∃ walked,
          walked <+: cycle :: rest ∧
          (∀ c ∈ walked, ∃ k, s.tick ≤ k ∧ k ≤ s'.tick ∧
            src.OpenAt (sinkAfter env sink k).rows before c) ∧
          o = walked.getLast?.or ceiling := by
      rintro ⟨k, hk, hk', ho⟩
      refine wp_mono_ok (ih h₁.here (some cycle)) fun o s₂ hrest ↦ ?_
      obtain ⟨h₂, walked, hpre, hwalked, ho'⟩ := hrest
      refine ⟨h₂, cycle :: walked, (List.prefix_cons_inj cycle).mpr hpre, fun c hc ↦ ?_, ?_⟩
      · rcases List.mem_cons.mp hc with rfl | hc
        · exact ⟨k, hk, hk'.trans h₂.tick_le, ho⟩
        · obtain ⟨k', hk₁, hk₂, ho'⟩ := hwalked c hc
          exact ⟨k', h₁.tick_le.trans hk₁, hk₂, ho'⟩
      · rw [ho', List.getLast?_cons]
        cases walked.getLast? <;> rfl
    split
    · rename_i htrue
      obtain ⟨k, hk, hk', hc⟩ := hcomplete htrue
      exact hopen ⟨k, hk, hk', .inl hc⟩
    · split
      · rename_i hnone
        refine hopen ⟨s.tick, le_rfl, h₁.tick_le, .inr fun t ht ↦ ?_⟩
        rw [hnone] at ht
        cases ht
      · rename_i t ht
        split
        · rename_i hlt
          refine hopen ⟨s.tick, le_rfl, h₁.tick_le, .inr fun t' ht' ↦ ?_⟩
          rw [ht] at ht'
          cases ht'
          exact hlt
        · exact .pure h₁.here
            ⟨[], List.nil_prefix, fun _ hc ↦ absurd hc List.not_mem_nil, rfl⟩

theorem from_shippableCeiling (h : Moved env sink s s) (t : String) :
    From env sink s (src.shippableCeiling t) fun o s' ↦ ∀ ceiling ∈ o,
      ∃ i l, s.tick ≤ i ∧ src.Gated env sink t ceiling i l s'.tick := by
  rw [shippableCeiling]
  refine (from_clock h).bind fun now s₁ h₁ hclock ↦
    (from_query h₁.here _).bind fun cycles s₂ h₂ hcycles ↦ ?_
  obtain ⟨hnow, hs₁, -⟩ := hclock
  split
  · refine .pure h₂.here fun ceiling hceiling ↦ ?_
    cases hceiling
  · obtain ⟨hit, hhit, rfl⟩ := exists_of_map_eq_ok hcycles
    refine wp_mono_ok (from_walkCycles h₂.here _ _ none) fun o s₃ hwalk ↦ ?_
    obtain ⟨h₃, walked, hpre, hwalked, ho⟩ := hwalk
    refine ⟨h₃, fun ceiling hceiling ↦ ?_⟩
    rw [ho, Option.or_none] at hceiling
    have hinc := increasing_distinctCycles hit
    have hlisted : ∀ c, c ∈ distinctCycles hit ↔ Queued (sinkAfter env sink s₂.tick).rows c ∧ t < c ∧
        c < isoZ (currentCycleFloor (fromTimestamp (env s.tick).now)) := by
      intro c
      rw [mem_listedCycles hhit, ← hnow, Queued]
      simp
    obtain ⟨hq, hlt, hfloor⟩ := (hlisted ceiling).mp (hpre.subset (List.mem_of_getLast? hceiling))
    have h₂' := h₂.tick_le
    refine ⟨s.tick, s₂.tick, le_rfl, ⟨by omega, h₃.tick_le, hq, hlt, hfloor, fun c hc hct hle ↦ ?_⟩⟩
    rw [← hnow]
    refine hwalked c ?_
    rw [Table.prefix_eq_filter_le hinc hpre hceiling, List.mem_filter]
    exact ⟨(hlisted c).mpr ⟨hc, hct, hle.trans_lt hfloor⟩, by simpa using hle⟩

/-- The ceiling of a listing past the cursor `t`, asked for from step `n₀` on and known by step
`n`. -/
def Ceiling (src : WsprCycleSource) (env : ℕ → Choice Act ρ) (sink : Sink) (t ceiling : String)
    (n₀ n : ℕ) : Prop :=
  if src.expectedReporters = [] then ∃ i, n₀ ≤ i ∧ i < n ∧ ceiling = src.cycleFloorIso (env i).now
  else ∃ i l, n₀ ≤ i ∧ src.Gated env sink t ceiling i l n

theorem from_askCeiling (h : Moved env sink s s) (t : String) :
    From env sink s (src.askCeiling t) fun o s' ↦ ∀ ceiling ∈ o,
      src.Ceiling env sink t ceiling s.tick s'.tick := by
  rw [askCeiling]
  split
  · rename_i hempty
    rw [List.isEmpty_iff] at hempty
    refine (from_clock h).bind fun now s₁ h₁ hclock ↦ .pure h₁.here fun ceiling hc ↦ ?_
    obtain ⟨hnow, hs₁, -⟩ := hclock
    obtain rfl := Option.mem_some_iff.mp hc
    rw [Ceiling, if_pos hempty, hnow]
    exact ⟨s.tick, le_rfl, by omega, rfl⟩
  · rename_i hexpected
    rw [List.isEmpty_iff] at hexpected
    refine wp_mono_ok (from_shippableCeiling h t) fun o s₁ hceil ↦
      ⟨hceil.1, fun ceiling hc ↦ ?_⟩
    rw [Ceiling, if_neg hexpected]
    exact hceil.2 ceiling hc

/-! ## The listing -/

/-- What the statement that lists cycles found in these rows, past the cursor `t`. -/
structure Lists (src : WsprCycleSource) (rows : List Row) (t ceiling : String)
    (cycles : List String) : Prop where
  queued : ∀ c ∈ cycles, Queued rows c
  past : ∀ c ∈ cycles, t < c
  under : ∀ c ∈ cycles, c < ceiling ∨ src.expectedReporters ≠ [] ∧ c = ceiling
  all : ∀ r ∈ rows, ∀ c, r.cycle = some c → r.isLocal = false → t < c → c < ceiling → c ∈ cycles

/-- What a generator that has these cycles before it knows of them. -/
def Listed (src : WsprCycleSource) (env : ℕ → Choice Act ρ) (sink : Sink) (cursor : Bytes) (n₀ : ℕ)
    (cycles : List String) (s' : Sys (Outside WsprMem) Act ρ) : Prop :=
  cycles ≠ [] → ∃ t ceiling m k, n₀ ≤ m ∧ m ≤ k ∧ k ≤ s'.tick ∧
    src.Starts cursor s'.here.mem t ∧ src.Ceiling env sink t ceiling n₀ m ∧
    src.Lists (sinkAfter env sink k).rows t ceiling cycles

/-- **The generator has before it the cycles that were listed**, oldest first. -/
theorem from_iterBatches (h : Moved env sink s s) (cursor : Bytes) (limit : ℤ) :
    From env sink s (src.iterBatches cursor limit) fun rest s' ↦ ∃ conn cycles,
      rest = cycles.map (src.buildBatchForCycle conn) ∧ Table.Increasing id cycles ∧
      src.Listed env sink cursor s.tick cycles s' := by
  rw [iterBatches]
  refine (from_connect h).bind fun conn s₁ h₁ _ ↦ (from_query h₁.here _).bind fun ready s₂ h₂ _ ↦ ?_
  have hnil : ∀ {s' : Sys (Outside WsprMem) Act QueuedRecord}, Moved env sink s' s' →
      From env sink s' (Pure.pure [] : WsprM _) fun rest s' ↦ ∃ conn cycles,
        rest = cycles.map (src.buildBatchForCycle conn) ∧ Table.Increasing id cycles ∧
        src.Listed env sink cursor s.tick cycles s' :=
    fun h' ↦ .pure h' ⟨conn, [], rfl, List.Pairwise.nil, fun hne ↦ absurd rfl hne⟩
  split
  · refine (from_effectiveCursor h₂.here cursor).bind fun t s₃ h₃ ht ↦
      (from_askCeiling h₃.here t).bind fun o s₄ h₄ ho ↦ ?_
    split
    · exact hnil h₄.here
    · rename_i ceiling
      refine (from_probeLocal h₄.here conn).bind fun hl s₅ h₅ _ ↦
        (from_query h₅.here _).bind fun cycles s₆ h₆ hcycles ↦ .pure h₆.here ?_
      obtain ⟨hit, hhit, rfl⟩ := exists_of_map_eq_ok hcycles
      have hle₁ := h₁.tick_le
      have hle₂ := h₂.tick_le
      have hle₃ := h₃.tick_le
      have hle₅ := h₅.tick_le
      have hle₆ := h₆.tick_le
      refine ⟨conn, _, rfl, increasing_distinctCycles hit, fun _ ↦ ⟨t, ceiling, s₄.tick, s₆.tick, ?_,
        hle₅.trans hle₆, le_rfl, ?_, ?_, ?_⟩⟩
      · exact hle₁.trans (hle₂.trans (hle₃.trans h₄.tick_le))
      · exact ht.mono fun a ha ↦ h₆.anchor a (h₅.anchor a (h₄.anchor a ha))
      · have hceil := ho ceiling rfl
        rw [Ceiling] at hceil ⊢
        split_ifs at hceil ⊢
        · obtain ⟨i, hi, hin, he⟩ := hceil
          exact ⟨i, by omega, hin, he⟩
        · obtain ⟨i, l, hi, hg⟩ := hceil
          exact ⟨i, l, by omega, hg⟩
      · refine ⟨fun c hc ↦ ?_, fun c hc ↦ ?_, fun c hc ↦ ?_, fun r hr c hcycle hlocal htc hcc ↦ ?_⟩
        · obtain ⟨⟨r, hr, hcycle, -⟩, -, -⟩ := (mem_listedCycles hhit).mp hc
          exact ⟨r, hr, hcycle⟩
        · exact ((mem_listedCycles hhit).mp hc).2.1
        · have hunder := ((mem_listedCycles hhit).mp hc).2.2
          simpa using hunder
        · exact (mem_listedCycles hhit).mpr ⟨⟨r, hr, hcycle, fun _ ↦ hlocal⟩, htc, .inl hcc⟩
  · exact hnil h₂.here

end WsprCycleSource

end HsUploader
