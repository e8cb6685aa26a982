import Mathlib.Data.List.Dedup
import HsUploader.Sources.LocalRows
import HsUploader.Sources.WsprTime

/-!
# The completion gate over a queue that stands still

What the statements of `WsprCycleSource` and of `shippable_ceiling` see of a queue: which rows
belong to a cycle (`Row.cycle`), which receivers have reported one (`Complete`), and which cycle
is open to be shipped.  While no other process acts, `shippable_ceiling` answers the newest cycle
all of whose predecessors past the cursor are open, itself included (`wp_shippableCeiling`).
-/

set_option autoImplicit false

namespace HsUploader

open Prog

variable {μ ρ α β : Type}

/-! ## What the clauses ask of a row -/

/-- The time of the cycle a row belongs to, for a spots or noise row whose time is a text. -/
def Row.cycle (r : Row) : Option String :=
  if r.targetDb = "wspr" ∧ (r.targetTable = "spots" ∨ r.targetTable = "noise") then
    match r.payloadJson.jsonExtract "time" with
    | .ok (.text c) => some c
    | _ => none
  else none

/-- The receiver a row names. -/
def Row.receiver (r : Row) : Option String :=
  match r.payloadJson.jsonExtract "rx_call" with
  | .ok (.text s) => some s
  | _ => none

theorem Row.cycle_eq_some {r : Row} {c : String} :
    r.cycle = some c ↔ (r.targetDb = "wspr" ∧ (r.targetTable = "spots" ∨ r.targetTable = "noise")) ∧
      r.payloadJson.jsonExtract "time" = .ok (.text c) := by
  rw [Row.cycle]
  split
  · rename_i h
    simp only [h, true_and]
    split
    · rename_i c' hc
      rw [hc]
      simp
    · rename_i hno
      exact ⟨nofun, fun hc ↦ absurd hc (hno c)⟩
  · rename_i h
    exact ⟨nofun, fun hc ↦ absurd hc.1 h⟩

theorem passes_column {p : Row → Bool} {cs : List Clause} {r : Row} :
    Passes (.column p :: cs) r ↔ p r = true ∧ Passes cs r := by
  rw [passes_cons, Clause.column]
  simp

/-- The time clause on a row with a text for its time. -/
theorem timeClause_text {op : Ordering → Bool} {t c : String} {r : Row}
    (h : r.payloadJson.jsonExtract "time" = .ok (.text c)) :
    timeClause op t r = .ok (some (op (Ord.compare c t))) := by
  rw [timeClause, Clause.json, h]
  rfl

/-- A time that lies past a text, or is that text, is a text. -/
theorem timeClause_true {op : Ordering → Bool} {t : String} {r : Row} (hop : op .lt = false) :
    timeClause op t r = .ok (some true) ↔
      ∃ c, r.payloadJson.jsonExtract "time" = .ok (.text c) ∧ op (Ord.compare c t) = true := by
  constructor
  · intro h
    rw [timeClause, Clause.json] at h
    obtain ⟨v, hv, hop'⟩ := exists_of_map_eq_ok h
    cases v with
    | text c =>
      refine ⟨c, hv, ?_⟩
      simpa [SqlValue.compare_text] using hop'
    | null => simp [SqlValue.compare, SqlValue.key] at hop'
    | integer n => simp [SqlValue.compare, SqlValue.key, hop] at hop'
    | real q => simp [SqlValue.compare, SqlValue.key, hop] at hop'
  · rintro ⟨c, hc, hop'⟩
    rw [timeClause_text hc, hop']

/-- The rows the completion test counts. -/
theorem passes_noiseClauses {cycle : String} {r : Row} :
    Passes (WsprCycleSource.noiseClauses cycle) r ↔
      r.targetTable = "noise" ∧ r.cycle = some cycle := by
  rw [WsprCycleSource.noiseClauses, passes_column, passes_column, passes_cons,
    timeClause_true rfl, Row.cycle_eq_some]
  simp only [decide_eq_true_eq, beq_iff_eq, compare_eq_iff_eq, passes_nil, and_true]
  constructor
  · rintro ⟨hdb, htable, c, hc, rfl⟩
    exact ⟨htable, ⟨hdb, .inr htable⟩, hc⟩
  · rintro ⟨htable, ⟨hdb, -⟩, hc⟩
    exact ⟨hdb, htable, cycle, hc, rfl⟩

/-- The rows of one cycle. -/
theorem passes_cycleClauses {hasLocal : Bool} {cycle : String} {r : Row} :
    Passes (cycleClauses hasLocal cycle) r ↔
      r.cycle = some cycle ∧ (hasLocal = true → r.isLocal = false) := by
  have hlocal : Passes (if hasLocal then [localClause] else []) r ↔
      (hasLocal = true → r.isLocal = false) := by
    cases hasLocal with
    | false => simp [passes_nil]
    | true => simp [localClause, passes_column, passes_nil]
  rw [cycleClauses, passes_append, passes_append, hlocal, wsprClauses, passes_column, passes_column,
    passes_cons, timeClause_true rfl, Row.cycle_eq_some]
  simp only [decide_eq_true_eq, Bool.or_eq_true, beq_iff_eq, compare_eq_iff_eq, passes_nil, and_true]
  constructor
  · rintro ⟨⟨⟨hdb, htable⟩, hlocal⟩, c, hc, rfl⟩
    exact ⟨⟨⟨hdb, htable⟩, hc⟩, hlocal⟩
  · rintro ⟨⟨⟨hdb, htable⟩, hc⟩, hlocal⟩
    exact ⟨⟨⟨hdb, htable⟩, hlocal⟩, cycle, hc, rfl⟩

/-- The rows whose cycle is listed. -/
theorem passes_cycleListClauses {hasLocal inclusive : Bool} {cursor ceiling : String} {r : Row} :
    Passes (cycleListClauses hasLocal cursor ceiling inclusive) r ↔
      ∃ c, r.cycle = some c ∧ (hasLocal = true → r.isLocal = false) ∧ cursor < c ∧
        (c < ceiling ∨ inclusive = true ∧ c = ceiling) := by
  have hlocal : Passes (if hasLocal then [localClause] else []) r ↔
      (hasLocal = true → r.isLocal = false) := by
    cases hasLocal with
    | false => simp [passes_nil]
    | true => simp [localClause, passes_column, passes_nil]
  rw [cycleListClauses, passes_append, passes_append, hlocal, wsprClauses, passes_column,
    passes_column, passes_cons, timeClause_true rfl, passes_cons]
  simp only [decide_eq_true_eq, Bool.or_eq_true, beq_iff_eq, compare_gt_iff_gt, passes_nil, and_true,
    Row.cycle_eq_some]
  constructor
  · rintro ⟨⟨⟨hdb, htable⟩, hl⟩, ⟨c, hc, hlt⟩, hceil⟩
    rw [timeClause_text hc] at hceil
    simp only [Except.ok.injEq, Option.some.injEq, Bool.or_eq_true, beq_iff_eq, Bool.and_eq_true,
      compare_lt_iff_lt, compare_eq_iff_eq] at hceil
    exact ⟨c, ⟨⟨hdb, htable⟩, hc⟩, hl, hlt, hceil⟩
  · rintro ⟨c, ⟨⟨hdb, htable⟩, hc⟩, hl, hlt, hceil⟩
    refine ⟨⟨⟨hdb, htable⟩, hl⟩, ⟨c, hc, hlt⟩, ?_⟩
    rw [timeClause_text hc]
    simp only [Except.ok.injEq, Option.some.injEq, Bool.or_eq_true, beq_iff_eq, Bool.and_eq_true,
      compare_lt_iff_lt, compare_eq_iff_eq]
    exact hceil

/-! ## The listed cycles -/

theorem mem_distinctCycles {rows : List Row} {c : String} :
    c ∈ distinctCycles rows ↔ ∃ r ∈ rows, r.payloadJson.jsonExtract "time" = .ok (.text c) := by
  rw [distinctCycles, List.mem_insertionSort, List.mem_dedup, List.mem_filterMap]
  refine exists_congr fun r ↦ and_congr_right fun _ ↦ ?_
  split
  · rename_i s hs
    rw [hs]
    simp
  · rename_i hno
    exact ⟨nofun, fun hc ↦ absurd hc (hno c)⟩

theorem increasing_distinctCycles (rows : List Row) :
    Table.Increasing id (distinctCycles rows) := by
  have hle : ∀ a b : String, (Ord.compare a b ≠ .gt) = (a ≤ b) := fun a b ↦ by
    rw [Ne, compare_gt_iff_gt, not_lt]
  have hsorted : ∀ l : List String,
      (l.insertionSort fun a b ↦ Ord.compare a b ≠ .gt).Pairwise (· ≤ ·) := fun l ↦ by
    have htotal : Std.Total fun a b : String ↦ Ord.compare a b ≠ .gt :=
      ⟨fun a b ↦ by
        rw [hle, hle]
        exact le_total a b⟩
    have htrans : IsTrans String fun a b ↦ Ord.compare a b ≠ .gt :=
      ⟨fun a b c hab hbc ↦ by
        rw [hle] at hab hbc ⊢
        exact hab.trans hbc⟩
    refine (List.pairwise_insertionSort _ l).imp fun {a b} h ↦ ?_
    rwa [hle] at h
  have hnodup : ((rows.filterMap fun r ↦ match r.payloadJson.jsonExtract "time" with
      | .ok (.text s) => some s
      | _ => none).dedup.insertionSort fun a b ↦ Ord.compare a b ≠ .gt).Nodup :=
    (List.perm_insertionSort _ _).nodup_iff.mpr (List.nodup_dedup _)
  rw [distinctCycles]
  exact ((hsorted _).and hnodup).imp fun ⟨h, hne⟩ ↦ lt_of_le_of_ne h hne

/-! ## A queue that stands still -/

/-- Nothing but this process moves: the others do nothing, the file can be read, and the sink is
`sink`. -/
structure Still (env : ℕ → Choice Act ρ) (sink : Sink) (s : Sys (Outside μ) Act ρ) : Prop where
  env_eq : s.env = env
  ops : ∀ k, (env k).ops = []
  runs : ∀ k, (env k).stop = false
  reachable : s.here.reachable = true
  sink_eq : s.here.sink = sink

namespace Still

variable {env : ℕ → Choice Act ρ} {sink : Sink} {s : Sys (Outside μ) Act ρ}
  {E : Exn → Sys (Outside μ) Act ρ → Prop} {S : Sys (Outside μ) Act ρ → Prop}

theorem choice (h : Still env sink s) : s.choice = env s.tick := by
  rw [Sys.choice, h.env_eq]

theorem here_next (h : Still env sink s) : s.next.here = s.here := by
  change s.choice.ops.foldl _ _ = _
  rw [h.choice, h.ops]
  rfl

theorem next (h : Still env sink s) : Still env sink s.next where
  env_eq := h.env_eq
  ops := h.ops
  runs := h.runs
  reachable := by
    rw [h.here_next]
    exact h.reachable
  sink_eq := by
    rw [h.here_next]
    exact h.sink_eq

theorem not_stop (h : Still env sink s) : ¬ s.choice.stop = true := by
  rw [h.choice, h.runs]
  exact Bool.false_ne_true

theorem query (h : Still env sink s) {f : Sink → Except Exn α}
    {Q : α → Sys (Outside μ) Act ρ → Prop} (hok : ∀ a, f sink = .ok a → Q a s.next)
    (herr : ∀ e, f sink = .error e → E e s.next) : wp (HsUploader.query f) Q E S s := by
  rw [wp_query, if_neg h.not_stop, if_pos h.next.reachable, h.next.sink_eq]
  cases hf : f sink with
  | ok a => exact hok a hf
  | error e => exact herr e hf

theorem clock (h : Still env sink s) {Q : ℚ → Sys (Outside μ) Act ρ → Prop}
    (hq : Q (env s.tick).now s.next) : wp HsUploader.clock Q E S s := by
  rw [wp_clock, if_neg h.not_stop, h.choice]
  exact hq

/-- What the source object holds is no part of it. -/
theorem setMem (h : Still env sink s) (m : μ) :
    Still env sink { s with here := { s.here with mem := m } } :=
  ⟨h.env_eq, h.ops, h.runs, h.reachable, h.sink_eq⟩

end Still

/-- The process has only looked: it has made steps, and the outside is as it was. -/
structure Looked (s s' : Sys (Outside μ) Act ρ) : Prop where
  env_eq : s'.env = s.env
  here_eq : s'.here = s.here

theorem Looked.trans {s s' s'' : Sys (Outside μ) Act ρ} (h : Looked s s') (h' : Looked s' s'') :
    Looked s s'' :=
  ⟨h'.env_eq.trans h.env_eq, h'.here_eq.trans h.here_eq⟩

section looked

variable {env : ℕ → Choice Act ρ} {sink : Sink} {s s' : Sys (Outside μ) Act ρ}

theorem Still.looked_next (h : Still env sink s) : Looked s s.next := ⟨rfl, h.here_next⟩

theorem Still.looked (h : Still env sink s) (hs : Looked s s') : Still env sink s' where
  env_eq := hs.env_eq.trans h.env_eq
  ops := h.ops
  runs := h.runs
  reachable := by
    rw [hs.here_eq]
    exact h.reachable
  sink_eq := by
    rw [hs.here_eq]
    exact h.sink_eq

end looked

/-! ## The gate -/

/-- SQLite reads the payload of each spots and noise row. -/
def Readable (rows : List Row) : Prop :=
  ∀ r ∈ rows, r.targetDb = "wspr" → r.targetTable = "spots" ∨ r.targetTable = "noise" →
    r.payloadJson.sql ≠ none

instance (rows : List Row) : Decidable (Readable rows) :=
  inferInstanceAs (Decidable (∀ r ∈ rows, r.targetDb = "wspr" →
    r.targetTable = "spots" ∨ r.targetTable = "noise" → r.payloadJson.sql ≠ none))

theorem timeClause_ok {op : Ordering → Bool} {t : String} {r : Row} :
    (∃ v, timeClause op t r = .ok v) ↔ r.payloadJson.sql ≠ none := by
  rw [← Payload.jsonExtract_ok "time", timeClause, Clause.json]
  cases r.payloadJson.jsonExtract "time" with
  | error e => exact ⟨nofun, nofun⟩
  | ok v => exact ⟨fun _ ↦ ⟨v, rfl⟩, fun _ ↦ ⟨_, rfl⟩⟩

/-- Each spots and noise row has a text for its time. -/
def Timed (rows : List Row) : Prop :=
  ∀ r ∈ rows, r.targetDb = "wspr" → r.targetTable = "spots" ∨ r.targetTable = "noise" →
    ∃ c, r.payloadJson.jsonExtract "time" = .ok (.text c)

theorem Timed.readable {rows : List Row} (h : Timed rows) : Readable rows := by
  intro r hr hdb htable
  obtain ⟨c, hc⟩ := h r hr hdb htable
  exact (Payload.jsonExtract_ok _).mp ⟨_, hc⟩

/-- Some row of the queue belongs to the cycle. -/
def Queued (rows : List Row) (c : String) : Prop := ∃ r ∈ rows, r.cycle = some c

namespace WsprCycleSource

variable (src : WsprCycleSource)

/-- Every expected receiver has a noise row of the cycle. -/
def Complete (rows : List Row) (cycle : String) : Prop :=
  ∀ e ∈ src.expectedReporters, e ≠ "" ∧
    ∃ r ∈ rows, r.targetTable = "noise" ∧ r.cycle = some cycle ∧ r.receiver = some e

instance (rows : List Row) (cycle : String) : Decidable (src.Complete rows cycle) :=
  inferInstanceAs (Decidable (∀ e ∈ src.expectedReporters, e ≠ "" ∧
    ∃ r ∈ rows, r.targetTable = "noise" ∧ r.cycle = some cycle ∧ r.receiver = some e))

/-- The instant a cycle must have begun before to be past the backstop. -/
def forceBefore (now : ℚ) : Instant :=
  fromTimestamp now - wsprCycle - roundHalfEven (src.backstopSec * 1000000)

/-- The cycle does not hold the walk up: it is complete, or it began before the instant, or its time
cannot be read. -/
def OpenAt (rows : List Row) (before : Instant) (cycle : String) : Prop :=
  src.Complete rows cycle ∨ ∀ t, src.strptime cycle = some t → t < before

/-- Whether the cycle began before the instant, where its time can be read. -/
def decidableBegan (before : Instant) (cycle : String) :
    Decidable (∀ t, src.strptime cycle = some t → t < before) :=
  match src.strptime cycle with
  | none => isTrue nofun
  | some t => decidable_of_iff (t < before) (by simp)

instance (rows : List Row) (before : Instant) (cycle : String) :
    Decidable (src.OpenAt rows before cycle) :=
  have := src.decidableBegan before cycle
  inferInstanceAs (Decidable (_ ∨ _))

/-- The cycle is queued past the cursor and before the slot in progress, and it and every cycle
queued between the cursor and it are open. -/
def Shippable (rows : List Row) (now : ℚ) (cursor cycle : String) : Prop :=
  Queued rows cycle ∧ cursor < cycle ∧ cycle < isoZ (currentCycleFloor (fromTimestamp now)) ∧
    ∀ c, Queued rows c → cursor < c → c ≤ cycle → src.OpenAt rows (src.forceBefore now) c

/-- The largest cycle that is shippable, `none` where none is. -/
def IsCeiling (rows : List Row) (now : ℚ) (cursor : String) : Option String → Prop
  | none => ∀ c, ¬ src.Shippable rows now cursor c
  | some c => src.Shippable rows now cursor c ∧ ∀ d, src.Shippable rows now cursor d → d ≤ c

theorem allPresent_eq (rows : List Row) (cycle : String) :
    src.allPresent (rows.filter fun r ↦ decide (Passes (noiseClauses cycle) r)) =
      decide (src.Complete rows cycle) := by
  rw [Bool.eq_iff_iff, decide_eq_true_eq, allPresent, List.all_eq_true, Complete]
  refine forall_congr' fun e ↦ forall_congr' fun _ ↦ ?_
  rw [Bool.and_eq_true, List.any_eq_true]
  refine and_congr (by simp) ?_
  simp only [List.mem_filter, decide_eq_true_eq, passes_noiseClauses, and_assoc]
  refine exists_congr fun r ↦ and_congr_right fun _ ↦ and_congr_right fun _ ↦
    and_congr_right fun _ ↦ ?_
  rw [Row.receiver]
  cases r.payloadJson.jsonExtract "rx_call" with
  | error _ => simp
  | ok v => cases v <;> simp

section still

variable {src} {env : ℕ → Choice Act QueuedRecord} {sink : Sink}
  {s : Sys (Outside WsprMem) Act QueuedRecord}

theorem noiseClauses_ok {rows : List Row} (hread : Readable rows) (cycle : String) :
    ∀ r ∈ rows, ∃ hit, holds (noiseClauses cycle) r = .ok hit := by
  intro r hr
  refine holds_cons_ok rfl fun hdb ↦ holds_cons_ok rfl fun htable ↦ ?_
  obtain ⟨v, hv⟩ := timeClause_ok.mpr
    (hread r hr (by simpa using hdb) (.inr (by simpa using htable)))
  exact holds_cons_ok hv fun _ ↦ ⟨true, rfl⟩

theorem cycleListClauses_ok {rows : List Row} (hread : Readable rows) (hasLocal : Bool)
    (cursor ceiling : String) (inclusive : Bool) :
    ∀ r ∈ rows, ∃ hit, holds (cycleListClauses hasLocal cursor ceiling inclusive) r = .ok hit := by
  intro r hr
  refine holds_cons_ok rfl fun hdb ↦ holds_cons_ok rfl fun htable ↦ ?_
  have hsql := hread r hr (by simpa using hdb) (by simpa using htable)
  obtain ⟨v, hv⟩ := timeClause_ok.mpr hsql
  obtain ⟨v', hv'⟩ := timeClause_ok.mpr hsql
  have htimes : ∃ hit, holds [timeClause (· == .gt) cursor,
      timeClause (fun o ↦ o == .lt || inclusive && o == .eq) ceiling] r = .ok hit :=
    holds_cons_ok hv fun _ ↦ holds_cons_ok hv' fun _ ↦ ⟨true, rfl⟩
  cases hasLocal with
  | false => exact htimes
  | true => exact holds_cons_ok rfl fun _ ↦ htimes

/-- A listing without `local = 0` that does not raise has read every payload. -/
theorem readable_of_listing {rows hit : List Row} {cursor ceiling : String} {inclusive : Bool}
    (h : matching (cycleListClauses false cursor ceiling inclusive) rows = .ok hit) :
    Readable rows := by
  intro r hr hdb htable
  obtain ⟨b, hb⟩ := holds_of_matching h r hr
  rw [cycleListClauses, wsprClauses, if_neg Bool.false_ne_true, List.append_nil, List.cons_append,
    List.cons_append, List.nil_append, holds_column, holds_column] at hb
  rw [if_pos (by simpa using hdb), if_pos (by simpa using htable)] at hb
  exact timeClause_ok.mp (ok_of_holds_cons hb)

/-- How the completion test of one cycle ends. -/
theorem wp_cycleComplete (h : Still env sink s) (cycle : String) :
    wp (src.cycleComplete cycle)
      (fun b s' ↦ b = decide (src.Complete sink.rows cycle) ∧ Looked s s')
      (fun _ s' ↦ ¬ Readable sink.rows ∧ Looked s s') (fun _ ↦ False) s := by
  rw [cycleComplete]
  split
  · rename_i hempty
    rw [wp_pure]
    refine ⟨(decide_eq_true ?_).symm, rfl, rfl⟩
    rw [Complete, List.isEmpty_iff.mp hempty]
    exact fun _ he ↦ nomatch he
  · rw [wp_bind]
    refine h.query (fun rows hrows ↦ ?_) fun e he ↦ ⟨fun hread ↦ ?_, h.looked_next⟩
    · rw [wp_pure, matching_eq hrows]
      exact ⟨src.allPresent_eq _ _, h.looked_next⟩
    · rw [matching_ok (noiseClauses_ok hread cycle)] at he
      cases he

/-- **The walk of the gate** ends at the last cycle of those up to the first that is not open. -/
theorem wp_walkCycles (h : Still env sink s) (before : Instant) (cycles : List String)
    (ceiling : Option String) :
    wp (src.walkCycles before cycles ceiling)
      (fun o s' ↦ o = (cycles.takeWhile fun c ↦
        decide (src.OpenAt sink.rows before c)).getLast?.or ceiling ∧ Looked s s')
      (fun _ s' ↦ ¬ Readable sink.rows ∧ Looked s s') (fun _ ↦ False) s := by
  induction cycles generalizing s ceiling with
  | nil => exact ⟨rfl, rfl, rfl⟩
  | cons cycle rest ih =>
    -- an open cycle becomes the ceiling, and the walk goes on
    have hopen : ∀ {s' : Sys (Outside WsprMem) Act QueuedRecord}, Looked s s' →
        src.OpenAt sink.rows before cycle →
        wp (src.walkCycles before rest (some cycle))
          (fun o s' ↦ o = ((cycle :: rest).takeWhile fun c ↦
            decide (src.OpenAt sink.rows before c)).getLast?.or ceiling ∧ Looked s s')
          (fun _ s' ↦ ¬ Readable sink.rows ∧ Looked s s') (fun _ ↦ False) s' := by
      intro s' hs hopen
      refine wp_mono (ih (h.looked hs) (some cycle)) (fun o s'' ⟨ho, h'⟩ ↦ ⟨?_, hs.trans h'⟩)
        (fun _ s'' ⟨hread, h'⟩ ↦ ⟨hread, hs.trans h'⟩) fun _ hf ↦ hf
      rw [ho, List.takeWhile_cons, if_pos (decide_eq_true hopen), List.getLast?_cons]
      cases (rest.takeWhile fun c ↦ decide (src.OpenAt sink.rows before c)).getLast? <;> rfl
    rw [walkCycles, wp_bind]
    refine wp_mono_ok (wp_cycleComplete h cycle) fun b s' ⟨hb, h'⟩ ↦ ?_
    subst hb
    by_cases hcomplete : src.Complete sink.rows cycle
    · rw [decide_eq_true hcomplete, if_pos rfl]
      exact hopen h' (.inl hcomplete)
    · rw [decide_eq_false hcomplete, if_neg Bool.false_ne_true]
      cases ht : src.strptime cycle with
      | none => exact hopen h' (.inr fun t htime ↦ by rw [ht] at htime; cases htime)
      | some t =>
        dsimp only
        split
        · rename_i hlt
          refine hopen h' (.inr fun t' htime ↦ ?_)
          rw [ht] at htime
          cases htime
          exact hlt
        · rename_i hge
          have hclosed : ¬ src.OpenAt sink.rows before cycle := fun ho ↦
            ho.elim hcomplete fun hexpired ↦ hge (hexpired t ht)
          rw [wp_pure, List.takeWhile_cons, if_neg (by simpa using hclosed)]
          exact ⟨rfl, h'⟩

/-- The cycles the gate lists. -/
theorem mem_listedCycles {rows hit : List Row} {hasLocal inclusive : Bool}
    {cursor ceiling c : String}
    (h : matching (cycleListClauses hasLocal cursor ceiling inclusive) rows = .ok hit) :
    c ∈ distinctCycles hit ↔
      (∃ r ∈ rows, r.cycle = some c ∧ (hasLocal = true → r.isLocal = false)) ∧ cursor < c ∧
        (c < ceiling ∨ inclusive = true ∧ c = ceiling) := by
  rw [mem_distinctCycles, matching_eq h]
  simp only [List.mem_filter, decide_eq_true_eq, passes_cycleListClauses]
  constructor
  · rintro ⟨r, ⟨hr, c', hcycle, hlocal, hlt, hceil⟩, htime⟩
    have hc : r.cycle = some c := Row.cycle_eq_some.mpr ⟨(Row.cycle_eq_some.mp hcycle).1, htime⟩
    rw [hcycle] at hc
    cases hc
    exact ⟨⟨r, hr, hcycle, hlocal⟩, hlt, hceil⟩
  · rintro ⟨⟨r, hr, hcycle, hlocal⟩, hlt, hceil⟩
    exact ⟨r, ⟨hr, c, hcycle, hlocal, hlt, hceil⟩, (Row.cycle_eq_some.mp hcycle).2⟩

/-- **The gate answers the largest shippable cycle**, at the reading of its clock. -/
theorem wp_shippableCeiling (h : Still env sink s) (cursor : String) :
    wp (src.shippableCeiling cursor)
      (fun o s' ↦ (src.IsCeiling sink.rows (env s.tick).now cursor o ∧ Readable sink.rows) ∧
        Looked s s')
      (fun _ s' ↦ ¬ Readable sink.rows ∧ Looked s s') (fun _ ↦ False) s := by
  rw [shippableCeiling, wp_bind]
  refine h.clock ?_
  dsimp only
  rw [wp_bind]
  have hlooked : Looked s s.next.next := h.looked_next.trans h.next.looked_next
  refine h.next.query (fun cycles hcycles ↦ ?_) fun e he ↦
    ⟨fun hread ↦ ?_, hlooked⟩
  · obtain ⟨hit, hhit, rfl⟩ := exists_of_map_eq_ok hcycles
    have hread := readable_of_listing hhit
    have hinc := increasing_distinctCycles hit
    have hadmitted : ∀ c, (c ∈ (distinctCycles hit).takeWhile fun c ↦
        decide (src.OpenAt sink.rows (src.forceBefore (env s.tick).now) c)) ↔
        src.Shippable sink.rows (env s.tick).now cursor c := by
      intro c
      rw [Table.mem_takeWhile_iff hinc, Shippable]
      simp only [mem_listedCycles hhit, Bool.false_eq_true, false_implies, and_true, false_and,
        or_false, decide_eq_true_eq]
      constructor
      · rintro ⟨⟨hq, hlt, hfloor⟩, hall⟩
        exact ⟨hq, hlt, hfloor, fun d hd hcd hle ↦ hall d ⟨hd, hcd, hle.trans_lt hfloor⟩ hle⟩
      · rintro ⟨hq, hlt, hfloor, hall⟩
        exact ⟨⟨hq, hlt, hfloor⟩, fun d ⟨hd, hcd, _⟩ hle ↦ hall d hd hcd hle⟩
    have hceiling : src.IsCeiling sink.rows (env s.tick).now cursor
        ((distinctCycles hit).takeWhile fun c ↦
          decide (src.OpenAt sink.rows (src.forceBefore (env s.tick).now) c)).getLast? := by
      have hwalked := hinc.sublist (List.takeWhile_sublist fun c ↦
        decide (src.OpenAt sink.rows (src.forceBefore (env s.tick).now) c))
      cases hlast : ((distinctCycles hit).takeWhile fun c ↦
          decide (src.OpenAt sink.rows (src.forceBefore (env s.tick).now) c)).getLast? with
      | none =>
        intro c hc
        rw [← hadmitted, List.getLast?_eq_none_iff.mp hlast] at hc
        cases hc
      | some c =>
        obtain ⟨hmem, hmax⟩ := (Table.getLast?_eq_some_iff hwalked).mp hlast
        exact ⟨(hadmitted c).mp hmem, fun d hd ↦ hmax d ((hadmitted d).mpr hd)⟩
    split
    · rename_i hempty
      rw [List.isEmpty_iff] at hempty
      rw [hempty] at hceiling
      exact ⟨⟨hceiling, hread⟩, hlooked⟩
    · refine wp_mono (wp_walkCycles h.next.next _ _ none)
        (fun o s' ⟨ho, h'⟩ ↦ ⟨⟨?_, hread⟩, hlooked.trans h'⟩)
        (fun _ s' ⟨hno, h'⟩ ↦ ⟨hno, hlooked.trans h'⟩) fun _ hf ↦ hf
      rw [ho, Option.or_none]
      exact hceiling
  · rw [matching_ok (cycleListClauses_ok hread _ _ _ _)] at he
    cases he

end still

end WsprCycleSource

end HsUploader
