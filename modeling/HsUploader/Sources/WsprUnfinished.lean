import HsUploader.Sources.WsprWriters
import HsUploader.Sources.Yields

/-!
# Unfinished cycles

No batch is yielded for a cycle whose key sorts behind the text of the two-minute slot in progress,
and with a set of expected receivers none for a cycle that is neither complete nor past the backstop
(`unfinished_cycles_wait`).  Keys are compared as texts: a key in another spelling than the floor's
may name the slot in progress and sort before it (`other_spelling_ships_early`).
-/

set_option autoImplicit false

namespace HsUploader

open Prog

variable {ρ : Type}

/-- A process among whom nobody moves. -/
theorem Still.moved {env : ℕ → Choice Act ρ} {sink : Sink} {s : Sys (Outside WsprMem) Act ρ}
    (h : Still env sink s) : Moved env sink s s :=
  ⟨h.env_eq, h.sink_eq.trans (sinkAfter_still h.ops sink s.tick).symm, le_rfl, fun _ ha ↦ ha⟩

/-- A text before that of another time names an earlier one. -/
theorem lt_of_isoZ_lt {a b : ℤ} (ha : Dated a) (hb : Dated b) (h : isoZ a < isoZ b) : a < b := by
  by_contra hle
  have hsec : b / 1000000 ≤ a / 1000000 := Int.ediv_le_ediv (by decide) (not_lt.mp hle)
  rcases hsec.lt_or_eq with hlt | heq
  · exact absurd h (isoZ_lt_isoZ hb ha hlt).not_gt
  · have hsame : isoZ a = isoZ b := by rw [isoZ, isoZ, heq]
    exact absurd h hsame.not_lt

namespace WsprCycleSource

variable (src : WsprCycleSource)

/-- The two-minute slot in progress at a clock reading; without a gate, less the ship buffer. -/
def shipFloor (now : ℚ) : Instant :=
  currentCycleFloor (fromTimestamp now) -
    if src.expectedReporters = [] then src.shipBufferSec * 1000000 else 0

/-- The cycle ended more than the backstop ago. -/
def PastBackstop (now : ℚ) (cycle : String) : Prop :=
  ∃ t, src.strptime cycle = some t ∧
    t + wsprCycle + roundHalfEven (src.backstopSec * 1000000) < fromTimestamp now

instance (now : ℚ) (cycle : String) : Decidable (src.PastBackstop now cycle) :=
  match h : src.strptime cycle with
  | none => isFalse fun ⟨t, ht, _⟩ ↦ by rw [h] at ht; cases ht
  | some t => decidable_of_iff
      (t + wsprCycle + roundHalfEven (src.backstopSec * 1000000) < fromTimestamp now) (by
        rw [PastBackstop, h]
        simp)

theorem openAt_iff {rows : List Row} {now : ℚ} {cycle : String} :
    src.OpenAt rows (src.forceBefore now) cycle ↔
      src.Complete rows cycle ∨ src.PastBackstop now cycle ∨ src.strptime cycle = none := by
  have hmove : ∀ t cycle backstop now : ℤ,
      t < now - cycle - backstop ↔ t + cycle + backstop < now := by
    intros
    omega
  rw [OpenAt, PastBackstop, forceBefore]
  refine or_congr_right ?_
  constructor
  · intro h
    cases ht : src.strptime cycle with
    | none => exact .inr rfl
    | some t =>
      exact .inl ⟨t, rfl, (hmove _ _ _ _).mp (h t ht)⟩
  · rintro (⟨t, ht, hlt⟩ | hnone) t' ht'
    · rw [ht] at ht'
      cases ht'
      exact (hmove _ _ _ _).mpr hlt
    · rw [hnone] at ht'
      cases ht'

section yields

variable {src} {env : ℕ → Choice Act QueuedRecord} {sink : Sink}
  {s s' : Sys (Outside WsprMem) Act QueuedRecord}

/-- A generator of cycles yields batches of these cycles. -/
theorem from_drain (h : Moved env sink s s) (conn : ℕ) (cycles : List String) :
    From env sink s (drain (cycles.map (src.buildBatchForCycle conn))) fun r _ ↦ ∀ b ∈ r.1,
      ∃ c ∈ cycles, b.cursorAfter = .ofAscii c.toList := by
  induction cycles generalizing s with
  | nil => exact .pure h fun _ hb ↦ absurd hb List.not_mem_nil
  | cons c cycles ih =>
    rw [List.map_cons, drain]
    refine From.bind (Q := fun r _ ↦ ∀ b, r = .ok (some b) → b.cursorAfter = .ofAscii c.toList)
      ?_ fun r s₁ h₁ hr ↦ ?_
    · rw [From, wp_attempt]
      refine wp_mono (from_buildBatchForCycle h conn c) ?_ ?_ fun _ h' ↦ h'
      · rintro b s' ⟨h', k, -, -, hb, -⟩
        refine ⟨h', fun b' he ↦ ?_⟩
        cases he
        exact (hb b' rfl).cursor
      · refine fun e s' h' ↦ ⟨h', fun _ he ↦ ?_⟩
        cases he
    · cases r with
      | error e => exact .pure h₁.here fun _ hb ↦ absurd hb List.not_mem_nil
      | ok b =>
        refine (ih h₁.here).bind fun r s₂ h₂ hrest ↦ .pure h₂.here fun b' hb' ↦ ?_
        rcases List.mem_append.mp hb' with hb' | hb'
        · rw [Option.mem_toList] at hb'
          exact ⟨c, List.mem_cons_self, hr b' (by rw [hb'])⟩
        · obtain ⟨c', hc', hcursor⟩ := hrest b' hb'
          exact ⟨c', List.mem_cons_of_mem c hc', hcursor⟩

/-- A listed cycle lies before the floor of a clock reading, and with expected receivers the gate
has found it open. -/
theorem Listed.floor {cursor : Bytes} {n₀ : ℕ} {cycles : List String}
    (h : src.Listed env sink cursor n₀ cycles s') (hstill : ∀ k, (env k).ops = []) {c : String}
    (hc : c ∈ cycles) : ∃ i, n₀ ≤ i ∧ i < s'.tick ∧ c < isoZ (src.shipFloor (env i).now) ∧
      (src.expectedReporters ≠ [] → src.OpenAt sink.rows (src.forceBefore (env i).now) c) := by
  obtain ⟨t, ceiling, m, k, -, hmk, hk, -, hceil, hlists⟩ := h (List.ne_nil_of_mem hc)
  have hunder := hlists.under c hc
  rw [Ceiling] at hceil
  split_ifs at hceil with hexpected
  · obtain ⟨i, hi, him, rfl⟩ := hceil
    refine ⟨i, hi, by omega, ?_, fun hne ↦ absurd hexpected hne⟩
    rw [shipFloor, if_pos hexpected]
    exact hunder.resolve_right fun h ↦ h.1 hexpected
  · obtain ⟨i, l, hi, hg⟩ := hceil
    have hle : c ≤ ceiling := hunder.elim le_of_lt fun h ↦ h.2.le
    have hread := hg.read
    have hlisted := hg.listed
    refine ⟨i, hi, by omega, ?_, fun _ ↦ ?_⟩
    · rw [shipFloor, if_neg hexpected, sub_zero]
      exact hle.trans_lt hg.before
    · have hq := hlists.queued c hc
      rw [sinkAfter_still hstill] at hq
      obtain ⟨k', -, -, ho⟩ := hg.opened c (by rwa [sinkAfter_still hstill]) (hlists.past c hc) hle
      rwa [sinkAfter_still hstill] at ho

end yields

end WsprCycleSource

/-- **An unfinished cycle waits.**  The key of every batch yielded sorts before the slot in progress,
so in the floor's own spelling it names an earlier time; and with expected receivers the cycle is
complete, or past the backstop, or its key is none that can be read. -/
theorem unfinished_cycles_wait (src : WsprCycleSource) {env : ℕ → Choice Act QueuedRecord}
    {sink : Sink} {s : Sys (Outside WsprMem) Act QueuedRecord} (h : Still env sink s)
    (cursor : Bytes) (limit : ℤ) :
    ∀ b ∈ (src.source.yielded cursor limit s).1, ∃ cycle i,
      b.cursorAfter = .ofAscii cycle.toList ∧
      s.tick ≤ i ∧ i < (src.source.yields cursor limit s).2.tick ∧
      cycle < isoZ (src.shipFloor (env i).now) ∧
      (∀ t, cycle = isoZ t → Dated t → Dated (src.shipFloor (env i).now) →
        t < src.shipFloor (env i).now) ∧
      (src.expectedReporters ≠ [] → src.Complete sink.rows cycle ∨
        src.PastBackstop (env i).now cycle ∨ src.strptime cycle = none) := by
  suffices hyields : wp (src.source.yields cursor limit) (fun r s' ↦ ∀ b ∈ r.1, ∃ cycle i,
      b.cursorAfter = .ofAscii cycle.toList ∧ s.tick ≤ i ∧ i < s'.tick ∧
      cycle < isoZ (src.shipFloor (env i).now) ∧
      (∀ t, cycle = isoZ t → Dated t → Dated (src.shipFloor (env i).now) →
        t < src.shipFloor (env i).now) ∧
      (src.expectedReporters ≠ [] → src.Complete sink.rows cycle ∨
        src.PastBackstop (env i).now cycle ∨ src.strptime cycle = none))
      (fun _ _ ↦ True) (fun _ ↦ True) s from Source.forall_yielded hyields
  rw [Source.yields, wp_bind, wp_attempt]
  refine wp_mono (WsprCycleSource.from_iterBatches h.moved cursor limit) ?_ ?_ fun _ _ ↦ trivial
  · rintro rest s₁ ⟨h₁, conn, cycles, rfl, -, hlisted⟩
    refine wp_mono (WsprCycleSource.from_drain h₁.here conn cycles) ?_ (fun _ _ _ ↦ trivial)
      fun _ _ ↦ trivial
    rintro r s₂ ⟨h₂, hr⟩ b hb
    obtain ⟨c, hc, hcursor⟩ := hr b hb
    obtain ⟨i, hi, hi', hfloor, hopen⟩ := hlisted.floor h.ops hc
    refine ⟨c, i, hcursor, hi, hi'.trans_le h₂.tick_le, hfloor, ?_, fun hne ↦
      src.openAt_iff.mp (hopen hne)⟩
    rintro t rfl ht hdated
    exact lt_of_isoZ_lt ht hdated hfloor
  · intro e s₁ h₁
    exact fun b hb ↦ nomatch hb

/-! ## A queue of the epoch -/

/-- A row of this receiver for the cycle with this key. -/
def wsprRow (table receiver time : String) : NewRow where
  targetDb := "wspr"
  targetTable := table
  payloadJson := .ofJson (.obj [("time", .str time), ("rx_call", .str receiver)])

/-- A source that waits for these receivers.  It reads the times of the first cycles of the epoch in
two spellings, and `strptime` one of them. -/
def epochSource (expected : List String) : WsprCycleSource where
  fromBeginning := true
  expectedReporters := expected
  parseIso := fun text ↦
    if text = "1970-01-01T00:00:00Z" ∨ text = "1970-01-01T00:00:00+00:00" then some 0
    else if text = "1970-01-01T00:02:00Z" ∨ text = "1970-01-01T00:02:00+00:00" then some 120000000
    else none
  strptime := fun text ↦
    if text = "1970-01-01T00:00:00Z" then some 0
    else if text = "1970-01-01T00:02:00Z" then some 120000000
    else none

/-- A process over these rows while the clock reads `now` and nobody moves. -/
def standing (rows : List NewRow) (now : Reading) : Sys (Outside WsprMem) Act QueuedRecord where
  here := { sink := some (rows.foldl (fun q r ↦ q.insert 0 r) .empty), mem := {} }
  env := fun _ ↦ { now }

theorem still_standing (rows : List NewRow) (now : Reading) :
    Still (standing rows now).env (standing rows now).here.sink (standing rows now) :=
  ⟨rfl, fun _ ↦ rfl, fun _ ↦ rfl, rfl, rfl⟩

/-- A reported cycle of the epoch at a clock two minutes and a half past it: its batch is yielded. -/
theorem unfinished_cycles_wait_epoch :
    let src := epochSource ["AC0G/B4"]
    let s := standing [wsprRow "noise" "AC0G/B4" "1970-01-01T00:00:00Z"] 150
    ((src.source.yielded [] 1000 s).1.length = 1) ∧
    ∀ b ∈ (src.source.yielded [] 1000 s).1, ∃ cycle i,
      b.cursorAfter = .ofAscii cycle.toList ∧
      s.tick ≤ i ∧ i < (src.source.yields [] 1000 s).2.tick ∧
      cycle < isoZ (src.shipFloor (s.env i).now) ∧
      (∀ t, cycle = isoZ t → Dated t → Dated (src.shipFloor (s.env i).now) →
        t < src.shipFloor (s.env i).now) ∧
      (src.expectedReporters ≠ [] → src.Complete s.here.sink.rows cycle ∨
        src.PastBackstop (s.env i).now cycle ∨ src.strptime cycle = none) :=
  ⟨by decide +kernel, unfinished_cycles_wait _ (still_standing _ _) [] 1000⟩

/-- **Another spelling ships early.**  Without a gate a spot of the slot in progress is yielded when
its time is spelled with `+00:00`, and with one such a spot of a cycle no receiver has reported. -/
theorem other_spelling_ships_early :
    ¬ ((∀ b ∈ ((epochSource []).source.yielded [] 1000
          (standing [wsprRow "spots" "AC0G/B4" "1970-01-01T00:02:00+00:00"] 150)).1,
        ∀ q ∈ b.records, q.record.time < currentCycleFloor (fromTimestamp 150))) ∧
    ¬ ((∀ b ∈ ((epochSource ["AC0G/B4"]).source.yielded [] 1000
          (standing [wsprRow "spots" "AC0G/B4" "1970-01-01T00:00:00+00:00"] 150)).1,
        ∀ q ∈ b.records,
          (epochSource ["AC0G/B4"]).Complete
            (standing [wsprRow "spots" "AC0G/B4" "1970-01-01T00:00:00+00:00"] 150).here.sink.rows
            "1970-01-01T00:00:00+00:00" ∨
          q.record.time + wsprCycle +
              roundHalfEven ((epochSource ["AC0G/B4"]).backstopSec * 1000000) <
            fromTimestamp 150)) :=
  ⟨by decide +kernel, by decide +kernel⟩

end HsUploader
