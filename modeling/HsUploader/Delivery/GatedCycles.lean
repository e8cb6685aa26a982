import HsUploader.Delivery.World
import HsUploader.Sources.WsprUnfinished

/-!
# Gated cycles

With a set of expected receivers a cycle ships once each of them has written its noise rows of the
cycle.  A receiver writes its cycles in order, and of one cycle the noise rows last and in one
transaction: a noise row of a receiver tells that its rows of the cycle, and of every earlier one,
are in (`Reporting.all_in`).

The gate lists the queue and tests each cycle by a statement of its own, and the source lists and
reads the queue again after that, while the receivers go on writing.  The second listing may see
cycles the gate has not, but none past the ceiling, and what opened the ceiling has opened every
cycle before it (`Reporting.decided`).

## What is here

* `Reporting` — how receivers write, over the environment's moves: any number of other rows come in
  between, and each step of the source may see another queue.
* `Reporting.all_in` and `Reporting.decided` — what a noise row tells, and what a listing tells.
* `Cleared` — the cycles a ceiling may name, by the rows and the clock alone.
* `WholeBy` and `GatedInv` — a batch that holds every row an expected receiver ever writes of its
  cycle, and the invariant of a run.
* `gate_is_exact_and_cycles_whole` — the ceiling is the largest cleared cycle, and every batch of a
  run is whole unless its cycle was past the backstop.

Local rows are left out of both: they are not to be sent.
-/

set_option autoImplicit false

namespace HsUploader

open Prog

variable {ρ : Type}

/-! ## One spelling -/

/-- Each spots and noise row spells its time `YYYY-MM-DDTHH:MM:SSZ`, and `strptime` reads it. -/
def WsprCycleSource.Spelled (src : WsprCycleSource) (rows : List Row) : Prop :=
  ∀ r ∈ rows, r.targetDb = "wspr" → r.targetTable = "spots" ∨ r.targetTable = "noise" →
    ∃ t : ℤ, Dated t ∧ t % 1000000 = 0 ∧ r.payloadJson.jsonExtract "time" = .ok (.text (isoZ t)) ∧
      src.strptime (isoZ t) = some t

/-- A time of whole seconds whose text sorts no later is no later. -/
theorem le_of_isoZ_le {a b : ℤ} (ha : Dated a) (hb : Dated b) (hsec : a % 1000000 = 0)
    (h : isoZ a ≤ isoZ b) : a ≤ b := by
  by_contra hlt
  have hdiv : b / 1000000 < a / 1000000 := by omega
  exact absurd h (isoZ_lt_isoZ hb ha hdiv).not_ge

namespace WsprCycleSource

variable (src : WsprCycleSource)

/-- The cycle is queued past the cursor and before the slot in progress, and it and every cycle
queued between the cursor and it are complete or past the backstop. -/
def Cleared (rows : List Row) (now : ℚ) (cursor cycle : String) : Prop :=
  Queued rows cycle ∧ cursor < cycle ∧ cycle < isoZ (currentCycleFloor (fromTimestamp now)) ∧
    ∀ c, Queued rows c → cursor < c → c ≤ cycle → src.Complete rows c ∨ src.PastBackstop now c

variable {src}

theorem Spelled.timed {rows : List Row} (h : src.Spelled rows) : Timed rows := by
  intro r hr hdb htable
  obtain ⟨t, -, -, ht, -⟩ := h r hr hdb htable
  exact ⟨_, ht⟩

/-- The key of a queued cycle is the text of a time. -/
theorem Spelled.cycle {rows : List Row} (h : src.Spelled rows) {c : String} (hc : Queued rows c) :
    ∃ t : ℤ, Dated t ∧ t % 1000000 = 0 ∧ c = isoZ t ∧ src.strptime c = some t := by
  obtain ⟨r, hr, hcycle⟩ := hc
  obtain ⟨⟨hdb, htable⟩, htext⟩ := Row.cycle_eq_some.mp hcycle
  obtain ⟨t, hdated, hsec, ht, hread⟩ := h r hr hdb htable
  rw [ht] at htext
  cases htext
  exact ⟨t, hdated, hsec, rfl, hread⟩

/-- In one spelling a cycle is open when it is complete or past the backstop. -/
theorem openAt_spelled {rows rows' : List Row} (h : src.Spelled rows) {now : ℚ} {c : String}
    (hc : Queued rows c) :
    src.OpenAt rows' (src.forceBefore now) c ↔ src.Complete rows' c ∨ src.PastBackstop now c := by
  obtain ⟨t, -, -, -, hread⟩ := h.cycle hc
  rw [src.openAt_iff, hread]
  simp

theorem shippable_iff_cleared {rows : List Row} (h : src.Spelled rows) (now : ℚ)
    (cursor c : String) : src.Shippable rows now cursor c ↔ src.Cleared rows now cursor c := by
  rw [Shippable, Cleared]
  refine and_congr_right fun _ ↦ and_congr_right fun _ ↦ and_congr_right fun _ ↦ ?_
  exact forall_congr' fun d ↦ forall_congr' fun hd ↦ forall_congr' fun _ ↦ forall_congr' fun _ ↦
    openAt_spelled h hd

/-- What is past the backstop was past it for every earlier cycle. -/
theorem PastBackstop.mono {rows rows' : List Row} (h : src.Spelled rows)
    (h' : src.Spelled rows') {now : ℚ} {c d : String} (hc : Queued rows c) (hd : Queued rows' d)
    (hle : c ≤ d) (hpast : src.PastBackstop now d) : src.PastBackstop now c := by
  obtain ⟨t, hdated, hsec, rfl, hread⟩ := h.cycle hc
  obtain ⟨t', hdated', hsec', rfl, hread'⟩ := h'.cycle hd
  obtain ⟨u, hu, hlt⟩ := hpast
  rw [hread'] at hu
  cases hu
  have htt : t ≤ t' := le_of_isoZ_le hdated hdated' hsec hle
  exact ⟨t, hread, lt_of_le_of_lt (by gcongr) hlt⟩

end WsprCycleSource

/-! ## Receivers that report -/

/-- A row of an expected receiver. -/
def WsprCycleSource.Expects (src : WsprCycleSource) (r : Row) : Prop :=
  ∃ e ∈ src.expectedReporters, r.receiver = some e

/-- How the receivers write: nothing is deleted, every time is spelled alike, and an expected
receiver writes its cycles in order, what `json.loads` reads, and no row of a cycle after a noise row
of it. -/
structure Reporting (src : WsprCycleSource) (env : ℕ → Choice Act ρ) (sink : Sink) : Prop where
  keeps : NoDeletes env
  spelled : ∀ k, src.Spelled (sinkAfter env sink k).rows
  sound : ∀ k, ∀ r ∈ (sinkAfter env sink k).rows, src.Expects r → r.Sound
  ordered : ∀ k k', k ≤ k' → ∀ r ∈ (sinkAfter env sink k).rows, ∀ r' ∈ (sinkAfter env sink k').rows,
    r' ∉ (sinkAfter env sink k).rows → ∀ e ∈ src.expectedReporters, r.receiver = some e →
    r'.receiver = some e → ∀ c ∈ r.cycle, ∀ c' ∈ r'.cycle,
      c ≤ c' ∧ (r.targetTable = "noise" → c ≠ c')

/-- Every row of an expected receiver that is ever written for the cycle is in by step `n`. -/
def AllIn (src : WsprCycleSource) (env : ℕ → Choice Act ρ) (sink : Sink) (n : ℕ) (c : String) :
    Prop :=
  ∀ k, ∀ r ∈ (sinkAfter env sink k).rows, r.cycle = some c → src.Expects r →
    r ∈ (sinkAfter env sink n).rows

/-- By step `n` the cycle was past the backstop at a clock reading, or all its rows are in. -/
def Decided (src : WsprCycleSource) (env : ℕ → Choice Act ρ) (sink : Sink) (n : ℕ) (c : String) :
    Prop :=
  (∃ i < n, src.PastBackstop (env i).now c) ∨ AllIn src env sink n c

section reporting

variable {src : WsprCycleSource} {env : ℕ → Choice Act ρ} {sink : Sink}

theorem AllIn.mono (hkeeps : NoDeletes env) {n n' : ℕ} (hn : n ≤ n') {c : String}
    (h : AllIn src env sink n c) : AllIn src env sink n' c :=
  fun k r hr hcycle he ↦ hkeeps.rows_subset sink hn (h k r hr hcycle he)

theorem Decided.mono (hkeeps : NoDeletes env) {n n' : ℕ} (hn : n ≤ n') {c : String}
    (h : Decided src env sink n c) : Decided src env sink n' c :=
  h.imp (fun ⟨i, hi, hpast⟩ ↦ ⟨i, hi.trans_le hn, hpast⟩) (·.mono hkeeps hn)

/-- **A complete cycle is in**, and every earlier one with it. -/
theorem Reporting.all_in (h : Reporting src env sink) {k : ℕ} {c d : String}
    (hcomplete : src.Complete (sinkAfter env sink k).rows d) (hle : c ≤ d) :
    AllIn src env sink k c := by
  rintro k' r hr hcycle ⟨e, he, hreceiver⟩
  by_contra hmissing
  obtain ⟨-, noise, hnoise, htable, hcycle', hreceiver'⟩ := hcomplete e he
  rcases le_total k' k with hk | hk
  · exact hmissing (h.keeps.rows_subset sink hk hr)
  · obtain ⟨hdc, hne⟩ := h.ordered k k' hk noise hnoise r hr hmissing e he hreceiver' hreceiver d
      hcycle' c hcycle
    exact hne htable (le_antisymm hdc hle)

/-- **A listed cycle is decided**, also one that the gate has not seen. -/
theorem Reporting.decided (h : Reporting src env sink) {t ceiling c : String} {i l m k : ℕ}
    (hg : src.Gated env sink t ceiling i l m) (hmk : m ≤ k)
    (hq : Queued (sinkAfter env sink k).rows c) (hle : c ≤ ceiling) :
    Decided src env sink k c := by
  obtain ⟨k', hlk, hkm, hopen⟩ := hg.opened ceiling hg.queued hg.past le_rfl
  rcases (WsprCycleSource.openAt_spelled (h.spelled l) hg.queued).mp hopen with
    hcomplete | hpast
  · exact .inr ((h.all_in hcomplete hle).mono h.keeps (hkm.trans hmk))
  · refine .inl ⟨i, ?_, hpast.mono (h.spelled k) (h.spelled l) hq hg.queued hle⟩
    exact hg.read.trans_le (hg.listed.trans hmk)

end reporting

/-! ## The invariant -/

/-- The world of a pipeline over the cycles. -/
abbrev CycleWorld := World (Outside WsprMem) Act QueuedRecord (List QueuedRecord)

/-- Where a pump of such a pipeline is. -/
abbrev CyclePhase := Phase (Outside WsprMem) Act QueuedRecord (List QueuedRecord)

/-- The batch of a cycle that was not past the backstop by step `n` holds every row an expected
receiver ever writes of it, except for local ones. -/
def WholeBy (src : WsprCycleSource) (env : ℕ → Choice Act QueuedRecord) (sink : Sink) (n : ℕ)
    (b : RecordBatch QueuedRecord) : Prop :=
  ∀ c : String, b.cursorAfter.decodeAscii = some c.toList →
    (∃ i < n, src.PastBackstop (env i).now c) ∨
      ∀ k, ∀ r ∈ (sinkAfter env sink k).rows, r.cycle = some c → r.isLocal = false →
        src.Expects r → r ∈ rowsOf b.records

section whole

variable {src : WsprCycleSource} {env : ℕ → Choice Act QueuedRecord} {sink : Sink}

theorem WholeBy.mono {n n' : ℕ} (hn : n ≤ n') {b : RecordBatch QueuedRecord}
    (h : WholeBy src env sink n b) : WholeBy src env sink n' b :=
  fun c hc ↦ (h c hc).imp_left fun ⟨i, hi, hpast⟩ ↦ ⟨i, hi.trans_le hn, hpast⟩

/-- The batch built of a decided cycle is whole. -/
theorem Reporting.wholeBy (h : Reporting src env sink) {n k : ℕ} (hn : n ≤ k) {c : String}
    (hc : Decided src env sink n c) {b : RecordBatch QueuedRecord}
    (hb : WsprCycleSource.BuiltFrom (sinkAfter env sink k) c b) : WholeBy src env sink n b := by
  intro d hd
  rw [hb.cursor, Bytes.decodeAscii_ofAscii hb.ascii, Option.some.injEq, String.toList_inj] at hd
  subst hd
  refine hc.imp_right fun hin k' r hr hcycle hlocal he ↦ ?_
  have hrk : r ∈ (sinkAfter env sink k).rows := h.keeps.rows_subset sink hn (hin k' r hr hcycle he)
  obtain ⟨q, hq, hrow⟩ := hb.rows r hrk hcycle hlocal (h.sound k' r hr he)
  exact List.mem_map.mpr ⟨q, hq, hrow⟩

end whole

/-- The generator has cycles before it that are decided. -/
def Waiting (src : WsprCycleSource) (env : ℕ → Choice Act QueuedRecord) (sink : Sink) (n : ℕ)
    (rest : List (SqlM WsprMem QueuedRecord (Option (RecordBatch QueuedRecord)))) : Prop :=
  ∃ (conn : ℕ) (cycles : List String), rest = cycles.map (src.buildBatchForCycle conn) ∧
    ∀ c ∈ cycles, Decided src env sink n c

/-- What a phase of the pump knows of the batch and the generator in hand. -/
def GatedPhase (src : WsprCycleSource) (env : ℕ → Choice Act QueuedRecord) (sink : Sink) (n : ℕ) :
    CyclePhase → Prop
  | .reading rest _ | .shipped _ _ rest | .advanced _ _ rest => Waiting src env sink n rest
  | .fetched b rest _ => WholeBy src env sink n b ∧ Waiting src env sink n rest
  | _ => True

/-- The invariant: every batch that was shipped is whole. -/
structure GatedInv (src : WsprCycleSource) (env : ℕ → Choice Act QueuedRecord) (sink : Sink)
    (ph : CyclePhase) (w : CycleWorld) : Prop where
  moved : Moved env sink w.sys w.sys
  shipping : ∀ b, .shipping b ∈ w.trace → WholeBy src env sink w.sys.tick b
  phase : GatedPhase src env sink w.sys.tick ph

section inv

variable {src : WsprCycleSource} {env : ℕ → Choice Act QueuedRecord} {sink : Sink}
  {ph ph' : CyclePhase} {w : CycleWorld}

theorem Waiting.mono (hkeeps : NoDeletes env) {n n' : ℕ} (hn : n ≤ n')
    {rest : List (SqlM WsprMem QueuedRecord (Option (RecordBatch QueuedRecord)))}
    (h : Waiting src env sink n rest) : Waiting src env sink n' rest := by
  obtain ⟨conn, cycles, hrest, hcycles⟩ := h
  exact ⟨conn, cycles, hrest, fun c hc ↦ (hcycles c hc).mono hkeeps hn⟩

theorem GatedPhase.mono (hkeeps : NoDeletes env) {n n' : ℕ} (hn : n ≤ n')
    (h : GatedPhase src env sink n ph) : GatedPhase src env sink n' ph := by
  cases ph with
  | reading rest any => exact Waiting.mono hkeeps hn h
  | shipped b o rest => exact Waiting.mono hkeeps hn h
  | advanced b o rest => exact Waiting.mono hkeeps hn h
  | fetched b rest any => exact ⟨h.1.mono hn, h.2.mono hkeeps hn⟩
  | _ => trivial

/-- The source at work. -/
theorem GatedInv.moves (h : GatedInv src env sink ph w) {s' : Sys (Outside WsprMem) Act QueuedRecord}
    (hmoved : Moved env sink w.sys s') (hph : GatedPhase src env sink s'.tick ph') :
    GatedInv src env sink ph' { w with sys := s' } where
  moved := hmoved.here
  shipping := fun b hb ↦ (h.shipping b hb).mono hmoved.tick_le
  phase := hph

/-- A phase that knows no more. -/
theorem GatedInv.to (h : GatedInv src env sink ph w)
    (hph : GatedPhase src env sink w.sys.tick ph') : GatedInv src env sink ph' w :=
  { h with phase := hph }

theorem GatedInv.done (h : GatedInv src env sink ph w) : GatedInv src env sink .done w := h.to trivial

/-- A method of the store. -/
theorem GatedInv.stored (h : GatedInv src env sink ph w) (s : Store (List QueuedRecord))
    (hph : GatedPhase src env sink w.sys.tick ph') : GatedInv src env sink ph' (w.stored s) :=
  ⟨h.moved, h.shipping, hph⟩

theorem GatedInv.noted (h : GatedInv src env sink ph w)
    {e : Event QueuedRecord (List QueuedRecord)}
    (he : ∀ b, e = .shipping b → WholeBy src env sink w.sys.tick b)
    (hph : GatedPhase src env sink w.sys.tick ph') : GatedInv src env sink ph' (w.noted e) := by
  refine ⟨h.moved, fun b hb ↦ ?_, hph⟩
  rcases List.mem_append.mp hb with hb | hb
  · exact h.shipping b hb
  · exact he b (List.mem_singleton.mp hb).symm

/-- The environment's move before a step. -/
theorem GatedInv.next (hkeeps : NoDeletes env) (h : GatedInv src env sink ph w) :
    GatedInv src env sink ph w.next :=
  h.moves h.moved.next (h.phase.mono hkeeps h.moved.next.tick_le)

/-- A program of the source. -/
theorem GatedInv.onSys {α : Type} {p : SqlM WsprMem QueuedRecord α}
    {Q : α → Sys (Outside WsprMem) Act QueuedRecord → Prop} (h : GatedInv src env sink ph w)
    (hp : From env sink w.sys p Q) {ph' : α → CyclePhase}
    (hph : ∀ a s', Moved env sink w.sys s' → Q a s' → GatedPhase src env sink s'.tick (ph' a)) :
    wp (HsUploader.onSys p) (fun a ↦ GatedInv src env sink (ph' a))
      (fun _ ↦ GatedInv src env sink .done) (GatedInv src env sink .done) w := by
  rw [wp_onSys]
  refine wp_mono hp ?_ ?_ ?_
  · exact fun a s' ⟨hmoved, ha⟩ ↦ h.moves hmoved (hph a s' hmoved ha)
  · exact fun e s' hmoved ↦ h.moves hmoved trivial
  · exact fun s' ⟨hmoved, _⟩ ↦ h.moves hmoved trivial

/-- A call of the transport. -/
theorem GatedInv.call (hkeeps : NoDeletes env) {call : Event QueuedRecord (List QueuedRecord)}
    {answer : Outcome QueuedRecord → Event QueuedRecord (List QueuedRecord)}
    {ph' : Outcome QueuedRecord → CyclePhase} (h : GatedInv src env sink ph w)
    (hcall : ∀ b, call = .shipping b → WholeBy src env sink w.sys.tick b)
    (hanswer : ∀ o b, answer o ≠ .shipping b)
    (hph : ∀ o n, GatedPhase src env sink n ph → GatedPhase src env sink n (ph' o)) :
    wp (do
      note call
      let outcome ← HsUploader.onSys callOpen
      note (answer outcome)
      pure outcome) (fun o ↦ GatedInv src env sink (ph' o)) (fun _ ↦ GatedInv src env sink .done)
      (GatedInv src env sink .done) w := by
  have hb : GatedInv src env sink ph (w.noted call).next := (h.noted hcall h.phase).next hkeeps
  refine wp_callNoted (fun _ ↦ hb.done) (fun _ _ _ ↦ hb.done) fun o _ _ ↦ ?_
  exact hb.noted (fun b he ↦ absurd he (hanswer o b)) (hph o _ hb.phase)

end inv

/-- What the generator has before it is decided. -/
theorem Reporting.waiting {src : WsprCycleSource} {env : ℕ → Choice Act QueuedRecord} {sink : Sink}
    (h : Reporting src env sink) (hexpected : src.expectedReporters ≠ []) {cursor : Bytes} {n₀ : ℕ}
    {conn : ℕ} {cycles : List String} {s' : Sys (Outside WsprMem) Act QueuedRecord}
    (hlisted : src.Listed env sink cursor n₀ cycles s') :
    Waiting src env sink s'.tick (cycles.map (src.buildBatchForCycle conn)) := by
  refine ⟨conn, cycles, rfl, fun c hc ↦ ?_⟩
  obtain ⟨t, ceiling, m, k, -, hmk, hk, -, hceil, hlists⟩ := hlisted (List.ne_nil_of_mem hc)
  rw [WsprCycleSource.Ceiling, if_neg hexpected] at hceil
  obtain ⟨i, l, -, hg⟩ := hceil
  have hle : c ≤ ceiling := (hlists.under c hc).elim le_of_lt fun h ↦ h.2.le
  exact (h.decided hg hmk (hlists.queued c hc) hle).mono h.keeps hk

/-- **Each step of a pump ships whole cycles.** -/
theorem gatedInv_rules {src : WsprCycleSource} {env : ℕ → Choice Act QueuedRecord} {sink : Sink}
    (u : Uploader) (set : PipelineSettings) (hrep : Reporting src env sink)
    (hexpected : src.expectedReporters ≠ []) :
    PumpRules u (set.pipeline src.source) (GatedInv src env sink) (GatedInv src env sink .done)
      (GatedInv src env sink .done) where
  breathe _ _ h := by
    split
    · exact (h.next hrep.keeps).done
    · exact h.next hrep.keeps
  gate _ _ _ h := h.noted nofun h.phase
  attempt _ _ _ _ h := h.stored _ h.phase
  heldStart _ _ h := h.done
  heldDraining _ _ _ h := h.done
  heldFetched _ _ _ _ _ h := h.done
  enter _ h := h.to trivial
  pop _ _ _ _ _ h hg _ := (hg.keeps h fun h ↦ h.noted nofun h.phase).stored _ trivial
  replay d w h := h.call hrep.keeps nofun nofun fun _ _ _ ↦ trivial
  replayAdvance _ _ _ _ h _ _ := h.stored _ trivial
  replayNoCursor _ _ _ h _ _ := h.to trivial
  replayCommit d w h := h.onSys (.pure (Q := fun _ _ ↦ True) h.moved trivial) fun _ _ _ _ ↦ trivial
  requeue _ _ _ _ _ h _ _ _ := h.stored _ trivial
  requeueRaised _ _ _ h _ _ _ := h.done
  replayDead _ _ _ _ h _ _ := h.stored _ trivial
  replaySpent _ _ _ _ h _ _ _ := h.stored _ trivial
  replayOdd _ _ _ h _ _ _ := h.to trivial
  queued _ h _ := h.elim (·.done) (·.done)
  queueEmpty _ h _ := h.elim (·.to trivial) (·.to trivial)
  noBudget _ _ h _ := h.done
  cursor _ _ _ h _ := h.to trivial
  cursorRaised _ _ _ h _ := h.done
  iter c any w h := by
    refine h.onSys (WsprCycleSource.from_iterBatches h.moved c (set.pipeline src.source).limit) ?_
    rintro rest s' hmoved ⟨conn, cycles, rfl, -, hlisted⟩
    exact hrep.waiting hexpected hlisted
  resume p rest any w h := by
    obtain ⟨conn, cycles, hrest, hcycles⟩ := h.phase
    match cycles, hrest with
    | c :: cycles, hrest =>
      obtain ⟨rfl, rfl⟩ := List.cons.inj hrest
      rw [wp_onSys]
      refine wp_mono (WsprCycleSource.from_buildBatchForCycle h.moved conn c) ?_ ?_ ?_
      · rintro b s' ⟨hmoved, k, hk, hk', hb, -⟩
        have hwaiting : Waiting src env sink s'.tick (cycles.map (src.buildBatchForCycle conn)) :=
          ⟨conn, cycles, rfl, fun d hd ↦
            (hcycles d (List.mem_cons_of_mem c hd)).mono hrep.keeps hmoved.tick_le⟩
        cases b with
        | none => exact h.moves hmoved hwaiting
        | some b =>
          dsimp only
          split
          · exact h.moves hmoved hwaiting
          · exact h.moves hmoved ⟨(hrep.wholeBy hk (hcycles c List.mem_cons_self) (hb b rfl)).mono
              hmoved.tick_le, hwaiting⟩
      · exact fun e s' hmoved ↦ h.moves hmoved trivial
      · exact fun s' ⟨hmoved, _⟩ ↦ h.moves hmoved trivial
  exhausted _ _ h := h.done
  again _ h := h.to trivial
  ship b rest any w h := by
    obtain ⟨w₀, h₀, hg⟩ := h
    have h := hg.keeps h₀ fun h ↦ h.noted nofun h.phase
    exact h.call hrep.keeps (fun b' he ↦ by cases he; exact h.phase.1) nofun fun _ _ hph ↦ hph.2
  acked _ _ _ _ _ h _ := h.stored _ h.phase
  ackedPart _ _ _ _ _ h _ := h.stored _ h.phase
  commit b o rest w h :=
    h.onSys (.pure (Q := fun _ s' ↦ s' = w.sys) h.moved rfl) fun _ s' _ hs ↦ by
      subst hs
      exact h.phase
  serialize b o rest _ w h := by
    rw [wp_onSys]
    change wp (do let _ ← callOpen; pure b.records) _ _ _ w.sys
    rw [wp_bind, wp_callOpen]
    split
    · exact (h.next hrep.keeps).done
    · split
      · exact (h.next hrep.keeps).to trivial
      · exact (h.next hrep.keeps).done
  enqueueRaised _ _ _ _ h _ := h.done
  enqueue _ _ _ _ _ _ h _ := h.stored _ trivial
  dead _ _ _ _ _ h _ _ := h.stored _ trivial
  unhandled _ _ _ _ _ h _ := h.done
  enough _ _ h := h.done

/-- **The gate is exact, and what passes it is whole.**  Over a queue in one spelling
`shippable_ceiling` answers the largest cycle that is cleared, and nothing where none is.  And in
every run of a gated pipeline among receivers that report, each batch of a cycle that was not past
the backstop holds every row an expected receiver ever writes of it, except for local ones. -/
theorem gate_is_exact_and_cycles_whole (src : WsprCycleSource) :
    (∀ (env : ℕ → Choice Act QueuedRecord) (q : Queue) (s : Sys (Outside WsprMem) Act QueuedRecord),
      Still env (some q) s → src.Spelled q.rows → ∀ cursor, ∃ ceiling s',
        src.shippableCeiling cursor s = (.ok ceiling, s') ∧
        (∀ c, ceiling = some c ↔ src.Cleared q.rows (env s.tick).now cursor c ∧
          ∀ d, src.Cleared q.rows (env s.tick).now cursor d → d ≤ c) ∧
        (ceiling = none ↔ ∀ c, ¬ src.Cleared q.rows (env s.tick).now cursor c)) ∧
    ∀ (u : Uploader) (set : PipelineSettings) (w : CycleWorld), src.expectedReporters ≠ [] →
      Reporting src w.sys.env w.sys.here.sink → w.sys.tick = 0 → w.trace = [] → ∀ n b,
        .shipping b ∈ (run u (set.pipeline src.source) src.restart n w).trace →
          WholeBy src w.sys.env w.sys.here.sink
            (run u (set.pipeline src.source) src.restart n w).sys.tick b := by
  constructor
  · intro env q s h hspelled cursor
    have hwp : wp (src.shippableCeiling cursor)
        (fun o s' ↦ (src.IsCeiling q.rows (env s.tick).now cursor o ∧ Readable q.rows) ∧ Looked s s')
        (fun _ s' ↦ ¬ Readable q.rows ∧ Looked s s') (fun _ ↦ False) s :=
      WsprCycleSource.wp_shippableCeiling h cursor
    have hship := WsprCycleSource.shippable_iff_cleared hspelled (env s.tick).now cursor
    unfold Prog.wp at hwp
    rcases hr : src.shippableCeiling cursor s with ⟨ceiling | _ | _ | _, s'⟩ <;> rw [hr] at hwp
    · refine ⟨ceiling, s', rfl, ?_⟩
      have hceiling := hwp.1.1
      simp only [← hship]
      cases ceiling with
      | none =>
        refine ⟨fun c ↦ ⟨nofun, fun ⟨hc, _⟩ ↦ absurd hc (hceiling c)⟩, fun _ ↦ hceiling, fun _ ↦ rfl⟩
      | some c =>
        obtain ⟨hc, hmax⟩ := hceiling
        refine ⟨fun d ↦ ⟨fun he ↦ ?_, fun ⟨hd, hle⟩ ↦ ?_⟩, nofun, fun hno ↦ absurd hc (hno c)⟩
        · cases he
          exact ⟨hc, hmax⟩
        · rw [le_antisymm (hmax d hd) (hle c hc)]
    · exact absurd hspelled.timed.readable hwp.1
    · exact hwp.elim
    · exact hwp.elim
  · intro u set w hexpected hrep htick htrace n b hb
    have hinit : GatedInv src w.sys.env w.sys.here.sink .done w := by
      refine ⟨⟨rfl, ?_, le_rfl, fun _ ha ↦ ha⟩, fun b hb ↦ ?_, trivial⟩
      · rw [htick]
        rfl
      · rw [htrace] at hb
        cases hb
    refine ((gatedInv_rules u set hrep hexpected).run (fun _ h ↦ h) (fun w h ↦ ?_)
      (fun _ h ↦ h.to trivial) hinit n).shipping b hb
    exact ⟨⟨h.moved.env_eq, h.moved.sink_eq, le_rfl, fun _ ha ↦ ha⟩, h.shipping, trivial⟩

/-- The world of a pipeline over these rows while the clock reads `now` and nobody writes. -/
def standingWorld (rows : List NewRow) (now : Reading) : CycleWorld where
  sys := standing rows now
  store := {}

/-- A spot and a noise row of the first cycle of the epoch. -/
def epochRows : List NewRow :=
  [wsprRow "spots" "AC0G/B4" "1970-01-01T00:00:00Z",
    wsprRow "noise" "AC0G/B4" "1970-01-01T00:00:00Z"]

theorem spelled_epochRows :
    (epochSource ["AC0G/B4"]).Spelled (standing epochRows 150).here.sink.rows := by
  intro r hr _ _
  have htext : ∀ r ∈ (standing epochRows 150).here.sink.rows,
      r.payloadJson.jsonExtract "time" = .ok (.text (isoZ 0)) := by decide
  exact ⟨0, by decide, rfl, htext r hr, by decide⟩

/-- What others do who insert these rows, all in one step. -/
def arrival (step : ℕ) (rows : List NewRow) (now : ℕ → Reading) : ℕ → Choice Act QueuedRecord :=
  fun k ↦ { ops := if k = step then rows.map fun r ↦ .sink (.insert 0 r) else [], now := now k }

/-- The world of a pipeline over these rows while others move. -/
def movingWorld (rows : List NewRow) (env : ℕ → Choice Act QueuedRecord) : CycleWorld where
  sys := { standing rows 0 with env }
  store := {}

theorem noDeletes_arrival (step : ℕ) (rows : List NewRow) (now : ℕ → Reading) :
    NoDeletes (arrival step rows now) := by
  intro k op hop hit
  change op ∈ (if k = step then rows.map fun r ↦ Act.sink (.insert 0 r) else []) at hop
  split at hop
  · obtain ⟨r, -, rfl⟩ := List.mem_map.mp hop
    nofun
  · cases hop

theorem sinkAfter_arrival (first rows : List NewRow) (step : ℕ) (now : ℕ → Reading) (k : ℕ) :
    sinkAfter (arrival step rows now) (sinkOf first) k =
      sinkOf (if k ≤ step then first else first ++ rows) := by
  have honce : ∀ k, k ≠ step → (arrival step rows now k).ops = [] := fun k hk ↦ if_neg hk
  rw [sinkAfter_once honce]
  split
  · rfl
  · change (if step = step then _ else _ : List Act).foldl _ _ = _
    rw [if_pos rfl, List.foldl_map, sinkOf, sinkOf, List.foldl_append]
    exact List.foldl_hom some fun q r ↦ rfl

/-- The receiver's spot of the cycle has been written, and its other spot and its noise row are on
their way. -/
def lateReport : ℕ → Choice Act QueuedRecord := arrival 9 epochRows fun k ↦ .of (150 + k)

theorem reporting_lateReport :
    Reporting (epochSource ["AC0G/B4"]) lateReport (sinkOf (epochRows.take 1)) := by
  have hsink : ∀ k, sinkAfter lateReport (sinkOf (epochRows.take 1)) k =
      sinkOf (if k ≤ 9 then epochRows.take 1 else epochRows.take 1 ++ epochRows) :=
    sinkAfter_arrival _ _ _ _
  have hrows : ∀ k, ∀ r ∈ (sinkAfter lateReport (sinkOf (epochRows.take 1)) k).rows,
      r.payloadJson.jsonExtract "time" = .ok (.text (isoZ 0)) ∧ r.payloadJson.IsObject ∧
        r.cycle = some (isoZ 0) := by
    intro k
    rw [hsink]
    split <;> decide
  refine ⟨noDeletes_arrival _ _ _, fun k r hr _ _ ↦ ?_, fun k r hr _ ↦ ?_,
    fun k k' _ r hr r' hr' hnew e _ _ _ c hc c' hc' ↦ ?_⟩
  · exact ⟨0, by decide, rfl, (hrows k r hr).1, by decide⟩
  · intro message hcorrupt
    obtain ⟨ms, hms⟩ := Payload.isObject_iff.mp (hrows k r hr).2.1
    rw [hms] at hcorrupt
    cases hcorrupt
  · rw [(hrows k r hr).2.2] at hc
    rw [(hrows k' r' hr').2.2] at hc'
    cases hc
    cases hc'
    refine ⟨le_rfl, fun htable ↦ ?_⟩
    -- a noise row is in once everything is
    rw [hsink] at hr hnew
    rw [hsink] at hr'
    split at hr
    · have hspots : ∀ r ∈ (sinkOf (epochRows.take 1)).rows, r.targetTable = "spots" := by
        decide
      exact absurd ((hspots r hr).symm.trans htable) (by decide)
    · rename_i hk
      rw [if_neg hk] at hnew
      rw [if_neg (fun h ↦ hk (le_trans ‹k ≤ k'› h))] at hr'
      exact absurd hr' hnew

/-- One spot is queued, and the pump after the first finds it reported: its cycle is delivered with
the rows that came in between. -/
theorem gate_is_exact_and_cycles_whole_epoch :
    (deliveredRows (run {} (spotSettings.pipeline (epochSource ["AC0G/B4"]).source)
      (epochSource ["AC0G/B4"]).restart 1
      (movingWorld (epochRows.take 1) lateReport)).trace).length = 0 ∧
    (deliveredRows (run {} (spotSettings.pipeline (epochSource ["AC0G/B4"]).source)
      (epochSource ["AC0G/B4"]).restart 2
      (movingWorld (epochRows.take 1) lateReport)).trace).length = 3 ∧
    (∃ ceiling s', (epochSource ["AC0G/B4"]).shippableCeiling "" (standing epochRows 150) =
        (.ok ceiling, s') ∧
      (∀ c, ceiling = some c ↔
        (epochSource ["AC0G/B4"]).Cleared (standing epochRows 150).here.sink.rows (150 : Reading) "" c ∧
          ∀ d, (epochSource ["AC0G/B4"]).Cleared (standing epochRows 150).here.sink.rows
            (150 : Reading) "" d → d ≤ c) ∧
      (ceiling = none ↔ ∀ c, ¬ (epochSource ["AC0G/B4"]).Cleared
        (standing epochRows 150).here.sink.rows (150 : Reading) "" c)) ∧
    ∀ b, .shipping b ∈ (run {} (spotSettings.pipeline (epochSource ["AC0G/B4"]).source)
        (epochSource ["AC0G/B4"]).restart 2 (movingWorld (epochRows.take 1) lateReport)).trace →
      WholeBy (epochSource ["AC0G/B4"]) lateReport (sinkOf (epochRows.take 1))
        (run {} (spotSettings.pipeline (epochSource ["AC0G/B4"]).source)
          (epochSource ["AC0G/B4"]).restart 2
          (movingWorld (epochRows.take 1) lateReport)).sys.tick b :=
  ⟨by decide +kernel, by decide +kernel,
    (gate_is_exact_and_cycles_whole (epochSource ["AC0G/B4"])).1 _ _ _
      (still_standing epochRows 150) spelled_epochRows "",
    (gate_is_exact_and_cycles_whole (epochSource ["AC0G/B4"])).2 {} spotSettings
      (movingWorld (epochRows.take 1) lateReport) (List.cons_ne_nil _ _) reporting_lateReport rfl
      rfl 2⟩

end HsUploader
