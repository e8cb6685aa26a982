import HsUploader.Sources.Twins

/-!
# Local rows and the source of WSPR cycles

The selections of `WsprCycleSource` carry `local = 0`, those of the completion gate do not: a noise
row that is marked local may complete a cycle, and a spot that is may hold one up.  Where the gate
treats the cycles of shared rows the same over two queues (`WsprCycleSource.SameGate`), the source
yields the same batches of both (`WsprCycleSource.both_yields`).

## What is here

* `WsprMem.Like` and `WsprTwins` — the two objects.
* `Admitted` and `SameGate` — what the gate makes of a cycle, and that it makes the same of it over
  both queues.
* `Opens`, `Walks`, `SameCycles` — which cycles the two generators go through; one queue may list
  cycles of local rows that the other does not.
* `wp_listCycles` and `both_yields` — the listing, and the batches.
-/

set_option autoImplicit false

namespace HsUploader

open Prog

variable {α : Type}

/-! ## The source of WSPR cycles -/

/-- The cycle before the one in progress, where a source begins that has no cursor. -/
def presentAnchor (now : ℚ) : String := isoZ (currentCycleFloor (fromTimestamp now) - wsprCycle)

/-- What two sources hold that differ in what their filters remember alone: neither filter remembers
a missing column, and without a cursor both begin at the anchor. -/
structure WsprMem.Like (now : ℚ) (anchor : String) (m m' : WsprMem) : Prop where
  conn : m.conn = m'.conn
  opened : m.opened = m'.opened
  producerCol : m.producerCol = m'.producerCol
  startAtAnchor : m.startAtAnchor = m'.startAtAnchor
  anchored : m.startAtAnchor.getD (presentAnchor now) = anchor
  sighted : m.localRows.Sighted
  sighted' : m'.localRows.Sighted

namespace WsprCycleSource

variable (src : WsprCycleSource) {now : ℚ} {anchor : String} {k k' : Sink}

/-- Two processes of the source. -/
abbrev WsprTwins (now : ℚ) (anchor : String) (k k' : Sink) :=
  Twins (ρ := QueuedRecord) (WsprMem.Like now anchor) (fun _ _ ↦ True) now k k'

/-- A program that runs alike over both queues. -/
abbrev Steady (now : ℚ) (anchor : String) (k k' : Sink) (p : WsprM α) : Prop :=
  Both (WsprTwins now anchor k k') (Alike (· = ·)) p p

theorem steady_connect : Steady now anchor k k' connect := by
  rw [Steady, connect]
  refine both_mem.bind (fun m m' hM ↦ ?_) fun _ ↦ rfl
  rw [hM.conn, hM.opened]
  cases m'.conn with
  | some c => exact .pure rfl
  | none =>
    -- what the ghost says of the column may differ
    have hask : Both (WsprTwins now anchor k k') (Alike fun _ _ ↦ True)
        (query fun s ↦ .ok s.hasLocal) (query fun s ↦ .ok s.hasLocal) := both_query trivial
    refine hask.bind (fun _ _ _ ↦ ?_) fun _ ↦ rfl
    refine (both_setMem fun m m' hM ↦ ?_).bind (fun _ _ _ ↦ .pure rfl) fun _ ↦ rfl
    exact ⟨by rw [hM.opened], by rw [hM.opened], hM.producerCol, hM.startAtAnchor, hM.anchored, hM.sighted,
      hM.sighted'⟩

theorem steady_probeLocal (hk : SameButLocal k k') (conn : ℕ) :
    Both (WsprTwins now anchor k k') (Alike fun b b' ↦ b = true ∧ b' = true) (probeLocal conn)
      (probeLocal conn) := by
  rw [probeLocal]
  refine both_mem.bind (fun m m' hM ↦ ?_) fun _ ↦ rfl
  refine (both_probe hk hM.sighted hM.sighted' conn).bind (fun f f' hf ↦ ?_) fun _ ↦ rfl
  exact (both_setMem fun m m' hM ↦ ⟨hM.conn, hM.opened, hM.producerCol, hM.startAtAnchor, hM.anchored,
    fun _ ↦ hf.1, fun _ ↦ hf.2⟩).bind (fun _ _ _ ↦ .pure hf) fun _ ↦ rfl

theorem steady_hasProducer (hk : SameButLocal k k') (conn : ℕ) :
    Steady now anchor k k' (hasProducer conn) := by
  have hprobe : Steady now anchor k k' (hasProducer.probe conn) := by
    rw [Steady, hasProducer.probe]
    have hask : Steady now anchor k k' (query fun s ↦ .ok s.hasProducer) :=
      both_query (alike_of_eq (by rw [hk.producer]))
    refine hask.bind (fun b _ h ↦ ?_) fun _ ↦ rfl
    subst h
    exact (both_setMem fun m m' hM ↦ ⟨hM.conn, hM.opened, rfl, hM.startAtAnchor, hM.anchored, hM.sighted,
      hM.sighted'⟩).bind (fun _ _ _ ↦ .pure rfl) fun _ ↦ rfl
  rw [Steady, hasProducer]
  refine both_mem.bind (fun m m' hM ↦ ?_) fun _ ↦ rfl
  rw [hM.producerCol]
  rcases m'.producerCol with _ | ⟨c, b⟩
  · exact hprobe
  · dsimp only
    split
    · exact .pure rfl
    · exact hprobe

/-- The text a source begins past. -/
def cursorText (anchor : String) (cursor : Bytes) : Option String :=
  if !cursor.isEmpty then cursor.decodeAscii.map String.ofList
  else some (if src.fromBeginning then "" else anchor)

theorem steady_effectiveCursor (cursor : Bytes) :
    Both (WsprTwins now anchor k k') (Alike fun a b ↦ a = b ∧ src.cursorText anchor cursor = some a)
      (src.effectiveCursor cursor) (src.effectiveCursor cursor) := by
  rw [effectiveCursor, cursorText]
  split
  · cases cursor.decodeAscii with
    | some cs => exact .pure ⟨rfl, rfl⟩
    | none => exact .raise rfl
  · split
    · exact .pure ⟨rfl, rfl⟩
    · refine both_mem.bind (fun m m' hM ↦ ?_) fun _ ↦ rfl
      have hanchored := hM.anchored
      rw [hM.startAtAnchor] at hanchored ⊢
      cases ha : m'.startAtAnchor with
      | some a =>
        rw [ha] at hanchored
        exact .pure ⟨rfl, congrArg some hanchored.symm⟩
      | none =>
        rw [ha] at hanchored
        refine both_clock.bind (fun c c' hc ↦ ?_) fun _ ↦ rfl
        rw [hc.1, hc.2]
        exact (both_setMem fun m m' hM ↦ ⟨hM.conn, hM.opened, hM.producerCol, rfl, hanchored,
          hM.sighted, hM.sighted'⟩).bind
            (fun _ _ _ ↦ .pure ⟨rfl, congrArg some hanchored.symm⟩) fun _ ↦ rfl

/-! ### One cycle -/

/-- `local = 0` stands before the payload is looked at, so a selection sees no local row. -/
theorem steady_selectCycle (hk : SameButLocal k k') (cycle : String) {p q : Row → Bool}
    (cs : List Clause) :
    Steady now anchor k k' (selectCycle cycle (.column p :: .column q :: localClause :: cs)) := by
  have hlocal : ∀ r : Row, r.isLocal = true →
      holds (.column p :: .column q :: localClause :: cs) r = .ok false := by
    intro r hr
    rw [holds_column, holds_column, holds_localClause hr]
    split_ifs <;> rfl
  exact both_selection (alike_of_eq
    (hk.matching_eq (fun r _ hr ↦ hlocal r hr) fun r _ hr ↦ hlocal r hr))

theorem steady_judge (verdict : List (String × Bool)) (riders : List (String × Json)) :
    Steady now anchor k k' (judge verdict riders) := by
  induction riders generalizing verdict with
  | nil => exact .pure rfl
  | cons rider riders ih =>
    obtain ⟨producer, payload⟩ := rider
    rw [Steady, judge]
    split
    · exact (ih verdict).bind (fun _ _ h ↦ .pure (by rw [h]; rfl)) fun _ ↦ rfl
    · refine both_breathe.bind (fun _ _ _ ↦ ?_) fun _ ↦ rfl
      refine both_switches.bind (fun sw _ h ↦ ?_) fun _ ↦ rfl
      subst h
      refine (Both.ofExcept (alike_refl _)).bind (fun state _ h ↦ ?_) fun _ ↦ rfl
      subst h
      exact (ih _).bind (fun _ _ h ↦ .pure (by rw [h]; rfl)) fun _ ↦ rfl

theorem steady_judgeRiders (riders : List (String × Json)) :
    Steady now anchor k k' (judgeRiders riders) := by
  rw [Steady, judgeRiders]
  split
  · exact .pure rfl
  · refine (Both.attempt (R := Alike (· = ·)) ?_).bind (V := Alike (· = ·))
      (fun x y h ↦ .pure ?_) fun _ ↦ rfl
    · refine both_breathe.bind (fun _ _ _ ↦ ?_) fun _ ↦ rfl
      refine both_switches.bind (fun sw _ h ↦ ?_) fun _ ↦ rfl
      subst h
      split
      · exact steady_judge _ _
      · exact .pure rfl
    · match x, y, h with
      | .error _, .error _, _ => rfl
      | .ok _, .ok _, h => exact h

theorem steady_pskRecords (hk : SameButLocal k k') (conn : ℕ) (cycle : String) :
    Steady now anchor k k' (src.pskRecords conn true cycle) := by
  rw [Steady, pskRecords]
  split
  · refine (steady_hasProducer hk conn).bind (fun col _ h ↦ ?_) fun _ ↦ rfl
    subst h
    refine (steady_selectCycle hk cycle _).bind (fun rows _ h ↦ ?_) fun _ ↦ rfl
    subst h
    refine (Both.ofExcept (alike_refl _)).bind (fun riders _ h ↦ ?_) fun _ ↦ rfl
    subst h
    refine (steady_judgeRiders _).bind (fun rides _ h ↦ ?_) fun _ ↦ rfl
    subst h
    exact .ofExcept (alike_refl _)
  · exact .pure rfl

/-- The batch of a cycle is the same of both. -/
theorem steady_buildBatchForCycle (hk : SameButLocal k k') (conn : ℕ) (cycle : String) :
    Steady now anchor k k' (src.buildBatchForCycle conn cycle) := by
  rw [Steady, buildBatchForCycle]
  refine (steady_probeLocal hk conn).bind (fun b b' h ↦ ?_) fun _ ↦ rfl
  obtain ⟨rfl, rfl⟩ := h
  refine (steady_selectCycle hk cycle _).bind (fun rows _ h ↦ ?_) fun _ ↦ rfl
  subst h
  refine (Both.ofExcept (alike_refl _)).bind (fun records _ h ↦ ?_) fun _ ↦ rfl
  subst h
  refine (src.steady_pskRecords hk conn cycle).bind (fun psk _ h ↦ ?_) fun _ ↦ rfl
  subst h
  split
  · exact .pure rfl
  · split
    · exact .pure rfl
    · exact .raise rfl

theorem steady_drain (hk : SameButLocal k k') (conn : ℕ) (cycles : List String) :
    Steady now anchor k k' (drain (cycles.map (src.buildBatchForCycle conn))) := by
  induction cycles with
  | nil => exact .pure rfl
  | cons cycle cycles ih =>
    rw [List.map_cons, Steady, drain]
    refine ((src.steady_buildBatchForCycle hk conn cycle).attempt).bind (fun x y h ↦ ?_) fun _ ↦ rfl
    match x, y, h with
    | .error e, .error _, rfl => exact .pure rfl
    | .ok b, .ok _, rfl => exact ih.bind (fun r _ h ↦ .pure (by rw [h]; rfl)) fun _ ↦ rfl

/-! ### The cycles that are listed -/

/-- The gate lets the cycle through: it can read the queue, and finds the cycle shippable. -/
def Admitted (rows : List Row) (now : ℚ) (cursor cycle : String) : Prop :=
  Readable rows ∧ src.Shippable rows now cursor cycle

/-- The gate treats the cycles of shared rows the same over both queues. -/
def SameGate (now : ℚ) (cursor : String) (k k' : Sink) : Prop :=
  ∀ c, Queued (shared k.rows) c →
    (src.Admitted k.rows now cursor c ↔ src.Admitted k'.rows now cursor c)

/-- The generator goes through the batches of these cycles; one that raises goes through none. -/
def Opens (conn : ℕ) (cycles : List String)
    (x : Except Exn (List (WsprM (Option (RecordBatch QueuedRecord))))) : Prop :=
  x = .ok (cycles.map (src.buildBatchForCycle conn)) ∨ cycles = [] ∧ ∃ e, x = .error e

/-- It goes through the cycles of shared rows that are admitted, in order. -/
def Walks (rows : List Row) (now : ℚ) (cursor : String) (conn : ℕ)
    (x : Except Exn (List (WsprM (Option (RecordBatch QueuedRecord))))) : Prop :=
  ∃ cycles, Table.Increasing id cycles ∧
    (∀ c, c ∈ cycles ↔ Queued (shared rows) c ∧ src.Admitted rows now cursor c) ∧
    src.Opens conn cycles x

/-- Both generators go through the same cycles. -/
def SameCycles (x y : Except Exn (List (WsprM (Option (RecordBatch QueuedRecord))))) : Prop :=
  ∃ conn cycles, src.Opens conn cycles x ∧ src.Opens conn cycles y

/-- `iter_batches` from the ceiling on. -/
def listCycles (conn : ℕ) (cursorIso : String) :
    WsprM (List (WsprM (Option (RecordBatch QueuedRecord)))) := do
  match ← src.askCeiling cursorIso with
  | none => pure []
  | some ceiling =>
    let hasLocal ← probeLocal conn
    let cycles ← query fun s ↦ (matching
      (cycleListClauses hasLocal cursorIso ceiling (!src.expectedReporters.isEmpty))
        s.rows).map distinctCycles
    pure (cycles.map (src.buildBatchForCycle conn))

section gated

variable {src} {env : ℕ → Choice Act QueuedRecord} {k : Sink}
  {s s' : Sys (Outside WsprMem) Act QueuedRecord}

/-- The process has looked, and its filter may remember the column. -/
def Probed (s s' : Sys (Outside WsprMem) Act QueuedRecord) : Prop :=
  s'.env = s.env ∧ ∃ f : LocalRowFilter, f.Sighted ∧
    s'.here = { s.here with mem := { s.here.mem with localRows := f } }

theorem probed_of_looked (h : Looked s s') (hs : s.here.mem.localRows.Sighted) : Probed s s' :=
  ⟨h.env_eq, _, hs, h.here_eq⟩

theorem wp_probeLocal (h : Still env k s) (hcol : k.hasLocal = true)
    (hs : s.here.mem.localRows.Sighted) (conn : ℕ) :
    wp (probeLocal conn) (fun b s' ↦ b = true ∧ Still env k s' ∧ Probed s s') (fun _ _ ↦ False)
      (fun _ ↦ False) s := by
  obtain ⟨f, s', hrun, hf, hlook⟩ := h.run_probe hcol hs conn
  rw [probeLocal, wp_bind, wp_mem, wp_bind]
  unfold Prog.wp
  rw [hrun]
  refine ⟨hf, (h.looked hlook).setMem _, hlook.env_eq, f, fun _ ↦ hf, ?_⟩
  change { s'.here with mem := { s'.here.mem with localRows := f } } = _
  rw [hlook.here_eq]

/-- **The gated listing** goes through the cycles of shared rows that are admitted, in order; over a
queue the gate cannot read it raises. -/
theorem wp_listCycles (h : Still env k s) (hcol : k.hasLocal = true)
    (hs : s.here.mem.localRows.Sighted) (hexpected : src.expectedReporters ≠ []) (conn : ℕ)
    (cursor : String) :
    wp (src.listCycles conn cursor)
      (fun ps s' ↦ src.Walks k.rows (env s.tick).now cursor conn (.ok ps) ∧ Probed s s')
      (fun e s' ↦ src.Walks k.rows (env s.tick).now cursor conn (.error e) ∧ Probed s s')
      (fun _ ↦ False) s := by
  have hraises : ∀ e, ¬ Readable k.rows →
      src.Walks k.rows (env s.tick).now cursor conn (.error e) := fun e hno ↦
    ⟨[], List.Pairwise.nil, fun c ↦ ⟨nofun, fun hc ↦ absurd hc.2.1 hno⟩, .inr ⟨rfl, e, rfl⟩⟩
  rw [listCycles, wp_bind, askCeiling, if_neg (by simpa using hexpected)]
  refine wp_mono (wp_shippableCeiling h cursor) ?_
    (fun e s₁ ⟨hno, hlook⟩ ↦ ⟨hraises e hno, probed_of_looked hlook hs⟩) fun _ hf ↦ hf
  rintro ceiling s₁ ⟨⟨hceiling, hread⟩, hlook⟩
  cases ceiling with
  | none =>
    refine ⟨⟨[], List.Pairwise.nil, fun c ↦ ⟨nofun, fun hc ↦ ?_⟩, .inl rfl⟩,
      probed_of_looked hlook hs⟩
    exact absurd hc.2.2 (hceiling c)
  | some ceiling =>
    obtain ⟨hship, hmax⟩ := hceiling
    dsimp only
    rw [wp_bind]
    refine wp_mono (wp_probeLocal (h.looked hlook) hcol (by rw [hlook.here_eq]; exact hs) conn) ?_
      (fun _ _ hf ↦ hf.elim) fun _ hf ↦ hf
    rintro b s₂ ⟨rfl, hstill, henv, f, hf, hhere⟩
    have hprobed : ∀ s₃, Looked s₂ s₃ → Probed s s₃ := fun s₃ hlook₃ ↦
      ⟨hlook₃.env_eq.trans (henv.trans hlook.env_eq), f, hf, by
        rw [hlook₃.here_eq, hhere, hlook.here_eq]⟩
    rw [wp_bind]
    refine hstill.query (fun cycles hcycles ↦ ?_) fun e he ↦ ?_
    · obtain ⟨hit, hhit, rfl⟩ := exists_of_map_eq_ok hcycles
      refine ⟨⟨_, increasing_distinctCycles hit, fun c ↦ ?_, .inl rfl⟩, hprobed _ hstill.looked_next⟩
      rw [mem_listedCycles hhit]
      have hqueued : (∃ r ∈ k.rows, r.cycle = some c ∧ (true = true → r.isLocal = false)) ↔
          Queued (shared k.rows) c := by
        simp only [Queued, mem_shared, forall_const, and_assoc]
        exact exists_congr fun r ↦ and_congr_right fun _ ↦ and_comm
      rw [hqueued]
      refine and_congr_right fun hq ↦ ⟨fun ⟨hlt, hle⟩ ↦ ⟨hread, ?_⟩, fun hc ↦ ⟨hc.2.2.1, ?_⟩⟩
      · have hle : c ≤ ceiling := hle.elim le_of_lt fun hc ↦ hc.2.le
        obtain ⟨r, hr, hcycle⟩ := hq
        exact ⟨⟨r, (mem_shared.mp hr).1, hcycle⟩, hlt, hle.trans_lt hship.2.2.1,
          fun d hd hlt hdle ↦ hship.2.2.2 d hd hlt (hdle.trans hle)⟩
      · exact (hmax c hc.2).lt_or_eq.imp_right fun heq ↦ ⟨by simpa using hexpected, heq⟩
    · rw [matching_ok (cycleListClauses_ok hread _ _ _ _)] at he
      cases he

end gated

theorem both_listCycles (hk : SameButLocal k k') (conn : ℕ) (cursor : String)
    (hgate : src.expectedReporters ≠ [] → src.SameGate now cursor k k') :
    Both (WsprTwins now anchor k k') src.SameCycles (src.listCycles conn cursor)
      (src.listCycles conn cursor) := by
  by_cases hexpected : src.expectedReporters = []
  · have hceiling : Steady now anchor k k' (src.askCeiling cursor) := by
      rw [Steady, askCeiling, if_pos (by simpa using hexpected)]
      refine both_clock.bind (fun c c' hc ↦ ?_) fun _ ↦ rfl
      rw [hc.1, hc.2]
      exact .pure rfl
    rw [listCycles]
    refine hceiling.bind (fun ceiling _ h ↦ ?_) fun e ↦ ⟨conn, [], .inr ⟨rfl, e, rfl⟩, .inr ⟨rfl, e, rfl⟩⟩
    subst h
    cases ceiling with
    | none => exact .pure ⟨conn, [], .inl rfl, .inl rfl⟩
    | some ceiling =>
      refine (steady_probeLocal hk conn).bind (fun b b' h ↦ ?_)
        fun e ↦ ⟨conn, [], .inr ⟨rfl, e, rfl⟩, .inr ⟨rfl, e, rfl⟩⟩
      obtain ⟨rfl, rfl⟩ := h
      have hlocal : ∀ r : Row, r.isLocal = true →
          holds (cycleListClauses true cursor ceiling (!src.expectedReporters.isEmpty)) r =
            .ok false := by
        intro r hr
        change holds (.column _ :: .column _ :: localClause :: _) r = _
        rw [holds_column, holds_column, holds_localClause hr]
        split_ifs <;> rfl
      have hlist : Steady now anchor k k' (query fun s ↦ (matching
          (cycleListClauses true cursor ceiling (!src.expectedReporters.isEmpty))
            s.rows).map distinctCycles) :=
        both_query (alike_of_eq (by
          rw [hk.matching_eq (fun r _ hr ↦ hlocal r hr) fun r _ hr ↦ hlocal r hr]))
      refine hlist.bind (fun cycles _ h ↦ ?_) fun e ↦ ⟨conn, [], .inr ⟨rfl, e, rfl⟩, .inr ⟨rfl, e, rfl⟩⟩
      subst h
      exact .pure ⟨conn, cycles, .inl rfl, .inl rfl⟩
  · intro s t hT
    obtain ⟨x, hx, hwalk, henv, f, hf, hhere⟩ :=
      exists_of_wp (P := fun x s' ↦ src.Walks k.rows (s.env s.tick).now cursor conn x ∧ Probed s s')
        (wp_listCycles hT.left hk.column hT.mem.sighted hexpected conn cursor)
    obtain ⟨y, hy, hwalk', henv', f', hf', hhere'⟩ :=
      exists_of_wp (P := fun y t' ↦ src.Walks k'.rows (t.env t.tick).now cursor conn y ∧ Probed t t')
        (wp_listCycles hT.right hk.column' hT.mem.sighted' hexpected conn cursor)
    obtain ⟨cycles, hinc, hmem, hopens⟩ := hwalk
    obtain ⟨cycles', hinc', hmem', hopens'⟩ := hwalk'
    rw [hT.clock] at hmem
    rw [hT.clock'] at hmem'
    have hsame : cycles = cycles' := by
      refine hinc.eq_of_mem_iff hinc' fun c ↦ ?_
      rw [hmem, hmem', ← hk.rows]
      exact and_congr_right fun hq ↦ hgate hexpected c hq
    subst hsame
    refine ⟨x, y, hx, hy, ⟨conn, cycles, hopens, hopens'⟩, ?_⟩
    have hM := hT.mem
    exact (hT.stepped_left henv hhere ⟨hM.conn, hM.opened, hM.producerCol, hM.startAtAnchor,
      hM.anchored, hf, hM.sighted'⟩).stepped_right henv' hhere' (by
        rw [hhere]
        exact ⟨hM.conn, hM.opened, hM.producerCol, hM.startAtAnchor, hM.anchored, hf, hf'⟩)

theorem both_iterBatches (hk : SameButLocal k k') (cursor : Bytes) (limit : ℤ)
    (hgate : src.expectedReporters ≠ [] → ∀ text, src.cursorText anchor cursor = some text →
      src.SameGate now text k k') :
    Both (WsprTwins now anchor k k') src.SameCycles (src.iterBatches cursor limit)
      (src.iterBatches cursor limit) := by
  have herr : ∀ e, src.SameCycles (.error e) (.error e) := fun e ↦
    ⟨0, [], .inr ⟨rfl, e, rfl⟩, .inr ⟨rfl, e, rfl⟩⟩
  have hready : Both (WsprTwins now anchor k k') (Alike fun b b' ↦ b = true ∧ b' = true) ensureReady
      ensureReady :=
    both_query ⟨Sink.isSome_of_hasLocal hk.column, Sink.isSome_of_hasLocal hk.column'⟩
  rw [iterBatches]
  refine steady_connect.bind (fun conn _ h ↦ ?_) herr
  subst h
  refine hready.bind (fun b b' h ↦ ?_) herr
  rw [h.1, h.2]
  refine (src.steady_effectiveCursor cursor).bind (fun text _ h ↦ ?_) herr
  obtain ⟨rfl, htext⟩ := h
  exact src.both_listCycles hk conn text fun hexpected ↦ hgate hexpected text htext

/-- **Both yield the same batches**, where the gate treats the shared cycles the same. -/
theorem both_yields (hk : SameButLocal k k') (cursor : Bytes) (limit : ℤ)
    (hgate : src.expectedReporters ≠ [] → ∀ text, src.cursorText anchor cursor = some text →
      src.SameGate now text k k') :
    Both (WsprTwins now anchor k k') (Alike fun r r' ↦ r.1 = r'.1) (src.source.yields cursor limit)
      (src.source.yields cursor limit) := by
  rw [Source.yields]
  refine (src.both_iterBatches hk cursor limit hgate).attempt.bind (fun x y h ↦ ?_) fun _ ↦ rfl
  obtain ⟨conn, cycles, hx, hy⟩ := h
  rcases hx with rfl | ⟨rfl, e, rfl⟩ <;> rcases hy with rfl | ⟨hnil, e', rfl⟩
  · refine (src.steady_drain hk conn cycles).mono fun x y h ↦ ?_
    match x, y, h with
    | .error _, .error _, h => exact h
    | .ok _, .ok _, rfl => rfl
  · subst hnil
    exact .pure rfl
  · exact .pure rfl
  · exact .pure rfl

end WsprCycleSource

end HsUploader
