import HsUploader.Delivery.GatedCycles

/-!
# Rows that come late

Without a gate every cycle before the slot in progress ships as the queue has it, and the cursor
passes it for good.  A row that comes after that is never sent (`late_row_is_skipped`).  So what the
source has to be able to rely on is that a cycle has all its rows once it, or a later one, can be
listed (`InTime`), and then it skips none (`no_row_skipped`).

The invariant goes from position to position: up to the position of the cursor each row has been
delivered, and the cycles in hand behind it are gapless.

## Why a late row is skipped

The source lists the cycles past its cursor and sends one batch for each.  Once the batch of a cycle
has been acked the cursor stands at that cycle, and no later listing names it again; a row that is
committed for it afterwards is never selected.  That only cycles before the slot in progress are
listed makes this rare and does not exclude it, since nothing bounds how long a receiver takes to
commit.

`Punctual` says of a run that each row comes before the cycle it belongs to can be listed, read off
the arrivals and the readings of the clock.

## What is here

* `WsprCycleSource.anchor`, `UpTo` and `StandsAt` — the positions: the anchor a source starts after,
  and then the cycles, with the stored cursor at one of them.
* `InTime` and `Punctual` — the condition, over the arrivals and the clock readings of a run.
* `Ahead` — the generator's cycles: all listed when they were due, and no row between them.
* `UngatedInv` and `ungatedInv_rules` — the invariant, one step at a time.
* `no_row_skipped` — the run; `late_row_is_skipped` — a second receiver that is half a minute late.
-/

set_option autoImplicit false

namespace HsUploader

open Prog

variable {ρ : Type}

/-- The cycle a source starts after when nothing has been stored, once that is fixed. -/
def WsprCycleSource.anchor (src : WsprCycleSource) (m : WsprMem) : Option String :=
  if src.fromBeginning then some "" else m.startAtAnchor

/-- By step `n` the cycle was queued, and it lay before the floor at a clock reading. -/
def Due (src : WsprCycleSource) (env : ℕ → Choice Act ρ) (sink : Sink) (n : ℕ) (c : String) : Prop :=
  Queued (sinkAfter env sink n).rows c ∧ ∃ i < n, c < src.cycleFloorIso (env i).now

/-- The rows past the anchor `a` come in time: none after its cycle, or a later one, is due. -/
def InTime (src : WsprCycleSource) (env : ℕ → Choice Act ρ) (sink : Sink) (a : String) : Prop :=
  ∀ k k', k ≤ k' → ∀ r ∈ (sinkAfter env sink k').rows, r ∉ (sinkAfter env sink k).rows →
    r.isLocal = false → ∀ c ∈ r.cycle, a < c → ∀ d, Due src env sink k d → d < c

/-! ## Positions -/

section positions

variable {src : WsprCycleSource} {env : ℕ → Choice Act ρ} {sink : Sink} {a pos c : String}
  {cycles : List String} {delivered : List Row} {n n' : ℕ}

/-- Each row past the anchor up to this position has been delivered. -/
structure UpTo (src : WsprCycleSource) (env : ℕ → Choice Act ρ) (sink : Sink) (a : String) (n : ℕ)
    (delivered : List Row) (pos : String) : Prop where
  anchor_le : a ≤ pos
  due : pos = a ∨ Due src env sink n pos
  rows : ∀ r ∈ (sinkAfter env sink n).rows, r.isLocal = false → ∀ c ∈ r.cycle, a < c → c ≤ pos →
    r ∈ delivered

/-- The cycles in hand past this position: all due, and no row falls between them. -/
structure Ahead (src : WsprCycleSource) (env : ℕ → Choice Act ρ) (sink : Sink) (a : String) (n : ℕ)
    (pos : String) (cycles : List String) : Prop where
  increasing : Table.Increasing id cycles
  past : ∀ c ∈ cycles, pos < c
  due : ∀ c ∈ cycles, Due src env sink n c
  gapless : ∀ r ∈ (sinkAfter env sink n).rows, r.isLocal = false → ∀ c ∈ r.cycle, a < c → pos < c →
    ∀ d ∈ cycles, c ≤ d → c ∈ cycles

/-- The rows of a cycle, except for local ones, are among these. -/
def RowsIn (env : ℕ → Choice Act ρ) (sink : Sink) (n : ℕ) (c : String) (rows : List Row) : Prop :=
  ∀ r ∈ (sinkAfter env sink n).rows, r.isLocal = false → r.cycle = some c → r ∈ rows

theorem Due.mono (hkeeps : NoDeletes env) (hn : n ≤ n') (h : Due src env sink n c) :
    Due src env sink n' c := by
  obtain ⟨⟨r, hr, hcycle⟩, i, hi, hfloor⟩ := h
  exact ⟨⟨r, hkeeps.rows_subset sink hn hr, hcycle⟩, i, hi.trans_le hn, hfloor⟩

/-- A row past the anchor whose cycle is due was there already. -/
theorem InTime.mem (h : InTime src env sink a) (hn : n ≤ n') {r : Row}
    (hr : r ∈ (sinkAfter env sink n').rows) (hlocal : r.isLocal = false) (hcycle : c ∈ r.cycle)
    (hac : a < c) {d : String} (hd : Due src env sink n d) (hle : c ≤ d) :
    r ∈ (sinkAfter env sink n).rows := by
  by_contra hnew
  exact absurd (h n n' hn r hr hnew hlocal c hcycle hac d hd) hle.not_gt

theorem UpTo.mono (hkeeps : NoDeletes env) (htime : InTime src env sink a) (hn : n ≤ n')
    {delivered' : List Row} (hsub : delivered ⊆ delivered')
    (h : UpTo src env sink a n delivered pos) : UpTo src env sink a n' delivered' pos where
  anchor_le := h.anchor_le
  due := h.due.imp_right (·.mono hkeeps hn)
  rows := fun r hr hlocal c hcycle hac hle ↦ by
    rcases h.due with rfl | hdue
    · exact absurd hac hle.not_gt
    · exact hsub (h.rows r (htime.mem hn hr hlocal hcycle hac hdue hle) hlocal c hcycle hac hle)

theorem Ahead.mono (hkeeps : NoDeletes env) (htime : InTime src env sink a) (hn : n ≤ n')
    (h : Ahead src env sink a n pos cycles) : Ahead src env sink a n' pos cycles where
  increasing := h.increasing
  past := h.past
  due := fun c hc ↦ (h.due c hc).mono hkeeps hn
  gapless := fun r hr hlocal c hcycle hac hpc d hd hle ↦
    h.gapless r (htime.mem hn hr hlocal hcycle hac (h.due d hd) hle) hlocal c hcycle hac hpc d hd hle

theorem RowsIn.mono (htime : InTime src env sink a) (hn : n ≤ n') (hac : a < c)
    (hdue : Due src env sink n c) {rows rows' : List Row} (hsub : rows ⊆ rows')
    (h : RowsIn env sink n c rows) : RowsIn env sink n' c rows' :=
  fun r hr hlocal hcycle ↦
    hsub (h r (htime.mem hn hr hlocal hcycle hac hdue le_rfl) hlocal hcycle)

/-- Nothing in hand. -/
theorem Ahead.nil : Ahead src env sink a n pos [] :=
  ⟨List.Pairwise.nil, nofun, nofun, fun _ _ _ _ _ _ _ _ hd ↦ nomatch hd⟩

/-- A cycle of no rows is passed over. -/
theorem Ahead.skip (h : Ahead src env sink a n pos (c :: cycles)) (hnone : RowsIn env sink n c []) :
    Ahead src env sink a n pos cycles where
  increasing := h.increasing.of_cons
  past := fun d hd ↦ h.past d (List.mem_cons_of_mem c hd)
  due := fun d hd ↦ h.due d (List.mem_cons_of_mem c hd)
  gapless := fun r hr hlocal c' hcycle hac hpc d hd hle ↦ by
    rcases List.mem_cons.mp (h.gapless r hr hlocal c' hcycle hac hpc d (List.mem_cons_of_mem c hd)
      hle) with rfl | hmem
    · exact absurd (hnone r hr hlocal hcycle) List.not_mem_nil
    · exact hmem

/-- The position moves on to the first cycle in hand. -/
theorem Ahead.tail (h : Ahead src env sink a n pos (c :: cycles)) :
    Ahead src env sink a n c cycles where
  increasing := h.increasing.of_cons
  past := (List.pairwise_cons.mp h.increasing).1
  due := fun d hd ↦ h.due d (List.mem_cons_of_mem c hd)
  gapless := fun r hr hlocal c' hcycle hac hcc d hd hle ↦ by
    rcases List.mem_cons.mp (h.gapless r hr hlocal c' hcycle hac
      ((h.past c List.mem_cons_self).trans hcc) d (List.mem_cons_of_mem c hd) hle) with rfl | hmem
    · exact absurd hcc (lt_irrefl c')
    · exact hmem

/-- **Delivering the first cycle in hand moves the position on to it.** -/
theorem UpTo.advance (h : UpTo src env sink a n delivered pos)
    (hahead : Ahead src env sink a n pos (c :: cycles)) (hrows : RowsIn env sink n c delivered) :
    UpTo src env sink a n delivered c where
  anchor_le := h.anchor_le.trans (hahead.past c List.mem_cons_self).le
  due := .inr (hahead.due c List.mem_cons_self)
  rows := fun r hr hlocal c' hcycle hac hle ↦ by
    rcases le_or_gt c' pos with hpos | hpos
    · exact h.rows r hr hlocal c' hcycle hac hpos
    · rcases List.mem_cons.mp (hahead.gapless r hr hlocal c' hcycle hac hpos c List.mem_cons_self
        hle) with rfl | hmem
      · exact hrows r hr hlocal hcycle
      · exact absurd ((List.pairwise_cons.mp hahead.increasing).1 c' hmem) hle.not_gt

end positions

/-! ## The stored cursor -/

/-- The stored cursor stands at this position: it is empty at the anchor, and the text of the position
past it. -/
def StandsAt (a pos : String) (cursor : Bytes) : Prop :=
  cursor = [] ∧ pos = a ∨ cursor ≠ [] ∧ cursor.decodeAscii = some pos.toList

/-- The batch is that of the cycle. -/
def OfCycle (c : String) (b : RecordBatch QueuedRecord) : Prop :=
  b.cursorAfter.decodeAscii = some c.toList

section cursor

variable {src : WsprCycleSource} {a pos c : String} {m : WsprMem}

theorem StandsAt.starts {cursor : Bytes} (h : StandsAt a pos cursor) (hm : src.anchor m = some a)
    {t : String} (ht : src.Starts cursor m t) : t = pos := by
  rw [WsprCycleSource.Starts] at ht
  rw [WsprCycleSource.anchor] at hm
  rcases h with ⟨rfl, rfl⟩ | ⟨hne, hdecode⟩
  · rw [if_neg (by simp)] at ht
    split_ifs at ht hm
    · exact ht.trans (Option.some.inj hm)
    · exact Option.some.inj (ht.symm.trans hm)
  · rw [if_pos hne, hdecode] at ht
    simpa using ht.symm

theorem ne_nil_of_decodeAscii {cursor : Bytes} (h : cursor.decodeAscii = some c.toList)
    (hc : pos < c) : cursor ≠ [] := by
  rintro rfl
  have hempty : c = "" := by
    have htext : c.toList = [] := Option.some.inj (h.symm.trans rfl)
    exact String.toList_inj.mp htext
  rw [hempty, String.lt_iff_toList_lt] at hc
  exact absurd hc (List.not_lt_nil _)

/-- **An ack moves the stored cursor to the cycle of the batch.** -/
theorem StandsAt.advance {s : Store (List QueuedRecord)} {set : PipelineSettings} {stored new : Bytes}
    (h : StandsAt a pos stored) (hs : s.getCursor (set.pipeline src.source).key = .ok stored)
    (hnew : new.decodeAscii = some c.toList) (hc : pos < c) (t : Stamp) :
    (s.advanceCursor (set.pipeline src.source).key new t
      (isAfterFor (set.pipeline src.source).source)).2.getCursor (set.pipeline src.source).key =
        .ok new := by
  have hafter : WsprCycleSource.cursorIsAfter new stored = .ok true := by
    rw [WsprCycleSource.cursorIsAfter]
    rcases h with ⟨rfl, -⟩ | ⟨hne, hdecode⟩
    · rfl
    · rw [if_neg (by simpa using hne), hnew, hdecode]
      simp only [String.ofList_toList, Except.ok.injEq, beq_iff_eq, compare_gt_iff_gt]
      exact hc
  have hcompare : Store.compareCursors WsprCycleSource.cursorIsAfter new stored =
      .ok (true, false) := by
    rw [Store.compareCursors, hafter]
    rfl
  exact Store.getCursor_advanceCursor t hs hcompare fun _ ↦ rfl

end cursor

/-! ## The invariant -/

/-- The resumptions a phase has in hand. -/
def CyclePhase.rest : CyclePhase →
    List (SqlM WsprMem QueuedRecord (Option (RecordBatch QueuedRecord)))
  | .reading rest _ | .fetched _ rest _ | .shipped _ _ rest | .advanced _ _ rest => rest
  | _ => []

/-- What a phase knows whatever the position: nothing is retried, and every answer is an ack. -/
def Acking (pipe : Pipeline (Outside WsprMem) Act QueuedRecord (List QueuedRecord)) :
    CyclePhase → CycleWorld → Prop
  | .opened cursor _, w => w.store.getCursor pipe.key = .ok cursor
  | .shipped _ o _, _ => o.kind = .acked
  | .popped _, _ | .replayed _ _, _ | .replayAdvanced _, _ | .deferred, _ | .serialized _ _ _, _ =>
    False
  | _, _ => True

/-- What a phase knows of the batch in hand and of the cycles behind it. -/
def CyclesInHand (src : WsprCycleSource) (env : ℕ → Choice Act QueuedRecord) (sink : Sink) (a : String)
    (pos : String) (cycles : List String) : CyclePhase → CycleWorld → Prop
  | .reading _ _, w | .advanced _ _ _, w => Ahead src env sink a w.sys.tick pos cycles
  | .fetched b _ _, w => ∃ c, Ahead src env sink a w.sys.tick pos (c :: cycles) ∧ OfCycle c b ∧
      RowsIn env sink w.sys.tick c (rowsOf b.records)
  | .shipped b _ _, w => ∃ c, Ahead src env sink a w.sys.tick pos (c :: cycles) ∧ OfCycle c b ∧
      RowsIn env sink w.sys.tick c (deliveredRows w.trace)
  | _, _ => True

/-- Before the anchor is fixed no batch is in hand. -/
def NoBatch : CyclePhase → Prop
  | .fetched _ _ _ | .shipped _ _ _ | .advanced _ _ _ => False
  | _ => True

/-- The invariant, for runs that start after the anchor `a`. -/
structure UngatedInv (src : WsprCycleSource) (set : PipelineSettings)
    (env : ℕ → Choice Act QueuedRecord) (sink : Sink) (a : String) (ph : CyclePhase)
    (w : CycleWorld) : Prop where
  moved : Moved env sink w.sys w.sys
  queue : ∀ d ∈ w.store.deliverables, d.pipeline ≠ set.name
  acking : Acking (set.pipeline src.source) ph w
  hand : ∃ (conn : ℕ) (cycles : List String),
    ph.rest = cycles.map (src.buildBatchForCycle conn) ∧
    (src.anchor w.sys.here.mem = none → cycles = [] ∧ NoBatch ph ∧
      w.store.getCursor (set.pipeline src.source).key = .ok []) ∧
    (src.anchor w.sys.here.mem = some a → ∃ cursor pos,
      w.store.getCursor (set.pipeline src.source).key = .ok cursor ∧ StandsAt a pos cursor ∧
      UpTo src env sink a w.sys.tick (deliveredRows w.trace) pos ∧
      CyclesInHand src env sink a pos cycles ph w)

theorem never_stops {env : ℕ → Choice Act ρ} (h : ∀ k, (env k).stop = false) :
    ¬ ∃ k, (env k).stop = true := fun ⟨k, hk⟩ ↦ by
  rw [h k] at hk
  cases hk

section inv

variable {src : WsprCycleSource} {set : PipelineSettings} {env : ℕ → Choice Act QueuedRecord}
  {sink : Sink} {a pos : String} {cycles : List String} {ph ph' : CyclePhase} {w : CycleWorld}

/-- An anchor that is fixed stays fixed. -/
theorem Moved.anchor_eq {s s' : Sys (Outside WsprMem) Act QueuedRecord} (h : Moved env sink s s')
    {x : String} (hx : src.anchor s.here.mem = some x) : src.anchor s'.here.mem = some x := by
  rw [WsprCycleSource.anchor] at hx ⊢
  split_ifs at hx ⊢
  · exact hx
  · exact h.anchor x hx

theorem CyclesInHand.mono (hkeeps : NoDeletes env) (htime : InTime src env sink a) (hpos : a ≤ pos)
    {w' : CycleWorld} (hn : w.sys.tick ≤ w'.sys.tick)
    (hsub : deliveredRows w.trace ⊆ deliveredRows w'.trace)
    (h : CyclesInHand src env sink a pos cycles ph w) : CyclesInHand src env sink a pos cycles ph w' := by
  cases ph with
  | reading rest any => exact Ahead.mono hkeeps htime hn h
  | advanced b o rest => exact Ahead.mono hkeeps htime hn h
  | fetched b rest any =>
    obtain ⟨c, hahead, hc, hrows⟩ := h
    exact ⟨c, hahead.mono hkeeps htime hn, hc, hrows.mono htime hn
      (hpos.trans_lt (hahead.past c List.mem_cons_self)) (hahead.due c List.mem_cons_self)
      (List.Subset.refl _)⟩
  | shipped b o rest =>
    obtain ⟨c, hahead, hc, hrows⟩ := h
    exact ⟨c, hahead.mono hkeeps htime hn, hc, hrows.mono htime hn
      (hpos.trans_lt (hahead.past c List.mem_cons_self)) (hahead.due c List.mem_cons_self) hsub⟩
  | _ => trivial

/-- Others move, and this process takes no step that its phase knows of. -/
theorem UngatedInv.moves (hkeeps : NoDeletes env) (htime : InTime src env sink a)
    (h : UngatedInv src set env sink a ph w) {s' : Sys (Outside WsprMem) Act QueuedRecord}
    (hmoved : Moved env sink w.sys s')
    (hanchor : src.anchor s'.here.mem = src.anchor w.sys.here.mem) :
    UngatedInv src set env sink a ph { w with sys := s' } where
  moved := hmoved.here
  queue := h.queue
  acking := by
    have hacking := h.acking
    cases ph <;> exact hacking
  hand := by
    obtain ⟨conn, cycles, hrest, hnone, hsome⟩ := h.hand
    refine ⟨conn, cycles, hrest, fun ha ↦ hnone (hanchor ▸ ha), fun ha ↦ ?_⟩
    obtain ⟨cursor, pos, hcursor, hstands, hupTo, hinHand⟩ := hsome (hanchor ▸ ha)
    exact ⟨cursor, pos, hcursor, hstands,
      hupTo.mono hkeeps htime hmoved.tick_le (List.Subset.refl _),
      hinHand.mono hkeeps htime hupTo.anchor_le hmoved.tick_le (List.Subset.refl _)⟩

/-- The environment's move before a step. -/
theorem UngatedInv.next (hkeeps : NoDeletes env) (htime : InTime src env sink a)
    (h : UngatedInv src set env sink a ph w) : UngatedInv src set env sink a ph w.next :=
  h.moves hkeeps htime h.moved.next (congrArg src.anchor (sink_react w.sys.choice.ops w.sys.here).2)

/-- A phase with nothing in hand. -/
theorem UngatedInv.rests (h : UngatedInv src set env sink a ph w) (hrest : CyclePhase.rest ph' = [])
    (hempty : NoBatch ph') (hacking : Acking (set.pipeline src.source) ph' w)
    (hhand : ∀ pos, CyclesInHand src env sink a pos [] ph' w) : UngatedInv src set env sink a ph' w where
  moved := h.moved
  queue := h.queue
  acking := hacking
  hand := by
    obtain ⟨conn, cycles, -, hnone, hsome⟩ := h.hand
    refine ⟨conn, [], hrest, fun ha ↦ ⟨rfl, hempty, (hnone ha).2.2⟩, fun ha ↦ ?_⟩
    obtain ⟨cursor, pos, hcursor, hstands, hupTo, -⟩ := hsome ha
    exact ⟨cursor, pos, hcursor, hstands, hupTo, hhand pos⟩

theorem UngatedInv.done (h : UngatedInv src set env sink a ph w) :
    UngatedInv src set env sink a .done w := h.rests rfl trivial trivial fun _ ↦ trivial

/-- A change of the store that leaves the queue and the send record alone. -/
theorem UngatedInv.stored (h : UngatedInv src set env sink a ph w) {s : Store (List QueuedRecord)}
    (hqueue : s.deliverables = w.store.deliverables)
    (hcursor : s.getCursor (set.pipeline src.source).key =
      w.store.getCursor (set.pipeline src.source).key) :
    UngatedInv src set env sink a ph (w.stored s) where
  moved := h.moved
  queue := fun d hd ↦ h.queue d (hqueue ▸ hd)
  acking := by
    have hacking := h.acking
    cases ph with
    | opened cursor any => exact hcursor.trans hacking
    | _ => exact hacking
  hand := by
    obtain ⟨conn, cycles, hrest, hnone, hsome⟩ := h.hand
    refine ⟨conn, cycles, hrest, fun ha ↦ ?_, fun ha ↦ ?_⟩
    · obtain ⟨hnil, hempty, hget⟩ := hnone ha
      exact ⟨hnil, hempty, hcursor.trans hget⟩
    · obtain ⟨cursor, pos, hget, hstands, hupTo, hinHand⟩ := hsome ha
      refine ⟨cursor, pos, hcursor.trans hget, hstands, hupTo, ?_⟩
      cases ph <;> exact hinHand

/-- An entry of the trace. -/
theorem UngatedInv.noted (hkeeps : NoDeletes env) (htime : InTime src env sink a)
    (h : UngatedInv src set env sink a ph w) (e : Event QueuedRecord (List QueuedRecord)) :
    UngatedInv src set env sink a ph (w.noted e) where
  moved := h.moved
  queue := h.queue
  acking := by
    have hacking := h.acking
    cases ph <;> exact hacking
  hand := by
    have hsub : deliveredRows w.trace ⊆ deliveredRows (w.noted e).trace := by
      rw [World.noted, deliveredRows_append]
      exact List.subset_append_left _ _
    obtain ⟨conn, cycles, hrest, hnone, hsome⟩ := h.hand
    refine ⟨conn, cycles, hrest, hnone, fun ha ↦ ?_⟩
    obtain ⟨cursor, pos, hget, hstands, hupTo, hinHand⟩ := hsome ha
    exact ⟨cursor, pos, hget, hstands, hupTo.mono hkeeps htime le_rfl hsub,
      hinHand.mono hkeeps htime hupTo.anchor_le (Nat.le_refl w.sys.tick) hsub⟩

/-! ### The steps of the source -/

/-- The generator is opened. -/
theorem UngatedInv.listed (hkeeps : NoDeletes env) (htime : InTime src env sink a)
    (hungated : src.expectedReporters = []) {cursor : Bytes} {any : Bool}
    (h : UngatedInv src set env sink a (.opened cursor any) w)
    {s' : Sys (Outside WsprMem) Act QueuedRecord} (hmoved : Moved env sink w.sys s') {conn : ℕ}
    {cycles : List String} (hinc : Table.Increasing id cycles)
    (hlisted : src.Listed env sink cursor w.sys.tick cycles s') :
    UngatedInv src set env sink a (.reading (cycles.map (src.buildBatchForCycle conn)) any)
      { w with sys := s' } where
  moved := hmoved.here
  queue := h.queue
  acking := trivial
  hand := by
    have hget : w.store.getCursor (set.pipeline src.source).key = .ok cursor := h.acking
    obtain ⟨_, _, -, hnone, hsome⟩ := h.hand
    have hbefore : src.anchor w.sys.here.mem = none ∨
        src.anchor w.sys.here.mem = src.anchor s'.here.mem := by
      cases hx : src.anchor w.sys.here.mem with
      | none => exact .inl rfl
      | some x => exact .inr (hmoved.anchor_eq hx).symm
    refine ⟨conn, cycles, rfl, fun ha ↦ ?_, fun ha ↦ ?_⟩
    · have hcursor : cursor = [] := by
        have hempty := (hnone (hbefore.elim id (·.trans ha))).2.2
        exact Except.ok.inj (hget.symm.trans hempty)
      refine ⟨by_contra fun hne ↦ ?_, trivial, hget.trans (congrArg _ hcursor)⟩
      obtain ⟨t, _, _, _, _, _, _, ht, _⟩ := hlisted hne
      rw [hcursor, WsprCycleSource.Starts, if_neg (by simp)] at ht
      rw [WsprCycleSource.anchor] at ha
      split_ifs at ht ha
      rw [ha] at ht
      cases ht
    · obtain ⟨pos, hstands, hupTo⟩ : ∃ pos, StandsAt a pos cursor ∧
          UpTo src env sink a s'.tick (deliveredRows w.trace) pos := by
        rcases hbefore with hfresh | hsame
        · have hempty := (hnone hfresh).2.2
          have hcursor : cursor = [] := Except.ok.inj (hget.symm.trans hempty)
          exact ⟨a, .inl ⟨hcursor, rfl⟩, le_rfl, .inl rfl,
            fun r _ _ c _ hac hle ↦ absurd hac hle.not_gt⟩
        · obtain ⟨cursor', pos, hget', hstands, hupTo, -⟩ := hsome (hsame.trans ha)
          cases Except.ok.inj (hget.symm.trans hget')
          exact ⟨pos, hstands, hupTo.mono hkeeps htime hmoved.tick_le (List.Subset.refl _)⟩
      refine ⟨cursor, pos, hget, hstands, hupTo, ?_⟩
      rcases eq_or_ne cycles [] with rfl | hne
      · exact .nil
      · obtain ⟨t, ceiling, m, k, -, hmk, hk, ht, hceil, hlists⟩ := hlisted hne
        obtain rfl := hstands.starts ha ht
        rw [WsprCycleSource.Ceiling, if_pos hungated] at hceil
        obtain ⟨i, -, him, rfl⟩ := hceil
        have hunder : ∀ c ∈ cycles, c < src.cycleFloorIso (env i).now := fun c hc ↦
          (hlists.under c hc).resolve_right fun h ↦ h.1 hungated
        have hahead : Ahead src env sink a k t cycles :=
          ⟨hinc, hlists.past, fun c hc ↦ ⟨hlists.queued c hc, i, him.trans_le hmk, hunder c hc⟩,
            fun r hr hlocal c hcycle _ htc d hd hle ↦
              hlists.all r hr c hcycle hlocal htc (hle.trans_lt (hunder d hd))⟩
        exact hahead.mono hkeeps htime hk

/-- The generator is resumed: the next cycle's batch is in hand, or the cycle had no rows. -/
theorem UngatedInv.built (hkeeps : NoDeletes env) (htime : InTime src env sink a)
    (hsound : ∀ k, ∀ r ∈ (sinkAfter env sink k).rows, r.isLocal = false → r.cycle.isSome → r.Sound)
    (hstop : ∀ k, (env k).stop = false)
    {p : SqlM WsprMem QueuedRecord (Option (RecordBatch QueuedRecord))}
    {rest : List (SqlM WsprMem QueuedRecord (Option (RecordBatch QueuedRecord)))} {any : Bool}
    (h : UngatedInv src set env sink a (.reading (p :: rest) any) w) :
    wp (onSys p)
      (fun r w ↦ match r with
        | none => UngatedInv src set env sink a (.reading rest any) w
        | some b => if b.records.isEmpty then UngatedInv src set env sink a (.reading rest any) w
          else UngatedInv src set env sink a (.fetched b rest any) w)
      (fun _ ↦ UngatedInv src set env sink a .done) (fun _ ↦ False) w := by
  obtain ⟨conn, cycles, hrest, hnone, hsome⟩ := h.hand
  match cycles, hrest with
  | c :: cycles, hrest =>
    obtain ⟨rfl, rfl⟩ := List.cons.inj hrest
    -- the anchor is fixed: there is a cycle in hand
    obtain ⟨x, hx⟩ : ∃ x, src.anchor w.sys.here.mem = some x := by
      cases hx : src.anchor w.sys.here.mem with
      | none => exact absurd (hnone hx).1 (List.cons_ne_nil c cycles)
      | some x => exact ⟨x, rfl⟩
    rw [wp_onSys]
    refine wp_mono (WsprCycleSource.from_buildBatchForCycle h.moved conn c) ?_ ?_ fun _ ⟨_, hs⟩ ↦
      absurd hs (never_stops hstop)
    · rintro b s' ⟨hmoved, k, hk, hk', hb, hno⟩
      have hanchor : src.anchor s'.here.mem = src.anchor w.sys.here.mem :=
        (hmoved.anchor_eq hx).trans hx.symm
      -- what a phase with the batch in hand asks for, given what it asks of the batch
      have hto : ∀ ph' : CyclePhase, ph'.rest = cycles.map (src.buildBatchForCycle conn) →
          Acking (set.pipeline src.source) ph' { w with sys := s' } →
          (∀ pos, a ≤ pos → Ahead src env sink a w.sys.tick pos (c :: cycles) →
            CyclesInHand src env sink a pos cycles ph' { w with sys := s' }) →
          UngatedInv src set env sink a ph' { w with sys := s' } := by
        intro ph' hrest' hacking hhand
        refine ⟨hmoved.here, h.queue, hacking, conn, cycles, hrest', fun ha ↦ ?_, fun ha ↦ ?_⟩
        · rw [hanchor, hx] at ha
          cases ha
        · obtain ⟨cursor, pos, hget, hstands, hupTo, hahead⟩ := hsome (hanchor ▸ ha)
          exact ⟨cursor, pos, hget, hstands,
            hupTo.mono hkeeps htime hmoved.tick_le (List.Subset.refl _),
            hhand pos hupTo.anchor_le hahead⟩
      -- the rows of the cycle are those its batch was built from
      have hrows : ∀ pos, a ≤ pos → Ahead src env sink a w.sys.tick pos (c :: cycles) →
          ∀ rows, RowsIn env sink k c rows → RowsIn env sink s'.tick c rows :=
        fun pos hpos hahead rows hrows ↦ hrows.mono htime hk'
          (hpos.trans_lt (hahead.past c List.mem_cons_self))
          ((hahead.due c List.mem_cons_self).mono hkeeps hk) (List.Subset.refl _)
      have hskip : RowsIn env sink k c [] → UngatedInv src set env sink a
          (.reading (cycles.map (src.buildBatchForCycle conn)) any) { w with sys := s' } :=
        fun hnil ↦ hto _ rfl trivial fun pos hpos hahead ↦
          (hahead.mono hkeeps htime hmoved.tick_le).skip (hrows pos hpos hahead [] hnil)
      cases b with
      | none =>
        exact hskip fun r hr hlocal hcycle ↦
          absurd (hsound k r hr hlocal (hcycle ▸ rfl)) (hno rfl r hr hcycle hlocal)
      | some b =>
        have hbuilt := hb b rfl
        have hin : RowsIn env sink k c (rowsOf b.records) := fun r hr hlocal hcycle ↦ by
          obtain ⟨q, hq, hrow⟩ := hbuilt.rows r hr hcycle hlocal
            (hsound k r hr hlocal (hcycle ▸ rfl))
          exact List.mem_map.mpr ⟨q, hq, hrow⟩
        dsimp only
        split
        · rename_i hempty
          rw [List.isEmpty_iff] at hempty
          rw [hempty] at hin
          exact hskip hin
        · refine hto _ rfl trivial fun pos hpos hahead ↦ ⟨c, hahead.mono hkeeps htime hmoved.tick_le,
            ?_, hrows pos hpos hahead _ hin⟩
          rw [OfCycle, hbuilt.cursor]
          exact Bytes.decodeAscii_ofAscii hbuilt.ascii
    · intro e s' hmoved
      exact (h.moves hkeeps htime hmoved ((hmoved.anchor_eq hx).trans hx.symm)).done

end inv

section ack

variable {src : WsprCycleSource} {set : PipelineSettings} {env : ℕ → Choice Act QueuedRecord}
  {sink : Sink} {a : String} {w : CycleWorld} {b : RecordBatch QueuedRecord}
  {o : Outcome QueuedRecord}
  {rest : List (SqlM WsprMem QueuedRecord (Option (RecordBatch QueuedRecord)))}

/-- The batch in hand is acked. -/
theorem UngatedInv.shipped (hkeeps : NoDeletes env) (htime : InTime src env sink a) {any : Bool}
    (h : UngatedInv src set env sink a (.fetched b rest any) w) (ho : o.kind = .acked) :
    UngatedInv src set env sink a (.shipped b o rest) (w.noted (.shipped b o)) where
  moved := h.moved
  queue := h.queue
  acking := ho
  hand := by
    obtain ⟨conn, cycles, hrest, hnone, hsome⟩ := (h.noted hkeeps htime (.shipped b o)).hand
    refine ⟨conn, cycles, hrest, fun ha ↦ (hnone ha).2.1.elim, fun ha ↦ ?_⟩
    obtain ⟨cursor, pos, hget, hstands, hupTo, c, hahead, hc, hrows⟩ := hsome ha
    refine ⟨cursor, pos, hget, hstands, hupTo, c, hahead, hc, fun r hr hlocal hcycle ↦ ?_⟩
    rw [World.noted, deliveredRows_append, deliveredRows_singleton, Event.delivered, ho]
    exact List.mem_append_right _ (hrows r hr hlocal hcycle)

/-- The send record advances to it. -/
theorem UngatedInv.advanced (h : UngatedInv src set env sink a (.shipped b o rest) w) (t : Stamp) :
    UngatedInv src set env sink a (.advanced b o rest)
      (w.stored (w.store.advanceCursor (set.pipeline src.source).key b.cursorAfter t
        (isAfterFor (set.pipeline src.source).source)).2) where
  moved := h.moved
  queue := fun d hd ↦ h.queue d (by simpa [World.stored] using hd)
  acking := trivial
  hand := by
    obtain ⟨conn, cycles, hrest, hnone, hsome⟩ := h.hand
    refine ⟨conn, cycles, hrest, fun ha ↦ (hnone ha).2.1.elim, fun ha ↦ ?_⟩
    obtain ⟨cursor, pos, hget, hstands, hupTo, c, hahead, hc, hrows⟩ := hsome ha
    have hpast := hahead.past c List.mem_cons_self
    exact ⟨b.cursorAfter, c, hstands.advance hget hc hpast t, .inr ⟨ne_nil_of_decodeAscii hc hpast, hc⟩,
      hupTo.advance hahead hrows, hahead.tail⟩

end ack

/-- How a run goes in which no row is skipped: the other processes delete nothing, the rows come in
time, `json.loads` reads their payloads, and the transport acks whatever it is given. -/
structure Punctual (src : WsprCycleSource) (env : ℕ → Choice Act QueuedRecord) (sink : Sink)
    (a : String) : Prop where
  keeps : NoDeletes env
  inTime : InTime src env sink a
  sound : ∀ k, ∀ r ∈ (sinkAfter env sink k).rows, r.isLocal = false → r.cycle.isSome → r.Sound
  runs : ∀ k, (env k).stop = false
  acks : ∀ k, ∃ o, (env k).outcome = .ok o ∧ o.kind = .acked

/-- **Each step of a pump keeps the rows up to its position delivered.** -/
theorem ungatedInv_rules {src : WsprCycleSource} {env : ℕ → Choice Act QueuedRecord} {sink : Sink}
    {a : String} (u : Uploader) (set : PipelineSettings) (hrun : Punctual src env sink a)
    (hungated : src.expectedReporters = []) :
    PumpRules u (set.pipeline src.source) (UngatedInv src set env sink a)
      (UngatedInv src set env sink a .done) fun _ ↦ False where
  breathe _ w h := by
    have hgo : w.sys.choice.stop = false := by
      rw [Sys.choice, h.moved.env_eq]
      exact hrun.runs _
    rw [hgo, if_neg Bool.false_ne_true]
    exact h.next hrun.keeps hrun.inTime
  gate _ _ _ h := h.noted hrun.keeps hrun.inTime _
  attempt _ w _ _ h := h.stored (by simp) (by rw [Store.getCursor, Store.watermarks_recordAttempt]; rfl)
  heldStart _ _ h := h.done
  heldDraining _ _ _ h := h.done
  heldFetched _ _ _ _ _ h := h.done
  enter _ h := h.rests rfl trivial trivial fun _ ↦ trivial
  pop w w' now d s' h hg hpop := by
    have h := hg.keeps h fun h ↦ h.noted hrun.keeps hrun.inTime _
    obtain ⟨hd, hp, -⟩ := Store.popDueDeliverable_some hpop
    exact absurd hp (h.queue d hd)
  replay _ _ h := h.acking.elim
  replayAdvance _ _ _ _ h _ _ := h.acking.elim
  replayNoCursor _ _ _ h _ _ := h.acking.elim
  replayCommit _ _ h := h.acking.elim
  requeue _ _ _ _ _ h _ _ _ := h.acking.elim
  requeueRaised _ _ _ h _ _ _ := h.acking.elim
  replayDead _ _ _ _ h _ _ := h.acking.elim
  replaySpent _ _ _ _ h _ _ _ := h.acking.elim
  replayOdd _ _ _ h _ _ _ := h.acking.elim
  queued _ h _ := h.elim (·.done) (·.done)
  queueEmpty _ h _ := h.elim (·.rests rfl trivial trivial fun _ ↦ trivial) fun h ↦ h.acking.elim
  noBudget _ _ h _ := h.done
  cursor _ _ _ h hget := h.rests rfl trivial hget fun _ ↦ trivial
  cursorRaised _ _ _ h _ := h.done
  iter c any w h := by
    rw [wp_onSys]
    refine wp_mono (WsprCycleSource.from_iterBatches h.moved c (set.pipeline src.source).limit)
      ?_ ?_ fun _ hs ↦ absurd hs.2 (never_stops hrun.runs)
    · rintro rest s' ⟨hmoved, conn, cycles, rfl, hinc, hlisted⟩
      exact h.listed hrun.keeps hrun.inTime hungated hmoved hinc hlisted
    · intro e s' hmoved
      -- as if it had listed nothing: the anchor may have been fixed
      have hnil : UngatedInv src set env sink a
          (.reading (([] : List String).map (src.buildBatchForCycle 0)) any) { w with sys := s' } :=
        h.listed hrun.keeps hrun.inTime hungated hmoved List.Pairwise.nil fun hne ↦ absurd rfl hne
      exact hnil.done
  resume p rest any w h :=
    wp_mono_ok (h.built hrun.keeps hrun.inTime hrun.sound hrun.runs) fun r w h ↦ by
      cases r <;> exact h
  exhausted _ _ h := h.done
  again _ h := h.rests rfl trivial trivial fun _ ↦ trivial
  ship b rest any w h := by
    obtain ⟨w₀, h₀, hg⟩ := h
    have h := (hg.keeps h₀ fun h ↦ h.noted hrun.keeps hrun.inTime _).noted hrun.keeps hrun.inTime
      (.shipping b)
    have hnext := h.next hrun.keeps hrun.inTime
    obtain ⟨o, ho, hacked⟩ := hrun.acks w.sys.tick
    have henv : w.sys.env = env := h.moved.env_eq
    have hchoice : w.sys.choice.outcome = .ok o := by
      rw [Sys.choice, henv]
      exact ho
    refine wp_callNoted (fun hs ↦ ?_) (fun e _ he ↦ ?_) fun o' _ ho' ↦ ?_
    · have hs : (env w.sys.tick).stop = true := by
        rwa [Sys.choice, henv] at hs
      exact never_stops hrun.runs ⟨_, hs⟩
    · rw [hchoice] at he
      cases he
    · rw [hchoice] at ho'
      cases ho'
      exact hnext.shipped hrun.keeps hrun.inTime hacked
  acked w b o rest ts h _ := h.advanced ts
  ackedPart _ _ o _ _ h hk := by
    have hacked : o.kind = .acked := h.acking
    rw [hacked] at hk
    cases hk
  commit b o rest w h := by
    rw [wp_onSys]
    change UngatedInv src set env sink a (.reading rest true) w
    obtain ⟨conn, cycles, hrest, hnone, hsome⟩ := h.hand
    exact ⟨h.moved, h.queue, trivial, conn, cycles, hrest, fun ha ↦ (hnone ha).2.1.elim, hsome⟩
  serialize b o rest hk w h := by
    have hacked : o.kind = .acked := h.acking
    rw [hacked] at hk
    rcases hk with hk | hk <;> cases hk
  enqueueRaised _ _ _ _ h _ := h.acking.elim
  enqueue _ _ _ _ _ _ h _ := h.acking.elim
  dead _ _ _ _ _ h _ _ := h.acking.elim
  unhandled w b o rest k h hk := by
    have hacked : o.kind = .acked := h.acking
    rw [hacked] at hk
    cases hk
  enough _ _ h := h.done

/-- The position the stored cursor names, `none` before anything is stored. -/
def storedCycle (pipe : Pipeline (Outside WsprMem) Act QueuedRecord (List QueuedRecord))
    (w : CycleWorld) : Option String :=
  match w.store.getCursor pipe.key with
  | .ok [] => none
  | .ok cursor => cursor.decodeAscii.map String.ofList
  | .error _ => none

/-- A source that has just been built, no send record and no retry of its pipeline. -/
structure Begins (src : WsprCycleSource) (set : PipelineSettings) (w : CycleWorld) : Prop where
  tick : w.sys.tick = 0
  mem : w.sys.here.mem = {}
  record : w.store.getCursor (set.pipeline src.source).key = .ok []
  queue : ∀ d ∈ w.store.deliverables, d.pipeline ≠ set.name

/-- **No row is skipped** in a run whose rows come in time: each one past the anchor whose cycle lies
at or below the stored cursor has been delivered, except for local ones. -/
theorem no_row_skipped (src : WsprCycleSource) (u : Uploader) (set : PipelineSettings)
    (hungated : src.expectedReporters = []) {w : CycleWorld} (hw : Begins src set w) (n : ℕ)
    {a pos : String}
    (ha : src.anchor (run u (set.pipeline src.source) src.restart n w).sys.here.mem = some a)
    (hrun : Punctual src w.sys.env w.sys.here.sink a)
    (hpos : storedCycle (set.pipeline src.source)
      (run u (set.pipeline src.source) src.restart n w) = some pos) :
    ∀ r ∈ (run u (set.pipeline src.source) src.restart n w).sys.here.sink.rows,
      r.isLocal = false → ∀ c ∈ r.cycle, a < c → c ≤ pos →
        r ∈ deliveredRows (run u (set.pipeline src.source) src.restart n w).trace := by
  have hinit : UngatedInv src set w.sys.env w.sys.here.sink a .done w := by
    refine ⟨⟨rfl, ?_, le_rfl, fun _ h ↦ h⟩, hw.queue, trivial, 0, [], rfl,
      fun _ ↦ ⟨rfl, trivial, hw.record⟩, fun _ ↦ ⟨[], a, hw.record, .inl ⟨rfl, rfl⟩, ⟨le_rfl, .inl rfl,
        fun r _ _ c _ hac hle ↦ absurd hac hle.not_gt⟩, trivial⟩⟩
    rw [hw.tick]
    rfl
  have h : UngatedInv src set w.sys.env w.sys.here.sink a .done
      (run u (set.pipeline src.source) src.restart n w) :=
    (ungatedInv_rules u set hrun hungated).run (fun _ h ↦ h) (fun _ hs ↦ hs.elim)
      (fun _ h ↦ h.rests rfl trivial trivial fun _ ↦ trivial) hinit n
  obtain ⟨_, _, -, -, hsome⟩ := h.hand
  obtain ⟨cursor, pos', hget, hstands, hupTo, -⟩ := hsome ha
  intro r hr hlocal c hcycle hac hle
  rw [h.moved.sink_eq] at hr
  refine hupTo.rows r hr hlocal c hcycle hac (hle.trans_eq ?_)
  -- the position the cursor names is where it stands
  rw [storedCycle, hget] at hpos
  rcases hstands with ⟨rfl, -⟩ | ⟨hne, hdecode⟩
  · cases hpos
  · split at hpos
    · cases hpos
    · rename_i cursor' _ he
      cases he
      rw [hdecode] at hpos
      simpa using hpos.symm
    · cases hpos

theorem begins_movingWorld (src : WsprCycleSource) (set : PipelineSettings) (rows : List NewRow)
    (env : ℕ → Choice Act QueuedRecord) : Begins src set (movingWorld rows env) :=
  ⟨rfl, rfl, rfl, fun _ hd ↦ (nomatch hd)⟩

/-- A receiver that commits its spot of the next cycle while that is in progress, between two pumps. -/
def nextSpot : ℕ → Choice Act QueuedRecord :=
  arrival 14 [wsprRow "spots" "AC0G/B4" "1970-01-01T00:02:00Z"] fun k ↦ .of (150 + 5 * k)

theorem punctual_nextSpot :
    Punctual (epochSource []) nextSpot (sinkOf (epochRows.take 1)) "" := by
  have hsink : ∀ k, sinkAfter nextSpot (sinkOf (epochRows.take 1)) k =
      sinkOf (if k ≤ 14 then epochRows.take 1 else
        epochRows.take 1 ++ [wsprRow "spots" "AC0G/B4" "1970-01-01T00:02:00Z"]) :=
    sinkAfter_arrival _ _ _ _
  refine ⟨noDeletes_arrival _ _ _, fun k k' hk r hr hnew _ c hc _ d hd ↦ ?_,
    fun k r hr _ _ message hcorrupt ↦ ?_, fun _ ↦ rfl, fun _ ↦ ⟨.acked, rfl, rfl⟩⟩
  · obtain ⟨⟨r', hr', hd⟩, -⟩ := hd
    rw [hsink] at hr hnew hr'
    by_cases hk14 : k ≤ 14
    · -- before the spot comes only the first cycle is queued, and the spot is of the second
      rw [if_pos hk14] at hr' hnew
      have hfirst : ∀ q ∈ (sinkOf (epochRows.take 1)).rows,
          q.cycle = some "1970-01-01T00:00:00Z" := by decide +kernel
      have hrest : ∀ q ∈ (sinkOf (epochRows.take 1 ++
          [wsprRow "spots" "AC0G/B4" "1970-01-01T00:02:00Z"])).rows,
          q ∈ (sinkOf (epochRows.take 1)).rows ∨ q.cycle = some "1970-01-01T00:02:00Z" := by
        intro q hq
        rcases List.mem_cons.mp hq with rfl | hq
        · exact .inl List.mem_cons_self
        · obtain rfl := List.mem_singleton.mp hq
          exact .inr (by decide +kernel)
      rw [hfirst r' hr'] at hd
      cases hd
      split at hr
      · exact absurd hr hnew
      · rcases hrest r hr with hold | hcycle
        · exact absurd hold hnew
        · rw [hcycle] at hc
          cases hc
          decide +kernel
    · rw [if_neg hk14] at hnew
      rw [if_neg fun h ↦ hk14 (hk.trans h)] at hr
      exact absurd hr hnew
  · have hobject : ∀ q ∈ (sinkAfter nextSpot (sinkOf (epochRows.take 1)) k).rows,
        q.payloadJson.IsObject := by
      rw [hsink]
      split <;> decide +kernel
    obtain ⟨ms, hms⟩ := Payload.isObject_iff.mp (hobject r hr)
    rw [hms] at hcorrupt
    cases hcorrupt

/-- A spot that was there from the start and one that comes between the first two pumps: the third
pump stands past the end of the second one's cycle and delivers it. -/
theorem no_row_skipped_epoch :
    (deliveredRows (run {} (spotSettings.pipeline (epochSource []).source) (epochSource []).restart 1
      (movingWorld (epochRows.take 1) nextSpot)).trace).map Row.id = [1] ∧
    (deliveredRows (run {} (spotSettings.pipeline (epochSource []).source) (epochSource []).restart 3
      (movingWorld (epochRows.take 1) nextSpot)).trace).map Row.id = [1, 2] ∧
    ∀ r ∈ (run {} (spotSettings.pipeline (epochSource []).source) (epochSource []).restart 3
        (movingWorld (epochRows.take 1) nextSpot)).sys.here.sink.rows,
      r.isLocal = false → ∀ c ∈ r.cycle, "" < c → c ≤ "1970-01-01T00:02:00Z" →
        r ∈ deliveredRows (run {} (spotSettings.pipeline (epochSource []).source)
          (epochSource []).restart 3 (movingWorld (epochRows.take 1) nextSpot)).trace :=
  ⟨by decide +kernel, by decide +kernel,
    no_row_skipped (epochSource []) {} spotSettings rfl
      (begins_movingWorld _ _ _ _) 3 rfl punctual_nextSpot (by decide +kernel)⟩

/-- A second receiver that commits its spot of the first cycle before the 30th step. -/
def lateReceiver : ℕ → Choice Act QueuedRecord := fun k ↦
  { ops := if k = 30 then [.sink (.insert 0 (wsprRow "spots" "AC0G/B5" "1970-01-01T00:00:00Z"))]
      else []
    now := .of (150 + k) }

/-- **A late row is skipped.**  The source has shipped the first receiver's cycle when the second
commits its spot of it, half a minute later; the cursor has passed the cycle and the spot is never
sent. -/
theorem late_row_is_skipped :
    let w' := run {} (spotSettings.pipeline (epochSource []).source) (epochSource []).restart 4
      { standingWorld epochRows 150 with
        sys := { (standingWorld epochRows 150).sys with env := lateReceiver } }
    ¬ ∀ r ∈ w'.sys.here.sink.rows, r.isLocal = false → ∀ c ∈ r.cycle, "" < c →
      (∃ pos ∈ storedCycle (spotSettings.pipeline (epochSource []).source) w', c ≤ pos) →
        r ∈ deliveredRows w'.trace := by
  intro w' h
  have hids : ¬ ∀ r ∈ w'.sys.here.sink.rows, r.isLocal = false → ∀ c ∈ r.cycle, "" < c →
      (∃ pos ∈ storedCycle (spotSettings.pipeline (epochSource []).source) w', c ≤ pos) →
        r.id ∈ (deliveredRows w'.trace).map Row.id := by decide +kernel
  exact hids fun r hr hlocal c hc hac hle ↦ List.mem_map_of_mem (h r hr hlocal c hc hac hle)

end HsUploader
