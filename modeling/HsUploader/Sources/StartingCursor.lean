import HsUploader.Core.TwoPumps
import HsUploader.Sources.Selection
import HsUploader.Sources.WsprGate
import HsUploader.Transports.Unspecified

/-!
# A source that has its anchor in memory, and one that has it in its record

`initialCursor` answers where a source's first pump would start.  A source that is given the answer
as its stored cursor and a source that keeps it in memory run in step: `Recalled` relates their
systems, which differ in that memory alone, and every method keeps them related.

## What is here

* `initialCursor`, for both sources — where a first pump would start.
* `Recalled` — the relation: one system is the other with its memory changed by a function, and the
  logs, the sink and the answers are the same.  It has a rule for a statement that does not look at
  the memory and one for a program that reads it first (`mem_bind`).
* `withAnchor` — that function: the memory with the anchor fixed.
* `inStep_iterBatches`, for both sources — the batches of the two are the same batches.

A cursor reaches the anchor when it stands there or past it.  From such a cursor on the anchor makes
no difference to a query, and a source with an anchor answers no other cursor.
-/

set_option autoImplicit false

namespace HsUploader

open Prog

variable {μ α β : Type}

/-! ## `initial_cursor` -/

namespace SqliteSource

variable (src : SqliteSource)

/-- `initial_cursor()`: it reads through a connection of its own, the next one. -/
def initialCursor : SqliteM (Option Bytes) :=
  if !src.configured || !src.startAt then pure none
  else do
    let m ← mem
    match m.startAtCursor with
    | some c => pure (some (.ofInt c))
    | none =>
      let hasTable ← query fun s ↦ .ok s.isSome
      if hasTable then
        let hasProducer ← src.probeProducer
        let f ← ({} : LocalRowFilter).probe m.opened
        let present ← query fun s ↦ matching (src.presentClauses hasProducer f.hasLocal) s.rows
        pure (some (.ofInt ((present.map Row.id).foldr max 0)))
      else pure (some (.ofInt 0))

end SqliteSource

namespace WsprCycleSource

variable (src : WsprCycleSource)

/-- `initial_cursor()`: it reads no database. -/
def initialCursor : WsprM (Option Bytes) :=
  if src.fromBeginning then pure none
  else do
    let m ← mem
    let anchor ← match m.startAtAnchor with
      | some a => pure a
      | none => do
        let now ← clock
        pure (isoZ (currentCycleFloor (fromTimestamp now) - wsprCycle))
    if anchor.toList.all fun c ↦ c.toNat < 128 then pure (some (.ofAscii anchor.toList))
    else raise (.other "UnicodeEncodeError" "ordinal not in range(128)")

end WsprCycleSource

/-! ## In step -/

/-- What a partial ack accepts satisfies `P`. -/
def Choice.Accepts (P : Bytes → Prop) (c : Choice Act QueuedRecord) : Prop :=
  ∀ o, c.outcome = .ok o → o.kind = .partialAck → ∀ x, o.acceptedCursor = some x → x ≠ [] → P x

/-- The right system is the left one with `f` of its memory. -/
structure Recalled (f : μ → μ) (P : Bytes → Prop) (s s' : Sys (Outside μ) Act QueuedRecord) :
    Prop where
  eq : s' = { s with here := { s.here with mem := f s.here.mem } }
  env : ∀ n, (s.env n).Accepts P

theorem foldl_react_mem (ops : List Act) (o : Outside μ) (m : μ) :
    ops.foldl (fun x op ↦ Surroundings.react op x) { o with mem := m } =
      { ops.foldl (fun x op ↦ Surroundings.react op x) o with mem := m } := by
  induction ops generalizing o with
  | nil => rfl
  | cons op ops ih =>
    rw [List.foldl_cons, List.foldl_cons, ← ih]
    cases op <;> rfl

namespace Recalled

variable {f : μ → μ} {P : Bytes → Prop} {V : α → β → Prop}

theorem breathe :
    InStep (Recalled f P) (fun c c' ↦ c = c' ∧ c.Accepts P)
      (Sys.breathe : SqlM μ QueuedRecord _) Sys.breathe := fun s s' h ↦ by
  have hmem :
      (s.choice.ops.foldl (fun x op ↦ Surroundings.react op x) s.here).mem = s.here.mem := by
    have hsame := congrArg Outside.mem (foldl_react_mem s.choice.ops s.here s.here.mem)
    exact hsame
  have hnext : s'.next = { s.next with here := { s.next.here with mem := f s.next.here.mem } } := by
    rw [h.eq]
    simp only [Sys.next, Sys.choice] at hmem ⊢
    rw [foldl_react_mem, hmem]
  have hchoice : s'.choice = s.choice := by
    rw [h.eq]
    rfl
  simp only [Sys.breathe, hchoice]
  split
  · exact ⟨trivial, hnext, h.env⟩
  · exact ⟨⟨rfl, h.env s.tick⟩, hnext, h.env⟩

theorem breathe_eq :
    InStep (Recalled f P) (· = ·) (Sys.breathe : SqlM μ QueuedRecord _) Sys.breathe :=
  breathe.mono fun _ _ h ↦ h.1

/-- A statement that does not look at the memory. -/
theorem statement_of {g : Outside μ → Except Exn (α × Outside μ)} {Q : α → Prop}
    (hQ : ∀ o r, g o = .ok r → Q r.1)
    (hg : ∀ o, g { o with mem := f o.mem } =
      (g o).map fun r ↦ (r.1, { r.2 with mem := f r.2.mem })) :
    InStep (Recalled f P) (fun a b ↦ a = b ∧ Q a) (statement g : SqlM μ QueuedRecord α)
      (statement g) := by
  refine breathe_eq.bind_eq fun _ s s' h ↦ ?_
  obtain ⟨rfl, henv⟩ := h
  simp only [actE, hg]
  by_cases hreach : s.here.reachable = true
  · simp only [if_pos hreach]
    cases hr : g s.here with
    | error e => exact ⟨rfl, rfl, henv⟩
    | ok r => exact ⟨⟨rfl, hQ _ r hr⟩, rfl, henv⟩
  · simp only [if_neg hreach]
    exact ⟨rfl, rfl, henv⟩

theorem statement {g : Outside μ → Except Exn (α × Outside μ)}
    (hg : ∀ o, g { o with mem := f o.mem } =
      (g o).map fun r ↦ (r.1, { r.2 with mem := f r.2.mem })) :
    InStep (Recalled f P) (· = ·) (statement g : SqlM μ QueuedRecord α) (HsUploader.statement g) :=
  (statement_of (Q := fun _ ↦ True) (fun _ _ _ ↦ trivial) hg).mono fun _ _ h ↦ h.1

theorem query_of {k : Sink → Except Exn α} {Q : α → Prop} (hQ : ∀ sink a, k sink = .ok a → Q a) :
    InStep (Recalled f P) (fun a b ↦ a = b ∧ Q a) (query k : SqlM μ QueuedRecord α) (query k) :=
  statement_of (fun o r hr ↦ by
    obtain ⟨a, ha, rfl⟩ := exists_of_map_eq_ok hr
    exact hQ _ a ha) fun o ↦ by cases k o.sink <;> rfl

theorem query (k : Sink → Except Exn α) :
    InStep (Recalled f P) (· = ·) (query k : SqlM μ QueuedRecord α) (HsUploader.query k) :=
  (query_of (Q := fun _ ↦ True) fun _ _ _ ↦ trivial).mono fun _ _ h ↦ h.1

theorem clock : InStep (Recalled f P) (· = ·) (clock : SqlM μ QueuedRecord ℚ) HsUploader.clock :=
  breathe_eq.bind_eq fun _ ↦ .pure rfl

/-- A program that reads the memory first. -/
theorem mem_bind {k : μ → SqlM μ QueuedRecord α} {k' : μ → SqlM μ QueuedRecord β}
    (hk : ∀ m, InStep (Recalled f P) V (k m) (k' (f m))) :
    InStep (Recalled f P) V (mem >>= k) (mem >>= k') := fun s s' h ↦ by
  have hs' : (mem >>= k') s' = k' (f s.here.mem) s' := by
    rw [h.eq]
    rfl
  have hs : (mem >>= k) s = k s.here.mem s := rfl
  rw [hs, hs']
  exact hk s.here.mem s s' h

theorem setMem {k : μ → μ} (hk : ∀ m, k (f m) = f (k m)) :
    InStep (Recalled f P) (· = ·) (setMem k : SqlM μ QueuedRecord Unit) (HsUploader.setMem k) :=
  fun s s' h ↦ by
    obtain ⟨rfl, henv⟩ := h
    refine ⟨rfl, ?_, henv⟩
    simp only [HsUploader.setMem, Sys.inMemory, Prog.act, hk]

theorem setMem_bind {k : μ → μ} {p : SqlM μ QueuedRecord α} {q : SqlM μ QueuedRecord β}
    (hk : ∀ m, k (f m) = f (k m)) (h : InStep (Recalled f P) V p q) :
    InStep (Recalled f P) V (do HsUploader.setMem k; p) (do HsUploader.setMem k; q) :=
  (setMem hk).bind_eq fun _ ↦ h

theorem switches :
    InStep (Recalled f P) (· = ·)
      (Sys.inMemory fun o ↦ (o.switches, o) : SqlM μ QueuedRecord Switches)
      (Sys.inMemory fun o ↦ (o.switches, o)) := fun s s' h ↦ by
  obtain ⟨rfl, henv⟩ := h
  exact ⟨rfl, rfl, henv⟩

theorem probe (g : LocalRowFilter) (conn : ℕ) :
    InStep (Recalled f P) (· = ·) (g.probe conn : SqlM μ QueuedRecord LocalRowFilter)
      (g.probe conn) := by
  rw [LocalRowFilter.probe]
  split
  · exact .pure rfl
  · exact (query _).bind_eq fun _ ↦ .pure rfl

theorem ofExcept (x : Except Exn α) :
    InStep (Recalled f P) (· = ·) (ofExcept x : SqlM μ QueuedRecord α) (Prog.ofExcept x) :=
  .ofExcept (by cases x <;> rfl)

/-- A call of a transport that leaves its answers open. -/
theorem callOpen :
    InStep (Recalled f P)
      (fun o o' ↦ o = o' ∧ (o.kind = .partialAck → ∀ x, o.acceptedCursor = some x → x ≠ [] → P x))
      (callOpen : SqlM μ QueuedRecord _) HsUploader.callOpen :=
  breathe.bind fun c c' h ↦ by
    obtain ⟨rfl, hc⟩ := h
    refine .ofExcept ?_
    cases ho : c.outcome with
    | error e => rfl
    | ok o => exact ⟨rfl, hc o ho⟩

end Recalled

/-- The value of an `Except`, with what it is the value of. -/
theorem alike_self (x : Except Exn α) : Alike (fun a b ↦ a = b ∧ x = .ok a) x x := by
  cases x with
  | error e => rfl
  | ok a => exact ⟨rfl, rfl⟩

/-! ## `SqliteSource` -/

namespace SqliteSource

variable {src : SqliteSource} {a : ℤ} {P : Bytes → Prop}

/-- The memory with the anchor fixed. -/
def withAnchor (a : ℤ) (m : SqliteMem) : SqliteMem := { m with startAtCursor := some a }

theorem inStep_connect : InStep (Recalled (withAnchor a) P) (· = ·) connect connect := by
  refine Recalled.mem_bind fun m ↦ ?_
  dsimp only [withAnchor]
  cases m.conn with
  | some c => exact .pure rfl
  | none =>
    exact (Recalled.query _).bind_eq fun _ ↦ Recalled.setMem_bind (fun _ ↦ rfl) (.pure rfl)

theorem inStep_ensureReady :
    InStep (Recalled (withAnchor a) P) (· = ·) ensureReady ensureReady := by
  refine Recalled.mem_bind fun m ↦ ?_
  dsimp only [withAnchor]
  split
  · exact .pure rfl
  · refine inStep_connect.bind_eq fun _ ↦ (Recalled.query _).bind_eq fun ready ↦ ?_
    split
    · exact Recalled.setMem_bind (fun _ ↦ rfl) (.pure rfl)
    · exact .pure rfl

theorem inStep_probeProducer :
    InStep (Recalled (withAnchor a) P) (· = ·) src.probeProducer src.probeProducer := by
  rw [probeProducer]
  split
  · exact .pure rfl
  · refine Recalled.mem_bind fun m ↦ ?_
    dsimp only [withAnchor]
    cases m.hasProducerColumn with
    | some b => exact .pure rfl
    | none =>
      exact (Recalled.query _).bind_eq fun _ ↦ Recalled.setMem_bind (fun _ ↦ rfl)
        (.pure rfl)

theorem inStep_probeLocal (conn : ℕ) :
    InStep (Recalled (withAnchor a) P) (· = ·) (probeLocal conn) (probeLocal conn) :=
  Recalled.mem_bind fun m ↦ (Recalled.probe m.localRows conn).bind_eq fun _ ↦
    Recalled.setMem_bind (fun _ ↦ rfl) (.pure rfl)

theorem inStep_select (hasProducer hasLocal : Bool) (ceiling : Option String) (cur limit : ℤ) :
    InStep (Recalled (withAnchor a) P) (fun rows rows' ↦ rows = rows' ∧ ∀ r ∈ rows, cur < r.id)
      (src.select hasProducer hasLocal ceiling cur limit)
      (src.select hasProducer hasLocal ceiling cur limit) := by
  refine Recalled.statement_of (Q := fun rows : List Row ↦ ∀ r ∈ rows, cur < r.id)
    (fun o r hr ↦ ?_) fun o ↦ ?_
  · obtain ⟨hit, hhit, rfl⟩ := exists_of_map_eq_ok hr
    exact fun r hr ↦ (passes_of_selectRows hhit hr).1
  · cases src.selectRows hasProducer hasLocal ceiling cur limit o.sink.rows <;> rfl

theorem inStep_checkStaleSchema :
    InStep (Recalled (withAnchor a) P) (· = ·) src.checkStaleSchema src.checkStaleSchema := by
  rw [checkStaleSchema]
  split
  · exact .pure rfl
  · refine inStep_probeProducer.bind_eq fun hasProducer ↦ (Recalled.query _).bind_eq fun stale ↦ ?_
    split
    · exact .pure rfl
    · exact Recalled.setMem fun _ ↦ rfl

theorem inStep_askCeiling :
    InStep (Recalled (withAnchor a) P) (· = ·) src.askCeiling src.askCeiling := by
  rw [askCeiling]
  split
  · exact .pure rfl
  · exact (Recalled.statement fun _ ↦ rfl).bind_eq fun _ ↦ .pure rfl

theorem reaches_ofInt {n : ℤ} (h : a < n) : Reaches cursorIsAfter (.ofInt a) (.ofInt n) := by
  refine ⟨Bytes.ofInt_ne_nil n, .inr ?_⟩
  have hne : (Bytes.ofInt a).isEmpty = false := by
    rw [List.isEmpty_eq_false_iff]
    exact Bytes.ofInt_ne_nil a
  rw [cursorIsAfter, hne, if_neg Bool.false_ne_true, cursorFromBytes_ofInt, cursorFromBytes_ofInt]
  simp [h]

/-- A cursor that reaches the anchor and can be read stands at the anchor or after it. -/
theorem le_of_reaches {c : Bytes} {cur : ℤ} (h : Reaches cursorIsAfter (.ofInt a) c)
    (hcur : cursorFromBytes c = .ok cur) : a ≤ cur := by
  rcases h.after with rfl | hafter
  · rw [cursorFromBytes_ofInt] at hcur
    cases hcur
    exact le_rfl
  · have hne : (Bytes.ofInt a).isEmpty = false := by
      rw [List.isEmpty_eq_false_iff]
      exact Bytes.ofInt_ne_nil a
    rw [cursorIsAfter, hne, if_neg Bool.false_ne_true, hcur, cursorFromBytes_ofInt] at hafter
    have hlt : a < cur := by simpa using hafter
    exact hlt.le

/-- **A batch** reaches the anchor when the cursor does. -/
theorem inStep_iterOneBatch {cur : ℤ} (hcur : a ≤ cur) (limit : ℤ) :
    InStep (Recalled (withAnchor a) P)
      (fun b b' ↦ b = b' ∧ ∀ x ∈ b, Reaches cursorIsAfter (.ofInt a) x.cursorAfter)
      (src.iterOneBatch cur limit) (src.iterOneBatch cur limit) := by
  refine inStep_connect.bind_eq fun conn ↦ inStep_askCeiling.bind_eq fun ceiling ↦ ?_
  cases ceiling with
  | none => exact .pure ⟨rfl, nofun⟩
  | some ceiling =>
    refine inStep_probeProducer.bind_eq fun hasProducer ↦ (inStep_probeLocal conn).bind_eq
      fun hasLocal ↦ (inStep_select hasProducer hasLocal ceiling cur limit).bind ?_
    rintro rows _ ⟨rfl, hrows⟩
    split
    · exact inStep_checkStaleSchema.bind_eq fun _ ↦ .pure ⟨rfl, nofun⟩
    · rename_i hne
      refine Recalled.clock.bind_eq fun now ↦ (InStep.ofExcept (alike_self _)).bind ?_
      rintro ⟨records, lastId⟩ _ ⟨rfl, hbuilt⟩
      refine .pure ⟨rfl, fun x hx ↦ ?_⟩
      cases hx
      have hlast := (src.buildRecords_eq hbuilt).2
      obtain ⟨r, hr⟩ : ∃ r, rows.getLast? = some r :=
        Option.isSome_iff_exists.mp (by simpa [List.isEmpty_iff] using hne)
      rw [hr] at hlast
      have hid := hrows r (List.mem_of_getLast? hr)
      have hlastId : lastId = r.id := hlast
      exact reaches_ofInt (by omega)

theorem inStep_cursorFromStartAt :
    InStep (Recalled (withAnchor a) P) (fun x y ↦ x = a ∧ y = a) (pure a) src.cursorFromStartAt :=
  fun s s' h ↦ by
    obtain ⟨rfl, henv⟩ := h
    exact ⟨⟨rfl, rfl⟩, rfl, henv⟩

/-- **The batches from the record, and from the anchor in memory.** -/
theorem inStep_iterBatches (hstart : src.startAt = true) {c c' : Bytes} (limit : ℤ)
    (hc : Reaches cursorIsAfter (.ofInt a) c) (hor : c' = c ∨ c = .ofInt a ∧ c' = []) :
    InStep (Recalled (withAnchor a) P)
      (List.Forall₂ (InStep (Recalled (withAnchor a) P)
        fun b b' ↦ b = b' ∧ ∀ x ∈ b, Reaches cursorIsAfter (.ofInt a) x.cursorAfter))
      (src.iterBatches c limit) (src.iterBatches c' limit) := by
  have hne : c.isEmpty = false := by
    rw [List.isEmpty_eq_false_iff]
    exact hc.ne_nil
  have hone : ∀ cur, a ≤ cur → List.Forall₂ (InStep (Recalled (withAnchor a) P)
      fun b b' ↦ b = b' ∧ ∀ x ∈ b, Reaches cursorIsAfter (.ofInt a) x.cursorAfter)
      [src.iterOneBatch cur limit] [src.iterOneBatch cur limit] := fun cur hcur ↦
    .cons (inStep_iterOneBatch hcur limit) .nil
  rw [iterBatches, iterBatches]
  split
  · exact .pure .nil
  · refine inStep_ensureReady.attempt.bind fun x y hxy ↦ ?_
    cases x with
    | error e =>
      cases y with
      | error e' => exact Recalled.setMem_bind (fun _ ↦ rfl) (.pure .nil)
      | ok ready => exact hxy.elim
    | ok ready =>
      cases y with
      | error e' => exact hxy.elim
      | ok ready' =>
        obtain rfl : ready = ready' := hxy
        cases ready with
        | false => exact Recalled.setMem_bind (fun _ ↦ rfl) (.pure .nil)
        | true =>
          refine Recalled.setMem_bind (fun _ ↦ rfl) ?_
          rcases hor with rfl | ⟨rfl, rfl⟩
          · refine (InStep.ofExcept (alike_self _)).bind ?_
            rintro cur _ ⟨rfl, hcur⟩
            simp only [hne, Bool.false_and, Bool.false_eq_true, if_false]
            exact .pure (hone cur (le_of_reaches hc hcur))
          · have hempty : cursorFromBytes [] = .ok 0 := rfl
            rw [cursorFromBytes_ofInt, hempty, hne, hstart]
            refine InStep.bind (p := pure a) (q := src.cursorFromStartAt)
              (f := fun cur ↦ pure [src.iterOneBatch cur limit])
              (g := fun cur ↦ pure [src.iterOneBatch cur limit]) inStep_cursorFromStartAt ?_
            rintro x y ⟨rfl, rfl⟩
            exact .pure (hone _ le_rfl)

theorem inStep_commit (token : Bytes) :
    InStep (Recalled (withAnchor a) P) (· = ·) (src.commit token) (src.commit token) := by
  rw [commit]
  split
  · exact .pure rfl
  · split
    · exact .pure rfl
    · split
      · exact .pure rfl
      · refine InStep.tryCatch ?_ fun _ ↦ .pure rfl
        refine inStep_connect.bind_eq fun conn ↦ inStep_probeProducer.bind_eq fun hasProducer ↦
          (inStep_probeLocal conn).bind_eq fun hasLocal ↦ Recalled.statement fun o ↦ ?_
        rename_i lastId _
        cases matching (src.deleteClauses hasProducer hasLocal lastId) o.sink.rows <;> rfl

end SqliteSource

/-! ## `WsprCycleSource` -/

namespace WsprCycleSource

variable {src : WsprCycleSource} {a : String} {P : Bytes → Prop}

/-- The memory with the anchor fixed. -/
def withAnchor (a : String) (m : WsprMem) : WsprMem := { m with startAtAnchor := some a }

theorem inStep_connect : InStep (Recalled (withAnchor a) P) (· = ·) connect connect := by
  refine Recalled.mem_bind fun m ↦ ?_
  dsimp only [withAnchor]
  cases m.conn with
  | some c => exact .pure rfl
  | none =>
    exact (Recalled.query _).bind_eq fun _ ↦ Recalled.setMem_bind (fun _ ↦ rfl) (.pure rfl)

theorem inStep_probeLocal (conn : ℕ) :
    InStep (Recalled (withAnchor a) P) (· = ·) (probeLocal conn) (probeLocal conn) :=
  Recalled.mem_bind fun m ↦ (Recalled.probe m.localRows conn).bind_eq fun _ ↦
    Recalled.setMem_bind (fun _ ↦ rfl) (.pure rfl)

theorem inStep_hasProducer (conn : ℕ) :
    InStep (Recalled (withAnchor a) P) (· = ·) (hasProducer conn) (hasProducer conn) := by
  have hprobe : InStep (Recalled (withAnchor a) P) (· = ·) (hasProducer.probe conn)
      (hasProducer.probe conn) :=
    (Recalled.query _).bind_eq fun _ ↦ Recalled.setMem_bind (fun _ ↦ rfl) (.pure rfl)
  refine Recalled.mem_bind fun m ↦ ?_
  dsimp only [withAnchor]
  rcases m.producerCol with _ | ⟨c, b⟩
  · exact hprobe
  · dsimp only
    split
    · exact .pure rfl
    · exact hprobe

theorem inStep_cycleComplete (cycle : String) :
    InStep (Recalled (withAnchor a) P) (· = ·) (src.cycleComplete cycle)
      (src.cycleComplete cycle) := by
  rw [cycleComplete]
  split
  · exact .pure rfl
  · exact (Recalled.query _).bind_eq fun _ ↦ .pure rfl

theorem inStep_walkCycles (forceBefore : Instant) (cycles : List String)
    (ceiling : Option String) :
    InStep (Recalled (withAnchor a) P) (· = ·) (src.walkCycles forceBefore cycles ceiling)
      (src.walkCycles forceBefore cycles ceiling) := by
  induction cycles generalizing ceiling with
  | nil => exact .pure rfl
  | cons cycle rest ih =>
    refine (inStep_cycleComplete cycle).bind_eq fun complete ↦ ?_
    split
    · exact ih _
    · split
      · exact ih _
      · split
        · exact ih _
        · exact .pure rfl

theorem inStep_askCeiling (cursor : String) :
    InStep (Recalled (withAnchor a) P) (· = ·) (src.askCeiling cursor) (src.askCeiling cursor) := by
  rw [askCeiling]
  split
  · exact Recalled.clock.bind_eq fun _ ↦ .pure rfl
  · refine Recalled.clock.bind_eq fun now ↦ (Recalled.query _).bind_eq fun cycles ↦ ?_
    split
    · exact .pure rfl
    · exact inStep_walkCycles _ _ _

theorem inStep_selectCycle (cycle : String) (cs : List Clause) :
    InStep (Recalled (withAnchor a) P) (· = ·) (selectCycle cycle cs)
      (selectCycle cycle cs) :=
  Recalled.statement fun o ↦ by cases matching cs o.sink.rows <;> rfl

theorem inStep_judge (verdict : List (String × Bool)) (riders : List (String × Json)) :
    InStep (Recalled (withAnchor a) P) (· = ·) (judge verdict riders) (judge verdict riders) := by
  induction riders generalizing verdict with
  | nil =>
    rw [judge]
    exact .pure rfl
  | cons rider rest ih =>
    obtain ⟨producer, payload⟩ := rider
    rw [judge]
    split
    · exact (ih _).bind_eq fun _ ↦ .pure rfl
    · exact Recalled.breathe_eq.bind_eq fun _ ↦ Recalled.switches.bind_eq fun _ ↦
        (Recalled.ofExcept _).bind_eq fun _ ↦ (ih _).bind_eq fun _ ↦ .pure rfl

theorem inStep_judgeRiders (riders : List (String × Json)) :
    InStep (Recalled (withAnchor a) P) (· = ·) (judgeRiders riders) (judgeRiders riders) := by
  rw [judgeRiders]
  split
  · exact .pure rfl
  · refine InStep.bind (InStep.attempt (V := (· = ·)) ?_) fun x y hxy ↦ ?_
    · refine Recalled.breathe_eq.bind_eq fun _ ↦ Recalled.switches.bind_eq fun sw ↦ ?_
      split
      · exact inStep_judge _ _
      · exact .pure rfl
    · cases x <;> cases y
      · exact .pure rfl
      · exact hxy.elim
      · exact hxy.elim
      · exact .pure hxy

theorem inStep_pskRecords (conn : ℕ) (hasLocal : Bool) (cycle : String) :
    InStep (Recalled (withAnchor a) P) (· = ·) (src.pskRecords conn hasLocal cycle)
      (src.pskRecords conn hasLocal cycle) := by
  rw [pskRecords]
  split
  · exact (inStep_hasProducer conn).bind_eq fun _ ↦ (inStep_selectCycle _ _).bind_eq fun _ ↦
      (Recalled.ofExcept _).bind_eq fun _ ↦ (inStep_judgeRiders _).bind_eq fun _ ↦
        Recalled.ofExcept _
  · exact .pure rfl

theorem not_lt_empty (t : String) : ¬ t < "" := by
  rw [String.lt_iff_toList_lt]
  exact List.not_lt_nil _

/-- The cursor of a cycle past the anchor. -/
theorem reaches_ofAscii {cycle : String} (ha : ∀ c ∈ a.toList, c.toNat < 128) (hne : a ≠ "")
    (hc : ∀ c ∈ cycle.toList, c.toNat < 128) (h : a < cycle) :
    Reaches cursorIsAfter (.ofAscii a.toList) (.ofAscii cycle.toList) := by
  have hnil : ∀ t : String, t ≠ "" → Bytes.ofAscii t.toList ≠ [] := fun t ht hmap ↦ by
    rw [Bytes.ofAscii, List.map_eq_nil_iff] at hmap
    exact ht (String.toList_eq_nil_iff.mp hmap)
  have hcycle : cycle ≠ "" := by
    rintro rfl
    exact not_lt_empty a h
  refine ⟨hnil cycle hcycle, .inr ?_⟩
  have hempty : (Bytes.ofAscii a.toList).isEmpty = false := by
    rw [List.isEmpty_eq_false_iff]
    exact hnil a hne
  rw [cursorIsAfter, hempty, if_neg Bool.false_ne_true, Bytes.decodeAscii_ofAscii hc,
    Bytes.decodeAscii_ofAscii ha]
  simp only [String.ofList_toList]
  rw [compare_gt_iff_gt.mpr h]
  rfl

/-- **The batch of a cycle** past the anchor. -/
theorem inStep_buildBatchForCycle (conn : ℕ) {cycle : String}
    (ha : ∀ c ∈ a.toList, c.toNat < 128) (hne : a ≠ "") (hcycle : a < cycle) :
    InStep (Recalled (withAnchor a) P)
      (fun b b' ↦ b = b' ∧ ∀ x ∈ b, Reaches cursorIsAfter (.ofAscii a.toList) x.cursorAfter)
      (src.buildBatchForCycle conn cycle) (src.buildBatchForCycle conn cycle) := by
  refine (inStep_probeLocal conn).bind_eq fun hasLocal ↦ (inStep_selectCycle _ _).bind_eq
    fun rows ↦ (Recalled.ofExcept _).bind_eq fun records ↦ (inStep_pskRecords _ _ _).bind_eq
      fun psk ↦ ?_
  split
  · exact .pure ⟨rfl, nofun⟩
  · split
    · rename_i hascii
      refine .pure ⟨rfl, fun x hx ↦ ?_⟩
      cases hx
      exact reaches_ofAscii ha hne (by simpa using hascii) hcycle
    · exact .raise _

/-- The cycles listed past a text lie past it. -/
theorem lt_of_listed {hasLocal inclusive : Bool} {cursor ceiling : String} {rows : List Row}
    {cycles : List String}
    (h : (matching (cycleListClauses hasLocal cursor ceiling inclusive) rows).map distinctCycles =
      .ok cycles) : ∀ c ∈ cycles, cursor < c := by
  obtain ⟨hit, hhit, rfl⟩ := exists_of_map_eq_ok h
  intro c hc
  obtain ⟨r, hr, htime⟩ := mem_distinctCycles.mp hc
  rw [matching_eq hhit] at hr
  obtain ⟨c', hc', -, hlt, -⟩ :=
    passes_cycleListClauses.mp (of_decide_eq_true (List.mem_filter.mp hr).2)
  have hsame := (Row.cycle_eq_some.mp hc').2
  rw [htime] at hsame
  injection hsame with hsame
  injection hsame with hsame
  rwa [hsame]

/-- The effective cursors of the two sources are one text, no earlier than the anchor. -/
theorem inStep_effectiveCursor (hnow : src.fromBeginning = false) {c c' : Bytes}
    (ha : ∀ x ∈ a.toList, x.toNat < 128)
    (hc : Reaches cursorIsAfter (.ofAscii a.toList) c)
    (hor : c' = c ∨ c = .ofAscii a.toList ∧ c' = []) :
    InStep (Recalled (withAnchor a) P) (fun t t' ↦ t = t' ∧ a ≤ t) (src.effectiveCursor c)
      (src.effectiveCursor c') := by
  have hne : c.isEmpty = false := by
    rw [List.isEmpty_eq_false_iff]
    exact hc.ne_nil
  rcases hor with rfl | ⟨rfl, rfl⟩
  · rw [effectiveCursor, hne, Bool.not_false, if_pos rfl]
    split
    · rename_i cs hcs
      refine .pure ⟨rfl, ?_⟩
      rcases hc.after with rfl | hafter
      · rw [Bytes.decodeAscii_ofAscii ha] at hcs
        cases hcs
        rw [String.ofList_toList]
      · rw [cursorIsAfter] at hafter
        split at hafter
        · rename_i hempty
          rw [Bytes.ofAscii, List.isEmpty_iff, List.map_eq_nil_iff,
            String.toList_eq_nil_iff] at hempty
          rw [hempty]
          exact not_lt.mp (not_lt_empty _)
        · rw [hcs, Bytes.decodeAscii_ofAscii ha] at hafter
          simp only [String.ofList_toList, Except.ok.injEq, beq_iff_eq] at hafter
          exact (compare_gt_iff_gt.mp hafter).le
    · exact .raise _
  · rw [effectiveCursor, effectiveCursor, hne, hnow, Bytes.decodeAscii_ofAscii ha]
    intro s s' h
    obtain ⟨rfl, henv⟩ := h
    exact ⟨⟨String.ofList_toList.symm ▸ rfl, by rw [String.ofList_toList]⟩, rfl, henv⟩

/-- **The cycles from the record, and from the anchor in memory.** -/
theorem inStep_iterBatches (hnow : src.fromBeginning = false) {c c' : Bytes} (limit : ℤ)
    (ha : ∀ x ∈ a.toList, x.toNat < 128) (hne : a ≠ "")
    (hc : Reaches cursorIsAfter (.ofAscii a.toList) c)
    (hor : c' = c ∨ c = .ofAscii a.toList ∧ c' = []) :
    InStep (Recalled (withAnchor a) P)
      (List.Forall₂ (InStep (Recalled (withAnchor a) P)
        fun b b' ↦ b = b' ∧ ∀ x ∈ b, Reaches cursorIsAfter (.ofAscii a.toList) x.cursorAfter))
      (src.iterBatches c limit) (src.iterBatches c' limit) := by
  rw [iterBatches, iterBatches]
  refine inStep_connect.bind_eq fun conn ↦ (Recalled.query _).bind_eq fun ready ↦ ?_
  split
  · refine (inStep_effectiveCursor hnow ha hc hor).bind ?_
    rintro cursorIso _ ⟨rfl, hle⟩
    refine (inStep_askCeiling cursorIso).bind_eq fun ceiling ↦ ?_
    cases ceiling with
    | none => exact .pure .nil
    | some ceiling =>
      refine (inStep_probeLocal conn).bind_eq fun hasLocal ↦
        (Recalled.query_of (Q := fun cycles : List String ↦ ∀ c ∈ cycles, cursorIso < c)
          fun _ _ h ↦ lt_of_listed h).bind ?_
      rintro cycles _ ⟨rfl, hlt⟩
      refine .pure ?_
      rw [List.forall₂_map_left_iff, List.forall₂_map_right_iff, List.forall₂_same]
      exact fun cycle hcycle ↦
        inStep_buildBatchForCycle conn ha hne (lt_of_le_of_lt hle (hlt cycle hcycle))
  · exact .pure .nil

end WsprCycleSource

end HsUploader
