import HsUploader.Sources.SqliteTwins
import HsUploader.Sources.WsprTwins
import HsUploader.Sources.WsprUnfinished

/-!
# Local rows and the batches of a source

Of two queues that differ in local rows alone both sources yield the same batches, as long as the
completion gate comes to the same of both (`local_rows_do_not_interfere`).  The gate is the one
place that looks at local rows: a receiver whose noise row is kept local completes its cycle all the
same (`local_noise_row_completes_cycle`).

## What is here

* `Released` — the rows a completion gate lets through, for sources whose ceiling it answers.
* `local_rows_do_not_interfere` — both sources, with a gate and without: the batches are equal where
  what the gate makes of the shared rows is.
* `reportedRows` and `ceilingSource` — a receiver whose noise row is kept local.
-/

set_option autoImplicit false

namespace HsUploader

open Prog

namespace SqliteSource

variable (src : SqliteSource)

/-- Some cycle that the gate finds shippable lets the row through. -/
def Released (gate : WsprCycleSource) (rows : List Row) (now : ℚ) (cursor : String) (r : Row) :
    Prop :=
  src.ceilingColumn ≠ none → ∃ d, gate.Shippable rows now cursor d ∧
    Passes (ceilingClauses src.ceilingColumn (some d)) r

/-- The ceiling the gate answers lets through the rows it releases. -/
theorem under_iff_released {gate : WsprCycleSource} {rows : List Row} {now : ℚ} {cursor : String}
    {c : Option String}
    (hc : src.ceilingColumn ≠ none → gate.IsCeiling rows now cursor c) (r : Row) :
    src.Under c r ↔ src.Released gate rows now cursor r := by
  rw [Under, Released]
  refine forall_congr' fun hcol ↦ ?_
  have hc := hc hcol
  cases c with
  | none =>
    refine ⟨fun h ↦ absurd rfl h.1, fun h ↦ ?_⟩
    obtain ⟨d, hd, -⟩ := h
    exact absurd hd (hc d)
  | some c =>
    obtain ⟨hship, hmax⟩ := hc
    refine ⟨fun h ↦ ⟨c, hship, h.2⟩, fun h ↦ ?_⟩
    obtain ⟨d, hd, hpass⟩ := h
    exact ⟨Option.some_ne_none c, passes_ceiling_mono (hmax d hd) hpass⟩

end SqliteSource

/-- **Local rows do not interfere**, where the completion gate makes the same of the shared ones.
`WsprCycleSource` without a gate yields the same batches of two queues that differ in local rows
alone; with one it does if every cycle of a shared row is admitted in both or in neither.
`SqliteSource` does if its scope can be evaluated on the local rows and, under the gate's ceiling, if
every shared row of its table is released in both or in neither. -/
theorem local_rows_do_not_interfere {k k' : Sink} (hk : SameButLocal k k') (now : ℚ) :
    (∀ (src : WsprCycleSource) (anchor : String) (s t : Sys (Outside WsprMem) Act QueuedRecord),
      WsprCycleSource.WsprTwins now anchor k k' s t → ∀ (cursor : Bytes) (limit : ℤ),
        (src.expectedReporters ≠ [] → ∀ text, src.cursorText anchor cursor = some text →
          src.SameGate now text k k') →
        (src.source.yielded cursor limit s).1 = (src.source.yielded cursor limit t).1) ∧
    ∀ (src : SqliteSource) (c c' : Option String) (s t : Sys (Outside SqliteMem) Act QueuedRecord),
      SqliteSource.SqliteTwins k.hasProducer c c' now k k' s t →
      src.ReadableLocals k.rows → src.ReadableLocals k'.rows →
      ∀ (gate : WsprCycleSource) (since : String),
        (src.ceilingColumn ≠ none → gate.IsCeiling k.rows now since c) →
        (src.ceilingColumn ≠ none → gate.IsCeiling k'.rows now since c') →
        (∀ r ∈ shared k.rows, r.targetDb = src.database → r.targetTable = src.table →
          (src.Released gate k.rows now since r ↔ src.Released gate k'.rows now since r)) →
        ∀ (cursor : Bytes) (limit : ℤ),
          (src.source.yielded cursor limit s).1 = (src.source.yielded cursor limit t).1 := by
  constructor
  · intro src anchor s t hT cursor limit hgate
    exact Source.yielded_eq (src.both_yields hk cursor limit hgate) hT
  · intro src c c' s t hT hr hr' gate since hc hc' hreleased cursor limit
    refine Source.yielded_eq (src.both_yields hk rfl hr hr' ?_ cursor limit) hT
    intro r hrow hdb htable
    rw [src.under_iff_released hc, src.under_iff_released hc']
    exact hreleased r hrow hdb htable

/-! ## Queues of the epoch -/

/-- The row is kept local. -/
def NewRow.keptLocal (r : NewRow) : NewRow := { r with isLocal := true }

/-- The shippable cycles of a queue of one cycle that is open. -/
theorem WsprCycleSource.shippable_iff_eq {src : WsprCycleSource} {rows : List Row} {now : ℚ}
    {cursor z : String} (honly : ∀ r ∈ rows, ∀ c ∈ r.cycle, c = z)
    (hqueued : ∃ r ∈ rows, r.cycle = some z)
    (hlt : cursor < z) (hfloor : z < isoZ (currentCycleFloor (fromTimestamp now)))
    (hopen : src.OpenAt rows (src.forceBefore now) z) (c : String) :
    src.Shippable rows now cursor c ↔ c = z := by
  constructor
  · rintro ⟨⟨r, hr, hc⟩, -⟩
    exact honly r hr c hc
  · rintro rfl
    refine ⟨hqueued, hlt, hfloor, ?_⟩
    rintro d ⟨r, hr, hd⟩ - -
    rw [honly r hr d hd]
    exact hopen

/-- The process of a source of queue rows over these rows. -/
def standingRows (rows : List NewRow) (ceiling : Option String) :
    Sys (Outside SqliteMem) Act QueuedRecord where
  here := { sink := (standing rows 150).here.sink, ceiling, mem := {} }
  env := fun _ ↦ { now := 150 }

/-- The spots and the noise row of a receiver, and a spot that is kept local beside them. -/
def reportedRows : List NewRow :=
  [wsprRow "spots" "AC0G/B4" "1970-01-01T00:00:00Z", wsprRow "noise" "AC0G/B4" "1970-01-01T00:00:00Z"]

def keptRow : NewRow := (wsprRow "spots" "AC0G/B5" "1970-01-01T00:00:00Z").keptLocal

/-- A source of the spots under a ceiling. -/
def ceilingSource : SqliteSource where
  database := "wspr"
  table := "spots"
  acceptedSchemaVersions := []
  ceilingColumn := some "time"
  parseIso := fun _ ↦ none

theorem shippable_reported (rows : List NewRow)
    (h : rows = reportedRows ∨ rows = reportedRows ++ [keptRow]) (c : String) :
    (epochSource ["AC0G/B4"]).Shippable (standing rows 150).here.sink.rows 150 "" c ↔
      c = "1970-01-01T00:00:00Z" := by
  rcases h with rfl | rfl <;>
    exact WsprCycleSource.shippable_iff_eq (by decide) (by decide)
      (by decide +kernel) (by decide +kernel) (by decide +kernel) c

theorem epoch_reading : ((150 : Reading) : ℚ) = 150 := Reading.epoch_of (by decide +kernel)

/-- Spots of a reported cycle, with and without a local spot beside them: the gated source of cycles
and a source of spots under the gate's ceiling yield the same of both, and it is a batch. -/
theorem local_rows_do_not_interfere_epoch :
    ((epochSource ["AC0G/B4"]).source.yielded [] 1000 (standing reportedRows 150)).1.length = 1 ∧
    (ceilingSource.source.yielded [] 1000
      (standingRows reportedRows (some "1970-01-01T00:00:00Z"))).1.length = 1 ∧
    ((epochSource ["AC0G/B4"]).source.yielded [] 1000 (standing reportedRows 150)).1 =
      ((epochSource ["AC0G/B4"]).source.yielded [] 1000
        (standing (reportedRows ++ [keptRow]) 150)).1 ∧
    (ceilingSource.source.yielded [] 1000
        (standingRows reportedRows (some "1970-01-01T00:00:00Z"))).1 =
      (ceilingSource.source.yielded [] 1000
        (standingRows (reportedRows ++ [keptRow]) (some "1970-01-01T00:00:00Z"))).1 := by
  have hk : SameButLocal (standing reportedRows 150).here.sink
      (standing (reportedRows ++ [keptRow]) 150).here.sink := ⟨rfl, rfl, rfl, rfl⟩
  have hship := shippable_reported reportedRows (.inl rfl)
  have hship' := shippable_reported (reportedRows ++ [keptRow]) (.inr rfl)
  refine ⟨by decide +kernel, by decide +kernel, ?_, ?_⟩
  · refine (local_rows_do_not_interfere hk 150).1 (epochSource ["AC0G/B4"]) (presentAnchor 150) _ _
      ⟨still_standing _ _, still_standing _ _, fun _ ↦ epoch_reading, fun _ ↦ epoch_reading, trivial, rfl,
        ⟨rfl, rfl, rfl, rfl, rfl,
          fun h ↦ absurd rfl h, fun h ↦ absurd rfl h⟩⟩ [] 1000 fun _ text htext c _ ↦ ?_
    obtain rfl : text = "" := (Option.some.inj htext).symm
    rw [WsprCycleSource.Admitted, WsprCycleSource.Admitted, hship, hship']
    exact and_congr_left fun _ ↦ iff_of_true (by decide) (by decide)
  · have hceiling : ∀ rows, (∀ c, (epochSource ["AC0G/B4"]).Shippable rows 150 "" c ↔
        c = "1970-01-01T00:00:00Z") →
        (epochSource ["AC0G/B4"]).IsCeiling rows 150 "" (some "1970-01-01T00:00:00Z") :=
      fun rows h ↦ ⟨(h _).mpr rfl, fun d hd ↦ ((h d).mp hd).le⟩
    refine (local_rows_do_not_interfere hk 150).2 ceilingSource (some "1970-01-01T00:00:00Z")
      (some "1970-01-01T00:00:00Z") (standingRows reportedRows (some "1970-01-01T00:00:00Z"))
      (standingRows (reportedRows ++ [keptRow]) (some "1970-01-01T00:00:00Z"))
      ⟨⟨rfl, fun _ ↦ rfl, fun _ ↦ rfl, rfl, rfl⟩, ⟨rfl, fun _ ↦ rfl, fun _ ↦ rfl, rfl, rfl⟩,
        fun _ ↦ epoch_reading, fun _ ↦ epoch_reading, ⟨rfl, rfl⟩, rfl, ⟨rfl, rfl, rfl, rfl, fun _ h ↦ (nomatch h),
          fun _ h ↦ (nomatch h), fun h ↦ absurd rfl h, fun h ↦ absurd rfl h⟩⟩
      (fun h ↦ absurd rfl h) (fun h ↦ absurd rfl h) (epochSource ["AC0G/B4"]) ""
      (fun _ ↦ hceiling _ hship) (fun _ ↦ hceiling _ hship') (fun r _ _ _ ↦ ?_) [] 1000
    simp only [SqliteSource.Released, hship, hship']

/-- **A local noise row completes a cycle.**  The one spot of the queue is held back until its
receiver's noise row is there; the noise row that is marked local lets it go. -/
theorem local_noise_row_completes_cycle :
    SameButLocal (standing [wsprRow "spots" "AC0G/B4" "1970-01-01T00:00:00Z"] 150).here.sink
      (standing [wsprRow "spots" "AC0G/B4" "1970-01-01T00:00:00Z",
        (wsprRow "noise" "AC0G/B4" "1970-01-01T00:00:00Z").keptLocal] 150).here.sink ∧
    ((epochSource ["AC0G/B4"]).source.yielded [] 1000
      (standing [wsprRow "spots" "AC0G/B4" "1970-01-01T00:00:00Z"] 150)).1 ≠
    ((epochSource ["AC0G/B4"]).source.yielded [] 1000
      (standing [wsprRow "spots" "AC0G/B4" "1970-01-01T00:00:00Z",
        (wsprRow "noise" "AC0G/B4" "1970-01-01T00:00:00Z").keptLocal] 150)).1 := by
  refine ⟨⟨rfl, rfl, rfl, rfl⟩, fun h ↦ ?_⟩
  have hlength := congrArg List.length h
  revert hlength
  decide +kernel

end HsUploader
