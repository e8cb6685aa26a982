import HsUploader.Daemon.StartingRecord
import HsUploader.Delivery.GatedCycles
import HsUploader.Sources.StartingCursor

/-!
# The starting record makes no difference

The record that is written for a source which starts at now is the anchor that the source's first
pump would fix.  `Neutral` says that a pipeline with the one and a pipeline with the other ship the
same batches and select the same rows, at every pump, while others write and the transport answers
what it likes.  Neither holds for cursors before the anchor: the record refuses them.

## What is here

* `Neutral` — what it is for a record and an anchor to make no difference to any run: the same
  calls, the same answers and the same statements at every pump, in one environment.
* `FromAnchor` — the two kinds of runs; after a restart the source fixes its anchor again.
* `neutral_of_companions` — from `Companions`, which speak of single calls, to runs.
* `Anchor` and `initialCursor_eq` — for each kind of source, the record that is written is the
  anchor that would be fixed, whatever the queue holds at that moment.
* `State.KeepsRecords` — the starting pass writes into free keys only.
* `starting_record_neutral` — all of it; `starting_record_refuses` — a partial ack and a retry that
  bring a cursor before the anchor.
-/

set_option autoImplicit false

namespace HsUploader

open Prog

variable {μ : Type}

/-- The world of a pipeline of queue rows, from a source that holds a `μ`. -/
abbrev PumpWorld (μ : Type) := World (Outside μ) Act QueuedRecord (List QueuedRecord)

/-! ## Two ways to a starting position -/

/-- The outside with `f` of what the source holds. -/
def Outside.recalled (f : μ → μ) (o : Outside μ) : Outside μ := { o with mem := f o.mem }

/-- The world with `f` of what the source holds. -/
def World.recalled (f : μ → μ) (w : PumpWorld μ) : PumpWorld μ :=
  { w with sys := { w.sys with here := w.sys.here.recalled f } }

/-- The world after `start_cursor`. -/
def World.started (key : SendKey) (c : Bytes) (t : Stamp) (w : PumpWorld μ) : PumpWorld μ :=
  { w with store := (w.store.startCursor key c t).2 }

/-- The same calls of the transport and the same statements on the queue. -/
def SameSelections (w w' : PumpWorld μ) : Prop :=
  w.trace = w'.trace ∧ w.sys.here.log = w'.sys.here.log

/-- The runs of a pipeline that was written the record `c`, and of one whose source has its anchor
fixed by `f`, also after a restart. -/
def FromAnchor (source : Source (Outside μ) Act QueuedRecord) (restart : Outside μ → Outside μ)
    (f : μ → μ) (c : Bytes) (u : Uploader) (set : PipelineSettings) (t : Stamp) (w : PumpWorld μ)
    (n : ℕ) : Prop :=
  SameSelections
    (run u (set.pipeline source) restart n (w.started (set.pipeline source).key c t))
    (run u (set.pipeline source) (fun o ↦ (restart o).recalled f) n (w.recalled f))

/-- The starting record `c` and the anchor that `f` fixes make no difference to any run in which no
retry and no partial ack brings a cursor before `c`. -/
def Neutral (source : Source (Outside μ) Act QueuedRecord) (restart : Outside μ → Outside μ)
    (f : μ → μ) (c : Bytes) : Prop :=
  ∀ (u : Uploader) (set : PipelineSettings) (t : Stamp) (w : PumpWorld μ) (n : ℕ),
    Table.lookup (set.pipeline source).key w.store.watermarks = none →
    (∀ d ∈ w.store.deliverables, (set.pipeline source).Queues c d) →
    (∀ k, (w.sys.env k).Accepts ((set.pipeline source).Reaches c)) →
    FromAnchor source restart f c u set t w n

/-- **From companions to runs.** -/
theorem neutral_of_companions {source : Source (Outside μ) Act QueuedRecord}
    {restart : Outside μ → Outside μ} {f : μ → μ} {c : Bytes} (hne : c ≠ [])
    (hmem : ∀ o, restart (o.recalled f) = restart o)
    (hc : ∀ set : PipelineSettings,
      Companions (Recalled f ((set.pipeline source).Reaches c)) (set.pipeline source) c) :
    Neutral source restart f c := by
  intro u set t w n hnone hqueued hout
  have hself : (set.pipeline source).Reaches c c := ⟨hne, .inl rfl⟩
  have hstart : (w.store.startCursor (set.pipeline source).key c t).2 =
      w.store.upsertCursor (set.pipeline source).key c t := by
    rw [Store.startCursor, hnone]
  have hstores : (w.store.startCursor (set.pipeline source).key c t).2.Beside
      (set.pipeline source) c w.store := by
    rw [hstart]
    exact ⟨rfl, fun key hkey ↦ (Table.lookup_upsert_of_ne _ _ hkey).symm,
      ⟨c, t, hself, Table.lookup_upsert_self _ _ _, .inr ⟨rfl, hnone⟩⟩, hqueued⟩
  have hworlds : World.Beside (Recalled f ((set.pipeline source).Reaches c)) (set.pipeline source) c
      (w.started (set.pipeline source).key c t) (w.recalled f) :=
    ⟨⟨rfl, hout⟩, hstores, rfl⟩
  have hrestart : ∀ s s', Recalled f ((set.pipeline source).Reaches c) s s' →
      Recalled f ((set.pipeline source).Reaches c) { s with here := restart s.here }
        { s' with here := (restart s'.here).recalled f } := by
    rintro s s' ⟨rfl, henv⟩
    refine ⟨?_, henv⟩
    have hhere := hmem s.here
    rw [Outside.recalled] at hhere
    rw [hhere]
    rfl
  have hrun := (hc set).run u restart (fun o ↦ (restart o).recalled f) hrestart hworlds n
  exact ⟨hrun.trace, congrArg (fun s ↦ s.here.log) hrun.sys.eq.symm⟩

/-- The pipeline's transport leaves its answers open, so the source has to be a companion. -/
theorem companions_of_source {source : Source (Outside μ) Act QueuedRecord} {f : μ → μ} {c : Bytes}
    (set : PipelineSettings)
    (hcommit : ∀ token, InStep (Recalled f ((set.pipeline source).Reaches c)) (· = ·)
      (source.commit token) (source.commit token))
    (hiter : ∀ b b' limit, (set.pipeline source).Reaches c b → (b' = b ∨ b = c ∧ b' = []) →
      InStep (Recalled f ((set.pipeline source).Reaches c))
        (List.Forall₂ (InStep (Recalled f ((set.pipeline source).Reaches c))
          fun x x' ↦ x = x' ∧ ∀ y ∈ x, (set.pipeline source).Reaches c y.cursorAfter))
        (source.iterBatches b limit) (source.iterBatches b' limit)) :
    Companions (Recalled f ((set.pipeline source).Reaches c)) (set.pipeline source) c where
  breathe := Recalled.breathe_eq
  commit := hcommit
  ship _ := Recalled.callOpen
  replay _ := Recalled.callOpen.mono fun _ _ h ↦ h.1
  serialize _ := Recalled.callOpen.bind fun _ _ _ ↦ .pure rfl
  iter := hiter

/-! ## The same position -/

namespace SqliteSource

variable {src : SqliteSource} {s : SqliteSys}

/-- What the source's anchor is at this moment. -/
def Anchor (src : SqliteSource) (o : Outside SqliteMem) (a : ℤ) : Prop :=
  o.mem.startAtCursor = some a ∨
    o.mem.startAtCursor = none ∧ ∃ present,
      matching (src.presentClauses o.sink.hasProducer o.sink.hasLocal) o.sink.rows = .ok present ∧
        a = (present.map Row.id).foldr max 0

theorem Anchor.unique {o : Outside SqliteMem} {a a' : ℤ} (h : src.Anchor o a)
    (h' : src.Anchor o a') : a = a' := by
  rcases h with h | ⟨hnone, present, hp, rfl⟩
  · rcases h' with h' | ⟨hnone', -⟩
    · exact Option.some.inj (h.symm.trans h')
    · rw [hnone'] at h
      cases h
  · rcases h' with h' | ⟨-, present', hp', rfl⟩
    · rw [hnone] at h'
      cases h'
    · rw [hp] at hp'
      cases hp'
      rfl

/-- **`initial_cursor`** answers the anchor. -/
theorem wp_initialCursor (hq : Quiet s.env) (hm : MemOk s.here) (hs : s.here.sink.isSome) :
    wp src.initialCursor
      (fun x _ ↦ ∀ c, x = some c → src.startAt = true ∧ ∃ a, c = .ofInt a ∧ src.Anchor s.here a)
      (fun _ _ ↦ True) (fun _ ↦ True) s := by
  have hw : Writes s.env := hq.writes
  rw [initialCursor]
  split
  · rw [wp_pure]
    nofun
  · rename_i hon
    have hstart : src.startAt = true := by simp_all
    rw [wp_bind, wp_mem]
    split
    · rename_i a ha
      rw [wp_pure]
      rintro c ⟨⟩
      exact ⟨hstart, a, rfl, .inl ha⟩
    · rename_i hnone
      rw [wp_bind]
      refine wp_query_works (L := fun _ ↦ False) hw hm (fun _ _ ↦ trivial) (fun _ _ _ ↦ trivial)
        fun s₁ h₁ hmem₁ ↦ ?_
      have hsome₁ : s₁.here.sink.isSome = true := h₁.grows.isSome hs
      dsimp only
      rw [hsome₁, if_pos rfl, wp_bind]
      refine wp_probeProducer (L := fun _ ↦ False) (h₁.env ▸ hw) h₁.memOk hsome₁ (fun _ _ ↦ trivial)
        (fun _ _ _ ↦ trivial) fun b s₂ h₂ _ hb ↦ ?_
      have hw₂ := h₁.trans h₂
      have hsome₂ : s₂.here.sink.isSome = true := h₂.grows.isSome hsome₁
      rw [wp_bind, LocalRowFilter.probe, if_neg (by simp), wp_bind]
      refine wp_query_works (L := fun _ ↦ False) (hw₂.env ▸ hw) h₂.memOk (fun _ _ ↦ trivial)
        (fun _ _ _ ↦ trivial) fun s₃ h₃ _ ↦ ?_
      have hw₃ := hw₂.trans h₃
      dsimp only
      rw [wp_pure, wp_bind]
      refine wp_query_works (L := fun _ ↦ False) (hw₃.env ▸ hw) h₃.memOk (fun _ _ ↦ trivial)
        (fun _ _ _ ↦ trivial) fun s₄ h₄ _ ↦ ?_
      have hw₄ := hw₃.trans h₄
      cases hp : matching (src.presentClauses b s₃.here.sink.hasLocal) s₄.here.sink.rows with
      | error e => trivial
      | ok present =>
        dsimp only
        rw [wp_pure]
        rintro c ⟨⟩
        refine ⟨hstart, _, rfl, .inr ⟨hnone, present, ?_, rfl⟩⟩
        have hsink : ∀ {s'}, Works (fun _ ↦ False) s s' → s'.here.sink = s.here.sink :=
          fun h ↦ (h.toLater.still hq).1
        rw [presentClauses, ← hsink hw₂, ← hb, hsink hw₂]
        rw [hsink hw₃, hsink hw₄, presentClauses] at hp
        exact hp

theorem wp_cursorFromStartAt_quiet (hq : Quiet s.env) (hm : MemOk s.here)
    (hs : s.here.sink.isSome) :
    wp src.cursorFromStartAt (fun a _ ↦ src.Anchor s.here a) (fun _ _ ↦ True) (fun _ ↦ True) s := by
  cases hanchor : s.here.mem.startAtCursor with
  | some a =>
    rw [cursorFromStartAt, wp_bind, wp_mem, hanchor]
    exact .inl hanchor
  | none =>
    refine wp_cursorFromStartAt hq.writes hm hs (fun _ _ ↦ trivial) (fun _ _ _ ↦ trivial)
      fun a s' h ↦ .inr ⟨hanchor, ?_⟩
    rcases h.from_present with hfixed | ⟨s₁, present, hmoves, rfl, hp⟩
    · rw [hanchor] at hfixed
      cases hfixed
    · rw [(hmoves.toLater.still hq).1] at hp
      exact ⟨present, hp, rfl⟩

/-- **The record is the anchor.** -/
theorem initialCursor_eq (hq : Quiet s.env) (hm : MemOk s.here) (hs : s.here.sink.isSome) {a : ℤ}
    {c : Bytes} {sA sB : SqliteSys} (hA : src.initialCursor s = (.ok (some c), sA))
    (hB : src.cursorFromStartAt s = (.ok a, sB)) : src.startAt = true ∧ c = .ofInt a := by
  obtain ⟨hstart, a', rfl, ha'⟩ := wp_ok (wp_initialCursor hq hm hs) hA c rfl
  have ha := wp_ok (wp_cursorFromStartAt_quiet hq hm hs) hB
  rw [ha'.unique ha]
  exact ⟨hstart, rfl⟩

theorem neutral (hstart : src.startAt = true) (a : ℤ) :
    Neutral src.source src.restart (withAnchor a) (.ofInt a) :=
  neutral_of_companions (Bytes.ofInt_ne_nil a) (fun _ ↦ rfl) fun set ↦
    companions_of_source set (fun _ ↦ inStep_commit _) fun _ _ limit hc hor ↦
      inStep_iterBatches hstart limit hc hor

end SqliteSource

namespace WsprCycleSource

variable {src : WsprCycleSource} {s : Sys (Outside WsprMem) Act QueuedRecord}

/-- What the source's anchor is at this moment. -/
def anchorAt (s : Sys (Outside WsprMem) Act QueuedRecord) : String :=
  match s.here.mem.startAtAnchor with
  | some a => a
  | none => isoZ (currentCycleFloor (fromTimestamp s.choice.now) - wsprCycle)

/-- **`initial_cursor`** answers the anchor. -/
theorem wp_initialCursor :
    wp src.initialCursor
      (fun x _ ↦ ∀ c, x = some c → src.fromBeginning = false ∧
        (∀ x ∈ (anchorAt s).toList, x.toNat < 128) ∧ c = .ofAscii (anchorAt s).toList)
      (fun _ _ ↦ True) (fun _ ↦ True) s := by
  rw [initialCursor]
  split
  · rw [wp_pure]
    nofun
  · rename_i hnow
    have hnow : src.fromBeginning = false := by simpa using hnow
    have hencode : ∀ (a : String) (s' : Sys (Outside WsprMem) Act QueuedRecord), a = anchorAt s →
        wp (if a.toList.all fun c ↦ c.toNat < 128 then pure (some (Bytes.ofAscii a.toList))
          else raise (Exn.other "UnicodeEncodeError" "ordinal not in range(128)"))
        (fun x _ ↦ ∀ c, x = some c → src.fromBeginning = false ∧
          (∀ x ∈ (anchorAt s).toList, x.toNat < 128) ∧ c = .ofAscii (anchorAt s).toList)
        (fun _ _ ↦ True) (fun _ ↦ True) s' := by
      rintro a s' rfl
      split
      · rename_i hascii
        rw [wp_pure]
        rintro c ⟨⟩
        exact ⟨hnow, by simpa using hascii, rfl⟩
      · trivial
    rw [wp_bind, wp_mem]
    dsimp only
    cases hanchor : s.here.mem.startAtAnchor with
    | some a =>
      rw [wp_bind, wp_pure]
      exact hencode a s (by rw [anchorAt, hanchor])
    | none =>
      dsimp only
      rw [wp_bind, wp_clock]
      split
      · trivial
      · have ha : isoZ (currentCycleFloor (fromTimestamp s.choice.now) - wsprCycle) =
            anchorAt s := by
          rw [anchorAt, hanchor]
        rw [wp_bind, wp_pure]
        generalize isoZ (currentCycleFloor (fromTimestamp s.choice.now) - wsprCycle) = a at ha ⊢
        exact hencode a s.next ha

theorem wp_effectiveCursor_nil (hnow : src.fromBeginning = false) :
    wp (src.effectiveCursor []) (fun a _ ↦ a = anchorAt s) (fun _ _ ↦ True) (fun _ ↦ True) s := by
  rw [effectiveCursor, if_neg (by simp), hnow, if_neg Bool.false_ne_true, wp_bind, wp_mem]
  cases hanchor : s.here.mem.startAtAnchor with
  | some a =>
    rw [anchorAt, hanchor]
    rfl
  | none =>
    dsimp only
    rw [wp_bind, wp_clock]
    split
    · trivial
    · rw [wp_bind, wp_setMem, wp_pure, anchorAt, hanchor]

/-- **The record is the anchor.** -/
theorem initialCursor_eq {a : String} {c : Bytes} {sA sB : Sys (Outside WsprMem) Act QueuedRecord}
    (hA : src.initialCursor s = (.ok (some c), sA)) (hB : src.effectiveCursor [] s = (.ok a, sB)) :
    src.fromBeginning = false ∧ (∀ x ∈ a.toList, x.toNat < 128) ∧ c = .ofAscii a.toList := by
  obtain ⟨hnow, hascii, rfl⟩ := wp_ok wp_initialCursor hA c rfl
  have ha := wp_ok (wp_effectiveCursor_nil hnow) hB
  rw [ha]
  exact ⟨hnow, hascii, rfl⟩

theorem neutral (hnow : src.fromBeginning = false) {a : String}
    (ha : ∀ x ∈ a.toList, x.toNat < 128) (hne : a ≠ "") :
    Neutral src.source src.restart (withAnchor a) (.ofAscii a.toList) := by
  have hbytes : Bytes.ofAscii a.toList ≠ [] := fun hnil ↦ by
    rw [Bytes.ofAscii, List.map_eq_nil_iff] at hnil
    exact hne (String.toList_eq_nil_iff.mp hnil)
  exact neutral_of_companions hbytes (fun _ ↦ rfl) fun set ↦
    companions_of_source set (fun _ ↦ .pure rfl) fun _ _ limit hc hor ↦
      inStep_iterBatches hnow limit ha hne hc hor

end WsprCycleSource

/-! ## A key that holds a record -/

theorem Store.startCursor_of_isSome {π : Type} {s : Store π} {key : SendKey} {r : SendRecord}
    (hr : Table.lookup key s.watermarks = some r) (c : Bytes) (t : Stamp) :
    s.startCursor key c t = (false, s) := by
  rw [Store.startCursor, hr]

namespace Daemon

/-- What a record holds, it holds. -/
def State.KeepsRecords (s s' : State) : Prop :=
  ∀ key v, Table.lookup key s.records = some v → Table.lookup key s'.records = some v

theorem State.KeepsRecords.refl (s : State) : s.KeepsRecords s := fun _ _ h ↦ h

theorem State.KeepsRecords.trans {s t u : State} (h : s.KeepsRecords t) (h' : t.KeepsRecords u) :
    s.KeepsRecords u := fun key v hv ↦ h' key v (h key v hv)

theorem keepsRecords_onWorld {α : Type} {q : Prog World Exn α} (hq : Ticks q) :
    Ends State.KeepsRecords (onWorld q) := fun s ↦ by
  rw [onWorld, wp_zoom]
  exact wp_mono (hq s.world) (fun _ _ _ ↦ .refl s) (fun _ _ _ ↦ .refl s) fun _ h ↦ h

theorem State.keepsRecords_startCursor (s : State) (key : Key) (cursor : Bytes) :
    s.KeepsRecords (s.startCursor key cursor) := by
  rw [State.startCursor]
  split
  · exact .refl s
  · rename_i hnone
    intro key' v hv
    rw [Table.lookup_append_of_none hnone]
    split
    · rename_i heq
      rw [← heq, hnone] at hv
      cases hv
    · exact hv

theorem keepsRecords_writeStartingRecord (h : Host) (p : Pipeline) :
    Ends State.KeepsRecords (writeStartingRecord h p) := by
  rw [writeStartingRecord]
  split
  · exact .pure .refl _
  · refine .bind .trans (.ofExcept .refl _) fun key ↦ .bind .trans
      (keepsRecords_onWorld (.call _)) fun _ ↦ .bind .trans (fun s ↦ .refl s) fun s ↦ ?_
    split
    · exact .pure .refl _
    · refine .bind .trans (keepsRecords_onWorld (.call _)) fun c ↦ ?_
      split
      · exact .pure .refl _
      · split
        · exact .pure .refl _
        · exact .bind .trans (keepsRecords_onWorld (.call _)) fun _ s ↦
            s.keepsRecords_startCursor _ _

/-- **The pass** leaves every record there is. -/
theorem keepsRecords_writeStartingRecords (h : Host) (pipes : List Pipeline) :
    Ends State.KeepsRecords (writeStartingRecords h pipes) := by
  induction pipes with
  | nil => exact .pure .refl _
  | cons p ps ih =>
    exact .bind .trans (.attempt (keepsRecords_writeStartingRecord h p)) fun _ ↦ ih

end Daemon

/-! ## Neutrality -/

/-- **The starting record makes no difference** to a source that starts at now, whatever is written
to the queue after it and whatever the transport answers, as long as no retry and no partial ack
brings a cursor before it; and a key that holds a record keeps it. -/
theorem starting_record_neutral :
    (∀ (src : SqliteSource) (s sA sB : SqliteSys) (c : Bytes) (a : ℤ), Quiet s.env → MemOk s.here →
      s.here.sink.isSome → src.initialCursor s = (.ok (some c), sA) →
      src.cursorFromStartAt s = (.ok a, sB) →
      Neutral src.source src.restart (SqliteSource.withAnchor a) c) ∧
    (∀ (src : WsprCycleSource) (s sA sB : Sys (Outside WsprMem) Act QueuedRecord) (c : Bytes)
      (a : String), src.initialCursor s = (.ok (some c), sA) → c ≠ [] →
      src.effectiveCursor [] s = (.ok a, sB) →
      Neutral src.source src.restart (WsprCycleSource.withAnchor a) c) ∧
    (∀ (s : Store (List QueuedRecord)) (key : SendKey) (r : SendRecord) (c : Bytes) (t : Stamp),
      Table.lookup key s.watermarks = some r → (s.startCursor key c t).2 = s) ∧
    ∀ (h : Daemon.Host) (pipes : List Daemon.Pipeline),
      Ends Daemon.State.KeepsRecords (Daemon.writeStartingRecords h pipes) := by
  refine ⟨fun src s sA sB c a hq hm hs hA hB ↦ ?_, fun src s sA sB c a hA hne hB ↦ ?_,
    fun s key r c t hr ↦ ?_, Daemon.keepsRecords_writeStartingRecords⟩
  · obtain ⟨hstart, rfl⟩ := SqliteSource.initialCursor_eq hq hm hs hA hB
    exact SqliteSource.neutral hstart a
  · obtain ⟨hnow, hascii, rfl⟩ := WsprCycleSource.initialCursor_eq hA hB
    refine WsprCycleSource.neutral hnow hascii fun hempty ↦ hne ?_
    rw [hempty]
    rfl
  · rw [Store.startCursor_of_isSome hr]

/-- A source of spots that starts at now. -/
def newSource : SqliteSource := { spotSource with startAt := true }

/-- The queue at the starting pass: two spots. -/
def twoSpots : SqliteSys := (freshWorld newSource [spot (.obj []), spot (.obj [])] fun _ ↦ {}).sys

/-- The queue at the first pump: a third spot. -/
def thirdSpot (env : ℕ → Choice Act QueuedRecord) : QueueWorld :=
  freshWorld newSource [spot (.obj []), spot (.obj []), spot (.obj [])] env

/-- A source of cycles that starts at now. -/
def newCycles : WsprCycleSource := { epochSource [] with fromBeginning := false }

/-- The third spot is sent, and the cycle in progress at the starting pass. -/
theorem starting_record_neutral_third_spot :
    FromAnchor newSource.source newSource.restart (SqliteSource.withAnchor 2) (.ofInt 2) {}
      spotSettings 0 (thirdSpot fun _ ↦ {}) 2 ∧
    FromAnchor newCycles.source newCycles.restart
      (WsprCycleSource.withAnchor "1969-12-31T23:58:00Z")
      (.ofAscii "1969-12-31T23:58:00Z".toList) {} spotSettings 0 (standingWorld epochRows 150) 2 ∧
    (({ watermarks := [(⟨"q", "d", "t"⟩, ⟨.blob [], 5⟩)] } : Store (List QueuedRecord)).startCursor
      ⟨"q", "d", "t"⟩ (.ofInt 7) 9).2 = { watermarks := [(⟨"q", "d", "t"⟩, ⟨.blob [], 5⟩)] } :=
  ⟨starting_record_neutral.1 newSource twoSpots _ _ _ _ (fun _ ↦ rfl)
      (memOk_freshMem newSource twoSpots.here) rfl (run_ok (by decide +kernel))
      (run_ok (by decide +kernel)) {} spotSettings 0 _ 2 rfl (fun _ h ↦ nomatch h)
      (fun _ o h hk ↦ by cases h; cases hk),
    starting_record_neutral.2.1 newCycles (standing epochRows 60) _ _ _ _
      (run_ok (by decide +kernel)) (by decide +kernel) (run_ok (by decide +kernel)) {}
      spotSettings 0 _ 2 rfl (fun _ h ↦ nomatch h) (fun _ o h hk ↦ by cases h; cases hk),
    starting_record_neutral.2.2.1 _ _ ⟨.blob [], 5⟩ _ _ (by decide +kernel)⟩

/-- A partial ack of the first spot, at the first call. -/
def firstSpotOnly (k : ℕ) : Choice Act QueuedRecord where
  outcome :=
    if k < 10 then .ok { kind := .partialAck, acceptedCursor := some (.ofInt 1) } else .ok .acked

/-- A retry of the first spot, from before the source was told to start at now. -/
def oldRetry : Deliverable (List QueuedRecord) where
  id := 1
  pipeline := "spots"
  payloadBlob := []
  enqueuedAt := 0
  attempts := 1
  nextAttemptAt := 0
  cursorAfter := .ofInt 1

/-- The ids of the rows shipped, batch by batch. -/
def shippedIds (w : QueueWorld) : List (List ℤ) :=
  w.trace.filterMap fun e ↦ match e with
    | .shipping b => some ((rowsOf b.records).map Row.id)
    | _ => none

/-- **A cursor before the anchor is refused by the record**, and written where there is none: a
partial ack of the first spot, or the retry of it, and the second spot is sent by the pipeline
without a record alone. -/
theorem starting_record_refuses :
    (¬ ∀ (src : SqliteSource) (s sA sB : SqliteSys) (c : Bytes) (a : ℤ), Quiet s.env →
      MemOk s.here → s.here.sink.isSome → src.initialCursor s = (.ok (some c), sA) →
      src.cursorFromStartAt s = (.ok a, sB) →
      ∀ (u : Uploader) (set : PipelineSettings) (t : Stamp) (w : QueueWorld) (n : ℕ),
        Table.lookup (set.pipeline src.source).key w.store.watermarks = none →
        w.store.deliverables = [] →
        FromAnchor src.source src.restart (SqliteSource.withAnchor a) c u set t w n) ∧
    ¬ ∀ (src : SqliteSource) (s sA sB : SqliteSys) (c : Bytes) (a : ℤ), Quiet s.env →
      MemOk s.here → s.here.sink.isSome → src.initialCursor s = (.ok (some c), sA) →
      src.cursorFromStartAt s = (.ok a, sB) →
      ∀ (u : Uploader) (set : PipelineSettings) (t : Stamp) (w : QueueWorld) (n : ℕ),
        Table.lookup (set.pipeline src.source).key w.store.watermarks = none →
        (∀ k, (w.sys.env k).outcome = .ok .acked) →
        FromAnchor src.source src.restart (SqliteSource.withAnchor a) c u set t w n := by
  constructor
  · intro hevery
    have hsame := hevery newSource twoSpots _ _ (.ofInt 2) 2 (fun _ ↦ rfl)
      (memOk_freshMem newSource twoSpots.here) rfl (run_ok (by decide +kernel))
      (run_ok (by decide +kernel)) {} spotSettings 0
      (thirdSpot firstSpotOnly) 2 rfl rfl
    have hids := congrArg (fun t ↦ shippedIds { thirdSpot firstSpotOnly with trace := t }) hsame.1
    revert hids
    decide +kernel
  · intro hevery
    have hsame := hevery newSource twoSpots _ _ (.ofInt 2) 2 (fun _ ↦ rfl)
      (memOk_freshMem newSource twoSpots.here) rfl (run_ok (by decide +kernel))
      (run_ok (by decide +kernel)) {} spotSettings 0
      { thirdSpot (fun _ ↦ {}) with store := { deliverables := [oldRetry] } } 2 rfl fun _ ↦ rfl
    have hids := congrArg (fun t ↦ shippedIds { thirdSpot (fun _ ↦ {}) with trace := t }) hsame.1
    revert hids
    decide +kernel

end HsUploader
