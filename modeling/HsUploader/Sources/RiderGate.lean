import HsUploader.Library.Except
import HsUploader.Library.Table
import HsUploader.Sink.Writer
import HsUploader.Sources.WsprCycle

/-!
# The gate of the psk riders

While the carry-over marker stands, a psk row rides in the batch of a cycle only when its producer's
switch reads `upload`.  What the gate remembers (the producers it left out, the failures it logged)
decides what it logs and whether it walks the rows at all without the marker; it decides nothing
about the batch.  The batch has the wspr records and the cursor it would have without a gate, and of
the psk records those whose producers read `upload` (`gate_filters_psk`).

## What is here

* `GateMem`, `noteRider` and `noteFailure` — what the gate remembers from one cycle to the next.
* `judgeNoting` — the loop over the riders with that memory, and `buildBatchWith` the build of a
  batch around it.
* `wp_judgeRidersNoting` — the verdicts, from what the marker and the switch files answer.  A
  producer is asked once for a cycle and its verdict stands for its other rows, so the files are
  read at different moments for different producers (`AnswersAfter`).
* `buildBatchForCycle_of_noting` — a build with the memory comes to the batch of the source that the
  other modules are about.

A check that raises ends the loop with what was noted up to there.  When its failure is logged is a
matter of the memory again, and does not reach the batch.
-/

set_option autoImplicit false

namespace HsUploader

open Prog Table

/-- What the gate remembers of one cycle to the next. -/
structure GateMem where
  /-- `_left_out`. -/
  leftOut : List (String × Bool) := []
  /-- `_cap_said`. -/
  capSaid : Bool := false
  /-- `_check_failed`. -/
  checkFailed : List (String × ℚ) := []

namespace GateMem

/-- `_RIDER_CAP`. -/
def riderCap : ℕ := 64

/-- `_REMIND_S`. -/
def remindS : ℚ := 6 * 3600

/-- `_note_rider`. -/
def noteRider (m : GateMem) (producer : String) (rides : Bool) : GateMem :=
  let leftOut := !rides
  if (lookup producer m.leftOut).getD false = leftOut then m
  else if (lookup producer m.leftOut).isNone && riderCap ≤ m.leftOut.length then
    { m with capSaid := true }
  else { m with leftOut := upsert producer leftOut m.leftOut }

/-- What is remembered of a check that raised. -/
def noteFailure (m : GateMem) (kind : String) (now : ℚ) : GateMem :=
  let last := lookup kind m.checkFailed
  if last.isNone && m.checkFailed.length < riderCap || last.any (fun t ↦ remindS ≤ now - t) then
    { m with checkFailed := upsert kind now m.checkFailed }
  else m

end GateMem

namespace WsprCycleSource

variable (src : WsprCycleSource)

/-! ## The gate -/

/-- `producer or infer_producer("psk", "spots", payload)`. -/
def namedProducer (producer : String) (payload : Json) : String :=
  if producer = "" then inferProducer payload else producer

/-- The loop over the riders.  A check that raises ends it, with what was noted up to there. -/
def judgeNoting (enforced : Bool) : List (String × Bool) → GateMem → List (String × Json) →
    WsprM (Except Exn (List Bool) × GateMem)
  | _, m, [] => pure (.ok [], m)
  | verdict, m, (producer, payload) :: rest => do
    let producer := namedProducer producer payload
    match lookup producer verdict with
    | some rides => do
      let (out, m) ← judgeNoting enforced verdict m rest
      pure (out.map (rides :: ·), m)
    | none => do
      let state ← if enforced then do
          let _ ← Sys.breathe
          let sw ← Sys.inMemory fun o ↦ (o.switches, o)
          pure ((sw.effective producer).map some)
        else pure (.ok none)
      match state with
      | .error e => pure (.error e, m)
      | .ok state => do
        let rides := state = none || state = some "upload"
        let (out, m) ← judgeNoting enforced ((producer, rides) :: verdict)
          (m.noteRider producer rides) rest
        pure (out.map (rides :: ·), m)

/-- `_judge_riders`, with what it remembers. -/
def judgeRidersNoting (m : GateMem) (riders : List (String × Json)) :
    WsprM (List Bool × GateMem) :=
  if riders.isEmpty then pure ([], m)
  else do
    let _ ← Sys.breathe
    let sw ← Sys.inMemory fun o ↦ (o.switches, o)
    if !sw.marker && !m.leftOut.any Prod.snd then pure (riders.map fun _ ↦ true, m)
    else do
      let (out, m) ← judgeNoting sw.marker [] m riders
      match out with
      | .ok rides => pure (rides, m)
      | .error e => do
        let now ← clock
        pure (riders.map fun _ ↦ false, m.noteFailure e.typeName now)

/-- A source without the gate: every row rides. -/
def judgeNone (_ : Unit) (riders : List (String × Json)) : WsprM (List Bool × Unit) :=
  pure (riders.map fun _ ↦ true, ())

/-! ## The batch -/

/-- What `_build_batch_for_cycle` selects of a cycle: the wspr records, and the riders with their
payloads, and whether the file has a `producer` column. -/
def selectRecords (conn : ℕ) (cycle : String) :
    WsprM (List QueuedRecord × List (Row × Json) × Bool) := do
  let hasLocal ← probeLocal conn
  let rows ← selectCycle cycle (cycleClauses hasLocal cycle)
  let records ← ofExcept (src.wsprRecords cycle rows)
  if src.includePsk then do
    let producerColumn ← hasProducer conn
    let rows ← selectCycle cycle (riderClauses hasLocal cycle (src.nextCycle cycle))
    let riders ← ofExcept (readable rows)
    pure (records, riders, producerColumn)
  else pure (records, [], false)

/-- The batch of the records and of the riders that ride. -/
def batchOfCycle (cycle : String) (records : List QueuedRecord) (riders : List (Row × Json))
    (rides : List Bool) : Except Exn (Option (RecordBatch QueuedRecord)) := do
  let psk ← ((riders.zip rides).filter Prod.snd).mapM fun p ↦
    src.recordOf cycle "psk.spots" true p.1.1 p.1.2
  if (records ++ psk).isEmpty then pure none
  else if cycle.toList.all fun c ↦ c.toNat < 128 then
    pure (some { records := records ++ psk, cursorAfter := .ofAscii cycle.toList })
  else throw (.other "UnicodeEncodeError" "ordinal not in range(128)")

/-- What a rider is judged by: its `producer` column, and its payload. -/
def riderOf (producerColumn : Bool) (p : Row × Json) : String × Json :=
  (if producerColumn then p.1.producer else "", p.2)

/-- `_build_batch_for_cycle`, with a gate that remembers something. -/
def buildBatchWith {γ : Type} (gate : γ → List (String × Json) → WsprM (List Bool × γ)) (m : γ)
    (conn : ℕ) (cycle : String) : WsprM (Option (RecordBatch QueuedRecord) × γ) := do
  let (records, riders, producerColumn) ← src.selectRecords conn cycle
  let (rides, m) ← gate m (riders.map (riderOf producerColumn))
  let batch ← ofExcept (src.batchOfCycle cycle records riders rides)
  pure (batch, m)

/-! ## What is read of the switches -/

/-- What the marker and the switch files answer as the environment moves on from a state. -/
structure Answers (s : Sys (Outside WsprMem) Act QueuedRecord) (marker : Bool)
    (effective : String → Except Exn String) : Prop where
  marker : ∃ k, marker = (Sys.next^[k] s).here.switches.marker
  effective : ∀ p, ∃ k, effective p = (Sys.next^[k] s).here.switches.effective p

/-- Whether a row of the producer rides, among riders of these producers. -/
def mayRide (marker : Bool) (effective : String → Except Exn String) (producers : List String)
    (p : String) : Bool :=
  !marker || (producers.all (fun q ↦ (effective q).isOk) && effective p = .ok "upload")

variable {s : Sys (Outside WsprMem) Act QueuedRecord} {marker : Bool}
  {effective : String → Except Exn String} {riders : List (String × Json)}

/-- Files that stand still answer what they hold. -/
theorem Answers.still {sw : Switches} (hstill : ∀ k, (Sys.next^[k] s).here.switches = sw)
    (h : Answers s marker effective) : marker = sw.marker ∧ effective = sw.effective := by
  obtain ⟨⟨k, hmarker⟩, heffective⟩ := h
  refine ⟨hmarker.trans (by rw [hstill]), funext fun p ↦ ?_⟩
  obtain ⟨k, hp⟩ := heffective p
  exact hp.trans (by rw [hstill])

theorem Answers.of_next (h : Answers s.next marker effective) : Answers s marker effective := by
  obtain ⟨⟨k, hmarker⟩, heffective⟩ := h
  refine ⟨⟨k + 1, hmarker⟩, fun p ↦ ?_⟩
  obtain ⟨k, hp⟩ := heffective p
  exact ⟨k + 1, hp⟩

/-! ## The verdicts -/

/-- Where no switch is asked every rider rides. -/
theorem wp_judgeNoting_open (verdict : List (String × Bool)) (m : GateMem)
    (hverdict : ∀ p b, lookup p verdict = some b → b = true) :
    wp (judgeNoting false verdict m riders)
      (fun r _ ↦ r.1 = .ok (riders.map fun _ ↦ true)) (fun _ _ ↦ False) (fun _ ↦ True) s := by
  induction riders generalizing verdict m s with
  | nil => rfl
  | cons rider riders ih =>
    obtain ⟨producer, payload⟩ := rider
    rw [judgeNoting]
    dsimp only
    cases hv : lookup (namedProducer producer payload) verdict with
    | some rides =>
      dsimp only
      rw [wp_bind]
      refine wp_mono_ok (ih verdict m hverdict) ?_
      rintro ⟨out, m'⟩ s' rfl
      rw [hverdict _ _ hv]
      rfl
    | none =>
      dsimp only
      rw [if_neg Bool.false_ne_true, wp_bind, wp_pure]
      dsimp only
      rw [wp_bind]
      refine wp_mono_ok (ih _ _ fun p b hb ↦ ?_) ?_
      · rw [lookup] at hb
        split at hb
        · cases hb
          rfl
        · exact hverdict p b hb
      · rintro ⟨out, m'⟩ s' rfl
        rfl

/-- What the loop answers when the marker stands, from what the switch files answer. -/
structure Judged (riders : List (String × Json)) (effective : String → Except Exn String)
    (out : Except Exn (List Bool)) : Prop where
  of_ok : ∀ rides, out = .ok rides →
    (∀ r ∈ riders, (effective (namedProducer r.1 r.2)).isOk = true) ∧
      rides = riders.map fun r ↦ decide (effective (namedProducer r.1 r.2) = .ok "upload")
  of_error : ∀ e, out = .error e →
    ∃ r ∈ riders, (effective (namedProducer r.1 r.2)).isOk = false

theorem Judged.next {producer : String} {payload : Json} {rides : Bool}
    {out : Except Exn (List Bool)} (h : Judged riders effective out)
    (hok : (effective (namedProducer producer payload)).isOk = true)
    (hrides : rides = decide (effective (namedProducer producer payload) = .ok "upload")) :
    Judged ((producer, payload) :: riders) effective (out.map (rides :: ·)) := by
  cases out with
  | error e =>
    refine ⟨fun rides h ↦ ?_, fun e' _ ↦ ?_⟩
    · cases h
    · obtain ⟨r, hr, hraises⟩ := h.of_error e rfl
      exact ⟨r, List.mem_cons_of_mem _ hr, hraises⟩
  | ok rest =>
    obtain ⟨hall, hrest⟩ := h.of_ok rest rfl
    refine ⟨fun rides' h ↦ ?_, fun e h ↦ ?_⟩
    · cases h
      refine ⟨List.forall_mem_cons.mpr ⟨hok, hall⟩, ?_⟩
      rw [List.map_cons, ← hrest, ← hrides]
    · cases h

/-- What the switch files answer from a state on, the producers of some verdicts having answered
before. -/
def AnswersAfter (verdict : List (String × Bool)) (known : String → Except Exn String)
    (s : Sys (Outside WsprMem) Act QueuedRecord) (effective : String → Except Exn String) : Prop :=
  ∀ p, ((lookup p verdict).isSome = true → effective p = known p) ∧
    (lookup p verdict = none → ∃ k, effective p = (Sys.next^[k] s).here.switches.effective p)

/-- Each producer is asked once: its verdict stands for its other rows. -/
theorem wp_judgeNoting_enforced (verdict : List (String × Bool)) (m : GateMem)
    (known : String → Except Exn String)
    (hverdict : ∀ p b, lookup p verdict = some b →
      (known p).isOk = true ∧ b = decide (known p = .ok "upload")) :
    wp (judgeNoting true verdict m riders)
      (fun r _ ↦ ∃ effective, Judged riders effective r.1 ∧
        AnswersAfter verdict known s effective)
      (fun _ _ ↦ False) (fun _ ↦ True) s := by
  induction riders generalizing verdict m known s with
  | nil =>
    refine ⟨fun p ↦ if lookup p verdict = none then s.here.switches.effective p else known p,
      ⟨fun rides h ↦ ?_, fun e h ↦ by cases h⟩, fun p ↦ ⟨fun hsome ↦ ?_, fun hnone ↦ ⟨0, ?_⟩⟩⟩
    · cases h
      exact ⟨fun r hr ↦ absurd hr List.not_mem_nil, rfl⟩
    · exact if_neg (Option.isSome_iff_ne_none.mp hsome)
    · exact if_pos hnone
  | cons rider riders ih =>
    obtain ⟨producer, payload⟩ := rider
    rw [judgeNoting]
    dsimp only
    cases hv : lookup (namedProducer producer payload) verdict with
    | some rides =>
      obtain ⟨hok, hrides⟩ := hverdict _ _ hv
      dsimp only
      rw [wp_bind]
      refine wp_mono_ok (ih verdict m known hverdict) ?_
      rintro ⟨out, m'⟩ s' ⟨eff, hjudged, heff⟩
      have hself := (heff (namedProducer producer payload)).1 (by rw [hv]; rfl)
      refine ⟨eff, hjudged.next ?_ ?_, heff⟩
      · rw [hself]
        exact hok
      · rw [hself]
        exact hrides
    | none =>
      dsimp only
      rw [if_pos rfl, wp_bind, Sys.wp_breathe]
      split
      · trivial
      · rw [wp_bind, Sys.inMemory, wp_act, wp_bind, wp_pure]
        dsimp only
        cases hanswer : s.next.here.switches.effective (namedProducer producer payload) with
        | error e =>
          refine ⟨fun p ↦ if lookup p verdict = none then s.next.here.switches.effective p
            else known p, ⟨fun rides h ↦ ?_, fun e' _ ↦ ⟨_, List.mem_cons_self, ?_⟩⟩,
            fun p ↦ ⟨fun hsome ↦ ?_, fun hnone ↦ ⟨1, ?_⟩⟩⟩
          · cases h
          · dsimp only
            rw [if_pos hv, hanswer]
            rfl
          · exact if_neg (Option.isSome_iff_ne_none.mp hsome)
          · exact if_pos hnone
        | ok state =>
          have hrides : (decide (some state = none) || decide (some state = some "upload")) =
              decide ((Except.ok state : Except Exn String) = .ok "upload") := by simp
          change wp (do
            let __x ← judgeNoting true _ _ riders
            pure (Except.map _ __x.1, __x.2)) _ _ _ _
          rw [wp_bind, hrides]
          refine wp_mono_ok (ih _ _ (fun p ↦ if p = namedProducer producer payload then .ok state
            else known p) ?_) ?_
          · intro p b hb
            rw [lookup] at hb
            split at hb
            · rename_i heq
              cases hb
              rw [if_pos heq.symm]
              exact ⟨rfl, rfl⟩
            · rename_i hne
              rw [if_neg (Ne.symm hne)]
              exact hverdict p b hb
          · rintro ⟨out, m'⟩ s' ⟨eff, hjudged, heff⟩
            have hself : eff (namedProducer producer payload) = .ok state :=
              ((heff _).1 (by rw [lookup, if_pos rfl]; rfl)).trans (if_pos rfl)
            refine ⟨eff, hjudged.next (by rw [hself]; rfl) (by rw [hself]), fun p ↦
              ⟨fun hsome ↦ ?_, fun hnone ↦ ?_⟩⟩
            · have hne : namedProducer producer payload ≠ p := fun heq ↦ by
                rw [← heq, hv] at hsome
                cases hsome
              exact ((heff p).1 (by rw [lookup, if_neg hne]; exact hsome)).trans (if_neg hne.symm)
            · by_cases heq : namedProducer producer payload = p
              · exact ⟨1, by rw [← heq, hself, ← hanswer]; rfl⟩
              · obtain ⟨k, hk⟩ := (heff p).2 (by rw [lookup, if_neg heq]; exact hnone)
                exact ⟨k + 1, hk⟩

/-- **The verdicts of the gate**: those of the producers' switches, whatever it remembers. -/
theorem wp_judgeRidersNoting (m : GateMem) :
    wp (judgeRidersNoting m riders)
      (fun r _ ↦ ∃ marker effective, Answers s marker effective ∧
        r.1 = riders.map fun p ↦ mayRide marker effective
          (riders.map fun p ↦ namedProducer p.1 p.2) (namedProducer p.1 p.2))
      (fun _ _ ↦ False) (fun _ ↦ True) s := by
  rw [judgeRidersNoting]
  split_ifs with hempty
  · rw [List.isEmpty_iff.mp hempty]
    exact ⟨_, _, ⟨⟨0, rfl⟩, fun _ ↦ ⟨0, rfl⟩⟩, rfl⟩
  · rw [wp_bind, Sys.wp_breathe]
    split
    · trivial
    · rw [wp_bind, Sys.inMemory, wp_act]
      dsimp only
      have hstart : Answers s s.next.here.switches.marker s.next.here.switches.effective :=
        ⟨⟨1, rfl⟩, fun _ ↦ ⟨1, rfl⟩⟩
      cases hmarker : s.next.here.switches.marker with
      | false =>
        have hopen : ∀ rides, rides = riders.map (fun _ ↦ true) →
            ∃ marker effective, Answers s marker effective ∧ rides = riders.map fun p ↦
              mayRide marker effective (riders.map fun p ↦ namedProducer p.1 p.2)
                (namedProducer p.1 p.2) := by
          rintro rides rfl
          exact ⟨_, _, hstart, by rw [hmarker]; rfl⟩
        split_ifs with hshort
        · exact hopen _ rfl
        · rw [wp_bind]
          refine wp_mono_ok (wp_judgeNoting_open [] m fun p b hb ↦ by cases hb) ?_
          rintro ⟨out, m'⟩ s' rfl
          exact hopen _ rfl
      | true =>
        rw [if_neg (by simp), wp_bind]
        refine wp_mono_ok (wp_judgeNoting_enforced [] m (fun _ ↦ .ok "off")
          fun p b hb ↦ by cases hb) ?_
        rintro ⟨out, m'⟩ s' ⟨eff, hjudged, heff⟩
        have hanswers : Answers s true eff :=
          Answers.of_next ⟨⟨0, hmarker.symm⟩, fun p ↦ (heff p).2 rfl⟩
        cases out with
        | ok rides =>
          obtain ⟨hall, rfl⟩ := hjudged.of_ok rides rfl
          refine ⟨true, eff, hanswers, List.map_congr_left fun r _ ↦ ?_⟩
          have hall' : (riders.map fun p ↦ namedProducer p.1 p.2).all (fun q ↦ (eff q).isOk) =
              true := by
            rw [List.all_map, List.all_eq_true]
            exact hall
          rw [mayRide, hall']
          rfl
        | error e =>
          obtain ⟨r, hr, hraises⟩ := hjudged.of_error e rfl
          have hsome : (riders.map fun p ↦ namedProducer p.1 p.2).all (fun q ↦ (eff q).isOk) =
              false := by
            rw [List.all_map, List.all_eq_false]
            exact ⟨r, hr, by simp [hraises]⟩
          dsimp only
          rw [wp_bind, wp_clock]
          split
          · trivial
          · refine ⟨true, eff, hanswers, List.map_congr_left fun r _ ↦ ?_⟩
            rw [mayRide, hsome]
            rfl

/-! ## The batch -/

/-- The record is one of the riders. -/
def isPsk (q : QueuedRecord) : Bool := q.record.table = "psk.spots"

/-- The producer a row is judged by. -/
def producerOf (producerColumn : Bool) (r : Row) : String :=
  namedProducer (if producerColumn then r.producer else "") (match r.payloadJson.loads with
    | .value j => j
    | .corrupt _ | .refused _ => .null)

variable {src}

theorem recordOf_eq_ok {cycle table : String} {rider : Bool} {r : Row} {j : Json}
    {q : QueuedRecord} (h : src.recordOf cycle table rider r j = .ok q) :
    q.row = r ∧ q.record.table = table := by
  cases j with
  | obj members =>
    obtain ⟨time, -, h⟩ := Except.bind_eq_ok.mp h
    cases h
    exact ⟨rfl, rfl⟩
  | null => cases h
  | bool => cases h
  | int => cases h
  | float => cases h
  | str => cases h
  | arr => cases h

theorem not_isPsk_of_wsprRecords {cycle : String} {rows : List Row} {records : List QueuedRecord}
    (h : src.wsprRecords cycle rows = .ok records) : ∀ q ∈ records, isPsk q = false := by
  induction rows generalizing records with
  | nil =>
    cases h
    exact fun q hq ↦ absurd hq List.not_mem_nil
  | cons r rows ih =>
    rw [wsprRecords] at h
    cases hloads : r.payloadJson.loads with
    | corrupt e =>
      rw [hloads] at h
      exact ih h
    | refused e =>
      rw [hloads] at h
      cases h
    | value j =>
      rw [hloads] at h
      obtain ⟨q, hq, h⟩ := Except.bind_eq_ok.mp h
      obtain ⟨qs, hqs, h⟩ := Except.bind_eq_ok.mp h
      cases h
      refine List.forall_mem_cons.mpr ⟨?_, ih hqs⟩
      rw [isPsk, (recordOf_eq_ok hq).2, decide_eq_false_iff_not]
      intro htable
      have hhead := congrArg (fun t ↦ t.toList.head?) htable
      rw [String.toList_append] at hhead
      cases hhead

theorem loads_of_readable {rows : List Row} {riders : List (Row × Json)}
    (h : readable rows = .ok riders) : ∀ p ∈ riders, p.1.payloadJson.loads = .value p.2 := by
  induction rows generalizing riders with
  | nil =>
    cases h
    exact fun p hp ↦ absurd hp List.not_mem_nil
  | cons r rows ih =>
    rw [readable] at h
    cases hloads : r.payloadJson.loads with
    | corrupt e =>
      rw [hloads] at h
      exact ih h
    | refused e =>
      rw [hloads] at h
      cases h
    | value j =>
      rw [hloads] at h
      obtain ⟨rest, hrest, h⟩ := Except.bind_eq_ok.mp h
      cases h
      exact List.forall_mem_cons.mpr ⟨hloads, ih hrest⟩

/-- The rows that ride are a part of the rows, in their order. -/
theorem riding_eq {α : Type} (f : α → Bool) (l : List α) :
    (l.zip (l.map f)).filter Prod.snd = (l.filter f).map fun a ↦ (a, true) := by
  induction l with
  | nil => rfl
  | cons a l ih =>
    rw [List.map_cons, List.zip_cons_cons, List.filter_cons, List.filter_cons, ih]
    cases f a <;> rfl

/-- Of elements that can all be computed, those that are kept can. -/
theorem mapM_filter {α β : Type} {f : α → Except Exn β} {l : List α} {bs : List β}
    (h : l.mapM f = .ok bs) {keep : α → Bool} {keep' : β → Bool}
    (hkeep : ∀ a ∈ l, ∀ b, f a = .ok b → keep a = keep' b) :
    (l.filter keep).mapM f = .ok (bs.filter keep') := by
  induction l generalizing bs with
  | nil =>
    cases h
    rfl
  | cons a l ih =>
    obtain ⟨b, bs, hb, hbs, rfl⟩ := Except.mapM_cons_eq_ok.mp h
    rw [List.forall_mem_cons] at hkeep
    have hrest := ih hbs hkeep.2
    rw [List.filter_cons, List.filter_cons, hkeep.1 b hb]
    cases keep' b with
    | true => exact Except.mapM_cons_eq_ok.mpr ⟨b, _, hb, hrest, rfl⟩
    | false => exact hrest

/-- The wspr records of a batch, and its psk records. -/
theorem filter_records {records psk : List QueuedRecord} (hrecords : ∀ q ∈ records, isPsk q = false)
    (hpsk : ∀ q ∈ psk, isPsk q = true) :
    (records ++ psk).filter (!isPsk ·) = records ∧ (records ++ psk).filter isPsk = psk := by
  rw [List.filter_append, List.filter_append]
  constructor
  · rw [List.filter_eq_self.mpr fun q hq ↦ by rw [hrecords q hq]; rfl,
      List.filter_eq_nil_iff.mpr fun q hq ↦ by simp [hpsk q hq], List.append_nil]
  · rw [List.filter_eq_self.mpr hpsk, List.filter_eq_nil_iff.mpr fun q hq ↦ by simp [hrecords q hq],
      List.nil_append]

theorem batchOfCycle_eq_some {cycle : String} {records : List QueuedRecord}
    {riders : List (Row × Json)} {f : Row × Json → Bool} {b : RecordBatch QueuedRecord} :
    src.batchOfCycle cycle records riders (riders.map f) = .ok (some b) ↔
      ∃ psk, (riders.filter f).mapM (fun p ↦ src.recordOf cycle "psk.spots" true p.1 p.2) =
          .ok psk ∧ records ++ psk ≠ [] ∧ cycle.toList.all (fun c ↦ c.toNat < 128) = true ∧
        b = { records := records ++ psk, cursorAfter := .ofAscii cycle.toList } := by
  rw [batchOfCycle, riding_eq, List.mapM_map, Except.bind_eq_ok]
  refine exists_congr fun psk ↦ and_congr_right fun _ ↦ ?_
  split_ifs with hnil hascii
  · simp [List.isEmpty_iff.mp hnil, Except.pure_eq_ok]
  · have hne : records ++ psk ≠ [] := fun h ↦ hnil (List.isEmpty_iff.mpr h)
    rw [Except.pure_eq_ok, Option.some.injEq, eq_comm]
    exact ⟨fun h ↦ ⟨hne, hascii, h⟩, fun h ↦ h.2.2⟩
  · exact iff_of_false (fun h ↦ by cases h) fun h ↦ hascii h.2.1

/-- What the selection of a cycle answers. -/
theorem of_selectRecords {conn : ℕ} {cycle : String} {records : List QueuedRecord}
    {riders : List (Row × Json)} {producerColumn : Bool}
    {s₀ : Sys (Outside WsprMem) Act QueuedRecord}
    (h : src.selectRecords conn cycle s = (.ok (records, riders, producerColumn), s₀)) :
    (∀ q ∈ records, isPsk q = false) ∧ ∀ p ∈ riders, p.1.payloadJson.loads = .value p.2 := by
  rw [selectRecords] at h
  obtain ⟨hasLocal, s₁, -, h⟩ := exists_of_bind_run h
  obtain ⟨rows, s₂, -, h⟩ := exists_of_bind_run h
  obtain ⟨records', s₃, hrecords, h⟩ := exists_of_bind_run h
  have hread := (ofExcept_eq_ok.mp hrecords).1
  split_ifs at h
  · obtain ⟨col, s₄, -, h⟩ := exists_of_bind_run h
    obtain ⟨rows', s₅, -, h⟩ := exists_of_bind_run h
    obtain ⟨riders', s₆, hriders, h⟩ := exists_of_bind_run h
    have hloads := (ofExcept_eq_ok.mp hriders).1
    cases h
    exact ⟨not_isPsk_of_wsprRecords hread, loads_of_readable hloads⟩
  · cases h
    exact ⟨not_isPsk_of_wsprRecords hread, fun p hp ↦ absurd hp List.not_mem_nil⟩

/-! ## The source as the uploader runs it -/

theorem find?_eq_lookup (p : String) (verdict : List (String × Bool)) :
    (verdict.find? fun v ↦ v.1 = p).map Prod.snd = lookup p verdict := by
  induction verdict with
  | nil => rfl
  | cons v verdict ih =>
    rw [List.find?_cons, lookup]
    by_cases hv : v.1 = p
    · simp [hv]
    · simp [hv, ih]

/-- The loop answers the same with what it notes left out. -/
theorem judge_of_noting {verdict : List (String × Bool)} {m m' : GateMem}
    {out : Except Exn (List Bool)} {t : Sys (Outside WsprMem) Act QueuedRecord}
    (h : judgeNoting true verdict m riders s = (.ok (out, m'), t)) :
    judge verdict riders s = ofExcept out t := by
  induction riders generalizing verdict m m' out s with
  | nil =>
    cases h
    rfl
  | cons rider riders ih =>
    obtain ⟨producer, payload⟩ := rider
    rw [judgeNoting] at h
    rw [judge]
    dsimp only at h ⊢
    have hfind := find?_eq_lookup (namedProducer producer payload) verdict
    cases hv : verdict.find? fun v ↦ v.1 = namedProducer producer payload with
    | some v =>
      rw [hv, Option.map_some] at hfind
      rw [← hfind] at h
      obtain ⟨⟨out', m''⟩, s', hrest, h⟩ := exists_of_bind_run h
      cases h
      rw [namedProducer] at hv
      rw [hv]
      have hj := ih hrest
      cases out' with
      | ok l => exact bind_of_ok hj
      | error e => exact bind_of_raised hj
    | none =>
      rw [hv, Option.map_none] at hfind
      rw [← hfind] at h
      dsimp only at h
      rw [if_pos rfl] at h
      obtain ⟨c, s₁, hbreathe, h⟩ := exists_of_bind_run h
      obtain ⟨sw, s₂, hswitches, h⟩ := exists_of_bind_run h
      obtain ⟨state, s₃, hpure, h⟩ := exists_of_bind_run h
      cases hpure
      rw [namedProducer] at hv
      rw [hv]
      dsimp only
      rw [bind_of_ok hbreathe, bind_of_ok hswitches]
      cases hanswer : sw.effective (namedProducer producer payload) with
      | error e =>
        rw [hanswer] at h
        cases h
        rw [namedProducer] at hanswer
        rw [hanswer]
        rfl
      | ok state =>
        rw [hanswer] at h
        obtain ⟨⟨out', m''⟩, s', hrest, h⟩ := exists_of_bind_run h
        cases h
        have hrides : (decide (some state = none) || decide (some state = some "upload")) =
            (state == "upload") := by
          rw [Bool.eq_iff_iff]
          simp
        rw [hrides] at hrest ⊢
        have hj := ih hrest
        rw [namedProducer] at hanswer hj
        rw [hanswer]
        cases out' with
        | ok l => exact bind_of_ok hj
        | error e => exact (bind_of_ok rfl).trans (bind_of_raised hj)

/-- The riders' verdicts from what the check comes to. -/
theorem judgeRiders_of_run {out : Except Exn (List Bool)}
    {t : Sys (Outside WsprMem) Act QueuedRecord} (hempty : ¬ riders.isEmpty = true)
    (h : (Sys.breathe >>= fun _ ↦ do
      let sw ← Sys.inMemory fun o ↦ (o.switches, o)
      if sw.marker then judge [] riders else pure (riders.map fun _ ↦ true)) s = ofExcept out t) :
    judgeRiders riders s = (.ok (out.toOption.getD (riders.map fun _ ↦ false)), t) := by
  have hattempt : attempt (Sys.breathe >>= fun _ ↦ do
      let sw ← Sys.inMemory fun o ↦ (o.switches, o)
      if sw.marker then judge [] riders else pure (riders.map fun _ ↦ true)) s = (.ok out, t) := by
    rw [attempt, h]
    cases out <;> rfl
  rw [judgeRiders, if_neg hempty, bind_of_ok hattempt]
  cases out <;> rfl

theorem judgeRiders_of_noting {m m' : GateMem} {rides : List Bool}
    {t : Sys (Outside WsprMem) Act QueuedRecord}
    (h : judgeRidersNoting m riders s = (.ok (rides, m'), t)) :
    ∃ t', judgeRiders riders s = (.ok rides, t') := by
  rw [judgeRidersNoting] at h
  split_ifs at h with hempty
  · cases h
    exact ⟨_, by rw [judgeRiders, if_pos hempty]; rfl⟩
  · obtain ⟨c, s₁, hbreathe, h⟩ := exists_of_bind_run h
    obtain ⟨sw, s₂, hswitches, h⟩ := exists_of_bind_run h
    cases hmarker : sw.marker with
    | false =>
      have hrides : rides = riders.map fun _ ↦ true := by
        rw [hmarker] at h
        split_ifs at h
        · cases h
          rfl
        · obtain ⟨⟨out, m''⟩, s₃, hjudge, h⟩ := exists_of_bind_run h
          have hout := wp_ok (wp_judgeNoting_open [] m fun p b hb ↦ by cases hb) hjudge
          dsimp only at hout h
          rw [hout] at h
          cases h
          rfl
      subst hrides
      refine ⟨s₂, judgeRiders_of_run hempty (?_ : _ = ofExcept (.ok (riders.map fun _ ↦ true)) s₂)⟩
      rw [bind_of_ok hbreathe, bind_of_ok hswitches, hmarker]
      rfl
    | true =>
      rw [hmarker, if_neg (by simp)] at h
      obtain ⟨⟨out, m''⟩, s₃, hjudge, h⟩ := exists_of_bind_run h
      have hrun : judgeRiders riders s = (.ok (out.toOption.getD (riders.map fun _ ↦ false)), s₃) := by
        refine judgeRiders_of_run hempty ?_
        rw [bind_of_ok hbreathe, bind_of_ok hswitches, hmarker]
        exact judge_of_noting hjudge
      cases out with
      | ok l =>
        cases h
        exact ⟨_, hrun⟩
      | error e =>
        obtain ⟨now, s₄, -, h⟩ := exists_of_bind_run h
        cases h
        exact ⟨_, hrun⟩

/-- **What the gate remembers does not reach the batch**: a build that comes to an end comes to the
batch that the source without a memory of its own builds. -/
theorem buildBatchForCycle_of_noting {m m' : GateMem} {conn : ℕ} {cycle : String}
    {b : Option (RecordBatch QueuedRecord)} {t : Sys (Outside WsprMem) Act QueuedRecord}
    (h : src.buildBatchWith judgeRidersNoting m conn cycle s = (.ok (b, m'), t)) :
    ∃ t', src.buildBatchForCycle conn cycle s = (.ok b, t') := by
  rw [buildBatchWith] at h
  obtain ⟨⟨records, riders, col⟩, s₀, hsel, h⟩ := exists_of_bind_run h
  obtain ⟨⟨rides, m''⟩, s₁, hgate, h⟩ := exists_of_bind_run h
  obtain ⟨batch, s₂, hrun, h⟩ := exists_of_bind_run h
  have hmade := (ofExcept_eq_ok.mp hrun).1
  cases h
  obtain ⟨psk, hpsk, hbatch⟩ := Except.bind_eq_ok.mp hmade
  obtain ⟨t₁, hgate⟩ := judgeRiders_of_noting hgate
  rw [selectRecords] at hsel
  obtain ⟨hasLocal, s₃, hlocal, hsel⟩ := exists_of_bind_run hsel
  obtain ⟨rows, s₄, hrows, hsel⟩ := exists_of_bind_run hsel
  obtain ⟨records', s₅, hrecords, hsel⟩ := exists_of_bind_run hsel
  have hpskRecords : records' = records ∧
      ∃ t', src.pskRecords conn hasLocal cycle s₅ = (.ok psk, t') := by
    rw [pskRecords]
    split_ifs at hsel ⊢ with hinclude
    · obtain ⟨col', s₆, hcol, hsel⟩ := exists_of_bind_run hsel
      obtain ⟨rows', s₇, hrows', hsel⟩ := exists_of_bind_run hsel
      obtain ⟨riders', s₈, hriders, hsel⟩ := exists_of_bind_run hsel
      cases hsel
      refine ⟨rfl, t₁, ?_⟩
      rw [bind_of_ok hcol, bind_of_ok hrows', bind_of_ok hriders]
      refine (bind_of_ok hgate).trans ?_
      rw [hpsk]
      rfl
    · cases hsel
      cases hpsk
      exact ⟨rfl, _, rfl⟩
  obtain ⟨rfl, t', hrun⟩ := hpskRecords
  refine ⟨t', ?_⟩
  rw [buildBatchForCycle, bind_of_ok hlocal, bind_of_ok hrows, bind_of_ok hrecords, bind_of_ok hrun]
  split_ifs at hbatch ⊢ with hempty hascii
  · cases hbatch
    rfl
  · cases hbatch
    rfl

variable (src)

/-- **The gate filters psk records only.**  Where a source without the gate makes a batch with a
wspr record of a cycle, the source with it makes, unless the process is stopped, one with the same
cursor and the same wspr records, and with those psk records whose producers' switches read `upload`
when they were asked. -/
theorem gate_filters_psk (m : GateMem) (conn : ℕ) (cycle : String)
    (s : Sys (Outside WsprMem) Act QueuedRecord) (b : RecordBatch QueuedRecord)
    (hbare : (src.buildBatchWith judgeNone () conn cycle s).1 = .ok (some b, ()))
    (hwspr : ∃ q ∈ b.records, isPsk q = false) :
    ∃ records riders producerColumn s₀,
      src.selectRecords conn cycle s = (.ok (records, riders, producerColumn), s₀) ∧
      wp (src.buildBatchWith judgeRidersNoting m conn cycle)
        (fun r _ ↦ ∃ b' marker effective, r.1 = some b' ∧ Answers s₀ marker effective ∧
          b'.cursorAfter = b.cursorAfter ∧
          b'.records.filter (!isPsk ·) = b.records.filter (!isPsk ·) ∧
          b'.records.filter isPsk = (b.records.filter isPsk).filter fun q ↦
            mayRide marker effective ((b.records.filter isPsk).map (producerOf producerColumn ·.row))
              (producerOf producerColumn q.row))
        (fun _ _ ↦ False) (fun _ ↦ True) s := by
  obtain ⟨t, hbare⟩ : ∃ t, src.buildBatchWith judgeNone () conn cycle s = (.ok (some b, ()), t) :=
    ⟨_, Prod.ext hbare rfl⟩
  rw [buildBatchWith] at hbare
  obtain ⟨⟨records, riders, col⟩, s₀, hsel, hbare⟩ := exists_of_bind_run hbare
  refine ⟨records, riders, col, s₀, hsel, ?_⟩
  obtain ⟨hrecords, hloads⟩ := of_selectRecords hsel
  dsimp only at hbare
  obtain ⟨⟨rides, u⟩, s₁, hgate, hbare⟩ := exists_of_bind_run hbare
  cases hgate
  obtain ⟨batch, s₂, hrun, hbare⟩ := exists_of_bind_run hbare
  have hbatch := (ofExcept_eq_ok.mp hrun).1
  cases hbare
  rw [List.map_map] at hbatch
  obtain ⟨psk, hpsk, -, hascii, rfl⟩ := batchOfCycle_eq_some.mp hbatch
  have hall : riders.filter ((fun _ ↦ true) ∘ riderOf col) = riders :=
    List.filter_eq_self.mpr fun p _ ↦ rfl
  rw [hall] at hpsk
  have hrow : ∀ q ∈ psk, isPsk q = true := by
    intro q hq
    obtain ⟨p, -, hp⟩ := (Except.exists_of_mapM hpsk).2 q hq
    exact decide_eq_true (recordOf_eq_ok hp).2
  obtain ⟨hwsprs, hpsks⟩ := filter_records hrecords hrow
  have hproducer : ∀ p ∈ riders, ∀ q, src.recordOf cycle "psk.spots" true p.1 p.2 = .ok q →
      namedProducer (riderOf col p).1 (riderOf col p).2 = producerOf col q.row := by
    intro p hp q hq
    rw [producerOf, (recordOf_eq_ok hq).1, hloads p hp]
    rfl
  have hproducers : (riders.map (riderOf col)).map (fun p ↦ namedProducer p.1 p.2) =
      psk.map (producerOf col ·.row) := by
    rw [List.map_map]
    exact (Except.map_of_mapM (fun p hp q hq ↦ (hproducer p hp q hq).symm) hpsk).symm
  dsimp only
  rw [hwsprs, hpsks, buildBatchWith, wp_bind, wp, hsel]
  dsimp only
  rw [wp_bind]
  refine wp_mono_ok (wp_judgeRidersNoting m) ?_
  rintro ⟨rides, m'⟩ s' ⟨marker, eff, hanswers, rfl⟩
  have hkept := mapM_filter hpsk fun p hp q hq ↦ congrArg
    (mayRide marker eff (psk.map (producerOf col ·.row))) (hproducer p hp q hq)
  have hne : records ++ psk.filter (fun q ↦ mayRide marker eff
      (psk.map (producerOf col ·.row)) (producerOf col q.row)) ≠ [] := by
    obtain ⟨q, hq, hqw⟩ := hwspr
    rcases List.mem_append.mp hq with hq | hq
    · exact List.append_ne_nil_of_left_ne_nil (List.ne_nil_of_mem hq) _
    · rw [hrow q hq] at hqw
      cases hqw
  dsimp only
  rw [List.map_map, hproducers, wp_bind, wp_ofExcept]
  have hbatch' := batchOfCycle_eq_some.mpr ⟨_, hkept, hne, hascii, rfl⟩
  have hfun : ((fun p ↦ mayRide marker eff (psk.map (producerOf col ·.row))
      (namedProducer p.1 p.2)) ∘ riderOf col) = fun p ↦ mayRide marker eff
        (psk.map (producerOf col ·.row))
        (namedProducer (riderOf col p).1 (riderOf col p).2) := rfl
  rw [hfun, hbatch']
  exact ⟨_, marker, eff, rfl, hanswers, rfl,
    filter_records hrecords fun q hq ↦ hrow q (List.mem_of_mem_filter hq)⟩

/-! ## A cycle with a rider -/

/-- A source that rides psk rows along. -/
def ridingSource : WsprCycleSource where
  includePsk := true
  parseIso _ := some 0
  strptime _ := some 0

/-- A spot of the cycle `0`, in a table of either kind. -/
def spotRow (id : ℤ) (db producer : String) : Row where
  id
  targetDb := db
  targetTable := "spots"
  schemaVersion := 1
  payloadJson := .ofJson (.obj [("time", .str "0")])
  queuedAt := ""
  producer

/-- The queue with a wspr spot and a psk spot of one cycle. -/
def ridingQueue : Queue where
  rows := [spotRow 1 "wspr" "wspr-recorder", spotRow 2 "psk" "psk-recorder"]
  seq := 2
  hasProducer := true
  hasLocal := true
  seq_nonneg := by decide
  increasing := by simp [Increasing, spotRow]
  bounded := by decide
  producer_default := nofun
  local_default := nofun

/-- A host where that queue stands, and no marker. -/
def ridingSys : Sys (Outside WsprMem) Act QueuedRecord where
  here := { sink := some ridingQueue, mem := {} }
  env _ := {}

theorem gate_filters_psk_riding :
    ∃ b records riders producerColumn s₀,
      (ridingSource.buildBatchWith judgeNone () 0 "0" ridingSys).1 = .ok (some b, ()) ∧
      ridingSource.selectRecords 0 "0" ridingSys = (.ok (records, riders, producerColumn), s₀) ∧
      wp (ridingSource.buildBatchWith judgeRidersNoting {} 0 "0")
        (fun r _ ↦ ∃ b', r.1 = some b' ∧ b'.cursorAfter = b.cursorAfter)
        (fun _ _ ↦ False) (fun _ ↦ True) ridingSys := by
  obtain ⟨b, hb, hwspr⟩ : ∃ b,
      (ridingSource.buildBatchWith judgeNone () 0 "0" ridingSys).1 = .ok (some b, ()) ∧
        ∃ q ∈ b.records, isPsk q = false := by
    exact ⟨_, rfl, _, List.mem_cons_self, rfl⟩
  obtain ⟨records, riders, col, s₀, hsel, hwp⟩ :=
    gate_filters_psk ridingSource {} 0 "0" ridingSys b hb hwspr
  refine ⟨b, records, riders, col, s₀, hb, hsel, wp_mono_ok hwp ?_⟩
  rintro r s' ⟨b', -, -, hr, -, hcursor, -⟩
  exact ⟨b', hr, hcursor⟩

end WsprCycleSource

end HsUploader
