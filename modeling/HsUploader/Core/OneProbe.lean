import Mathlib.Data.Fintype.EquivFin
import HsUploader.Core.RetryQueue

/-!
# One failing call a pump

A pump that has been told `retry_later` is not to call the transport again.  It keeps to that as
long as no retry it can come to make is on its last attempt (`oneProbe_of_spare`).  One that is
becomes a dead letter, nothing of the pipeline's stays queued, and the same pump goes on to its
source.

That the condition is needed is shown by building, for any store in which such a retry stands, the
pipeline that makes the second call: its destination is down, and its source has a batch.  A store
that pumps have left holds one retry of each pipeline at the most, so that no other retry can keep
the pump from the source.  `one_probe_iff` is both ways, over every store that pumps can leave.

## What is here

* One direction comes from the retry queue: a pump of any pipeline, in any surroundings, calls
  nothing after a failure as long as its queued retries have an attempt to spare.
* `eagerPipeline` and `lateWorld` — the pipeline that is built for the other: its replay fails, its
  source has a batch as long as nothing is stored for its key, and the clock shows the last second
  there is, at which every retry is due.
* `ships_on_spent` — its pump ships on a spent retry, followed from call to call.
* `Store.exists_fresh` — every store leaves a key free for such a pipeline.
* `one_probe_iff` — the two together.

The condition speaks of the queue before the pump and of the retry policy, and of nothing that the
pump does.
-/

set_option autoImplicit false

namespace HsUploader

open Prog

variable {σ ω ρ π : Type}

/-! ## A destination that is down, and a source that has a batch -/

/-- A pipeline whose source always has a batch of one record and whose destination answers
`retry_later` to a replay. -/
def eagerPipeline (name : String) (retry : RetryPolicy) (sourceId : String) (r : ρ) (blob : π) :
    Pipeline Unit Unit ρ π where
  name := name
  retry := retry
  source :=
    { sourceId
      iterBatches := fun _ _ ↦ pure [pure (some { records := [r], cursorAfter := .ofInt 1 })]
      commit := fun _ ↦ pure ()
      cursorIsAfter := none }
  transport :=
    { name := "eager"
      primaryTable := "test.spots"
      ship := fun _ ↦ pure .acked
      serializeForRetry := fun _ ↦ pure blob
      replay := fun _ ↦ pure (.retryLater "down")
      payloadLen := fun _ ↦ 0 }

theorem eagerPipeline_returns (name : String) (retry : RetryPolicy) (sourceId : String) (r : ρ)
    (blob : π) : (eagerPipeline name retry sourceId r blob).Returns where
  iter _ _ _ := fun p hp ↦ by
    rw [List.mem_singleton.mp hp]
    exact returns_pure _
  commit _ := returns_pure _
  ship _ := returns_pure _
  serialize _ := returns_pure _
  replay _ := returns_pure _

/-- The world with this store in which nobody else does anything, the gate answers true, and the
clock shows its last second. -/
def lateWorld (s : Store π) : World Unit Unit ρ π where
  sys := { here := (), env := fun _ ↦ { now := .of lastSecond } }
  store := s

/-- Nobody else does anything, the gate answers true, and the clock shows its last second. -/
def Late (w : World Unit Unit ρ π) : Prop := w.sys.choice = { now := .of lastSecond } ∧
  ∀ k, w.sys.env k = { now := .of lastSecond }

namespace Late

variable {w : World Unit Unit ρ π} {u : Uploader} {α : Type}
  {E : Exn → World Unit Unit ρ π → Prop} {S : World Unit Unit ρ π → Prop}

theorem next (h : Late w) : Late w.next := ⟨h.2 _, h.2⟩

theorem noted (h : Late w) (e : Event ρ π) : Late (w.noted e) := h

theorem stored (h : Late w) (s : Store π) : Late (w.stored s) := h

theorem not_stop (h : Late w) : ¬ w.sys.choice.stop = true := by
  rw [h.1]
  exact Bool.false_ne_true

/-- The gate lets the pump go on. -/
theorem wp_maySend (h : Late w) {Q : Bool → World Unit Unit ρ π → Prop}
    (hQ : ∀ w', Late w' → w'.store = w.store → (∃ es, w'.trace = w.trace ++ es) → Q true w') :
    wp (maySend u) Q E S w := by
  rw [maySend]
  split
  · rw [wp_bind, wp_onSys_breathe, if_neg h.not_stop, wp_bind, wp_note, wp_pure, h.1]
    exact hQ _ (h.next.noted _) rfl ⟨_, rfl⟩
  · exact hQ w h rfl ⟨[], (List.append_nil _).symm⟩

theorem wp_onStore (h : Late w) {f : Store π → α × Store π} {Q : α → World Unit Unit ρ π → Prop}
    (hQ : Q (f w.store).1 (w.next.stored (f w.store).2)) : wp (onStore f) Q E S w := by
  rwa [HsUploader.wp_onStore, if_neg h.not_stop]

theorem wp_readNow (h : Late w) {Q : Reading → World Unit Unit ρ π → Prop}
    (hQ : Q (.of lastSecond) w.next) : wp readNow Q E S w := by
  rw [readNow, wp_bind, wp_onSys_breathe, if_neg h.not_stop, h.1]
  exact hQ

end Late

theorem datable_lastSecond : Datable lastSecond := by
  constructor <;> norm_num [wholeSeconds, fromTimestamp, roundHalfEven, lastSecond]

theorem iso_lastSecond : (Reading.of lastSecond).iso = lastSecond := by
  rw [Reading.iso, Reading.epoch_of datable_lastSecond]
  norm_num [wholeSeconds, fromTimestamp, roundHalfEven, lastSecond]

/-- Where the pipeline has one retry on the queue and the clock has come to it, that retry is taken
off, and nothing of the pipeline's stays. -/
theorem Store.popDueDeliverable_only {s : Store π} {p : String} {now : Stamp} {d : Deliverable π}
    (hd : d ∈ s.deliverables) (hp : d.pipeline = p) (hdue : d.nextAttemptAt ≤ now)
    (honly : ∀ d' ∈ s.deliverables, d'.pipeline = p → d' = d) :
    ∃ s', s.popDueDeliverable p now = (some d, s') ∧ s'.deliverableCount p = 0 ∧
      s'.watermarks = s.watermarks := by
  rcases hpop : s.popDueDeliverable p now with ⟨_ | d', s'⟩
  · exact absurd hdue (not_le.mpr ((popDueDeliverable_none hpop).2 d hd hp))
  · obtain ⟨hmem, hname, -, hrest⟩ := popDueDeliverable_some hpop
    obtain rfl := honly d' hmem hname
    refine ⟨s', rfl, deliverableCount_eq_zero.mpr fun x hx hxp ↦ ?_, ?_⟩
    · rw [hrest, List.mem_filter, decide_eq_true_eq] at hx
      exact hx.2 (congrArg Deliverable.id (honly x hx.1 hxp))
    · have hmarks : (s.popDueDeliverable p now).2.watermarks = s.watermarks :=
        s.watermarks_popDueDeliverable p now
      rwa [hpop] at hmarks

/-! ## The second call -/

section second

variable {u : Uploader} {t₀ : List (Event ρ π)} {w : World Unit Unit ρ π}
  {E : Exn → World Unit Unit ρ π → Prop} {S : World Unit Unit ρ π → Prop} {name sourceId : String}
  {retry : RetryPolicy} {r : ρ} {blob : π}

/-- The destination is down. -/
theorem wp_callReplay_eager (d : Deliverable π) {Q : Outcome ρ → World Unit Unit ρ π → Prop} :
    wp (callReplay (eagerPipeline name retry sourceId r blob) d) Q E S w =
      Q (.retryLater "down")
        ((w.noted (.replaying d)).noted (.replayed d (.retryLater "down"))) := rfl

/-- It is up again. -/
theorem wp_callShip_eager (b : RecordBatch ρ) {Q : Outcome ρ → World Unit Unit ρ π → Prop} :
    wp (callShip (eagerPipeline name retry sourceId r blob) b) Q E S w =
      Q .acked ((w.noted (.shipping b)).noted (.shipped b .acked)) := rfl

/-- A retry is given up: it leaves the queue as it is. -/
theorem wp_handleOutcome_spent {pipe : Pipeline Unit Unit ρ π} {d : Deliverable π} {now : Reading}
    {reason : String} (hw : Late w) (hspent : pipe.retry.maxAttempts ≤ d.attempts + 1)
    {Q : Unit → World Unit Unit ρ π → Prop}
    (hQ : ∀ w', Late w' → w'.store.deliverables = w.store.deliverables →
      w'.store.watermarks = w.store.watermarks → w'.trace = w.trace → Q () w') :
    wp (handleOutcome pipe d (.retryLater reason) now) Q E S w := by
  rw [handleOutcome, Outcome.retryLater]
  dsimp only
  rw [if_pos hspent, wp_bind, deadLetter]
  refine hw.wp_onStore ?_
  rw [recordAttempt]
  apply Late.wp_onStore
  · exact hw.next
  refine hQ _ hw.next.next ?_ ?_ rfl
  · change (Store.recordAttempt ..).deliverables = _
    rw [Store.deliverables_recordAttempt]
    rfl
  · change (Store.recordAttempt ..).watermarks = _
    rw [Store.watermarks_recordAttempt]
    rfl

/-- The retries are drained: the only one is replayed, spent, and given up. -/
theorem wp_drainDeliverables_spent (hw : Late w) {d : Deliverable π} (hd : d ∈ w.store.deliverables)
    (hname : d.pipeline = name) (hdue : d.nextAttemptAt ≤ lastSecond)
    (honly : ∀ d' ∈ w.store.deliverables, d'.pipeline = name → d' = d)
    (hspent : retry.maxAttempts ≤ d.attempts + 1) (ht : Added t₀ (fun _ ↦ True) w.trace)
    {Q : Bool → World Unit Unit ρ π → Prop}
    (hQ : ∀ w', Late w' → w'.store.deliverableCount name = 0 →
      w'.store.watermarks = w.store.watermarks →
      Added t₀ (Spent (eagerPipeline name retry sourceId r blob)) w'.trace → Q true w') :
    wp (drainDeliverables u (eagerPipeline name retry sourceId r blob)) Q E S w := by
  rw [drainDeliverables, wp_bind]
  refine hw.wp_readNow ?_
  rw [wp_bind, wp_get, Prog.loop, wp_bind, retryNext, wp_bind]
  refine hw.next.wp_maySend fun w₁ h₁ hs₁ ht₁ ↦ ?_
  rw [if_pos rfl, wp_bind]
  refine h₁.wp_onStore ?_
  obtain ⟨s', hpop, hcount, hmarks⟩ :=
    Store.popDueDeliverable_only hd hname hdue honly
  have hpop₁ : w₁.store.popDueDeliverable name (Reading.of lastSecond).iso = (some d, s') := by
    rw [hs₁, iso_lastSecond]
    exact hpop
  rw [show (eagerPipeline name retry sourceId r blob).name = name from rfl, hpop₁]
  dsimp only
  rw [wp_bind, wp_callReplay_eager, wp_bind]
  set w₂ := ((w₁.next.stored s').noted (.replaying d)).noted (.replayed d (.retryLater "down")) with hw₂
  have h₂ : Late w₂ := h₁.next
  refine wp_handleOutcome_spent h₂ hspent fun w₃ h₃ hrows hmarks₃ ht₃ ↦ ?_
  refine hQ w₃ h₃ ?_ (hmarks₃.trans hmarks) ?_
  · rw [Store.deliverableCount, hrows]
    exact hcount
  · obtain ⟨t, ht, -⟩ := ht
    obtain ⟨es, hes⟩ := ht₁
    refine ⟨t ++ (es ++ [.replaying d, .replayed d (.retryLater "down")]), ?_, d, .retryLater "down",
      by simp, rfl, hspent⟩
    rw [ht₃, hw₂]
    change w₁.trace ++ [_] ++ [_] = _
    rw [hes, show w.next.trace = w.trace from rfl, ht]
    simp

/-- An acked batch calls nothing more. -/
theorem wp_handleFirstAttempt_eager {b : RecordBatch ρ} {now : Reading} (hw : Late w)
    {Q : Unit → World Unit Unit ρ π → Prop}
    (hQ : ∀ w', Late w' → w'.trace = w.trace → Q () w') :
    wp (handleFirstAttempt (eagerPipeline name retry sourceId r blob) b .acked now) Q E S w := by
  rw [handleFirstAttempt, Outcome.acked]
  dsimp only
  rw [wp_bind, advance]
  refine hw.wp_onStore ?_
  rw [wp_bind, wp_onSys]
  change wp (recordAttempt _ _ _ _ _ _) _ _ _ (w.next.stored _)
  rw [recordAttempt]
  apply Late.wp_onStore
  · exact hw.next
  exact hQ _ hw.next.next rfl

/-- The source is read and its batch is shipped. -/
theorem wp_drainSource_eager (hw : Late w)
    (hfresh : w.store.getCursor (eagerPipeline name retry sourceId r blob).key = .ok [])
    (ht : Added t₀ (Spent (eagerPipeline name retry sourceId r blob)) w.trace)
    {Q : Bool → World Unit Unit ρ π → Prop}
    (hQ : ∀ b w', Added t₀ (ShipsOnSpent (eagerPipeline name retry sourceId r blob)) w'.trace →
      Q b w') :
    wp (drainSource u (eagerPipeline name retry sourceId r blob)) Q E S w := by
  set batch : RecordBatch ρ := { records := [r], cursorAfter := .ofInt 1 } with hbatch
  set pipe := eagerPipeline name retry sourceId r blob with hpipe
  change wp (Prog.loop _ 1 _) _ _ _ _
  rw [Prog.loop, wp_bind, drainRound, if_pos (show pipe.budgetLeft 0 = true from rfl), wp_bind]
  refine hw.wp_maySend fun w₁ h₁ hs₁ hes₁ ↦ ?_
  obtain ⟨es₁, ht₁⟩ := hes₁
  rw [if_pos rfl, wp_bind, wp_onStoreE, if_neg h₁.not_stop, hs₁, hfresh]
  change wp (drainBatches u pipe [pure (some batch)] 0 false false) _ _ _ (w₁.next.stored w.store)
  have h₂ : Late (w₁.next.stored w.store) := h₁.next
  change wp (do
    if ← maySend u then
      let outcome ← callShip pipe batch
      let now ← readNow
      handleFirstAttempt pipe batch outcome now
      _
    else _) _ _ _ (w₁.next.stored w.store)
  rw [wp_bind]
  refine h₂.wp_maySend fun w₃ h₃ hs₃ hes₃ ↦ ?_
  obtain ⟨es₃, ht₃⟩ := hes₃
  rw [if_pos rfl, wp_bind, hpipe, wp_callShip_eager, wp_bind]
  set w₄ := (w₃.noted (.shipping batch)).noted (.shipped batch .acked) with hw₄
  have h₄ : Late w₄ := h₃
  refine h₄.wp_readNow ?_
  rw [wp_bind]
  refine wp_handleFirstAttempt_eager h₄.next fun w₅ h₅ ht₅ ↦ ?_
  refine hQ true w₅ ?_
  obtain ⟨t, ht, hspent⟩ := ht
  refine ⟨t ++ (es₁ ++ es₃ ++ [.shipping batch, .shipped batch .acked]), ?_,
    hspent.ship (show Event.shipping batch ∈ _ by simp)⟩
  rw [ht₅, show w₄.next.trace = w₃.trace ++ [.shipping batch] ++ [.shipped batch .acked] from rfl, ht₃,
    show (w₁.next.stored w.store).trace = w₁.trace from rfl, ht₁, ht]
  simp

/-- **The pump that calls twice**: its retry is spent, and it ships a batch. -/
theorem ships_on_spent (u : Uploader) {s : Store π} {d : Deliverable π} (hd : d ∈ s.deliverables)
    (hname : d.pipeline = name) (hdue : d.nextAttemptAt ≤ lastSecond)
    (honly : ∀ d' ∈ s.deliverables, d'.pipeline = name → d' = d)
    (hspent : retry.maxAttempts ≤ d.attempts + 1)
    (hfresh : s.getCursor (eagerPipeline name retry sourceId r blob).key = .ok []) :
    ShipsOnSpent (eagerPipeline name retry sourceId r blob)
      (pumpOne u (eagerPipeline name retry sourceId r blob) (lateWorld s)).2.trace := by
  set pipe := eagerPipeline name retry sourceId r blob with hpipe
  have hw : Late (lateWorld s : World Unit Unit ρ π) := ⟨rfl, fun _ ↦ rfl⟩
  have hpump : wp (pumpOne u pipe)
      (fun _ w' ↦ Added [] (ShipsOnSpent pipe) w'.trace)
      (fun _ w' ↦ Added [] (ShipsOnSpent pipe) w'.trace)
      (fun w' ↦ Added [] (ShipsOnSpent pipe) w'.trace) (lateWorld s) := by
    rw [pumpOne, wp_bind]
    refine hw.wp_maySend fun w₁ h₁ hs₁ hes ↦ ?_
    obtain ⟨es, ht₁⟩ := hes
    rw [if_pos rfl, wp_bind]
    have hs : w₁.store = s := hs₁
    refine wp_drainDeliverables_spent h₁ (hs ▸ hd) hname hdue (hs ▸ honly) hspent
      ⟨es, ht₁, trivial⟩ fun w₂ h₂ hcount hmarks ht₂ ↦ ?_
    rw [wp_bind]
    refine h₂.wp_onStore ?_
    have hzero : ¬ w₂.store.deliverableCount pipe.name > 0 := by
      rw [show pipe.name = name from rfl, hcount]
      exact lt_irrefl 0
    rw [if_neg hzero, wp_bind]
    have hcursor : w₂.store.getCursor pipe.key = .ok [] := by
      rw [Store.getCursor, hmarks, hs]
      exact hfresh
    apply wp_drainSource_eager
    · exact h₂.next
    · exact hcursor
    · exact ht₂
    · intro b w' ht'
      exact ht'
  obtain ⟨t, ht, hships⟩ :=
    snd_of_wp (P := fun w' : World Unit Unit ρ π ↦ Added [] (ShipsOnSpent pipe) w'.trace) hpump
  rwa [ht]

end second

/-! ## Every store that pumps leave -/

/-- A key that has no send record yet. -/
theorem Store.exists_fresh (s : Store π) :
    ∃ sourceId, ∀ destId table, s.getCursor ⟨sourceId, destId, table⟩ = .ok [] := by
  obtain ⟨sourceId, hid⟩ :=
    Infinite.exists_notMem_finset (s.watermarks.map fun p ↦ p.1.sourceId).toFinset
  refine ⟨sourceId, fun destId table ↦ ?_⟩
  have hnone : Table.lookup ⟨sourceId, destId, table⟩ s.watermarks = none := by
    refine Table.lookup_eq_none_of_not_mem fun hmem ↦ hid ?_
    obtain ⟨p, hp, hkey⟩ := List.mem_map.mp hmem
    exact List.mem_toFinset.mpr (List.mem_map.mpr ⟨p, hp, congrArg SendKey.sourceId hkey⟩)
  rw [getCursor, hnone]

/-- **One failing call a pump, exactly when no retry is on its last attempt.**  After any pumps of
any of the pipelines, over a store that had no deliverables: every pump of this pipeline, whatever
its source and its destination are, in whatever surroundings, calls nothing after a `retry_later`, if
and only if each deliverable of the pipeline that is queued has an attempt to spare. -/
theorem one_probe_iff [Surroundings ω σ] (u : Uploader) (restart : σ → σ)
    {pipes : List (Pipeline σ ω ρ π)} (hpipes : Apart pipes) (hr : ∀ p ∈ pipes, p.Returns)
    {w₀ : World σ ω ρ π} (h₀ : w₀.store.deliverables = []) {before : List (Pipeline σ ω ρ π)}
    (hbefore : ∀ p ∈ before, p ∈ pipes) {pipe : Pipeline σ ω ρ π} (hpipe : pipe ∈ pipes) (r : ρ) :
    let s := (pumps u restart before w₀).store
    (∀ (σ' ω' : Type) [Surroundings ω' σ'] (pipe' : Pipeline σ' ω' ρ π), pipe'.name = pipe.name →
      pipe'.retry = pipe.retry → pipe'.Returns → ∀ w : World σ' ω' ρ π, w.store = s →
        ∃ t, (pumpOne u pipe' w).2.trace = w.trace ++ t ∧ OneProbe t) ↔
      ∀ d ∈ s.deliverables, pipe.Awaits d → d.attempts + 1 < pipe.retry.maxAttempts := by
  intro s
  have hstart : OneEach pipes pipe pipe w₀.store.deliverableSeq (.ok []) [] False w₀.store := by
    constructor <;> simp [h₀]
    exact ⟨by simp, by simp⟩
  have hone : (s.deliverables.map (·.pipeline)).Nodup := by
    have h := (hstart.pumps (u := u) restart hpipes hpipe hr hbefore).one
    rwa [List.append_nil] at h
  constructor
  · intro hall d hd ⟨hname, hdue⟩
    by_contra hlast
    have honly : ∀ d' ∈ s.deliverables, d'.pipeline = pipe.name → d' = d := by
      intro d' hd' hname'
      exact List.inj_on_of_nodup_map hone hd' hd (hname'.trans hname.symm)
    obtain ⟨sourceId, hfresh⟩ := s.exists_fresh
    obtain ⟨t, ht, hprobe⟩ := hall Unit Unit
      (eagerPipeline pipe.name pipe.retry sourceId r d.payloadBlob) rfl rfl
      (eagerPipeline_returns ..) (lateWorld s) rfl
    have hships : ShipsOnSpent (eagerPipeline pipe.name pipe.retry sourceId r d.payloadBlob) _ :=
      ships_on_spent u hd hname hdue honly (not_lt.mp hlast) (hfresh _ _)
    rw [ht] at hships
    exact hships.not_oneProbe hprobe
  · intro hspare σ' ω' _ pipe' hname hretry hreturns w hw
    refine oneProbe_of_spare u hreturns w fun d hd hawaits ↦ ?_
    rw [hretry]
    exact hspare d (hw ▸ hd) ⟨hawaits.1.trans hname, hawaits.2⟩

/-- After two pumps of the failing destination, with the usual number of attempts, the next makes one
call; after one pump with a single attempt, the next may make two. -/
theorem one_probe_iff_failing :
    (∃ t, (pumpOne {} (memoryPipeline {})
        (pumps {} id [memoryPipeline {}, memoryPipeline {}] failingWorld)).2.trace =
      (pumps {} id [memoryPipeline {}, memoryPipeline {}] failingWorld).trace ++ t ∧ OneProbe t) ∧
    ¬ ∀ (σ' ω' : Type) [Surroundings ω' σ'] (pipe' : Pipeline σ' ω' ℕ (List ℕ)),
      pipe'.name = "test" → pipe'.retry = { maxAttempts := 1 } → pipe'.Returns →
        ∀ w : World σ' ω' ℕ (List ℕ),
          w.store = (pumps {} id [memoryPipeline { maxAttempts := 1 }] failingWorld).store →
            ∃ t, (pumpOne {} pipe' w).2.trace = w.trace ++ t ∧ OneProbe t := by
  have hapart : ∀ retry, Apart [memoryPipeline retry] := fun retry p hp q hq _ ↦ by
    rw [List.mem_singleton.mp hp, List.mem_singleton.mp hq]
  have hreturns : ∀ retry, ∀ p ∈ [memoryPipeline retry], p.Returns := fun retry p hp ↦ by
    rw [List.mem_singleton.mp hp]
    exact memoryPipeline_returns retry
  have hempty : failingWorld.store.deliverables = [] := rfl
  constructor
  · have hboth : ∀ p ∈ [memoryPipeline {}, memoryPipeline {}], p ∈ [memoryPipeline {}] := by simp
    have hiff := one_probe_iff {} id (hapart {}) (hreturns {}) hempty hboth List.mem_cons_self 1
    exact (hiff.mpr (by decide +kernel)) Unit Unit (memoryPipeline {}) rfl rfl
      (memoryPipeline_returns {}) _ rfl
  · have hself : ∀ p ∈ [memoryPipeline { maxAttempts := 1 }],
        p ∈ [memoryPipeline { maxAttempts := 1 }] := fun _ hp ↦ hp
    have hiff := one_probe_iff {} id (hapart { maxAttempts := 1 }) (hreturns { maxAttempts := 1 })
      hempty hself List.mem_cons_self 1
    exact fun hall ↦ absurd (hiff.mp hall) (by decide +kernel)

/-- **A spent retry is followed by a second call**: the replay fails, uses up its one attempt and
becomes a dead letter, and the same pump ships the batch again to the failing destination. -/
theorem second_probe_after_spent :
    ¬ ∀ n, ∃ t, (run {} (memoryPipeline { maxAttempts := 1 }) id (n + 1) failingWorld).trace =
        (run {} (memoryPipeline { maxAttempts := 1 }) id n failingWorld).trace ++ t ∧ OneProbe t := by
  intro h
  obtain ⟨t, ht, hone⟩ := h 1
  have hdrop : t = (run {} (memoryPipeline { maxAttempts := 1 }) id 2 failingWorld).trace.drop
      (run {} (memoryPipeline { maxAttempts := 1 }) id 1 failingWorld).trace.length := by
    rw [ht, List.drop_left]
  rw [hdrop] at hone
  exact absurd hone (by decide +kernel)

end HsUploader
