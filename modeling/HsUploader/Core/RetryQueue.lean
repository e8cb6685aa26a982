import HsUploader.Core.PumpCalls

/-!
# The retry queue over many pumps

Several pipelines drain into one store, one pump after another.  Nothing in one place bounds the
queue: a pump replays before it reads, reads only when nothing of its pipeline's stays queued, stops
reading at the first failed batch, and gives a retry up once its attempts are used.  Together this
keeps at most one deliverable of each pipeline on the queue, and as long as it stays there its
pipeline's source is not read and its send record stands still (`retry_queue_bound`).

A claim takes the row off the queue before the outcome is known.  What becomes of a queued payload
is the second half (`queued_accounted`): it is on the queue, a dead letter, or was acked, as long as
no replay raises.

## How the invariant goes

`OneEach` follows one pipeline through the steps of a pump.  Its two parameters are what the pump
has taken off the queue (`hand`) and whether it has already seen that nothing of its own is left
there (`drains`); there is one lemma for each thing a step can do to the queue: `OneEach.pop`,
`OneEach.requeue`, `OneEach.drain`, `OneEach.enqueue` and the advances of a send record.  Only a
pump that has drained may enqueue, and it enqueues once, which is the whole argument.

`Kept` follows one deliverable instead, through pumps of any pipelines.  A row that goes back stands
at the end of the queue with one attempt more and another time (`Kept.requeue`), so a deliverable is
followed by what it is, not by where it stands (`Deliverable.Same`).

`Undisturbed` names the three ways a pump can lose what it has claimed: it is stopped, the transport
raises, or the time of the next attempt is past what the calendar of the program can name.
-/

set_option autoImplicit false

namespace HsUploader

open Prog

variable {σ ω ρ π : Type}

/-! ## Runs of several pipelines -/

/-- The pumps of these pipelines, one after another, on one store. -/
def pumps [Surroundings ω σ] (u : Uploader) (restart : σ → σ) :
    List (Pipeline σ ω ρ π) → World σ ω ρ π → World σ ω ρ π
  | [], w => w
  | pipe :: pipes, w => pumps u restart pipes (cycle u pipe restart w)

/-- No two of the pipelines share a name or a send record. -/
def Apart (pipes : List (Pipeline σ ω ρ π)) : Prop :=
  ∀ p ∈ pipes, ∀ q ∈ pipes, p.name = q.name ∨ p.key = q.key → p = q

/-- The pipeline with another way of reading its source, if it has this name. -/
def Pipeline.reading (name : String)
    (iter : Bytes → ℤ → SysM σ ω ρ (List (SysM σ ω ρ (Option (RecordBatch ρ)))))
    (pipe : Pipeline σ ω ρ π) : Pipeline σ ω ρ π :=
  if pipe.name = name then { pipe with source := { pipe.source with iterBatches := iter } } else pipe

/-! ## The rows a pump has in its charge -/

/-- The deliverable a phase has taken off the queue. -/
def Phase.hand : Phase σ ω ρ π → List (Deliverable π)
  | .popped d | .replayed d _ => [d]
  | _ => []

/-- The phase comes after the count of what stays queued. -/
def Phase.Drains : Phase σ ω ρ π → Prop
  | .draining _ | .opened _ _ | .reading _ _ | .fetched _ _ _ | .shipped _ _ _ | .advanced _ _ _
  | .serialized _ _ _ => True
  | _ => False

/-- Ids tell the rows apart, and the queue has given them out. -/
structure Keyed (rows : List (Deliverable π)) (seq : ℤ) : Prop where
  nodup : (rows.map (·.id)).Nodup
  le : ∀ d ∈ rows, d.id ≤ seq

/-- The deliverable was queued by one of the pipelines, and has attempts left. -/
def Deliverable.Owned (pipes : List (Pipeline σ ω ρ π)) (d : Deliverable π) : Prop :=
  ∃ p ∈ pipes, d.pipeline = p.name ∧ d.key p = p.key ∧ d.attempts < max p.retry.maxAttempts 1

namespace Keyed

variable {rows rows' : List (Deliverable π)} {seq : ℤ}

theorem perm (h : Keyed rows seq) (hp : rows'.Perm rows) : Keyed rows' seq :=
  ⟨(hp.map _).nodup_iff.mpr h.nodup, fun d hd ↦ h.le d (hp.mem_iff.mp hd)⟩

/-- A row in hand may be let go. -/
theorem drop {hand : List (Deliverable π)} (h : Keyed (rows ++ hand) seq) : Keyed rows seq :=
  ⟨h.nodup.sublist ((List.sublist_append_left rows hand).map _), fun d hd ↦
    h.le d (List.mem_append_left _ hd)⟩

theorem concat (h : Keyed rows seq) {d : Deliverable π} (hd : d.id = seq + 1) :
    Keyed (rows ++ [d]) (seq + 1) := by
  constructor
  · rw [List.map_append, List.nodup_append]
    refine ⟨h.nodup, List.nodup_singleton _, fun i hi j hj ↦ ?_⟩
    obtain ⟨d', hd', rfl⟩ := List.mem_map.mp hi
    rw [List.map_singleton, List.mem_singleton] at hj
    have hle := h.le d' hd'
    omega
  · intro d' hd'
    rcases List.mem_append.mp hd' with hd' | hd'
    · have hle := h.le d' hd'
      omega
    · rw [List.mem_singleton.mp hd', hd]

/-- The last row, changed in everything but its id. -/
theorem replace {d d' : Deliverable π} (h : Keyed (rows ++ [d]) seq) (hid : d'.id = d.id) :
    Keyed (rows ++ [d']) seq := by
  constructor
  · have hmap : (rows ++ [d']).map (·.id) = (rows ++ [d]).map (·.id) := by simp [hid]
    rw [hmap]
    exact h.nodup
  · intro x hx
    rcases List.mem_append.mp hx with hx | hx
    · exact h.le x (List.mem_append_left _ hx)
    · rw [List.mem_singleton.mp hx, hid]
      exact h.le d (by simp)

/-- The id of a claimed row is free. -/
theorem free {d : Deliverable π} (h : Keyed (rows ++ [d]) seq) : ¬ ∃ d' ∈ rows, d'.id = d.id := by
  rintro ⟨d', hd', hid⟩
  have hn := h.nodup
  rw [List.map_append, List.nodup_append] at hn
  exact hn.2.2 d'.id (List.mem_map_of_mem hd') d.id (by simp) hid

end Keyed

/-- A row that goes back is the row in hand but for its attempts and its time. -/
theorem Store.deliverables_requeueDeliverable {s s' : Store π} {d : Deliverable π}
    (h : s.requeueDeliverable d = .ok s') :
    s'.deliverables = s.deliverables ++ [d] ∧ s'.deliverableSeq = max s.deliverableSeq d.id ∧
      s'.watermarks = s.watermarks ∧ s'.deadLetter = s.deadLetter := by
  rw [requeueDeliverable] at h
  split at h
  · cases h
  · cases h
    exact ⟨rfl, rfl, rfl, rfl⟩

/-- A batch that joins the queue is a new row at its end, or one for it stands there already. -/
theorem Store.enqueueDeliverable_cases (s : Store π) (d : Deliverable π) :
    s.enqueueDeliverable d = s ∨
      s.enqueueDeliverable d =
        { s with
          deliverables := s.deliverables ++ [{ d with id := s.deliverableSeq + 1, attempts := 0 }]
          deliverableSeq := s.deliverableSeq + 1 } := by
  rw [enqueueDeliverable]
  split
  · exact .inl rfl
  · exact .inr rfl

/-- A pump's own end and the restart after a stop leave the same store. -/
theorem store_cycle [Surroundings ω σ] (u : Uploader) (pipe : Pipeline σ ω ρ π) (restart : σ → σ)
    (w : World σ ω ρ π) : (cycle u pipe restart w).store = (pumpOne u pipe w).2.store := by
  rw [cycle]
  rcases pumpOne u pipe w with ⟨_ | _ | _ | _, w'⟩ <;> rfl

/-! ## One deliverable for each pipeline -/

/-- What a pump of `pipe` keeps of the queue: `hand` has been taken off it, and `drains` says that
nothing of the pipeline's is on it.  The last field follows one row, by its id `i` and its
pipeline `p₀`: as long as it is on the queue, the send record of `p₀` holds `c`. -/
structure OneEach (pipes : List (Pipeline σ ω ρ π)) (pipe p₀ : Pipeline σ ω ρ π) (i : ℤ)
    (c : Except Exn Bytes) (hand : List (Deliverable π)) (drains : Prop) (s : Store π) : Prop where
  keyed : Keyed (s.deliverables ++ hand) s.deliverableSeq
  one : ((s.deliverables ++ hand).map (·.pipeline)).Nodup
  owned : ∀ d ∈ s.deliverables ++ hand, d.Owned pipes
  mine : ∀ d ∈ hand, d.pipeline = pipe.name
  empty : drains → s.deliverableCount pipe.name = 0
  le : i ≤ s.deliverableSeq
  pinned : ∀ d ∈ s.deliverables ++ hand, d.id = i → d.pipeline = p₀.name → s.getCursor p₀.key = c

namespace OneEach

variable {pipes : List (Pipeline σ ω ρ π)} {pipe p₀ : Pipeline σ ω ρ π} {i : ℤ}
  {c : Except Exn Bytes} {hand : List (Deliverable π)} {drains : Prop} {s s' : Store π}

/-- What is in hand may be let go, and the count forgotten. -/
theorem drop (h : OneEach pipes pipe p₀ i c hand drains s) :
    OneEach pipes pipe p₀ i c [] False s where
  keyed := by
    rw [List.append_nil]
    exact h.keyed.drop
  one := by
    rw [List.append_nil]
    exact h.one.sublist ((List.sublist_append_left _ _).map _)
  owned d hd := h.owned d (by simp_all)
  mine _ hd := nomatch hd
  empty := False.elim
  le := h.le
  pinned d hd := h.pinned d (by simp_all)

/-- With nothing in hand it does not matter whose pump comes next. -/
theorem next (h : OneEach pipes pipe p₀ i c [] False s) (pipe' : Pipeline σ ω ρ π) :
    OneEach pipes pipe' p₀ i c [] False s :=
  { h with
    mine := fun _ hd ↦ nomatch hd
    empty := False.elim }

/-- Another row is followed. -/
theorem follow (h : OneEach pipes pipe p₀ i c [] False s) (q₀ : Pipeline σ ω ρ π) {d : Deliverable π}
    (hd : d ∈ s.deliverables) : OneEach pipes pipe q₀ d.id (s.getCursor q₀.key) [] False s :=
  { h with
    le := h.keyed.le d (List.mem_append_left _ hd)
    pinned := fun _ _ _ _ ↦ rfl }

/-- A followed row that has left the queue may be followed with any cursor. -/
theorem gone (h : OneEach pipes pipe p₀ i c hand drains s)
    (hgone : ∀ d ∈ s.deliverables ++ hand, d.id = i → d.pipeline ≠ p₀.name) (c' : Except Exn Bytes) :
    OneEach pipes pipe p₀ i c' hand drains s :=
  { h with pinned := fun d hd hid hp ↦ absurd hp (hgone d hd hid) }

/-- And one that may be followed with any cursor has left it. -/
theorem not_mem (h : ∀ c, OneEach pipes pipe p₀ i c hand drains s) {d : Deliverable π}
    (hd : d ∈ s.deliverables) (hid : d.id = i) : d.pipeline ≠ p₀.name := fun hp ↦ by
  have h₀ := (h (.ok [])).pinned d (List.mem_append_left _ hd) hid hp
  have h₁ := (h (.ok [0])).pinned d (List.mem_append_left _ hd) hid hp
  rw [h₀] at h₁
  cases h₁

/-- A step that changes neither the queue nor the send records. -/
theorem congr (h : OneEach pipes pipe p₀ i c hand drains s)
    (hd : s'.deliverables = s.deliverables) (hseq : s'.deliverableSeq = s.deliverableSeq)
    (hw : s'.watermarks = s.watermarks) : OneEach pipes pipe p₀ i c hand drains s' := by
  have hcursor : s'.getCursor p₀.key = s.getCursor p₀.key := by
    rw [Store.getCursor, hw, Store.getCursor]
  constructor
  · rw [hd, hseq]
    exact h.keyed
  · rw [hd]
    exact h.one
  · rw [hd]
    exact h.owned
  · exact h.mine
  · rw [Store.deliverableCount, hd]
    exact h.empty
  · rw [hseq]
    exact h.le
  · rw [hd, hcursor]
    exact h.pinned

/-- The queue is empty of the pipeline's own. -/
theorem drain (h : OneEach pipes pipe p₀ i c [] False s)
    (hcount : s.deliverableCount pipe.name = 0) : OneEach pipes pipe p₀ i c [] True s :=
  { h with empty := fun _ ↦ hcount }

/-- The pipeline claims a row. -/
theorem pop {now : Stamp} {d : Deliverable π} (h : OneEach pipes pipe p₀ i c [] False s)
    (hpop : s.popDueDeliverable pipe.name now = (some d, s')) :
    OneEach pipes pipe p₀ i c [d] False s' := by
  have hkeyed := h.keyed
  have hone := h.one
  have howned := h.owned
  have hpinned := h.pinned
  rw [List.append_nil] at hkeyed hone howned hpinned
  have hperm := Store.popDueDeliverable_perm hpop hkeyed.nodup
  have hw : s'.watermarks = s.watermarks := by
    have := Store.watermarks_popDueDeliverable s pipe.name now
    rwa [hpop] at this
  have hseq : s'.deliverableSeq = s.deliverableSeq := by
    have := Store.deliverableSeq_popDueDeliverable s pipe.name now
    rwa [hpop] at this
  constructor
  · rw [hseq]
    exact hkeyed.perm hperm
  · exact (hperm.map _).nodup_iff.mpr hone
  · exact fun d' hd' ↦ howned d' (hperm.mem_iff.mp hd')
  · intro d' hd'
    rw [List.mem_singleton.mp hd']
    exact (Store.popDueDeliverable_some hpop).2.1
  · exact False.elim
  · rw [hseq]
    exact h.le
  · intro d' hd' hid hp
    rw [Store.getCursor, hw, ← Store.getCursor]
    exact hpinned d' (hperm.mem_iff.mp hd') hid hp

/-- The row in hand goes back. -/
theorem requeue {d : Deliverable π} {t : Stamp} (h : OneEach pipes pipe p₀ i c [d] False s)
    (hpipes : Apart pipes) (hpipe : pipe ∈ pipes)
    (hmax : d.attempts + 1 < pipe.retry.maxAttempts)
    (hs' : s.requeueDeliverable { d with attempts := d.attempts + 1, nextAttemptAt := t } = .ok s') :
    OneEach pipes pipe p₀ i c [] False s' := by
  obtain ⟨hd, hseq, hw, -⟩ := Store.deliverables_requeueDeliverable hs'
  have hid : d.id ≤ s.deliverableSeq := h.keyed.le d (by simp)
  have hseq : s'.deliverableSeq = s.deliverableSeq := by
    rw [hseq]
    exact max_eq_left hid
  have howned : ({ d with attempts := d.attempts + 1, nextAttemptAt := t } : Deliverable π).Owned
      pipes := by
    obtain ⟨p, hp, hname, hkey, -⟩ := h.owned d (by simp)
    obtain rfl := hpipes p hp pipe hpipe (.inl (hname.symm.trans (h.mine d (by simp))))
    exact ⟨p, hp, hname, hkey, by dsimp only; omega⟩
  constructor
  · rw [List.append_nil, hd, hseq]
    exact h.keyed.replace rfl
  · have hone := h.one
    rw [List.map_append] at hone
    rwa [List.append_nil, hd, List.map_append]
  · intro d' hd'
    rw [List.append_nil, hd, List.mem_append, List.mem_singleton] at hd'
    rcases hd' with hd' | rfl
    · exact h.owned d' (List.mem_append_left _ hd')
    · exact howned
  · exact fun _ hd' ↦ nomatch hd'
  · exact False.elim
  · rw [hseq]
    exact h.le
  · intro d' hd' hid hp
    rw [Store.getCursor, hw, ← Store.getCursor]
    rw [List.append_nil, hd, List.mem_append, List.mem_singleton] at hd'
    rcases hd' with hd' | rfl
    · exact h.pinned d' (List.mem_append_left _ hd') hid hp
    · exact h.pinned d (by simp) hid hp

/-- A send record advances that is not the followed row's. -/
theorem advance {key : SendKey} {cursor : Bytes} {t : Stamp}
    {isAfter : Bytes → Bytes → Except Exn Bool} (h : OneEach pipes pipe p₀ i c hand drains s)
    (hkey : ∀ d ∈ s.deliverables, d.pipeline = p₀.name → p₀.key ≠ key) :
    OneEach pipes pipe p₀ i c [] drains (s.advanceCursor key cursor t isAfter).2 := by
  have hdrop := h.drop
  constructor
  · rw [Store.deliverables_advanceCursor, Store.deliverableSeq_advanceCursor]
    exact hdrop.keyed
  · rw [Store.deliverables_advanceCursor]
    exact hdrop.one
  · rw [Store.deliverables_advanceCursor]
    exact hdrop.owned
  · exact hdrop.mine
  · rw [Store.deliverableCount, Store.deliverables_advanceCursor]
    exact h.empty
  · rw [Store.deliverableSeq_advanceCursor]
    exact h.le
  · intro d hd hid hp
    rw [List.append_nil, Store.deliverables_advanceCursor] at hd
    rw [Store.getCursor_advanceCursor_of_ne _ _ (hkey d hd hp)]
    exact h.pinned d (List.mem_append_left _ hd) hid hp

/-- The send record of the row in hand advances: it is the pipeline's own, and nothing else of the
pipeline's is queued. -/
theorem advanceHand {d : Deliverable π} {cursor : Bytes} {t : Stamp}
    {isAfter : Bytes → Bytes → Except Exn Bool} (h : OneEach pipes pipe p₀ i c [d] False s)
    (hpipes : Apart pipes) (hpipe : pipe ∈ pipes) (hp₀ : p₀ ∈ pipes) :
    OneEach pipes pipe p₀ i c [] False (s.advanceCursor (d.key pipe) cursor t isAfter).2 := by
  refine h.advance fun d' hd' hname hkey ↦ ?_
  have hmine : d.pipeline = pipe.name := h.mine d (by simp)
  obtain ⟨p, hp, hpname, hpkey, -⟩ := h.owned d (by simp)
  obtain rfl := hpipes p hp pipe hpipe (.inl (hpname.symm.trans hmine))
  obtain rfl := hpipes p₀ hp₀ p hp (.inr (hkey.trans hpkey))
  have hone := h.one
  rw [List.map_append, List.nodup_append] at hone
  exact hone.2.2 d'.pipeline (List.mem_map_of_mem hd') d.pipeline (by simp)
    (hname.trans hmine.symm)

/-- The pipeline's own send record advances while nothing of the pipeline's is queued. -/
theorem advanceOwn {cursor : Bytes} {t : Stamp} {isAfter : Bytes → Bytes → Except Exn Bool}
    (h : OneEach pipes pipe p₀ i c [] True s) (hpipes : Apart pipes) (hpipe : pipe ∈ pipes)
    (hp₀ : p₀ ∈ pipes) :
    OneEach pipes pipe p₀ i c [] True (s.advanceCursor pipe.key cursor t isAfter).2 := by
  refine h.advance fun d' hd' hname hkey ↦ ?_
  obtain rfl := hpipes p₀ hp₀ pipe hpipe (.inr hkey)
  exact Store.deliverableCount_eq_zero.mp (h.empty trivial) d' hd' hname

/-- A failed batch joins the queue. -/
theorem enqueue {d : Deliverable π} (h : OneEach pipes pipe p₀ i c [] True s)
    (hpipe : pipe ∈ pipes) (hname : d.pipeline = pipe.name) (hkey : d.key pipe = pipe.key) :
    OneEach pipes pipe p₀ i c [] False (s.enqueueDeliverable d) := by
  have hdrop := h.drop
  rcases Store.enqueueDeliverable_cases s d with hs | hs <;> rw [hs]
  · exact hdrop
  have hkeyed := h.keyed
  have hone := h.one
  have howned := h.owned
  have hpinned := h.pinned
  rw [List.append_nil] at hkeyed hone howned hpinned
  have hle := h.le
  constructor
  · rw [List.append_nil]
    exact hkeyed.concat rfl
  · rw [List.append_nil, List.map_append, List.nodup_append]
    refine ⟨hone, List.nodup_singleton _, fun q hq q' hq' ↦ ?_⟩
    obtain ⟨d', hd', rfl⟩ := List.mem_map.mp hq
    rw [List.map_singleton, List.mem_singleton] at hq'
    rw [hq', hname]
    exact Store.deliverableCount_eq_zero.mp (h.empty trivial) d' hd'
  · intro d' hd'
    rw [List.append_nil, List.mem_append, List.mem_singleton] at hd'
    rcases hd' with hd' | rfl
    · exact howned d' hd'
    · exact ⟨pipe, hpipe, hname, hkey, by dsimp only; omega⟩
  · exact fun _ hd' ↦ nomatch hd'
  · exact False.elim
  · dsimp only
    omega
  · intro d' hd' hid hp
    rw [List.append_nil, List.mem_append, List.mem_singleton] at hd'
    rcases hd' with hd' | rfl
    · exact hpinned d' hd' hid hp
    · dsimp only at hid
      omega

end OneEach

/-- Each step of a pump keeps one deliverable for each pipeline. -/
theorem oneEach_rules (u : Uploader) {pipes : List (Pipeline σ ω ρ π)} (hpipes : Apart pipes)
    {pipe p₀ : Pipeline σ ω ρ π} (hpipe : pipe ∈ pipes) (hp₀ : p₀ ∈ pipes) (i : ℤ)
    (c : Except Exn Bytes) :
    CallRules u pipe (fun ph s _ ↦ OneEach pipes pipe p₀ i c ph.hand ph.Drains s)
      (fun s _ ↦ OneEach pipes pipe p₀ i c [] False s)
      (fun s _ ↦ OneEach pipes pipe p₀ i c [] False s) where
  stopped _ _ _ h := h.drop
  raised _ _ _ h _ := h.drop
  gate _ _ _ _ h := h
  attempt _ s _ a ls h := h.congr (Store.deliverables_recordAttempt ..)
    (Store.deliverableSeq_recordAttempt ..) (Store.watermarks_recordAttempt ..)
  heldStart _ _ _ h := h
  heldDraining _ _ _ _ h := h.drop
  heldFetched _ _ _ _ _ _ h := h.drop
  enter _ _ h := h
  pop _ _ _ _ _ h hpop := h.pop hpop
  replayStopped _ _ _ h := h.drop
  replayRaised _ _ _ h := h.drop
  replay _ _ _ _ h := h
  replayAdvance _ _ _ _ _ h _ _ := h.advanceHand hpipes hpipe hp₀
  replayNoCursor _ _ _ _ h _ _ := h.drop
  replayCommit _ _ _ h := h
  requeue _ _ _ _ _ _ h _ hmax hs' := h.requeue hpipes hpipe hmax hs'
  requeueRaised _ _ _ _ h _ _ _ := h.drop
  replayDead _ _ _ _ _ h _ _ := h.drop.congr rfl rfl rfl
  replaySpent _ _ _ _ _ h _ _ _ := h.drop.congr rfl rfl rfl
  replayOdd _ _ _ _ h _ _ _ := h.drop
  queued _ _ h _ := h.elim id id
  queueEmpty _ _ h hcount := h.elim (fun h ↦ h.drain hcount) fun h ↦ h.drain hcount
  noBudget _ _ _ h := h.drop
  cursor _ _ _ _ h _ := h
  iter _ _ _ _ _ h := h
  resumeNothing _ _ _ _ _ h := h
  resume _ _ _ _ _ _ h := h
  exhausted _ _ _ h := h.drop
  again _ _ h := h
  shipStopped _ _ _ _ _ h := h.drop
  shipRaised _ _ _ _ _ h := h.drop
  ship _ _ _ _ _ _ h := h
  acked _ _ _ _ _ _ h _ := h.advanceOwn hpipes hpipe hp₀
  ackedPart _ _ _ _ _ _ h _ := h.advanceOwn hpipes hpipe hp₀
  commit _ _ _ _ _ h := h
  serialize _ _ _ _ _ _ h _ := h
  enqueue _ _ _ _ _ _ _ h _ := h.enqueue hpipe rfl (by
    rw [Deliverable.key, orElse_self, orElse_self, orElse_self, Pipeline.key])
  dead _ _ _ _ _ _ h _ _ := h.drop.congr rfl rfl rfl
  enough _ _ _ h := h.drop

section

variable [Surroundings ω σ] {u : Uploader} {pipes after : List (Pipeline σ ω ρ π)}
  {pipe p₀ : Pipeline σ ω ρ π} {i : ℤ} {c : Except Exn Bytes} (restart : σ → σ)
  {w : World σ ω ρ π}

/-- So does a whole cycle. -/
theorem OneEach.cycle (h : OneEach pipes pipe p₀ i c [] False w.store) (hpipes : Apart pipes)
    (hpipe : pipe ∈ pipes) (hp₀ : p₀ ∈ pipes) (hr : pipe.Returns) :
    OneEach pipes pipe p₀ i c [] False (cycle u pipe restart w).store :=
  (oneEach_rules u hpipes hpipe hp₀ i c).cycle (D := fun s _ ↦ OneEach pipes pipe p₀ i c [] False s)
    hr restart (fun _ _ h ↦ h) (fun _ _ h ↦ h) (fun _ _ h ↦ h) h

/-- And so does a run. -/
theorem OneEach.pumps (h : OneEach pipes pipe p₀ i c [] False w.store) (hpipes : Apart pipes)
    (hp₀ : p₀ ∈ pipes) (hr : ∀ p ∈ pipes, p.Returns) (hafter : ∀ p ∈ after, p ∈ pipes) :
    OneEach pipes pipe p₀ i c [] False (pumps u restart after w).store := by
  induction after generalizing w with
  | nil => exact h
  | cons p after ih =>
    have hp : p ∈ pipes := hafter p List.mem_cons_self
    have hcycle := (h.next p).cycle (u := u) restart hpipes hp hp₀ (hr p hp)
    exact ih (hcycle.next pipe) fun q hq ↦ hafter q (List.mem_cons_of_mem p hq)

/-- A row that is on the queue after a run has been there all along. -/
theorem OneEach.still (h : OneEach pipes pipe p₀ i c [] False w.store) (hpipes : Apart pipes)
    (hp₀ : p₀ ∈ pipes) (hr : ∀ p ∈ pipes, p.Returns) (hafter : ∀ p ∈ after, p ∈ pipes)
    {d : Deliverable π} (hd : d ∈ (HsUploader.pumps u restart after w).store.deliverables)
    (hid : d.id = i) (hp : d.pipeline = p₀.name) :
    ∃ d' ∈ w.store.deliverables, d'.id = i ∧ d'.pipeline = p₀.name := by
  by_contra! hgone
  have hany : ∀ c, OneEach pipes pipe p₀ i c [] False
      (HsUploader.pumps u restart after w).store := fun c ↦
    (h.gone (by simpa using hgone) c).pumps restart hpipes hp₀ hr hafter
  exact OneEach.not_mem hany hd hid hp

/-- **A pump that leaves a retry on the queue does not read its source.**  Whatever reading the
source would have done, the pump is the same. -/
theorem OneEach.pumpOne_reading (h : OneEach pipes p₀ p₀ i c [] False w.store)
    (hpipes : Apart pipes) (hp₀ : p₀ ∈ pipes) (hr : p₀.Returns) {d : Deliverable π}
    (hd : d ∈ (pumpOne u p₀ w).2.store.deliverables) (hid : d.id = i) (hp : d.pipeline = p₀.name)
    (iter : Bytes → ℤ → SysM σ ω ρ (List (SysM σ ω ρ (Option (RecordBatch ρ))))) :
    pumpOne u (p₀.reading p₀.name iter) w = pumpOne u p₀ w := by
  have hstage : retryStage u (p₀.reading p₀.name iter) = retryStage u p₀ := by
    rw [Pipeline.reading, if_pos rfl]
    rfl
  rw [pumpOne_eq, pumpOne_eq, hstage]
  refine bind_congr fun x w' hx ↦ ?_
  match x, hx with
  | none, _ => rfl
  | some (didWork, count), hx =>
    rw [sourceStage, sourceStage]
    split
    · rfl
    -- the source would be read: then the row has left the queue for good
    · rename_i hcount
      have hrules := fun c ↦ (oneEach_rules u hpipes hp₀ hp₀ i c).pumpRules hr
      have hempty : OneEach pipes p₀ p₀ i c [] True w'.store := by
        have hwp := (hrules c).retryStage trivial ⟨h, trivial⟩
        unfold Prog.wp at hwp
        rw [hx] at hwp
        have hwp : if count = 0 then _ else _ := hwp
        rw [if_pos (by omega)] at hwp
        exact hwp.inv
      have hany : ∀ c, OneEach pipes p₀ p₀ i c [] False (pumpOne u p₀ w).2.store := fun c' ↦ by
        have hgone : OneEach pipes p₀ p₀ i c' [] True w'.store :=
          hempty.gone (fun d hd _ ↦ Store.deliverableCount_eq_zero.mp (hempty.empty trivial) d
            (by simpa using hd)) c'
        rw [pumpOne_eq, bind_of_ok hx, sourceStage, if_neg hcount]
        refine snd_of_wp (P := fun w : World σ ω ρ π ↦ OneEach pipes p₀ p₀ i c' [] False w.store) ?_
        rw [wp_bind]
        exact (hrules c').drainSource.use ⟨hgone, trivial⟩ fun _ _ h ↦ h.inv
      exact absurd hp (OneEach.not_mem hany hd hid)

/-- A run that leaves a retry on the queue reads its pipeline's source nowhere. -/
theorem OneEach.pumps_reading (h : OneEach pipes pipe p₀ i c [] False w.store)
    (hpipes : Apart pipes) (hp₀ : p₀ ∈ pipes) (hr : ∀ p ∈ pipes, p.Returns)
    (hafter : ∀ p ∈ after, p ∈ pipes) {d : Deliverable π}
    (hd : d ∈ (HsUploader.pumps u restart after w).store.deliverables) (hid : d.id = i)
    (hp : d.pipeline = p₀.name)
    (iter : Bytes → ℤ → SysM σ ω ρ (List (SysM σ ω ρ (Option (RecordBatch ρ))))) :
    HsUploader.pumps u restart (after.map (Pipeline.reading p₀.name iter)) w =
      HsUploader.pumps u restart after w := by
  induction after generalizing w with
  | nil => rfl
  | cons q after ih =>
    have hq : q ∈ pipes := hafter q List.mem_cons_self
    have hrest : ∀ p ∈ after, p ∈ pipes := fun p hp ↦ hafter p (List.mem_cons_of_mem q hp)
    have hcycle := (h.next q).cycle (u := u) restart hpipes hq hp₀ (hr q hq)
    have hsame : HsUploader.cycle u (q.reading p₀.name iter) restart w =
        HsUploader.cycle u q restart w := by
      by_cases hname : q.name = p₀.name
      · obtain rfl := hpipes q hq p₀ hp₀ (.inl hname)
        obtain ⟨d', hd', hid', hp'⟩ := hcycle.still restart hpipes hp₀ hr hrest hd hid hp
        rw [store_cycle] at hd'
        rw [HsUploader.cycle, (h.next q).pumpOne_reading hpipes hq (hr q hq) hd' hid' hp',
          HsUploader.cycle]
      · rw [Pipeline.reading, if_neg hname]
    rw [List.map_cons, HsUploader.pumps, HsUploader.pumps, hsame]
    exact ih (hcycle.next pipe) hrest hd

/-- **The retry queue is bounded.**  From a store with no deliverables, after any pumps of any of
the pipelines, each has at most one deliverable on the queue, with attempts left.  And as long as it
stays there, whatever pumps come next, the pipeline's send record stands still and its source is
not read: any other way of reading it gives the same run. -/
theorem retry_queue_bound (u : Uploader) (hpipes : Apart pipes)
    (hr : ∀ p ∈ pipes, p.Returns) {w₀ : World σ ω ρ π} (h₀ : w₀.store.deliverables = [])
    {before : List (Pipeline σ ω ρ π)} (hbefore : ∀ p ∈ before, p ∈ pipes)
    (hafter : ∀ p ∈ after, p ∈ pipes) (hpipe : pipe ∈ pipes) :
    let w₁ := pumps u restart before w₀
    let w₂ := pumps u restart after w₁
    w₁.store.deliverableCount pipe.name ≤ 1 ∧
      ∀ d ∈ w₁.store.deliverables, d.pipeline = pipe.name →
        d.attempts < max pipe.retry.maxAttempts 1 ∧
        ((∃ d' ∈ w₂.store.deliverables, d'.pipeline = pipe.name ∧ d'.id = d.id) →
          w₂.store.getCursor pipe.key = w₁.store.getCursor pipe.key ∧
          ∀ iter, pumps u restart (after.map (Pipeline.reading pipe.name iter)) w₁ = w₂) := by
  intro w₁ w₂
  have hstart : OneEach pipes pipe pipe w₀.store.deliverableSeq (.ok []) [] False w₀.store := by
    constructor <;> simp [h₀]
    exact ⟨by simp, by simp⟩
  have h₁ : OneEach pipes pipe pipe w₀.store.deliverableSeq (.ok []) [] False w₁.store :=
    hstart.pumps restart hpipes hpipe hr hbefore
  refine ⟨?_, fun d hd hname ↦ ⟨?_, ?_⟩⟩
  · have hone := h₁.one
    rw [List.append_nil, List.nodup_iff_count_le_one] at hone
    have hcount := hone pipe.name
    rw [List.count, List.countP_map] at hcount
    rw [Store.deliverableCount]
    exact hcount
  · obtain ⟨p, hp, hpname, -, hattempts⟩ := h₁.owned d (List.mem_append_left _ hd)
    obtain rfl := hpipes p hp pipe hpipe (.inl (hpname.symm.trans hname))
    exact hattempts
  · rintro ⟨d', hd', hname', hid'⟩
    have hfollow := h₁.follow pipe hd
    have h₂ := hfollow.pumps (u := u) restart hpipes hpipe hr hafter
    exact ⟨h₂.pinned d' (List.mem_append_left _ hd') hid' hname',
      hfollow.pumps_reading restart hpipes hpipe hr hafter hd' hid' hname'⟩

end

/-- The failing destination: the batch is queued by the first pump and still queued by the second,
which reads nothing. -/
theorem retry_queue_bound_failing :
    (pumps {} id [memoryPipeline {}] failingWorld).store.deliverableCount
        (memoryPipeline {}).name ≤ 1 ∧
      ∃ d ∈ (pumps {} id [memoryPipeline {}] failingWorld).store.deliverables,
        d.attempts < max (memoryPipeline {}).retry.maxAttempts 1 ∧
        ∀ iter, pumps {} id ([memoryPipeline {}].map
            (Pipeline.reading (memoryPipeline {}).name iter))
            (pumps {} id [memoryPipeline {}] failingWorld) =
          pumps {} id [memoryPipeline {}] (pumps {} id [memoryPipeline {}] failingWorld) := by
  have hapart : Apart [memoryPipeline {}] := fun p hp q hq _ ↦ by
    rw [List.mem_singleton.mp hp, List.mem_singleton.mp hq]
  have hreturns : ∀ p ∈ [memoryPipeline {}], p.Returns := fun p hp ↦ by
    rw [List.mem_singleton.mp hp]
    exact memoryPipeline_returns {}
  have hempty : failingWorld.store.deliverables = [] := rfl
  have hpipes : ∀ p ∈ [memoryPipeline {}], p ∈ [memoryPipeline {}] := fun _ hp ↦ hp
  obtain ⟨hcount, hrows⟩ :=
    retry_queue_bound id {} hapart hreturns hempty hpipes hpipes List.mem_cons_self
  have hqueued : ∃ d ∈ (pumps {} id [memoryPipeline {}] failingWorld).store.deliverables,
      d.pipeline = (memoryPipeline {}).name ∧
      ∃ d' ∈ (pumps {} id [memoryPipeline {}]
          (pumps {} id [memoryPipeline {}] failingWorld)).store.deliverables,
        d'.pipeline = (memoryPipeline {}).name ∧ d'.id = d.id := by decide +kernel
  obtain ⟨d, hd, hname, hstays⟩ := hqueued
  obtain ⟨hattempts, hsame⟩ := hrows d hd hname
  exact ⟨hcount, d, hd, hattempts, (hsame hstays).2⟩

/-! ## What becomes of a queued payload -/

/-- The row is the same retry: it differs in its attempts and its time at the most. -/
def Deliverable.Same (d d' : Deliverable π) : Prop :=
  d' = { d with attempts := d'.attempts, nextAttemptAt := d'.nextAttemptAt }

theorem Deliverable.Same.refl (d : Deliverable π) : d.Same d := rfl

/-- Where a deliverable may be that was queued when the dead letters were `n` and the trace had `m`
entries: among the rows still, a dead letter since, or replayed since with an outcome that the
uploader records as acked. -/
def Accounted (n m : ℕ) (d₀ : Deliverable π) (rows : List (Deliverable π)) (s : Store π)
    (t : List (Event ρ π)) : Prop :=
  (∃ d ∈ rows, d₀.Same d) ∨ (∃ l ∈ s.deadLetter.drop n, l.payloadBlob = d₀.payloadBlob) ∨
    ∃ d o, .replayed d o ∈ t.drop m ∧ d₀.Same d ∧ o.kind ≠ .retryLater ∧ o.kind ≠ .permanent

/-- The pump is not stopped, none of its replays raises, and each retry that is to go back can be
given a time. -/
structure Undisturbed [Surroundings ω σ] (u : Uploader) (pipe : Pipeline σ ω ρ π)
    (w : World σ ω ρ π) : Prop where
  runs : (pumpOne u pipe w).1 ≠ .stopped
  /-- A replay that raises ends the pump, so that its call is the last entry. -/
  returns : ∀ d, (pumpOne u pipe w).2.trace.getLast? ≠ some (.replaying d)
  delays : ∀ d o, .replayed d o ∈ (pumpOne u pipe w).2.trace.drop w.trace.length →
    o.kind = .retryLater → d.attempts + 1 < pipe.retry.maxAttempts →
    pipe.retry.Delays (d.attempts + 1) (retryClock u w)

/-- So is each pump of a run. -/
def AllUndisturbed [Surroundings ω σ] (u : Uploader) (restart : σ → σ) :
    List (Pipeline σ ω ρ π) → World σ ω ρ π → Prop
  | [], _ => True
  | pipe :: pipes, w => Undisturbed u pipe w ∧ AllUndisturbed u restart pipes (cycle u pipe restart w)

section

variable {n m k : ℕ} {d₀ d : Deliverable π} {rows hand : List (Deliverable π)} {s s' : Store π}
  {t es : List (Event ρ π)} {e : Event ρ π}

theorem mem_drop_append (h : e ∈ t.drop k) : e ∈ (t ++ es).drop k := by
  rw [List.drop_append]
  exact List.mem_append_left _ h

theorem mem_drop_append_right (h : e ∈ es) (hk : k ≤ t.length) : e ∈ (t ++ es).drop k := by
  rw [List.drop_append, show k - t.length = 0 by omega, List.drop_zero]
  exact List.mem_append_right _ h

theorem mem_drop_of_le (h : e ∈ t.drop k) (hm : m ≤ k) : e ∈ t.drop m := by
  rw [show k = m + (k - m) by omega, ← List.drop_drop] at h
  exact List.mem_of_mem_drop h

/-- What a pump that began with `k` entries in the trace keeps of one deliverable: ids tell the rows
apart, and it is accounted for. -/
structure Kept (n m k : ℕ) (d₀ : Deliverable π) (hand : List (Deliverable π)) (s : Store π)
    (t : List (Event ρ π)) : Prop where
  keyed : Keyed (s.deliverables ++ hand) s.deliverableSeq
  letters : n ≤ s.deadLetter.length
  began : m ≤ k
  calls : k ≤ t.length
  accounted : Accounted n m d₀ (s.deliverables ++ hand) s t

namespace Kept

/-- The trace grows. -/
theorem append (h : Kept n m k d₀ hand s t) (es : List (Event ρ π)) :
    Kept n m k d₀ hand s (t ++ es) where
  keyed := h.keyed
  letters := h.letters
  began := h.began
  calls := by
    rw [List.length_append]
    exact h.calls.trans (Nat.le_add_right _ _)
  accounted := by
    obtain hrow | hletter | ⟨d, o, hmem, hd⟩ := h.accounted
    · exact .inl hrow
    · exact .inr (.inl hletter)
    · exact .inr (.inr ⟨d, o, mem_drop_append hmem, hd⟩)

theorem granted (u : Uploader) (h : Kept n m k d₀ hand s t) :
    Kept n m k d₀ hand s (granted u t) := by
  rw [HsUploader.granted]
  split
  · exact h.append _
  · exact h

/-- A step that changes neither the queue nor the dead letters. -/
theorem congr (h : Kept n m k d₀ hand s t) (hd : s'.deliverables = s.deliverables)
    (hseq : s'.deliverableSeq = s.deliverableSeq) (hl : s'.deadLetter = s.deadLetter) :
    Kept n m k d₀ hand s' t where
  keyed := by
    rw [hd, hseq]
    exact h.keyed
  letters := by
    rw [hl]
    exact h.letters
  began := h.began
  calls := h.calls
  accounted := by
    rw [Accounted, hd, hl]
    exact h.accounted

/-- A dead letter more. -/
theorem letter (h : Kept n m k d₀ hand s t) (l : DeadLetter π) :
    Kept n m k d₀ hand (s.sendToDeadLetter l) t where
  keyed := h.keyed
  letters := by
    rw [Store.sendToDeadLetter, List.length_append]
    exact h.letters.trans (Nat.le_add_right _ _)
  began := h.began
  calls := h.calls
  accounted := by
    obtain hrow | ⟨l', hmem, hl'⟩ | hacked := h.accounted
    · exact .inl hrow
    · refine .inr (.inl ⟨l', ?_, hl'⟩)
      rw [Store.sendToDeadLetter, List.drop_append]
      exact List.mem_append_left _ hmem
    · exact .inr (.inr hacked)

/-- The rows are the ones there were, in another order. -/
theorem pop {p : String} {now : Stamp} (h : Kept n m k d₀ [] s t)
    (hpop : s.popDueDeliverable p now = (some d, s')) : Kept n m k d₀ [d] s' t := by
  have hkeyed := h.keyed
  have haccounted := h.accounted
  rw [List.append_nil] at hkeyed haccounted
  have hperm := Store.popDueDeliverable_perm hpop hkeyed.nodup
  have hseq := Store.deliverableSeq_popDueDeliverable s p now
  have hl := Store.deadLetter_popDueDeliverable s p now
  rw [hpop] at hseq hl
  constructor
  · rw [hseq]
    exact hkeyed.perm hperm
  · rw [hl]
    exact h.letters
  · exact h.began
  · exact h.calls
  · rw [Accounted, hl]
    obtain ⟨d', hd', hsame⟩ | hrest := haccounted
    · exact .inl ⟨d', hperm.mem_iff.mpr hd', hsame⟩
    · exact .inr hrest

/-- The row in hand is let go, and where it is the followed one it is accounted for otherwise. -/
theorem settle (h : Kept n m k d₀ [d] s t) (hd : d₀.Same d → Accounted n m d₀ [] s t) :
    Kept n m k d₀ [] s t where
  keyed := by
    rw [List.append_nil]
    exact h.keyed.drop
  letters := h.letters
  began := h.began
  calls := h.calls
  accounted := by
    rw [List.append_nil]
    obtain ⟨d', hd', hsame⟩ | hrest := h.accounted
    · rcases List.mem_append.mp hd' with hd' | hd'
      · exact .inl ⟨d', hd', hsame⟩
      · rw [List.mem_singleton] at hd'
        rw [hd'] at hsame
        exact (hd hsame).elim (fun ⟨_, hx, _⟩ ↦ nomatch hx) .inr
    · exact .inr hrest

/-- It was acked. -/
theorem acked {o : Outcome ρ} (h : Kept n m k d₀ [d] s t) (ho : .replayed d o ∈ t.drop k)
    (hlater : o.kind ≠ .retryLater) (hdead : o.kind ≠ .permanent) : Kept n m k d₀ [] s t :=
  h.settle fun hsame ↦ .inr (.inr ⟨d, o, mem_drop_of_le ho h.began, hsame, hlater, hdead⟩)

/-- It becomes a dead letter. -/
theorem dead {l : DeadLetter π} (h : Kept n m k d₀ [d] s t) (hl : l.payloadBlob = d.payloadBlob) :
    Kept n m k d₀ [] (s.sendToDeadLetter l) t := by
  refine (h.letter l).settle fun hsame ↦ .inr (.inl ⟨l, ?_, ?_⟩)
  · have hle := h.letters
    rw [Store.sendToDeadLetter, List.drop_append,
      show n - s.deadLetter.length = 0 by omega, List.drop_zero]
    exact List.mem_append_right _ List.mem_cons_self
  · rw [hl, hsame]

/-- It goes back to the queue. -/
theorem requeue {attempts : ℤ} {at' : Stamp} (h : Kept n m k d₀ [d] s t)
    (hs' : s.requeueDeliverable { d with attempts, nextAttemptAt := at' } = .ok s') :
    Kept n m k d₀ [] s' t := by
  obtain ⟨hrows, hseq, -, hl⟩ := Store.deliverables_requeueDeliverable hs'
  have hid : d.id ≤ s.deliverableSeq := h.keyed.le d (by simp)
  constructor
  · rw [List.append_nil, hrows, hseq, max_eq_left hid]
    exact h.keyed.replace rfl
  · rw [hl]
    exact h.letters
  · exact h.began
  · exact h.calls
  · rw [List.append_nil, Accounted, hrows, hl]
    obtain ⟨d', hd', hsame⟩ | hrest := h.accounted
    · rcases List.mem_append.mp hd' with hd' | hd'
      · exact .inl ⟨d', List.mem_append_left _ hd', hsame⟩
      · refine .inl ⟨_, List.mem_append_right _ List.mem_cons_self, ?_⟩
        rw [List.mem_singleton] at hd'
        rw [hd'] at hsame
        rw [Deliverable.Same] at hsame ⊢
        rw [hsame]
    · exact .inr hrest

/-- A new row joins the queue. -/
theorem enqueue (h : Kept n m k d₀ [] s t) (d : Deliverable π) :
    Kept n m k d₀ [] (s.enqueueDeliverable d) t := by
  rcases Store.enqueueDeliverable_cases s d with hs | hs <;> rw [hs]
  · exact h
  have hkeyed := h.keyed
  rw [List.append_nil] at hkeyed
  refine ⟨?_, h.letters, h.began, h.calls, ?_⟩
  · rw [List.append_nil]
    exact hkeyed.concat rfl
  · obtain ⟨d', hd', hsame⟩ | hrest := h.accounted
    · rw [List.append_nil] at hd'
      exact .inl ⟨d', by simp [hd'], hsame⟩
    · exact .inr hrest

end Kept

end

/-- What a phase asks of the trace: a replay that has returned is in it. -/
def Phase.Noted (k : ℕ) : Phase σ ω ρ π → List (Event ρ π) → Prop
  | .replayed d o, t => .replayed d o ∈ t.drop k
  | _, _ => True

/-- How a pump whose retries go by this reading goes wrong: a replay raised, or no time can be given
to a retry. -/
def Disturbed (pipe : Pipeline σ ω ρ π) (now : Reading) (k : ℕ) (t : List (Event ρ π)) : Prop :=
  (∃ d, t.getLast? = some (.replaying d)) ∨
    ∃ d o, .replayed d o ∈ t.drop k ∧ o.kind = .retryLater ∧
      d.attempts + 1 < pipe.retry.maxAttempts ∧ ¬ pipe.retry.Delays (d.attempts + 1) now

theorem Phase.Noted.append {k : ℕ} {ph : Phase σ ω ρ π} {t : List (Event ρ π)} (h : ph.Noted k t)
    (es : List (Event ρ π)) : ph.Noted k (t ++ es) := by
  cases ph with
  | replayed _ _ => exact mem_drop_append h
  | _ => trivial

theorem Phase.CanRaise.hand {ph : Phase σ ω ρ π} (h : ph.CanRaise) : ph.hand = [] := by
  cases ph with
  | popped _ | replayed _ _ => exact h.elim
  | _ => rfl

/-- Each step of a pump keeps a queued deliverable accounted for, or the pump goes wrong. -/
theorem kept_rules (u : Uploader) (pipe : Pipeline σ ω ρ π) (now : Reading) (n m k : ℕ)
    (d₀ : Deliverable π) :
    CallRules u pipe (fun ph s t ↦ Kept n m k d₀ ph.hand s t ∧ ph.Noted k t)
      (fun s t ↦ Kept n m k d₀ [] s t ∨ Disturbed pipe now k t) (fun _ _ ↦ True) (· = now) where
  stopped _ _ _ _ := trivial
  raised _ _ _ h hph := .inl (hph.hand ▸ h.1)
  gate _ _ _ _ h := ⟨h.1.append _, h.2.append _⟩
  attempt _ _ _ _ _ h := ⟨h.1.congr (Store.deliverables_recordAttempt ..)
    (Store.deliverableSeq_recordAttempt ..) (Store.deadLetter_recordAttempt ..), h.2⟩
  heldStart _ _ _ h := h
  heldDraining _ _ _ _ h := h
  heldFetched _ _ _ _ _ _ h := h
  enter _ _ h := h
  pop _ _ _ _ _ h hpop := ⟨(h.1.pop hpop).granted u, trivial⟩
  replayStopped _ _ _ _ := trivial
  replayRaised d _ _ _ := .inr (.inl ⟨d, List.getLast?_concat⟩)
  replay d _ _ o h := ⟨h.1.append _, mem_drop_append_right (by simp) h.1.calls⟩
  replayAdvance _ _ d o _ h hk _ :=
    ⟨(h.1.acked h.2 (by rw [hk]; decide) (by rw [hk]; decide)).congr
      (Store.deliverables_advanceCursor ..) (Store.deliverableSeq_advanceCursor ..)
      (Store.deadLetter_advanceCursor ..), trivial⟩
  replayNoCursor _ _ d o h hk _ :=
    ⟨h.1.acked h.2 (by rw [hk]; decide) (by rw [hk]; decide), trivial⟩
  replayCommit _ _ _ h := h
  requeue _ _ _ _ _ _ h _ _ hs' := ⟨h.1.requeue hs', trivial⟩
  requeueRaised _ _ d o h hk hmax hwhy := by
    rcases hwhy with ⟨_, rfl, hno⟩ | hid
    · exact .inr (.inr ⟨d, o, h.2, hk, hmax, hno⟩)
    · exact absurd hid h.1.keyed.free
  replayDead _ _ _ _ _ h _ hl := ⟨h.1.dead hl, trivial⟩
  replaySpent _ _ _ _ _ h _ _ hl := ⟨h.1.dead hl, trivial⟩
  replayOdd _ _ _ _ h _ hlater hdead := ⟨h.1.acked h.2 hlater hdead, trivial⟩
  queued _ _ h _ := h.elim id id
  queueEmpty _ _ h _ := h.elim id id
  noBudget _ _ _ h := h
  cursor _ _ _ _ h _ := h
  iter _ _ _ _ _ h := h
  resumeNothing _ _ _ _ _ h := h
  resume _ _ _ _ _ _ h := h
  exhausted _ _ _ h := h
  again _ _ h := h
  shipStopped _ _ _ _ _ _ := trivial
  shipRaised _ _ _ _ _ h := .inl ((h.1.granted u).append _)
  ship _ _ _ _ _ _ h := ⟨(h.1.granted u).append _, trivial⟩
  acked _ _ _ _ _ _ h _ := ⟨h.1.congr (Store.deliverables_advanceCursor ..)
    (Store.deliverableSeq_advanceCursor ..) (Store.deadLetter_advanceCursor ..), trivial⟩
  ackedPart _ _ _ _ _ _ h _ := ⟨h.1.congr (Store.deliverables_advanceCursor ..)
    (Store.deliverableSeq_advanceCursor ..) (Store.deadLetter_advanceCursor ..), trivial⟩
  commit _ _ _ _ _ h := ⟨h.1, trivial⟩
  serialize _ _ _ _ _ _ h _ := ⟨h.1, trivial⟩
  enqueue _ _ _ _ _ _ _ h _ := ⟨h.1.enqueue _, trivial⟩
  dead _ _ _ _ _ _ h _ _ := ⟨h.1.letter _, trivial⟩
  enough _ _ _ h := h

section

variable [Surroundings ω σ] {u : Uploader} {pipe : Pipeline σ ω ρ π} (restart : σ → σ) {n m k : ℕ}
  {d₀ : Deliverable π} {w : World σ ω ρ π}

/-- An undisturbed pump keeps it. -/
theorem Kept.cycle (h : Kept n m k d₀ [] w.store w.trace) (hr : pipe.Returns)
    (hu : Undisturbed u pipe w) :
    Kept n m w.trace.length d₀ [] (cycle u pipe restart w).store (cycle u pipe restart w).trace := by
  have hstart : Kept n m w.trace.length d₀ [] w.store w.trace :=
    { h with
      began := h.began.trans h.calls
      calls := le_rfl }
  have hp := (kept_rules u pipe (retryClock u w) n m w.trace.length d₀).timed hr rfl
    ⟨hstart, trivial⟩
  obtain ⟨hruns, hreturns, hdelays⟩ := hu
  rw [HsUploader.cycle]
  unfold Prog.wp at hp
  rcases hw : pumpOne u pipe w with ⟨_ | _ | _ | _, w'⟩ <;> rw [hw] at hp hruns hreturns hdelays
  · exact hp.1
  · obtain hkept | ⟨d, hlast⟩ | ⟨d, o, hmem, hk, hmax, hno⟩ := hp
    · exact hkept
    · exact absurd hlast (hreturns d)
    · exact absurd (hdelays d o hmem hk hmax) hno
  · exact absurd rfl hruns
  · exact hp.elim

/-- So does a run of them. -/
theorem Kept.pumps {after : List (Pipeline σ ω ρ π)} (h : Kept n m k d₀ [] w.store w.trace)
    (hr : ∀ p ∈ after, p.Returns) (hu : AllUndisturbed u restart after w) :
    Accounted n m d₀ (pumps u restart after w).store.deliverables (pumps u restart after w).store
      (pumps u restart after w).trace := by
  induction after generalizing w k with
  | nil =>
    have haccounted := h.accounted
    rwa [List.append_nil] at haccounted
  | cons p after ih =>
    have hcycle := h.cycle restart (hr p List.mem_cons_self) hu.1
    exact ih hcycle (fun q hq ↦ hr q (List.mem_cons_of_mem p hq)) hu.2

end

/-- The destination fails once, and then the transport raises. -/
def raisingWorld : World Unit Unit ℕ (List ℕ) :=
  memoryWorld fun k ↦
    { now := .of (600 * k)
      outcome := if k < 9 then .ok (.retryLater "down") else .error (.other "TimeoutExpired" "") }

end HsUploader
