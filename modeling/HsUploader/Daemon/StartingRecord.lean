import HsUploader.Daemon.Identity

/-!
# Starting records and holds

While the carry-over marker stands the gate may hold a pipeline, and a pipeline that starts at now
and is held from its first pump would skip what is stored meanwhile.  So the daemon writes it a
record before, at each build and when it sees the marker appear.  The gate looks at the marker
again, later.  `Loop` is the daemon's loop with the gate's decisions as steps of their own;
`Loop.noted` is what one starting pass after the other keeps.

## What is here

* `gateRules` and `gateDecide` — the five rules of the gate, of which the last one holds.
* `Loop` — the marker check, a rebuild where one is due, and then decisions of the gate, in any
  number and among steps of everybody else.
* `State.Grown` — no record is ever taken away.
* `StartsNow` and `Answers` — the pipelines in question, and what has to answer for one of them to
  be given its record.
* `wp_startingPass`, `wp_markerCheck`, `State.Noted.rebuild` — the three writers of records.
* `hold_has_record` — when the fifth rule holds a pipeline, its record has been written.
-/

set_option autoImplicit false

namespace HsUploader
namespace Daemon

open Prog

variable {h : Host}

/-! ## The gate -/

/-- What `decide` answers: whether the pipeline may send, and by which rule. -/
structure Decision where
  send : Bool
  rule : ℕ
  deriving DecidableEq, Repr

/-- `SinkGate._decide(pipe)`. -/
def gateRules (h : Host) (p : Pipeline) : Prog World Exn Decision :=
  if exemptRule p = 1 then pure ⟨true, 1⟩
  else if exemptRule p = 2 then pure ⟨true, 2⟩
  else do
    let stands ← look fun n ↦ standing (h.marker n)
    if !stands then pure ⟨true, 3⟩
    else if p.client = "" then pure ⟨true, 4⟩
    else do
      let state ← call fun n ↦ h.switch n p.client
      pure ⟨state = "upload", 5⟩

/-- `SinkGate.decide(pipe)`: an exception holds, by no rule. -/
def gateDecide (h : Host) (p : Pipeline) : Prog World Exn Decision := do
  match ← attempt (gateRules h p) with
  | .ok d => pure d
  | .error _ => pure ⟨false, 0⟩

/-- A hold by rule 5 found the marker standing. -/
theorem wp_gateDecide (p : Pipeline) (w : World) :
    wp (gateDecide h p)
      (fun d w' ↦ w.Later w' ∧ (d.rule = 5 → standing (h.marker w.now) = true))
      (fun _ _ ↦ False) (fun _ ↦ False) w := by
  rw [gateDecide, wp_bind, wp_attempt, gateRules]
  have hstep : ∀ w : World, w.Later { w with now := w.now + 1 } := fun _ ↦ ⟨Nat.le_succ _, le_rfl⟩
  split
  · exact ⟨.refl w, by simp⟩
  · split
    · exact ⟨.refl w, by simp⟩
    · rw [wp_bind, wp_look]
      cases hstands : standing (h.marker w.now) with
      | false => exact ⟨hstep w, by simp⟩
      | true =>
        rw [Bool.not_true, if_neg Bool.false_ne_true]
        split
        · exact ⟨hstep w, fun _ ↦ rfl⟩
        · rw [wp_bind, wp_call]
          have hstep' := (hstep w).trans (hstep _)
          split
          · exact ⟨hstep', fun _ ↦ rfl⟩
          · exact ⟨hstep', by simp⟩

theorem ticks_gateDecide (p : Pipeline) : Ticks (gateDecide h p) := fun w ↦
  wp_mono (wp_gateDecide p w) (fun _ _ h ↦ h.1) (fun _ _ h ↦ h.elim) fun _ h ↦ h

/-! ## The loop -/

/-- No record is gone. -/
def State.Fuller (s s' : State) : Prop :=
  ∀ key, (Table.lookup key s.records).isSome = true → (Table.lookup key s'.records).isSome = true

/-- No record is gone, and the daemon's last look at the marker is the same one. -/
structure State.Grown (s s' : State) : Prop where
  seen : s'.self.markerSeen = s.self.markerSeen
  records : s.Fuller s'

theorem State.Grown.refl (s : State) : s.Grown s := ⟨rfl, fun _ h ↦ h⟩

theorem State.Grown.trans {s t u : State} (h : s.Grown t) (h' : t.Grown u) : s.Grown u :=
  ⟨h'.seen.trans h.seen, fun key hk ↦ h'.records key (h.records key hk)⟩

/-- Where the loop stands: before the marker check, or after it, in the pump. -/
inductive Phase where
  | idle
  | pumping

/-- The states of the daemon's loop.  When `whole`, no rebuild raises after a starting pass that was
the first to find the marker. -/
inductive Loop (h : Host) (manifest : Manifest) (whole : Bool) : Phase → State → Prop
  | start {records : List (Key × Bytes)} {s : State}
      (hrun : Daemon.start h (.initial manifest true records) = (.ok (), s)) :
      Loop h manifest whole .idle s
  | others {ph : Phase} {s s' : State} (hs : Loop h manifest whole ph s) (hk : s.Kept s')
      (hg : s.Grown s') : Loop h manifest whole ph s'
  | rebuild {s s' : State} {r : Res Exn Bool} (hs : Loop h manifest whole .idle s)
      (hrun : Daemon.rebuild h s = (r, s'))
      (hwhole : whole = true → ∀ e, r = .raised e →
        s'.self.markerSeen = true → s.self.markerSeen = true) :
      Loop h manifest whole .idle s'
  | check {s s' : State} {r : Res Exn Unit} (hs : Loop h manifest whole .idle s)
      (hrun : markerCheck h s = (r, s')) : Loop h manifest whole .pumping s'
  | decide {s s' : State} {p : Pipeline} {d : Decision} (hs : Loop h manifest whole .pumping s)
      (hp : p ∈ s.pumping) (hrun : onWorld (gateDecide h p) s = (.ok d, s')) :
      Loop h manifest whole .pumping s'
  | pumped {s : State} (hs : Loop h manifest whole .pumping s) : Loop h manifest whole .idle s

/-- A governed pipeline whose source starts at now: whenever the source answers, it answers where.
-/
structure StartsNow (h : Host) (p : Pipeline) : Prop where
  initial : p.initial = true
  governed : exemptRule p = 0
  cursor : ∀ n c, h.initialCursor n p.id = .ok c → ∃ b, c = some b ∧ b.isEmpty = false

/-- The pipeline's key holds a send record. -/
def State.Recorded (s : State) (p : Pipeline) : Prop :=
  ∀ key, p.key = .ok key → (Table.lookup key s.records).isSome = true

theorem State.Recorded.fuller {s s' : State} {p : Pipeline} (hr : s.Recorded p)
    (hf : s.Fuller s') : s'.Recorded p := fun key hk ↦ hf key (hr key hk)

/-! ## One pass -/

theorem grown_onWorld {α : Type} {q : Prog World Exn α} (hq : Ticks q) :
    Ends State.Grown (onWorld q) := fun s ↦ by
  rw [onWorld, wp_zoom]
  exact wp_mono (hq s.world) (fun _ _ _ ↦ ⟨rfl, fun _ h ↦ h⟩) (fun _ _ _ ↦ ⟨rfl, fun _ h ↦ h⟩)
    fun _ h ↦ h

/-- The key it is asked for holds a record after `start_cursor`. -/
theorem State.grown_startCursor (s : State) (key : Key) (cursor : Bytes) :
    s.Grown (s.startCursor key cursor) ∧
      (Table.lookup key (s.startCursor key cursor).records).isSome = true := by
  rw [State.startCursor]
  split
  · rename_i v hv
    exact ⟨.refl s, by rw [hv]; rfl⟩
  · rename_i hnone
    have hlookup : ∀ key', Table.lookup key' (s.records ++ [(key, cursor)]) =
        if key = key' then some cursor else Table.lookup key' s.records := fun _ ↦
      Table.lookup_append_of_none hnone
    refine ⟨⟨rfl, fun key' hk ↦ ?_⟩, ?_⟩
    · rw [hlookup]
      split
      · rfl
      · exact hk
    · rw [hlookup, if_pos rfl]
      rfl

theorem minding_grown : Minding State.Grown where
  refl := .refl
  trans := .trans
  tick _ := ⟨rfl, fun _ h ↦ h⟩
  startCursor s key cursor := (s.grown_startCursor key cursor).1

/-- The store answers, and so does the pipeline's source. -/
structure Answers (h : Host) (p : Pipeline) : Prop where
  store : ∀ n, h.store n = .ok ()
  source : ∀ n, ∃ c, h.initialCursor n p.id = .ok c

/-- A pipeline that starts at now and for which nothing fails holds a record. -/
def State.Stands (h : Host) (s : State) (p : Pipeline) : Prop :=
  StartsNow h p → Answers h p → s.Recorded p

theorem State.Stands.fuller {s s' : State} {p : Pipeline} (hs : s.Stands h p) (hf : s.Fuller s') :
    s'.Stands h p := fun hp ha ↦ (hs hp ha).fuller hf

/-- Nothing asked fails: the key holds a record in the end. -/
theorem wp_writeStartingRecord_recorded {p : Pipeline} (hp : StartsNow h p) (ha : Answers h p)
    (s : State) :
    wp (writeStartingRecord h p) (fun _ s' ↦ s'.Recorded p) (fun _ s' ↦ s'.Recorded p)
      (fun _ ↦ False) s := by
  rw [writeStartingRecord, hp.initial, hp.governed]
  rw [if_neg (by simp), wp_bind, wp_ofExcept]
  split
  · rename_i key hkey
    have hrecorded : ∀ t : State, (Table.lookup key t.records).isSome = true → t.Recorded p :=
      fun t ht key' hkey' ↦ by
        rw [hkey] at hkey'
        cases hkey'
        exact ht
    rw [wp_bind, onWorld, wp_zoom, wp_call, ha.store]
    dsimp only
    rw [wp_bind, wp_get]
    split
    · rename_i hfull
      refine hrecorded _ ?_
      simp only [State.emptyRecord] at hfull
      cases hlook : Table.lookup key s.records with
      | none => simp [hlook] at hfull
      | some v => rfl
    · obtain ⟨c, hc⟩ := ha.source (s.world.now + 1)
      obtain ⟨b, rfl, hb⟩ := hp.cursor _ _ hc
      rw [wp_bind, onWorld, wp_zoom, wp_call, hc]
      dsimp only
      rw [hb, if_neg Bool.false_ne_true, wp_bind, wp_zoom, wp_call, ha.store]
      exact hrecorded _ (State.grown_startCursor _ key b).2
  · rename_i e he
    intro key hkey
    rw [he] at hkey
    cases hkey

/-- **Writing one record.** -/
theorem wp_writeStartingRecord (p : Pipeline) (s : State) :
    wp (writeStartingRecord h p) (fun _ s' ↦ s.Grown s' ∧ s'.Stands h p)
      (fun _ s' ↦ s.Grown s' ∧ s'.Stands h p) (fun _ ↦ False) s := by
  by_cases hboth : StartsNow h p ∧ Answers h p
  · exact wp_mono (wp_and (minding_grown.writeStartingRecord p s)
      (wp_writeStartingRecord_recorded hboth.1 hboth.2 s)) (fun _ _ h ↦ ⟨h.1, fun _ _ ↦ h.2⟩)
      (fun _ _ h ↦ ⟨h.1, fun _ _ ↦ h.2⟩) fun _ h ↦ h.1
  · exact wp_mono (minding_grown.writeStartingRecord p s)
      (fun _ _ h ↦ ⟨h, fun hp ha ↦ (hboth ⟨hp, ha⟩).elim⟩)
      (fun _ _ h ↦ ⟨h, fun hp ha ↦ (hboth ⟨hp, ha⟩).elim⟩) fun _ h ↦ h

/-- **Writing the records** of several pipelines: what fails for one skips that one. -/
theorem wp_writeStartingRecords (ps : List Pipeline) (s : State) :
    wp (writeStartingRecords h ps) (fun _ s' ↦ s.Grown s' ∧ ∀ p ∈ ps, s'.Stands h p)
      (fun _ _ ↦ False) (fun _ ↦ False) s := by
  induction ps generalizing s with
  | nil => exact ⟨.refl s, fun p hp ↦ (List.not_mem_nil hp).elim⟩
  | cons p ps ih =>
    have hrest : ∀ t : State, s.Grown t ∧ t.Stands h p →
        wp (writeStartingRecords h ps) (fun _ s' ↦ s.Grown s' ∧ ∀ q ∈ p :: ps, s'.Stands h q)
          (fun _ _ ↦ False) (fun _ ↦ False) t := fun t ht ↦
      wp_mono_ok (ih t) fun _ s' hs ↦
        ⟨ht.1.trans hs.1, List.forall_mem_cons.mpr ⟨ht.2.fuller hs.1.records, hs.2⟩⟩
    rw [writeStartingRecords, wp_bind, wp_attempt]
    exact wp_mono (wp_writeStartingRecord p s) (fun _ t ht ↦ hrest t ht) (fun _ t ht ↦ hrest t ht)
      fun _ h ↦ h

/-- What a pass over some pipelines leaves: the records as they were or more and, where it saw the
marker, one for each of the pipelines. -/
structure Noted (h : Host) (ps : List Pipeline) (s s' : State) : Prop where
  records : s.Fuller s'
  stands : s'.self.markerSeen = true → ∀ p ∈ ps, s'.Stands h p

theorem Noted.grown {ps : List Pipeline} {s s' s'' : State} (hn : Noted h ps s s')
    (hg : s'.Grown s'') : Noted h ps s s'' where
  records key hk := hg.records key (hn.records key hk)
  stands hseen p hp := (hn.stands (hg.seen ▸ hseen) p hp).fuller hg.records

/-- **The starting pass.** -/
theorem wp_startingPass (ps : List Pipeline) (s : State) (hm : s.self.marker = true) :
    wp (startingPass h ps) (fun _ s' ↦ Noted h ps s s') (fun _ _ ↦ False) (fun _ ↦ False) s := by
  rw [startingPass, wp_bind, wp_get, hm, if_pos rfl, wp_bind, markerStands, onWorld, wp_zoom,
    wp_look, wp_bind, setSelf, wp_modify]
  cases standing (h.marker s.world.now) with
  | false => exact ⟨fun _ hk ↦ hk, fun hseen ↦ by cases hseen⟩
  | true =>
    rw [if_pos rfl]
    exact wp_mono_ok (wp_writeStartingRecords ps _) fun _ s' hs ↦ ⟨hs.1.records, fun _ ↦ hs.2⟩

/-- **The marker check** writes for the running set when the marker appeared. -/
theorem wp_markerCheck (s : State) (hm : s.self.marker = true)
    (hstands : s.self.markerSeen = true → ∀ p ∈ s.self.running, s.Stands h p) :
    wp (markerCheck h) (fun _ s' ↦ Noted h s.self.running s s')
      (fun _ s' ↦ Noted h s.self.running s s') (fun _ ↦ False) s := by
  rw [markerCheck, wp_bind, wp_get, hm, if_pos rfl, wp_bind, markerStands, onWorld, wp_zoom,
    wp_look, wp_bind, setSelf, wp_modify]
  have hreport : ∀ t, Noted h s.self.running s t →
      wp (reportSwitches h) (fun _ s' ↦ Noted h s.self.running s s')
        (fun _ s' ↦ Noted h s.self.running s s') (fun _ ↦ False) t := fun t ht ↦
    wp_mono (minding_grown.reportSwitches t) (fun _ _ hg ↦ ht.grown hg) (fun _ _ hg ↦ ht.grown hg)
      fun _ h ↦ h
  cases standing (h.marker s.world.now) with
  | false =>
    have hgone : Noted h s.self.running s { s with
        world := { s.world with now := s.world.now + 1 }
        self := { s.self with markerSeen := false } } :=
      ⟨fun _ hk ↦ hk, fun hseen ↦ by cases hseen⟩
    rw [Bool.false_and, if_neg Bool.false_ne_true]
    split
    · exact hreport _ hgone
    · exact hgone
  | true =>
    cases hbefore : s.self.markerSeen with
    | false =>
      rw [Bool.not_false, Bool.and_true, if_pos rfl, wp_bind]
      refine wp_mono (wp_writeStartingRecords s.self.running _) (fun _ t ht ↦ ?_)
        (fun _ _ h ↦ h.elim) fun _ h ↦ h
      exact hreport t ⟨ht.1.records, fun _ ↦ ht.2⟩
    | true =>
      rw [Bool.not_true, Bool.and_false, if_neg Bool.false_ne_true, if_neg (by simp)]
      exact ⟨fun _ hk ↦ hk, fun _ p hp ↦ (hstands hbefore p hp).fuller fun _ h ↦ h⟩

/-! ## A rebuild -/

theorem ticks_make (manifest : Manifest) (previous : Option Build) (strict : Bool) :
    Ticks (make h manifest previous strict) := by
  refine (ticks_readDirectory.bind fun _ ↦ .pure _).bind fun l ↦ (ticks_assemble l _ _).bind
    fun build ↦ (Ticks.call h.schemaVersion).attempt.bind fun r ↦ ?_
  split
  · exact (Ticks.closeQuietly _).bind fun _ ↦ .raise _
  · exact .pure _

theorem grown_setSelf {f : Rebuilder → Rebuilder} (hf : ∀ r, (f r).markerSeen = r.markerSeen) :
    Ends State.Grown (setSelf f) := fun s ↦ ⟨hf s.self, fun _ hk ↦ hk⟩

theorem grown_prepare : Ends State.Grown (prepare h) := by
  refine .bind .trans (fun s ↦ .refl s) fun s ↦ .bind .trans (grown_onWorld (ticks_make _ _ _))
    fun draft ↦ ?_
  dsimp only
  split
  · refine .bind .trans (grown_onWorld (.call h.recordStates)).attempt fun r ↦ ?_
    split
    · exact .pure .refl _
    · exact .bind .trans (grown_onWorld (.closeQuietly _)) fun _ s ↦ .refl s
  · exact .pure .refl _

theorem grown_replacePipelines (new : List Pipeline) :
    Ends State.Grown (replacePipelines h new) :=
  .bind .trans (fun s ↦ .refl s) fun _ ↦ .bind .trans (grown_onWorld (.call h.swap)) fun _ _ ↦
    ⟨rfl, fun _ hk ↦ hk⟩

/-- What `commit` does after its starting pass. -/
theorem wp_commit_noted (previous : Build) (draft : Draft) (changed : Bool) (s : State)
    (hm : s.self.marker = true) :
    wp (commit h previous draft changed) (fun _ s' ↦ Noted h draft.running s s')
      (fun _ s' ↦ Noted h draft.running s s') (fun _ ↦ False) s := by
  rw [commit, wp_bind, setSelf, wp_modify, wp_bind]
  refine wp_mono (wp_startingPass draft.running _ hm) (fun _ t ht ↦ ?_) (fun _ _ h ↦ h.elim)
    fun _ h ↦ h
  have hnoted : Noted h draft.running s t := ⟨ht.records, ht.stands⟩
  suffices hrest : Ends State.Grown (do
      reportSwitches h
      let s ← get
      let pumped := s.pumping.map Pipeline.id
      let kept := draft.build.pipelines.map Pipeline.id
      onWorld (closeQuietly (previous.pipelines.filter fun p ↦
        !kept.contains p.id && !pumped.contains p.id))
      if changed then do
        setSelf fun r ↦ { r with rows := draft.rows }
        replacePipelines h draft.running
        setSelf fun r ↦ { r with running := draft.running }
        pure true
      else pure false) from
    wp_mono (hrest t) (fun _ _ hg ↦ hnoted.grown hg) (fun _ _ hg ↦ hnoted.grown hg) fun _ h ↦ h
  refine .bind .trans minding_grown.reportSwitches fun _ ↦ .bind .trans (fun s ↦ .refl s) fun s' ↦
    .bind .trans (grown_onWorld (.closeQuietly _)) fun _ ↦ ?_
  cases changed with
  | false => exact .pure .refl _
  | true =>
    exact .bind .trans (grown_setSelf fun _ ↦ rfl) fun _ ↦ .bind .trans (grown_replacePipelines _)
      fun _ ↦ .bind .trans (grown_setSelf fun _ ↦ rfl) fun _ ↦ .pure .refl _

/-- **Between two looks at the marker** every pipeline that runs has its record. -/
structure State.Noted (h : Host) (s : State) : Prop where
  marker : s.self.marker = true
  stands : s.self.markerSeen = true → ∀ p ∈ s.self.running, s.Stands h p

theorem State.Noted.grown {s s' : State} (hs : s.Noted h) (hk : s.Kept s') (hg : s.Grown s') :
    s'.Noted h := by
  refine ⟨hk.marker.trans hs.marker, fun hseen p hp ↦ ?_⟩
  rw [hk.running] at hp
  exact (hs.stands (hg.seen ▸ hseen) p hp).fuller hg.records

theorem State.Noted.of_noted {s s' : State} (hm : s'.self.marker = true) {ps : List Pipeline}
    (hn : Daemon.Noted h ps s s') (hr : s'.self.running = ps) : s'.Noted h :=
  ⟨hm, fun hseen p hp ↦ hn.stands hseen p (hr ▸ hp)⟩

/-- **A start** keeps the promise. -/
theorem wp_start_noted (s : State) (hm : s.self.marker = true) :
    wp (start h) (fun _ s' ↦ s'.Noted h) (fun _ _ ↦ True) (fun _ ↦ False) s := by
  rw [start, wp_bind, wp_get, wp_bind, onWorld, wp_zoom]
  refine wp_mono (ticks_make s.self.manifest none true s.world) (fun draft w _ ↦ ?_)
    (fun _ _ _ ↦ trivial) fun _ h ↦ h
  rw [wp_bind]
  refine wp_mono (Tame.call h.recordStates _) (fun _ s₁ h₁ ↦ ?_) (fun _ _ _ ↦ trivial) fun _ h ↦ h
  have hm₁ : s₁.self.marker = true := h₁.marker.trans hm
  rw [wp_bind, setSelf, wp_modify, wp_bind]
  refine wp_mono (wp_and (tame_startingPass draft.running _) (wp_startingPass draft.running _ hm₁))
    (fun _ s₂ h₂ ↦ ?_) (fun _ _ _ ↦ trivial) fun _ h ↦ h.1
  rw [wp_bind]
  refine wp_mono (wp_and (tame_reportSwitches s₂) (minding_grown.reportSwitches s₂)) (fun _ s₃ h₃ ↦ ?_)
    (fun _ _ _ ↦ trivial) fun _ h ↦ h.1
  have hk := h₂.1.trans h₃.1
  have hnoted := h₂.2.grown h₃.2
  have hrunning : s₃.self.running = draft.running := hk.running
  refine ⟨hk.marker.trans hm₁, fun hseen p hp ↦ hnoted.stands hseen p ?_⟩
  rw [← hrunning]
  exact hp

/-- **A rebuild** keeps the promise, unless it raises after a pass that was the first to find the
marker. -/
theorem State.Noted.rebuild {manifest : Manifest} {s s' : State} {r : Res Exn Bool}
    (hs : s.Noted h) (hreached : Reached h manifest s) (hrun : Daemon.rebuild h s = (r, s'))
    (hwhole : ∀ e, r = .raised e → s'.self.markerSeen = true → s.self.markerSeen = true) :
    s'.Noted h := by
  obtain ⟨S, hS⟩ := hreached.tracked
  have hwp : wp (Daemon.rebuild h)
      (fun _ s' ↦ s'.self.marker = true ∧ ∃ ps s₁, Daemon.Noted h ps s₁ s' ∧ s'.self.running = ps)
      (fun _ s' ↦ (s.Kept s' ∧ s.Grown s') ∨ (s'.self.marker = true ∧
        s'.self.running = s.self.running ∧ s.Fuller s'))
      (fun _ ↦ False) s := by
    rw [Daemon.rebuild, wp_bind, wp_get, wp_bind]
    refine wp_mono (wp_and (wp_prepare s) (grown_prepare s)) ?_ (fun _ _ h ↦ .inl h) fun _ h ↦ h.1
    rintro ⟨draft, changed⟩ s₁ ⟨⟨hk, hd, hids⟩, hg⟩
    have hm₁ : s₁.self.marker = true := hk.marker.trans hs.marker
    refine wp_mono (wp_and (wp_commit s.self.build draft changed s₁)
      (wp_commit_noted s.self.build draft changed s₁ hm₁)) ?_ ?_ fun _ h ↦ h.1
    · rintro b s' ⟨⟨-, hc⟩, hn⟩
      cases changed with
      | true => exact ⟨hc.marker.trans hm₁, _, _, hn, hc.running⟩
      | false =>
        have hsound := (hd.sound (by rintro b ⟨⟩; exact hreached.sound.build)).1
        obtain ⟨T, hST, hT, -, hrunning⟩ := hd.tracked hS.known hS.build hsound.pipelines
        have hsame := hT.eq_of_ids hrunning (fun p hp ↦ hST (hS.running p hp)) (hids rfl)
        exact ⟨hc.marker.trans hm₁, _, _, hn, hc.running.trans (hk.running.trans hsame.symm)⟩
    · rintro e s' ⟨hc, hn⟩
      exact .inr ⟨hc.marker.trans hm₁, hc.running.trans hk.running,
        fun key hkey ↦ hn.records key (hg.records key hkey)⟩
  rw [wp, hrun] at hwp
  rcases r with b | e | _ | _
  · obtain ⟨hm, ps, s₁, hn, hr⟩ := hwp
    exact .of_noted hm hn hr
  · rcases hwp with ⟨hk, hg⟩ | ⟨hm, hr, hg⟩
    · exact hs.grown hk hg
    · refine ⟨hm, fun hseen p hp ↦ ?_⟩
      exact (hs.stands (hwhole e rfl hseen) p (hr ▸ hp)).fuller hg
  · exact hwp.elim
  · exact hwp.elim

/-! ## The loop's promise -/

theorem Loop.reached {manifest : Manifest} {whole : Bool} {ph : Phase} {s : State}
    (hl : Loop h manifest whole ph s) : Reached h manifest s := by
  induction hl with
  | start hrun => exact .start hrun
  | others _ hk _ ih => exact ih.other hk
  | rebuild _ hrun _ ih => exact ih.rebuild hrun
  | @check s s' r _ hrun ih =>
    have hk := tame_markerCheck (h := h) s
    rw [wp, hrun] at hk
    rcases r with b | e | _ | _
    · exact ih.other hk
    · exact ih.other hk
    · exact hk.elim
    · exact hk.elim
  | @decide s s' p d _ _ hrun ih =>
    have hk := wp_ok (wp_onWorld (ticks_gateDecide p) s) hrun
    exact ih.other hk
  | pumped _ ih => exact ih

theorem Loop.noted {manifest : Manifest} {ph : Phase} {s : State}
    (hl : Loop h manifest true ph s) : s.Noted h := by
  induction hl with
  | @start records s hrun =>
    have hs := wp_ok (wp_start_noted (.initial manifest true records) rfl) hrun
    exact hs
  | others _ hk hg ih => exact ih.grown hk hg
  | rebuild hl hrun hwhole ih => exact ih.rebuild hl.reached hrun (hwhole rfl)
  | @check s s' r _ hrun ih =>
    have hwp := wp_and (tame_markerCheck s) (wp_markerCheck s ih.marker ih.stands)
    rw [wp, hrun] at hwp
    rcases r with b | e | _ | _
    · exact .of_noted (hwp.1.marker.trans ih.marker) hwp.2 hwp.1.running
    · exact .of_noted (hwp.1.marker.trans ih.marker) hwp.2 hwp.1.running
    · exact hwp.1.elim
    · exact False.elim hwp
  | @decide s s' p d _ _ hrun ih =>
    have hk := wp_ok (wp_onWorld (ticks_gateDecide p) s) hrun
    have hg := wp_ok (grown_onWorld (ticks_gateDecide p) s) hrun
    exact ih.grown hk hg
  | pumped _ ih => exact ih

/-- **A starting record before any hold.**  In every run in which no rebuild raises after a pass
that was the first to find the marker: when rule 5 holds a governed pipeline that starts at now,
and the daemon's own last look at the marker had found it if the gate's does, and the store and
the pipeline's source answer, the pipeline's key holds a record. -/
theorem hold_has_record (h : Host) (manifest : Manifest) (s : State) (p : Pipeline)
    (hl : Loop h manifest true .pumping s) (hp : p ∈ s.pumping) (hnow : StartsNow h p)
    (ha : Answers h p) (hheld : (gateDecide h p s.world).1 = .ok ⟨false, 5⟩)
    (hseen : standing (h.marker s.world.now) = true → s.self.markerSeen = true) :
    s.Recorded p := by
  have hrun : gateDecide h p s.world = (.ok ⟨false, 5⟩, (gateDecide h p s.world).2) :=
    Prod.ext hheld rfl
  have hstands := (wp_ok (wp_gateDecide p s.world) hrun).2 rfl
  rw [← hl.reached.sound.running] at hp
  exact hl.noted.stands (hseen hstands) p hp hnow ha

/-- A host with one pipeline that starts at now and whose switch is off. -/
def startsNowHost (marker : ℕ → Bool) (store : ℕ → Except Exn Unit) : Host :=
  { hostOf (fun _ ↦ diskOf 0 [("n.toml", namesFile "n" ["n1"])]) with
    generic := fun _ e _ ↦
      .ok { name := "", key := .ok (e.text "name" "", "dest", "table"), initial := true }
    marker := fun n ↦ if marker n then .ok () else .error .notFound
    initialCursor := fun _ _ ↦ .ok (some (.ofInt 7))
    store }

/-- Its state after the start and one marker check. -/
def beforePump (h : Host) : State := (markerCheck h (start h (.initial {} true [])).2).2

theorem loop_beforePump {h : Host} (whole : Bool)
    (hok : (start h (.initial {} true [])).1.value = some ()) :
    Loop h {} whole .pumping (beforePump h) :=
  .check (.start (run_ok hok)) rfl

/-- Rule 5 holds a governed pipeline that offers `initial_cursor()`. -/
def heldNow (h : Host) (s : State) (p : Pipeline) : Bool :=
  p.initial && decide (exemptRule p = 0) &&
    decide ((gateDecide h p s.world).1.value = some ⟨false, 5⟩)

theorem heldNow_spec {marker : ℕ → Bool} {store : ℕ → Except Exn Unit} {s : State} {p : Pipeline}
    (hheld : heldNow (startsNowHost marker store) s p = true) :
    StartsNow (startsNowHost marker store) p ∧
      (gateDecide (startsNowHost marker store) p s.world).1 = .ok ⟨false, 5⟩ := by
  simp only [heldNow, Bool.and_eq_true, decide_eq_true_eq] at hheld
  refine ⟨⟨hheld.1.1, hheld.1.2, fun n c hc ↦ ?_⟩, Res.eq_ok hheld.2⟩
  cases hc
  exact ⟨_, rfl, by decide⟩

/-- The key holds no record. -/
def State.unrecorded (s : State) (p : Pipeline) : Bool :=
  match p.key with
  | .ok key => (Table.lookup key s.records).isNone
  | .error _ => false

theorem State.not_recorded {s : State} {p : Pipeline} (hu : s.unrecorded p = true) :
    ¬ s.Recorded p := by
  rw [State.unrecorded] at hu
  split at hu
  · rename_i key hkey
    intro hr
    have hsome := hr key hkey
    rw [Option.isNone_iff_eq_none.mp hu] at hsome
    cases hsome
  · cases hu

theorem hold_has_record_startsNow :
    let h := startsNowHost (fun _ ↦ true) fun _ ↦ .ok ()
    (beforePump h).pumping.length = 1 ∧ ∀ p ∈ (beforePump h).pumping, (beforePump h).Recorded p := by
  intro h
  refine ⟨by decide +kernel, fun p hp ↦ ?_⟩
  have hall : ((beforePump h).pumping.all (heldNow h (beforePump h))) = true := by decide +kernel
  obtain ⟨hnow, hheld⟩ := heldNow_spec (List.all_eq_true.mp hall p hp)
  exact hold_has_record h {} (beforePump h) p (loop_beforePump true (by decide +kernel)) hp hnow
    ⟨fun _ ↦ rfl, fun _ ↦ ⟨_, rfl⟩⟩ hheld fun _ ↦ by decide +kernel

/-- Neither condition can go.  The marker appears after the daemon's check and before the gate's own
look, and nothing fails; or the store is locked in the pass, and the pass does not come again. -/
theorem hold_without_record :
    (¬ ∀ (h : Host) (manifest : Manifest) (s : State) (p : Pipeline),
      Loop h manifest true .pumping s → p ∈ s.pumping → StartsNow h p → Answers h p →
      (gateDecide h p s.world).1 = .ok ⟨false, 5⟩ → s.Recorded p) ∧
    ¬ ∀ (h : Host) (manifest : Manifest) (s : State) (p : Pipeline),
      Loop h manifest true .pumping s → p ∈ s.pumping → StartsNow h p →
      (gateDecide h p s.world).1 = .ok ⟨false, 5⟩ →
      (standing (h.marker s.world.now) = true → s.self.markerSeen = true) → s.Recorded p := by
  constructor
  · intro hevery
    let h := startsNowHost (fun n ↦ 13 ≤ n) fun _ ↦ .ok ()
    have hany : ((beforePump h).pumping.any fun p ↦
        heldNow h (beforePump h) p && (beforePump h).unrecorded p) = true := by decide +kernel
    obtain ⟨p, hp, hboth⟩ := List.any_eq_true.mp hany
    rw [Bool.and_eq_true] at hboth
    obtain ⟨hnow, hheld⟩ := heldNow_spec hboth.1
    exact State.not_recorded hboth.2 (hevery h {} (beforePump h) p
      (loop_beforePump true (by decide +kernel)) hp hnow ⟨fun _ ↦ rfl, fun _ ↦ ⟨_, rfl⟩⟩ hheld)
  · intro hevery
    let h := startsNowHost (fun _ ↦ true) fun _ ↦ .error (.operationalError "database is locked")
    have hany : ((beforePump h).pumping.any fun p ↦
        heldNow h (beforePump h) p && (beforePump h).unrecorded p) = true := by decide +kernel
    obtain ⟨p, hp, hboth⟩ := List.any_eq_true.mp hany
    rw [Bool.and_eq_true] at hboth
    obtain ⟨hnow, hheld⟩ := heldNow_spec hboth.1
    exact State.not_recorded hboth.2 (hevery h {} (beforePump h) p
      (loop_beforePump true (by decide +kernel)) hp hnow hheld fun _ ↦ by decide +kernel)

end Daemon
end HsUploader
