import HsUploader.Daemon.Raised

/-!
# A daemon's life

`Reached` is a daemon's life: a start, then rebuilds that return or raise, with anything else in
between that leaves the build and the running set alone.  Over all of it no two built pipelines
share a name or a send record unless both are legacy ones, and a rebuild that raises leaves
everything as it was exactly when it raises before it records its build.

A rebuild is two halves.  `prepare` builds what the files ask for, with the version of the store and
the record of the pipelines' states, and changes nothing that the daemon holds; `commit` records the
build first and reports, closes and swaps afterwards.  So the atomicity of a rebuild is a question
of which half raises: the first keeps the state (`State.Kept`), and the second has recorded the
build and its signature before anything in it can raise (`Committed`, `wp_commit`).

## What is here

* `Committed` and `wp_commit` — the second half.
* `State.Unchanged` — what atomic means: running set, build and signature are those of before.
* `Host.Obliging` — the answers of the host under which the second half raises nothing.
* `rebuild_atomic_iff` — which rebuilds that raise are atomic, from any state and on any host.
* `Reached` and `State.Sound` — the states of a life, and what holds in each of them.
* `pipelines_apart` — no two pipelines of the recorded build share a name or a key, nor do two that
  run, unless both are legacy ones.
-/

set_option autoImplicit false

namespace HsUploader
namespace Daemon

open Prog

variable {h : Host}

/-- The new build and its signature are recorded; the running set is the one given. -/
structure Committed (s : State) (draft : Draft) (running pumping : List Pipeline) (s' : State) :
    Prop where
  later : s.world.Later s'.world
  manifest : s'.self.manifest = s.self.manifest
  marker : s'.self.marker = s.self.marker
  build : s'.self.build = draft.build
  signature : s'.self.signature = some draft.signature
  running : s'.self.running = running
  pumping : s'.pumping = pumping

theorem Committed.kept {s s' s'' : State} {draft : Draft} {running pumping : List Pipeline}
    (hc : Committed s draft running pumping s') (hk : s'.Kept s'') :
    Committed s draft running pumping s'' :=
  ⟨hc.later.trans hk.later, hk.manifest.trans hc.manifest, hk.marker.trans hc.marker,
    hk.build.trans hc.build, hk.signature.trans hc.signature, hk.running.trans hc.running,
    hk.pumping.trans hc.pumping⟩

theorem wp_replacePipelines (new : List Pipeline) (s : State) :
    wp (replacePipelines h new)
      (fun _ s' ↦ ∃ t, s.Kept t ∧ s' = { t with pumping := new }) (fun _ s' ↦ s.Kept s')
      (fun _ ↦ False) s := by
  rw [replacePipelines, wp_bind, wp_get, wp_bind]
  refine wp_mono_ok (Tame.call h.swap s) fun _ s₁ h₁ ↦ ?_
  rw [wp_modify]
  let closed := closeEach (new.flatMap Pipeline.objects) (removedParts s.pumping new) []
  refine ⟨{ s₁ with world := { s₁.world with closed := s₁.world.closed ++ closed } }, ?_, rfl⟩
  exact h₁.trans ⟨⟨le_rfl, le_rfl⟩, rfl, rfl, rfl, rfl, rfl, rfl, rfl⟩

/-- **From the commit on** the build and the signature are the new ones, whatever happens; the
running set is the new one when the rebuild returns that it changed, else the one before. -/
theorem wp_commit (previous : Build) (draft : Draft) (changed : Bool) (s : State) :
    wp (commit h previous draft changed)
      (fun b s' ↦ b = changed ∧ if changed
        then Committed s draft draft.running draft.running s'
        else Committed s draft s.self.running s.pumping s')
      (fun _ s' ↦ Committed s draft s.self.running s.pumping s') (fun _ ↦ False) s := by
  rw [commit, wp_bind, setSelf, wp_modify, wp_bind]
  have hc : Committed s draft s.self.running s.pumping { s with self := { s.self with
      build := draft.build, signature := some draft.signature } } :=
    ⟨.refl _, rfl, rfl, rfl, rfl, rfl, rfl⟩
  refine wp_mono (tame_startingPass draft.running _) (fun _ s₁ h₁ ↦ ?_)
    (fun _ _ hk ↦ hc.kept hk) fun _ h ↦ h
  have hc₁ := hc.kept h₁
  rw [wp_bind]
  refine wp_mono (tame_reportSwitches s₁) (fun _ s₂ h₂ ↦ ?_) (fun _ _ hk ↦ hc₁.kept hk)
    fun _ h ↦ h
  have hc₂ := hc₁.kept h₂
  rw [wp_bind, wp_get, wp_bind]
  refine wp_mono (wp_onWorld (.closeQuietly _) s₂) (fun _ s₃ h₃ ↦ ?_)
    (fun _ _ hk ↦ hc₂.kept hk) fun _ h ↦ h
  have hc₃ := hc₂.kept h₃
  cases changed with
  | false => exact ⟨rfl, hc₃⟩
  | true =>
    rw [if_pos rfl, wp_bind, setSelf, wp_modify, wp_bind]
    have hc₄ : Committed s draft s.self.running s.pumping { s₃ with self := { s₃.self with
        rows := draft.rows } } :=
      ⟨hc₃.later, hc₃.manifest, hc₃.marker, hc₃.build, hc₃.signature, hc₃.running, hc₃.pumping⟩
    refine wp_mono (wp_replacePipelines draft.running _) ?_ (fun _ _ hk ↦ hc₄.kept hk)
      fun _ h ↦ h
    rintro u s₄ ⟨t, ht, rfl⟩
    have hc₅ := hc₄.kept ht
    exact ⟨rfl, hc₅.later, hc₅.manifest, hc₅.marker, hc₅.build, hc₅.signature, rfl, rfl⟩

/-! ## Rebuild atomicity -/

/-- The uploader's running set, the rebuilder's, the recorded build and the recorded signature are
as they were. -/
def State.Unchanged (s s' : State) : Prop :=
  s'.pumping = s.pumping ∧ s'.self.running = s.self.running ∧ s'.self.build = s.self.build ∧
    s'.self.signature = s.self.signature

/-- The switch report and the replacement of the pipelines do not raise from a step on. -/
def Host.Obliging (h : Host) (now : ℕ) : Prop :=
  ∀ n, now ≤ n → (∃ b, h.sinks n = .ok b) ∧ (∀ c, ∃ state, h.switch n c = .ok state) ∧
    h.swap n = .ok ()

/-- A rebuild is its two halves. -/
theorem rebuild_eq_raised {s s' : State} {e : Exn} (hrun : rebuild h s = (.raised e, s')) :
    prepare h s = (.raised e, s') ∨
      ∃ r t, prepare h s = (.ok r, t) ∧ commit h s.self.build r.1 r.2 t = (.raised e, s') := by
  rw [rebuild] at hrun
  have hget : (get : DaemonM State) s = (.ok s, s) := rfl
  rw [bind_of_ok hget] at hrun
  simp only [Bind.bind] at hrun
  rcases hp : prepare h s with ⟨r | e' | _ | _, t⟩ <;> rw [hp] at hrun
  · exact .inr ⟨r, t, rfl, hrun⟩
  · cases hrun
    exact .inl rfl
  · cases hrun
  · cases hrun

theorem State.kept_step (s : State) :
    s.Kept { s with world := { s.world with now := s.world.now + 1 } } :=
  ⟨⟨Nat.le_succ _, le_rfl⟩, rfl, rfl, rfl, rfl, rfl, rfl, rfl⟩

/-- The switch report does not raise when nothing it reads does. -/
theorem wp_reportSwitches_obliging (s : State) (hob : h.Obliging s.world.now) :
    wp (reportSwitches h) (fun _ s' ↦ s.Kept s') (fun _ _ ↦ False) (fun _ ↦ False) s := by
  have hread : ∀ (clients : List String) (t : State), s.world.now ≤ t.world.now →
      wp (readSwitches h clients) (fun _ s' ↦ t.Kept s') (fun _ _ ↦ False) (fun _ ↦ False) t := by
    intro clients
    induction clients with
    | nil => exact fun t _ ↦ .refl t
    | cons c cs ih =>
      intro t ht
      obtain ⟨state, hstate⟩ := (hob t.world.now ht).2.1 c
      rw [readSwitches, wp_bind, onWorld, wp_zoom, wp_call, hstate]
      refine wp_mono_ok (ih _ (ht.trans (Nat.le_succ _))) fun _ s' hs ↦ ?_
      exact t.kept_step.trans hs
  have hrest : ∀ t : State, s.world.now ≤ t.world.now → ∀ clients,
      wp (do
        let sinks ← onWorld (call h.sinks)
        if sinks then readSwitches h clients else pure ()) (fun _ s' ↦ t.Kept s')
        (fun _ _ ↦ False) (fun _ ↦ False) t := by
    intro t ht clients
    obtain ⟨b, hb⟩ := (hob t.world.now ht).1
    rw [wp_bind, onWorld, wp_zoom, wp_call, hb]
    have hk := t.kept_step
    dsimp only
    split
    · exact wp_mono_ok (hread clients _ (ht.trans (Nat.le_succ _))) fun _ s' hs ↦ hk.trans hs
    · exact hk
  rw [reportSwitches, wp_bind, wp_get]
  dsimp only
  split
  · rw [wp_bind, markerStands, onWorld, wp_zoom, wp_look]
    refine wp_mono_ok (hrest _ (Nat.le_succ _) _) fun _ s' hs ↦ ?_
    exact s.kept_step.trans hs
  · exact hrest s le_rfl _

/-- Writing the starting records raises nothing. -/
theorem wp_startingPass_ok (ps : List Pipeline) (s : State) :
    wp (startingPass h ps) (fun _ s' ↦ s.Kept s') (fun _ _ ↦ False) (fun _ ↦ False) s := by
  have hwrite : ∀ (ps : List Pipeline) (t : State),
      wp (writeStartingRecords h ps) (fun _ s' ↦ t.Kept s') (fun _ _ ↦ False) (fun _ ↦ False) t := by
    intro ps
    induction ps with
    | nil => exact fun t ↦ .refl t
    | cons p ps ih =>
      intro t
      rw [writeStartingRecords, wp_bind, wp_attempt]
      exact wp_mono (tame_writeStartingRecord p t)
        (fun _ t' ht ↦ wp_mono_ok (ih t') fun _ _ h ↦ ht.trans h)
        (fun _ t' ht ↦ wp_mono_ok (ih t') fun _ _ h ↦ ht.trans h) fun _ h ↦ h
  rw [startingPass, wp_bind, wp_get]
  split
  · rw [wp_bind, markerStands, onWorld, wp_zoom, wp_look, wp_bind, setSelf, wp_modify]
    have hk : ∀ seen, s.Kept { s with
        world := { s.world with now := s.world.now + 1 }
        self := { s.self with markerSeen := seen } } := fun seen ↦
      ⟨⟨Nat.le_succ _, le_rfl⟩, rfl, rfl, rfl, rfl, rfl, rfl, rfl⟩
    split
    · exact wp_mono_ok (hwrite ps _) fun _ _ h ↦ (hk _).trans h
    · exact hk _
  · exact .refl s

/-- The half from the commit on does not raise when the report and the replacement do not. -/
theorem wp_commit_obliging (previous : Build) (draft : Draft) (changed : Bool) (s : State)
    (hob : h.Obliging s.world.now) :
    wp (commit h previous draft changed) (fun _ _ ↦ True) (fun _ _ ↦ False) (fun _ ↦ False) s := by
  rw [commit, wp_bind, setSelf, wp_modify, wp_bind]
  refine wp_mono_ok (wp_startingPass_ok draft.running _) fun _ s₁ h₁ ↦ ?_
  rw [wp_bind]
  refine wp_mono_ok (wp_reportSwitches_obliging s₁ fun n hn ↦ hob n (h₁.later.now.trans hn))
    fun _ s₂ h₂ ↦ ?_
  rw [wp_bind, wp_get, wp_bind, onWorld, wp_zoom, closeQuietly, wp_modify]
  cases changed with
  | false => trivial
  | true =>
    have hswap := (hob s₂.world.now (h₁.later.now.trans h₂.later.now)).2.2
    rw [if_pos rfl, wp_bind, setSelf, wp_modify, wp_bind, replacePipelines, wp_bind, wp_get,
      wp_bind, onWorld, wp_zoom, wp_call, hswap]
    trivial

/-- **A rebuild that raises is atomic exactly when it raises before it records its build**, or when
the build and the signature it records are those it had; and while the switch report and the
replacement of the pipelines do not raise, it always is.  Before the record nothing raises but the
store's version, the recording of the states and the key of a pipeline. -/
theorem rebuild_atomic_iff (h : Host) (s s' : State) (e : Exn)
    (hrun : rebuild h s = (.raised e, s')) :
    (s.Unchanged s' ↔ ∀ r t, prepare h s = (.ok r, t) →
      r.1.build = s.self.build ∧ some r.1.signature = s.self.signature) ∧
    (h.Obliging s.world.now → s.Unchanged s') ∧
    (h.Firm s → ∃ r t, prepare h s = (.ok r, t)) := by
  rw [← and_assoc]
  refine ⟨?_, fun hfirm ↦ exists_run (wp_prepare_firm s hfirm)⟩
  rcases rebuild_eq_raised hrun with hp | ⟨r, t, hp, hc⟩
  · have hk := wp_raised (wp_prepare s) hp
    have hun : s.Unchanged s' := ⟨hk.pumping, hk.running, hk.build, hk.signature⟩
    refine ⟨⟨fun _ r t hok ↦ ?_, fun _ ↦ hun⟩, fun _ ↦ hun⟩
    rw [hp] at hok
    cases hok
  · obtain ⟨hk, -, -⟩ := wp_ok (wp_prepare s) hp
    have hcom := wp_raised (wp_commit s.self.build r.1 r.2 t) hc
    refine ⟨⟨fun hun r' t' hok ↦ ?_, fun hsame ↦ ?_⟩, fun hob ↦ ?_⟩
    · rw [hp] at hok
      cases hok
      exact ⟨hcom.build.symm.trans hun.2.2.1, hcom.signature.symm.trans hun.2.2.2⟩
    · obtain ⟨hbuild, hsig⟩ := hsame r t hp
      exact ⟨hcom.pumping.trans hk.pumping, hcom.running.trans hk.running,
        hcom.build.trans hbuild, hcom.signature.trans hsig⟩
    · exact (wp_raised (wp_commit_obliging s.self.build r.1 r.2 t
        fun n hn ↦ hob n (hk.later.now.trans hn)) hc).elim

/-! ## A daemon's life -/

/-- A daemon before its start. -/
def State.initial (manifest : Manifest) (marker : Bool) (records : List (Key × Bytes)) : State :=
  { self := { manifest, marker }, records }

/-- The states of a daemon that started: after its start, after a rebuild that returned or raised,
and after anything that leaves its build and its running set alone. -/
inductive Reached (h : Host) (manifest : Manifest) : State → Prop
  | start {marker : Bool} {records : List (Key × Bytes)} {s : State}
      (hrun : start h (.initial manifest marker records) = (.ok (), s)) : Reached h manifest s
  | rebuild {s s' : State} {r : Res Exn Bool} (hs : Reached h manifest s)
      (hrun : rebuild h s = (r, s')) : Reached h manifest s'
  | other {s s' : State} (hs : Reached h manifest s) (hk : s.Kept s') : Reached h manifest s'

/-- Time passes. -/
def State.at (s : State) (now : ℕ) : State := { s with world := { s.world with now } }

theorem Reached.wait {manifest : Manifest} {s : State} (hs : Reached h manifest s) {now : ℕ}
    (hn : s.world.now ≤ now) : Reached h manifest (s.at now) :=
  hs.other ⟨⟨hn, le_rfl⟩, rfl, rfl, rfl, rfl, rfl, rfl, rfl⟩

section example_host

/-- An entry with a name and a client. -/
def namedEntry (name client : String) : Entry := [("name", .str name), ("client", .str client)]

/-- A file with one entry for each name. -/
def namesFile (client : String) (names : List String) : Parsed :=
  .ok [("pipeline", .arr (names.map fun n ↦ .table (namedEntry n client)))]

/-- A directory that holds some files, all changed at one time. -/
def diskOf (mtimeNs : ℤ) (files : List (String × Parsed)) : Disk where
  top := .ok ⟨mtimeNs, 0, 1⟩
  names := files.map Prod.fst
  file name :=
    { stat := .ok { key := ⟨mtimeNs, 0, 2⟩ }, parsed := (files.lookup name).getD (.error "gone") }

/-- A host whose entries all build, each with a send record under its own name. -/
def hostOf (disk : ℕ → Disk) : Host where
  disk
  generic _ e _ := .ok { name := "", key := .ok (e.text "name" "", "dest", "table") }
  builder _ _ := .ok []

/-- A host where `n.toml` appears and, with it, `sinks/` can no longer be read. -/
def unreadableSinks : Host :=
  { hostOf (fun n ↦ if n < 20 then diskOf 0 [] else diskOf 1 [("n.toml", namesFile "n" ["n1"])]) with
    sinks := fun n ↦ if n < 20 then .ok false
      else .error (.other "PermissionError" "[Errno 13] Permission denied") }

/-- The state its daemon waits in. -/
def unreadableSinksState : State := (start unreadableSinks (.initial {} true [])).2.at 20

theorem unreadableSinks_reached : Reached unreadableSinks {} unreadableSinksState := by
  have hok : start unreadableSinks (.initial {} true []) =
      (.ok (), (start unreadableSinks (.initial {} true [])).2) :=
    run_ok (by decide)
  exact (Reached.start hok).wait (by decide)

/-- The rebuild raises in the switch report, after it recorded the new build and its signature: the
running set stays the old one, and `due()` no longer asks. -/
theorem rebuild_half_committed :
    ¬ ∀ (h : Host) (manifest : Manifest) (s s' : State) (e : Exn), Reached h manifest s →
      rebuild h s = (.raised e, s') → s.Unchanged s' := by
  intro hevery
  have hraised : rebuild unreadableSinks unreadableSinksState =
      (.raised (.other "PermissionError" "[Errno 13] Permission denied"),
        (rebuild unreadableSinks unreadableSinksState).2) :=
    run_raised (by decide)
  have hbuild := (hevery _ _ _ _ _ unreadableSinks_reached hraised).2.2.1
  have hnames := congrArg (fun b : Build ↦ b.pipelines.map Pipeline.name) hbuild
  revert hnames
  decide

/-- A host where `n.toml` appears and the store of pipeline states is locked. -/
def lockedStates : Host :=
  { hostOf (fun n ↦ if n < 20 then diskOf 0 [] else diskOf 1 [("n.toml", namesFile "n" ["n1"])]) with
    recordStates := fun n ↦ if n < 20 then .ok () else .error (.operationalError "locked") }

theorem rebuild_atomic_iff_locked :
    let s := (start lockedStates (.initial {} true [])).2.at 20
    s.Unchanged (rebuild lockedStates s).2 := by
  intro s
  have hraised : rebuild lockedStates s = (.raised (.operationalError "locked"),
      (rebuild lockedStates s).2) := run_raised (by decide)
  exact (rebuild_atomic_iff _ _ _ _ hraised).2.1
    fun n _ ↦ ⟨⟨false, rfl⟩, fun c ↦ ⟨"off", rfl⟩, rfl⟩

end example_host

/-! ## Names and keys over a life -/

/-- **A rebuild**, returned or raised: either nothing changed, or the build and the signature of a
draft are recorded, and the running set is the draft's when the rebuild returned that it changed. -/
theorem wp_rebuild (s : State) :
    wp (rebuild h)
      (fun b s' ↦ ∃ draft s₁, s.Kept s₁ ∧
        Drafted h s.self.manifest (some s.self.build) s.world s₁.world draft ∧
        (b = false → draft.running.map Pipeline.id = s.self.running.map Pipeline.id) ∧
        if b then Committed s₁ draft draft.running draft.running s'
        else Committed s₁ draft s.self.running s.pumping s')
      (fun _ s' ↦ s.Kept s' ∨ ∃ draft s₁, s.Kept s₁ ∧
        Drafted h s.self.manifest (some s.self.build) s.world s₁.world draft ∧
        Committed s₁ draft s.self.running s.pumping s')
      (fun _ ↦ False) s := by
  rw [rebuild, wp_bind, wp_get, wp_bind]
  refine wp_mono (wp_prepare s) ?_ (fun _ _ hk ↦ .inl hk) fun _ h ↦ h
  rintro ⟨draft, changed⟩ s₁ ⟨hk, hd, hids⟩
  have hcommit := wp_commit (h := h) s.self.build draft changed s₁
  rw [hk.running, hk.pumping] at hcommit
  refine wp_mono hcommit ?_ (fun _ s' hc ↦ .inr ⟨draft, s₁, hk, hd, hc⟩) fun _ h ↦ h
  rintro b s' ⟨rfl, hc⟩
  exact ⟨draft, s₁, hk, hd, hids, hc⟩

/-- **A start** records a draft and runs it. -/
theorem wp_start (s : State) :
    wp (start h)
      (fun _ s' ↦ ∃ draft w, Drafted h s.self.manifest none s.world w draft ∧
        w.Later s'.world ∧ s'.self.manifest = s.self.manifest ∧ s'.self.build = draft.build ∧
        s'.self.signature = some draft.signature ∧ s'.self.running = draft.running ∧
        s'.pumping = draft.running)
      (fun _ _ ↦ True) (fun _ ↦ False) s := by
  rw [start, wp_bind, wp_get, wp_bind, onWorld, wp_zoom]
  refine wp_mono (wp_make s.self.manifest none true s.world) (fun draft w hd ↦ ?_)
    (fun _ _ _ ↦ trivial) fun _ h ↦ h
  rw [wp_bind]
  refine wp_mono (Tame.call h.recordStates _) (fun _ s₁ h₁ ↦ ?_) (fun _ _ _ ↦ trivial) fun _ h ↦ h
  rw [wp_bind, setSelf, wp_modify, wp_bind]
  refine wp_mono (tame_startingPass draft.running _) (fun _ s₂ h₂ ↦ ?_) (fun _ _ _ ↦ trivial)
    fun _ h ↦ h
  rw [wp_bind]
  refine wp_mono (tame_reportSwitches s₂) (fun _ s₃ h₃ ↦ ?_) (fun _ _ _ ↦ trivial) fun _ h ↦ h
  rw [wp_modify]
  have hk := h₂.trans h₃
  exact ⟨draft, w, hd, h₁.later.trans hk.later, hk.manifest.trans h₁.manifest, hk.build,
    hk.signature, hk.running, rfl⟩

/-- A draft of a sound build is sound, and what it runs is among what it built. -/
theorem Drafted.sound {manifest : Manifest} {previous : Option Build} {w w' : World} {d : Draft}
    (hd : Drafted h manifest previous w w' d) (hprev : ∀ b ∈ previous, b.Sound h) :
    d.build.Sound h ∧ d.running.Sublist d.build.pipelines := by
  obtain ⟨seen, strict, version, w₁, w₂, -, -, hrun, -, -, hrunning⟩ := hd
  refine ⟨(wp_ok (wp_assemble _ previous strict w₁) hrun).sound hprev, ?_⟩
  rw [hrunning]
  exact List.filter_sublist

/-- What holds of a daemon in every state it reaches. -/
structure State.Sound (h : Host) (manifest : Manifest) (s : State) : Prop where
  manifest : s.self.manifest = manifest
  build : s.self.build.Sound h
  running : s.self.running = s.pumping
  apart : s.pumping.Pairwise Apart

theorem State.Sound.kept {manifest : Manifest} {s s' : State} (hs : s.Sound h manifest)
    (hk : s.Kept s') : s'.Sound h manifest := by
  refine ⟨hk.manifest.trans hs.manifest, ?_, ?_, ?_⟩
  · rw [hk.build]
    exact hs.build
  · rw [hk.running, hk.pumping, hs.running]
  · rw [hk.pumping]
    exact hs.apart

/-- Recording a draft keeps a daemon sound, with its running set or with the draft's. -/
theorem State.Sound.commit {manifest : Manifest} {s s₁ s' : State} {w : World} {draft : Draft}
    {pumping : List Pipeline} (hs : s.Sound h manifest) (hk : s.Kept s₁)
    (hd : Drafted h s.self.manifest (some s.self.build) s.world w draft)
    (hc : Committed s₁ draft pumping pumping s') (hp : pumping = s.pumping ∨ pumping = draft.running) :
    s'.Sound h manifest := by
  obtain ⟨hsound, hsub⟩ := hd.sound (by
    rintro b hb
    cases hb
    exact hs.build)
  refine ⟨(hc.manifest.trans hk.manifest).trans hs.manifest, ?_, hc.running.trans hc.pumping.symm, ?_⟩
  · rw [hc.build]
    exact hsound
  · rw [hc.pumping]
    rcases hp with rfl | rfl
    · exact hs.apart
    · exact hsound.apart.sublist hsub

/-- Every state a daemon reaches is sound. -/
theorem Reached.sound {manifest : Manifest} {s : State} (hs : Reached h manifest s) :
    s.Sound h manifest := by
  induction hs with
  | @start marker records s hrun =>
    obtain ⟨draft, w, hd, -, hm, hb, -, hr, hp⟩ := wp_ok (wp_start _) hrun
    obtain ⟨hsound, hsub⟩ := hd.sound (by simp)
    refine ⟨hm, ?_, hr.trans hp.symm, ?_⟩
    · rw [hb]
      exact hsound
    · rw [hp]
      exact hsound.apart.sublist hsub
  | @rebuild s s' r _ hrun ih =>
    have hwp := wp_rebuild (h := h) s
    rw [wp, hrun] at hwp
    rcases r with b | e | _ | _
    · obtain ⟨draft, s₁, hk, hd, -, hc⟩ := hwp
      cases b with
      | true => exact ih.commit hk hd hc (.inr rfl)
      | false =>
        rw [ih.running] at hc
        exact ih.commit hk hd hc (.inl rfl)
    · rcases hwp with hk | ⟨draft, s₁, hk, hd, hc⟩
      · exact ih.kept hk
      · rw [ih.running] at hc
        exact ih.commit hk hd hc (.inl rfl)
    · exact hwp.elim
    · exact hwp.elim
  | other _ hk ih => exact ih.kept hk

/-- **Running pipelines never share a name or a send record**, unless both are legacy ones: of any
two pipelines of the recorded build, and of any two the uploader runs. -/
theorem pipelines_apart (h : Host) (manifest : Manifest) (s : State) (hs : Reached h manifest s) :
    s.self.build.pipelines.Pairwise Apart ∧ s.pumping.Pairwise Apart :=
  ⟨hs.sound.build.apart, hs.sound.apart⟩

/-- Two files, one of which wants the other's name after its edit. -/
def editedName : Host :=
  hostOf fun n ↦ if n < 40 then
    diskOf 0 [("a.toml", namesFile "a" ["a1"]), ("b.toml", namesFile "b" ["b1"])]
  else diskOf 1 [("a.toml", namesFile "a" ["a1"]), ("b.toml", namesFile "b" ["b2", "a1"])]

theorem pipelines_apart_editedName :
    let s := (rebuild editedName ((start editedName (.initial {} true [])).2.at 40)).2
    s.self.build.pipelines.map Pipeline.name = ["a1", "b1"] ∧
      s.self.build.pipelines.Pairwise Apart ∧ s.pumping.Pairwise Apart := by
  intro s
  have hok : start editedName (.initial {} true []) =
      (.ok (), (start editedName (.initial {} true [])).2) :=
    run_ok (by decide)
  have hreached : Reached editedName {} ((start editedName (.initial {} true [])).2.at 40) :=
    (Reached.start hok).wait (by decide)
  exact ⟨by decide, pipelines_apart editedName {} s (hreached.rebuild rfl)⟩

end Daemon
end HsUploader
