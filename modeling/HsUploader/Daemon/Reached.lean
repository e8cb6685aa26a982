import HsUploader.Daemon.Rebuilder
import HsUploader.Daemon.Uniqueness

/-!
# The states a daemon reaches

`Made` relates a draft to the reading it was built from.  `wp_prepare` and `wp_commit` say what the
two halves of a rebuild leave behind, whether they return or raise: the first nothing, the second
the new build and signature in any case, and the new running set when it returns.

`Reached` is a daemon's life: a start, then rebuilds, with anything else in between that leaves the
build and the running set alone.

## What is here

* `World.Later` and `Ticks` — time passes, and no program stops the clock.
* `Minding` and `Gentle` — the relations between two states that everything keeps which neither
  builds nor swaps; `Tame` — the programs of that kind.
* `wp_readDirectory` — no disk makes the reading raise.
* `Drafted` — a draft, with the reading and the build it came from, each at its time.
* `wp_prepare` — the first half changes nothing but the clock, the records and the marker's reading.
-/

set_option autoImplicit false

namespace HsUploader
namespace Daemon

open Prog

variable {h : Host}

/-! ## The clock -/

/-- Time passed, and objects may have been made. -/
structure World.Later (w w' : World) : Prop where
  now : w.now ≤ w'.now
  born : w.born ≤ w'.born

theorem World.Later.refl (w : World) : w.Later w := ⟨le_rfl, le_rfl⟩

theorem World.Later.trans {w w' w'' : World} (h : w.Later w') (h' : w'.Later w'') :
    w.Later w'' := ⟨h.now.trans h'.now, h.born.trans h'.born⟩

/-- Every end of the program is later than its start, and it has one. -/
def Ticks {α : Type} (p : Prog World Exn α) : Prop :=
  ∀ w, wp p (fun _ w' ↦ w.Later w') (fun _ w' ↦ w.Later w') (fun _ ↦ False) w

namespace Ticks

variable {α β : Type} {p : Prog World Exn α} {f : α → Prog World Exn β}

theorem pure (a : α) : Ticks (Pure.pure a) := .refl

theorem bind (hp : Ticks p) (hf : ∀ a, Ticks (f a)) : Ticks (p >>= f) := fun w ↦ by
  rw [wp_bind]
  refine wp_mono_ok (hp w) fun a w' hw ↦ ?_
  exact wp_mono (hf a w') (fun _ _ h ↦ hw.trans h) (fun _ _ h ↦ hw.trans h) fun _ h ↦ h

theorem look (g : ℕ → α) : Ticks (look g) := fun _ ↦ ⟨Nat.le_succ _, le_rfl⟩

theorem present : Ticks present := fun w ↦ .refl w

theorem birth : Ticks birth := fun _ ↦ ⟨le_rfl, Nat.le_succ _⟩

theorem ofExcept (x : Except Exn α) : Ticks (ofExcept x) := fun w ↦ by
  rw [wp_ofExcept]
  cases x <;> exact .refl w

theorem call (g : ℕ → Except Exn α) : Ticks (call g) := (look g).bind ofExcept

theorem attempt (hp : Ticks p) : Ticks (attempt p) := fun w ↦ by
  rw [wp_attempt]
  exact hp w

theorem raise (e : Exn) : Ticks (raise e : Prog World Exn α) := .refl

theorem closeQuietly (pipes : List Pipeline) : Ticks (closeQuietly pipes) := fun _ ↦
  ⟨le_rfl, le_rfl⟩

end Ticks

theorem ticks_enlist (entry : Entry) (origin : String) (ms : List Made) :
    Ticks (enlist entry origin ms) := by
  induction ms with
  | nil => exact .pure _
  | cons m ms ih => exact .bind .present fun _ ↦ .bind .birth fun _ ↦ ih.bind fun _ ↦ .pure _

theorem ticks_buildOne (origin : String) (e : ℕ × Entry) : Ticks (buildOne h origin e) := by
  unfold buildOne
  split
  · exact (Ticks.call _).bind fun _ ↦ ticks_enlist _ _ _
  · exact (Ticks.call _).bind fun _ ↦ ticks_enlist _ _ _

theorem ticks_buildEach (strict : Bool) (es : List (ℕ × Entry)) (pool : List Slot) (b : Built) :
    Ticks (buildEach h strict es pool b) := by
  induction es generalizing pool b with
  | nil => exact .pure _
  | cons e es ih =>
    rw [buildEach]
    split
    · exact ih _ _
    · refine (ticks_buildOne _ _).attempt.bind fun r ↦ ?_
      split
      · exact ih _ _
      · split
        · exact (Ticks.closeQuietly _).bind fun _ ↦ .raise _
        · exact ih _ _

theorem ticks_buildFile (origin : String) (es : List (ℕ × Entry)) (pool : List Slot) (b : Built) :
    Ticks (buildFile h origin es pool b) := by
  induction es generalizing pool b with
  | nil => exact .pure _
  | cons e es ih =>
    rw [buildFile]
    split
    · exact ih _ _
    · refine (ticks_buildOne _ _).attempt.bind fun r ↦ ?_
      split
      · exact ih _ _
      · exact (Ticks.closeQuietly _).bind fun _ ↦ .pure _

theorem ticks_tryFile (origin : String) (entries : List Entry) (d : Desk) :
    Ticks (tryFile h origin entries d) := by
  refine (ticks_buildFile _ _ _ _).bind fun r ↦ ?_
  split
  rename_i built pool
  split
  · exact .pure _
  · refine (Ticks.ofExcept _).bind fun v ↦ ?_
    split
    · exact (Ticks.closeQuietly _).bind fun _ ↦ .pure _
    · exact .pure _

theorem ticks_keepLast (prevGood : List (String × List Entry)) (origin : String) (d : Desk) :
    Ticks (keepLast h prevGood origin d) := by
  rw [keepLast]
  split
  · exact .pure _
  · exact (ticks_tryFile _ _ _).bind fun _ ↦ .pure _

theorem ticks_settleFiles (l : Layout) (prevGood : List (String × List Entry))
    (order : List String) (d : Desk) : Ticks (settleFiles h l prevGood order d) := by
  induction order generalizing d with
  | nil => exact .pure _
  | cons origin order ih =>
    refine Ticks.bind ?_ fun d ↦ ih d
    rw [settleFile]
    split
    · exact ticks_keepLast _ _ _
    · refine (ticks_tryFile _ _ _).bind fun r ↦ ?_
      split
      · exact .pure _
      · exact ticks_keepLast _ _ _

theorem ticks_assemble (l : Layout) (previous : Option Build) (strict : Bool) :
    Ticks (assemble h l previous strict) := by
  refine ((ticks_buildEach _ _ _ _).bind fun g ↦ ticks_buildEach _ _ _ _).bind fun r ↦ ?_
  split
  exact (Ticks.ofExcept _).bind fun _ ↦ (ticks_settleFiles _ _ _ _).bind fun _ ↦ .pure _

/-- A relation between two worlds that a reading of the outside keeps. -/
structure Idling (R : World → World → Prop) : Prop where
  refl : ∀ w, R w w
  trans : ∀ {w w' w''}, R w w' → R w' w'' → R w w''
  tick : ∀ w : World, R w { w with now := w.now + 1 }

theorem idling_later : Idling World.Later :=
  ⟨.refl, .trans, fun _ ↦ ⟨Nat.le_succ _, le_rfl⟩⟩

namespace Idling

variable {R : World → World → Prop}

theorem look (hR : Idling R) {α : Type} (g : ℕ → α) : Ends R (look g) := hR.tick

theorem statFiles (hR : Idling R) (names : List String) : Ends R (statFiles h names) := by
  induction names with
  | nil => exact .pure hR.refl _
  | cons name names ih =>
    exact .bind hR.trans (hR.look _) fun _ ↦ .bind hR.trans ih fun _ ↦ .pure hR.refl _

theorem pipelinesSignature (hR : Idling R) : Ends R (pipelinesSignature h) := by
  refine .bind hR.trans (hR.look _) fun top ↦ ?_
  split
  · exact .pure hR.refl _
  · exact .pure hR.refl _
  · refine .bind hR.trans (hR.look _) fun names ↦ ?_
    split
    · exact .pure hR.refl _
    · exact .pure hR.refl _
    · exact .bind hR.trans (hR.statFiles _) fun _ ↦ .pure hR.refl _

theorem readFile (hR : Idling R) (name : String) : Ends R (readFile h name) := by
  unfold Daemon.readFile
  split
  · exact .pure hR.refl _
  · refine .bind hR.trans (hR.look _) fun st ↦ ?_
    split
    · exact .pure hR.refl _
    · split
      · refine .bind hR.trans (hR.look _) fun r ↦ ?_
        split
        · exact .pure hR.refl _
        · exact .pure hR.refl _
      · exact .pure hR.refl _

theorem readFiles (hR : Idling R) (names : List String) : Ends R (readFiles h names) := by
  induction names with
  | nil => exact .pure hR.refl _
  | cons name names ih =>
    exact .bind hR.trans (hR.readFile name) fun _ ↦ .bind hR.trans ih fun _ ↦ .pure hR.refl _

theorem readDirectory (hR : Idling R) : Ends R (readDirectory h) :=
  .bind hR.trans hR.pipelinesSignature fun _ ↦ .bind hR.trans (hR.look _) fun _ ↦
    .bind hR.trans (hR.readFiles _) fun _ ↦ .pure hR.refl _

end Idling

theorem ticks_readDirectory : Ticks (readDirectory h) := idling_later.readDirectory

/-! ## A draft -/

/-- A reading of the directory, from one instant to another. -/
def Reads (h : Host) (w : World) (signature : Signature) (seen : List (String × Seen))
    (w' : World) : Prop := readDirectory h w = (.ok (signature, seen), w')

theorem wp_statFiles (names : List String) (w : World) :
    wp (statFiles h names) (fun _ _ ↦ True) (fun _ _ ↦ False) (fun _ ↦ False) w := by
  induction names generalizing w with
  | nil => trivial
  | cons name names ih =>
    rw [statFiles, wp_bind, wp_look, wp_bind]
    exact wp_mono_ok (ih _) fun _ _ _ ↦ trivial

theorem wp_readFile (name : String) (w : World) :
    wp (readFile h name) (fun _ _ ↦ True) (fun _ _ ↦ False) (fun _ ↦ False) w := by
  rw [readFile]
  split
  · trivial
  · rw [wp_bind, wp_look]
    split
    · trivial
    · split
      · rw [wp_bind, wp_look]
        split <;> trivial
      · trivial

theorem wp_readFiles (names : List String) (w : World) :
    wp (readFiles h names) (fun _ _ ↦ True) (fun _ _ ↦ False) (fun _ ↦ False) w := by
  induction names generalizing w with
  | nil => trivial
  | cons name names ih =>
    rw [readFiles, wp_bind]
    refine wp_mono_ok (wp_readFile name w) fun seen w' _ ↦ ?_
    rw [wp_bind]
    exact wp_mono_ok (ih w') fun _ _ _ ↦ trivial

theorem wp_pipelinesSignature (w : World) :
    wp (pipelinesSignature h) (fun _ _ ↦ True) (fun _ _ ↦ False) (fun _ ↦ False) w := by
  rw [pipelinesSignature, wp_bind, wp_look]
  split
  · trivial
  · trivial
  · rw [wp_bind, wp_look]
    split
    · trivial
    · trivial
    · rw [wp_bind]
      exact wp_mono_ok (wp_statFiles _ _) fun _ _ _ ↦ trivial

/-- **Nothing in `pipelines.d/` makes the reading raise.** -/
theorem wp_readDirectory (w : World) :
    wp (readDirectory h) (fun r w' ↦ Reads h w r.1 r.2 w' ∧ w.Later w') (fun _ _ ↦ False)
      (fun _ ↦ False) w := by
  have hend : wp (readDirectory h) (fun _ _ ↦ True) (fun _ _ ↦ False) (fun _ ↦ False) w := by
    rw [readDirectory, wp_bind]
    refine wp_mono_ok (wp_pipelinesSignature w) fun sig w₁ _ ↦ ?_
    rw [wp_bind, wp_look, wp_bind]
    exact wp_mono_ok (wp_readFiles _ _) fun _ _ _ ↦ trivial
  obtain ⟨r, w', hrun⟩ := exists_run hend
  have hlater := wp_ok (ticks_readDirectory w) hrun
  rw [wp, hrun]
  exact ⟨hrun, hlater⟩

/-- What a draft was made of: one reading, one build of the layout read, and the store's version,
each after the one before. -/
structure Drafted (h : Host) (manifest : Manifest) (previous : Option Build) (w w' : World)
    (d : Draft) : Prop where
  intro ::
  made : ∃ seen strict version w₁ w₂, Reads h w d.signature seen w₁ ∧ w.Later w₁ ∧
    assemble h (layoutOf manifest d.signature seen) previous strict w₁ = (.ok d.build, w₂) ∧
    w₁.Later w₂ ∧ w₂.Later w' ∧ d.running = (splitRefused version d.build.pipelines).1

theorem wp_make (manifest : Manifest) (previous : Option Build) (strict : Bool) (w : World) :
    wp (make h manifest previous strict) (fun d w' ↦ Drafted h manifest previous w w' d)
      (fun _ w' ↦ w.Later w') (fun _ ↦ False) w := by
  rw [make, loadLayout, wp_bind, wp_bind]
  refine wp_mono (wp_readDirectory w) ?_ (fun _ _ h ↦ h.elim) fun _ h ↦ h
  rintro ⟨sig, seen⟩ w₁ ⟨hread, hlater⟩
  rw [wp_pure, wp_bind]
  refine wp_mono (wp_self (wp_mono (wp_assemble _ previous strict w₁) (fun _ _ _ ↦ trivial)
    (fun _ _ _ ↦ trivial) fun _ h ↦ h)) ?_ ?_ fun _ h ↦ h
  · intro build w₂ hrun
    have hlater₂ := wp_ok (ticks_assemble _ _ _ w₁) hrun
    rw [wp_bind, wp_attempt, wp_call]
    split
    · refine ⟨seen, strict, _, w₁, w₂, hread, hlater, hrun, hlater₂, ⟨Nat.le_succ _, le_rfl⟩, rfl⟩
    · rw [wp_bind, closeQuietly, wp_modify, wp_raise]
      exact hlater.trans (hlater₂.trans ⟨Nat.le_succ _, le_rfl⟩)
  · intro e w₂ hrun
    have hlater₂ := wp_raised (ticks_assemble _ _ _ w₁) hrun
    exact hlater.trans hlater₂

/-! ## The two halves of a rebuild -/

/-- The two states differ in their clock, the send records and the marker's reading alone. -/
structure State.Kept (s s' : State) : Prop where
  later : s.world.Later s'.world
  pumping : s'.pumping = s.pumping
  manifest : s'.self.manifest = s.self.manifest
  marker : s'.self.marker = s.self.marker
  build : s'.self.build = s.self.build
  signature : s'.self.signature = s.self.signature
  running : s'.self.running = s.self.running
  rows : s'.self.rows = s.self.rows

theorem State.Kept.refl (s : State) : s.Kept s :=
  ⟨.refl _, rfl, rfl, rfl, rfl, rfl, rfl, rfl⟩

theorem State.Kept.trans {s s' s'' : State} (h : s.Kept s') (h' : s'.Kept s'') : s.Kept s'' :=
  ⟨h.later.trans h'.later, h'.pumping.trans h.pumping, h'.manifest.trans h.manifest,
    h'.marker.trans h.marker, h'.build.trans h.build, h'.signature.trans h.signature,
    h'.running.trans h.running, h'.rows.trans h.rows⟩

theorem wp_onWorld {α : Type} {p : Prog World Exn α} (hp : Ticks p) (s : State) :
    wp (onWorld p) (fun _ s' ↦ s.Kept s') (fun _ s' ↦ s.Kept s') (fun _ ↦ False) s := by
  rw [onWorld, wp_zoom]
  exact wp_mono (hp s.world) (fun _ _ h ↦ ⟨h, rfl, rfl, rfl, rfl, rfl, rfl, rfl⟩)
    (fun _ _ h ↦ ⟨h, rfl, rfl, rfl, rfl, rfl, rfl, rfl⟩) fun _ h ↦ h

/-- The program keeps the build and the running set, whether it returns or raises. -/
def Tame {α : Type} (p : DaemonM α) : Prop :=
  ∀ s, wp p (fun _ s' ↦ s.Kept s') (fun _ s' ↦ s.Kept s') (fun _ ↦ False) s

/-- A relation between two states that a look at the outside and a starting record keep. -/
structure Minding (R : State → State → Prop) : Prop where
  refl : ∀ s, R s s
  trans : ∀ {s s' s''}, R s s' → R s' s'' → R s s''
  tick : ∀ s : State, R s { s with world := { s.world with now := s.world.now + 1 } }
  startCursor : ∀ (s : State) key cursor, R s (s.startCursor key cursor)

/-- One that the daemon keeps while it neither builds nor swaps. -/
structure Gentle (R : State → State → Prop) : Prop extends Minding R where
  seen : ∀ (s : State) seen, R s { s with self := { s.self with markerSeen := seen } }

theorem State.kept_startCursor (s : State) (key : Key) (cursor : Bytes) :
    s.Kept (s.startCursor key cursor) := by
  rw [State.startCursor]
  split
  · exact .refl s
  · exact ⟨.refl _, rfl, rfl, rfl, rfl, rfl, rfl, rfl⟩

theorem gentle_kept : Gentle State.Kept where
  refl := .refl
  trans := .trans
  tick _ := ⟨⟨Nat.le_succ _, le_rfl⟩, rfl, rfl, rfl, rfl, rfl, rfl, rfl⟩
  startCursor := State.kept_startCursor
  seen _ _ := ⟨.refl _, rfl, rfl, rfl, rfl, rfl, rfl, rfl⟩

namespace Minding

variable {R : State → State → Prop}

theorem pure (hR : Minding R) {α : Type} (a : α) : Ends R (Pure.pure a : DaemonM α) :=
  .pure hR.refl a

theorem bind (hR : Minding R) {α β : Type} {p : DaemonM α} {f : α → DaemonM β} (hp : Ends R p)
    (hf : ∀ a, Ends R (f a)) : Ends R (p >>= f) := .bind hR.trans hp hf

theorem get (hR : Minding R) : Ends R (get : DaemonM State) := hR.refl

theorem look (hR : Minding R) {α : Type} (g : ℕ → α) : Ends R (onWorld (look g)) := hR.tick

theorem call (hR : Minding R) {α : Type} (g : ℕ → Except Exn α) : Ends R (onWorld (call g)) := by
  intro s
  rw [onWorld, wp_zoom, wp_call]
  cases g s.world.now <;> exact hR.tick s

theorem writeStartingRecord (hR : Minding R) (p : Pipeline) : Ends R (writeStartingRecord h p) := by
  rw [Daemon.writeStartingRecord]
  split
  · exact hR.pure _
  · refine hR.bind (.ofExcept hR.refl _) fun key ↦ hR.bind (hR.call _) fun _ ↦
      hR.bind hR.get fun s ↦ ?_
    split
    · exact hR.pure _
    · refine hR.bind (hR.call _) fun c ↦ ?_
      split
      · exact hR.pure _
      · split
        · exact hR.pure _
        · exact hR.bind (hR.call _) fun _ s ↦ hR.startCursor s _ _

theorem writeStartingRecords (hR : Minding R) (ps : List Pipeline) :
    Ends R (writeStartingRecords h ps) := by
  induction ps with
  | nil => exact hR.pure _
  | cons p ps ih => exact hR.bind (hR.writeStartingRecord p).attempt fun _ ↦ ih

theorem readSwitches (hR : Minding R) (clients : List String) : Ends R (readSwitches h clients) := by
  induction clients with
  | nil => exact hR.pure _
  | cons c cs ih => exact hR.bind (hR.call _) fun _ ↦ ih

theorem reportSwitches (hR : Minding R) : Ends R (reportSwitches h) := by
  refine hR.bind hR.get fun s ↦ ?_
  have hrest : Ends R (do
      let sinks ← onWorld (Daemon.call h.sinks)
      if sinks then Daemon.readSwitches h s.self.build.clients else Pure.pure ()) := by
    refine hR.bind (hR.call _) fun sinks ↦ ?_
    split
    · exact hR.readSwitches _
    · exact hR.pure _
  dsimp only
  split
  · exact hR.bind (hR.look _) fun _ ↦ hrest
  · exact hrest

end Minding

namespace Gentle

variable {R : State → State → Prop}

theorem startingPass (hR : Gentle R) (ps : List Pipeline) : Ends R (startingPass h ps) := by
  refine hR.bind hR.get fun s ↦ ?_
  split
  · refine hR.bind (hR.look _) fun seen ↦ hR.bind (fun s ↦ hR.seen s seen) fun _ ↦ ?_
    split
    · exact hR.writeStartingRecords ps
    · exact hR.pure _
  · exact hR.pure _

theorem markerCheck (hR : Gentle R) : Ends R (markerCheck h) := by
  refine hR.bind hR.get fun s ↦ ?_
  split
  · refine hR.bind (hR.look _) fun stands ↦ hR.bind (fun s ↦ hR.seen s stands) fun _ ↦ ?_
    split
    · exact hR.bind (hR.writeStartingRecords _) fun _ ↦ hR.reportSwitches
    · split
      · exact hR.reportSwitches
      · exact hR.pure _
  · exact hR.pure _

end Gentle

theorem Tame.call {α : Type} (g : ℕ → Except Exn α) : Tame (onWorld (call g)) := gentle_kept.call g

theorem tame_writeStartingRecord (p : Pipeline) : Tame (writeStartingRecord h p) :=
  gentle_kept.writeStartingRecord p

theorem tame_startingPass (ps : List Pipeline) : Tame (startingPass h ps) :=
  gentle_kept.startingPass ps

theorem tame_reportSwitches : Tame (reportSwitches h) := gentle_kept.reportSwitches

theorem tame_markerCheck : Tame (markerCheck h) := gentle_kept.markerCheck

/-- **Before the commit nothing changes.** -/
theorem wp_prepare (s : State) :
    wp (prepare h)
      (fun r s' ↦ s.Kept s' ∧
        Drafted h s.self.manifest (some s.self.build) s.world s'.world r.1 ∧
        (r.2 = false → r.1.running.map Pipeline.id = s.self.running.map Pipeline.id))
      (fun _ s' ↦ s.Kept s') (fun _ ↦ False) s := by
  rw [prepare, wp_bind, wp_get, wp_bind, onWorld, wp_zoom]
  refine wp_mono (wp_self (wp_mono (wp_make s.self.manifest (some s.self.build) false s.world)
    (fun _ _ _ ↦ trivial) (fun _ _ _ ↦ trivial) fun _ h ↦ h)) ?_ ?_ fun _ h ↦ h
  · intro draft w' hrun
    have hdraft := wp_ok (wp_make s.self.manifest (some s.self.build) false s.world) hrun
    have hkept : s.Kept { s with world := w' } := by
      obtain ⟨seen, strict, version, w₁, w₂, -, h₁, -, h₂, h₃, -⟩ := hdraft
      exact ⟨h₁.trans (h₂.trans h₃), rfl, rfl, rfl, rfl, rfl, rfl, rfl⟩
    dsimp only
    split
    · rename_i hchanged
      rw [wp_bind, wp_attempt, onWorld, wp_zoom, wp_call]
      split
      · rename_i u hu
        refine ⟨hkept.trans ⟨⟨Nat.le_succ _, le_rfl⟩, rfl, rfl, rfl, rfl, rfl, rfl, rfl⟩, ?_, ?_⟩
        · obtain ⟨seen, strict, version, w₁, w₂, hr, h₁, ha, h₂, h₃, hv⟩ := hdraft
          exact ⟨seen, strict, version, w₁, w₂, hr, h₁, ha, h₂,
            h₃.trans ⟨Nat.le_succ _, le_rfl⟩, hv⟩
        · intro hno
          rw [hchanged] at hno
          cases hno
      · rw [wp_bind, onWorld, wp_zoom, closeQuietly, wp_modify, wp_raise]
        exact hkept.trans ⟨⟨Nat.le_succ _, le_rfl⟩, rfl, rfl, rfl, rfl, rfl, rfl, rfl⟩
    · rename_i hsame
      refine ⟨hkept, hdraft, fun _ ↦ ?_⟩
      simp only [Bool.not_eq_true, Bool.not_eq_false', Bool.and_eq_true, decide_eq_true_eq] at hsame
      exact hsame.2
  · intro e w' hrun
    have hlater := wp_raised (wp_make s.self.manifest (some s.self.build) false s.world) hrun
    exact ⟨hlater, rfl, rfl, rfl, rfl, rfl, rfl, rfl⟩

end Daemon
end HsUploader
