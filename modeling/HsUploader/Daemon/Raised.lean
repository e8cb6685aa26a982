import HsUploader.Daemon.Reached
import HsUploader.Library.Except

/-!
# What raises before a rebuild's commit

The first half of a rebuild reads the files, builds what their entries ask for, reads the store's
version and records the pipelines' states.  An entry that does not build and a file that cannot be
read are refusals there and raise nothing; so do names and keys that collide.  What raises is one of
three answers of the host: the store's version, the recording of the states, or the key of a
pipeline (`Host.Firm` says that none of them does).

The argument follows the functions of a build.  All that is in the pool and all that is built has a
key (`Slot.Keyed`), and this is kept by filling the slots of a file (`Filling.keyed`), by trying the
file (`wp_tryFile_keyed`) and by the loop over the files; so that no look at a key raises, and what
is left are the two calls of the store (`wp_prepare_firm`).
-/

set_option autoImplicit false

namespace HsUploader
namespace Daemon

open Prog

variable {h : Host}

/-- Every pipeline of the slot has a key. -/
def Slot.Keyed (s : Slot) : Prop := ∀ p ∈ s.pipes, ∃ key, p.key = .ok key

/-- Whatever an entry builds has a key. -/
structure Host.Keys (h : Host) : Prop where
  generic : ∀ n e origin made, h.generic n e origin = .ok made → ∃ key, made.key = .ok key
  builder : ∀ n e made, h.builder n e = .ok made → ∀ m ∈ made, ∃ key, m.key = .ok key

/-- Every pipeline has a key, and from the state on the store's version can be read and the
pipelines' states can be recorded. -/
structure Host.Firm (h : Host) (s : State) : Prop where
  keys : h.Keys
  slots : ∀ slot ∈ s.self.build.slots, slot.Keyed
  version : ∀ n, s.world.now ≤ n → ∃ version, h.schemaVersion n = .ok version
  states : ∀ n, s.world.now ≤ n → h.recordStates n = .ok ()

/-! ## Slots -/

theorem wp_enlist_keyed (entry : Entry) (origin : String) (ms : List Made) (w : World)
    (hms : ∀ m ∈ ms, ∃ key, m.key = .ok key) :
    wp (enlist entry origin ms) (fun pipes _ ↦ ∀ p ∈ pipes, ∃ key, p.key = .ok key)
      (fun _ _ ↦ False) (fun _ ↦ False) w := by
  induction ms generalizing w with
  | nil => simp [enlist]
  | cons m ms ih =>
    rw [List.forall_mem_cons] at hms
    rw [enlist, wp_bind, wp_present, wp_bind, wp_birth, wp_bind]
    refine wp_mono_ok (ih _ hms.2) fun pipes w' hp ↦ ?_
    rw [wp_pure, List.forall_mem_cons]
    exact ⟨hms.1, hp⟩

theorem wp_buildOne_keyed (hk : h.Keys) (origin : String) (e : ℕ × Entry) (w : World) :
    wp (buildOne h origin e) (fun pipes _ ↦ ∀ p ∈ pipes, ∃ key, p.key = .ok key) (fun _ _ ↦ True)
      (fun _ ↦ False) w := by
  unfold buildOne
  split
  · rw [wp_bind, wp_call]
    split
    · rename_i made hmade
      exact wp_mono (wp_enlist_keyed _ _ _ _ (hk.builder _ _ _ hmade)) (fun _ _ hp ↦ hp)
        (fun _ _ h ↦ h.elim) fun _ h ↦ h
    · trivial
  · rw [wp_bind, wp_call]
    split
    · rename_i made hmade
      obtain ⟨key, hkey⟩ := hk.generic _ _ _ _ hmade
      exact wp_mono (wp_enlist_keyed _ _ _ _ (List.forall_mem_singleton.mpr ⟨key, hkey⟩))
        (fun _ _ hp ↦ hp) (fun _ _ h ↦ h.elim) fun _ h ↦ h
    · trivial

theorem Hatched.keyed {s : Slot} (hs : Hatched h s) (hk : h.Keys) : s.Keyed := by
  obtain ⟨i, w, -, ⟨w', hrun⟩ | ⟨-, hnil, -⟩⟩ := hs
  · exact wp_ok (wp_buildOne_keyed hk s.origin (i, s.entry) w) hrun
  · rw [Slot.Keyed, hnil]
    simp

/-- What is drawn from the pool had a key there, and what is built has one. -/
theorem Filling.keyed {as : List Ask} {pool pool' : List Slot} {b b' : Built}
    (hf : Filling h as pool b pool' b') (hk : h.Keys) (hpool : ∀ s ∈ pool, s.Keyed)
    (hb : ∀ s ∈ b.slots, s.Keyed) : (∀ s ∈ pool', s.Keyed) ∧ ∀ s ∈ b'.slots, s.Keyed := by
  induction hf with
  | done pool b => exact ⟨hpool, hb⟩
  | reuse htake _ ih =>
    have htaken := (Pool.take_eq_some htake).2.symm.subset
    refine ih (fun s hs ↦ hpool s (htaken (List.mem_cons_of_mem _ hs))) fun s hs ↦ ?_
    rcases List.mem_append.mp hs with hs | hs
    · exact hb s hs
    · rw [List.mem_singleton.mp hs]
      exact hpool _ (htaken List.mem_cons_self)
  | make _ _ hs _ ih =>
    refine ih hpool fun s hmem ↦ ?_
    rcases List.mem_append.mp hmem with hmem | hmem
    · exact hb s hmem
    · rw [List.mem_singleton.mp hmem]
      exact hs.keyed hk

theorem key_of_pipesOf {slots : List Slot} (hslots : ∀ s ∈ slots, s.Keyed) :
    ∀ p ∈ pipesOf slots, ∃ key, p.key = .ok key := by
  intro p hp
  obtain ⟨s, hs, hmem⟩ := List.mem_flatMap.mp hp
  exact hslots s hs p hmem

/-! ## Collisions -/

theorem exists_collision {p : Pipeline} {key : Key} (hkey : p.key = .ok key) (c : Claimed) :
    ∃ r, collision p c = .ok r := by
  rw [collision]
  split
  · exact ⟨_, rfl⟩
  · rw [hkey, Except.ok_bind]
    split
    · exact ⟨_, rfl⟩
    · exact ⟨_, rfl⟩

theorem exists_claimLegacy {ps : List Pipeline} (hps : ∀ p ∈ ps, ∃ key, p.key = .ok key)
    (c : Claimed) : ∃ c', claimLegacy ps c = .ok c' := by
  induction ps generalizing c with
  | nil => exact ⟨c, rfl⟩
  | cons p ps ih =>
    rw [List.forall_mem_cons] at hps
    obtain ⟨⟨key, hkey⟩, hps⟩ := hps
    obtain ⟨r, hr⟩ := exists_collision hkey c
    rw [claimLegacy, hr, Except.ok_bind, hkey, Except.ok_bind]
    exact ih hps _

theorem exists_admitAll {ps : List Pipeline} (hps : ∀ p ∈ ps, ∃ key, p.key = .ok key)
    (c : Claimed) : ∃ r, admitAll ps c = .ok r := by
  induction ps generalizing c with
  | nil => exact ⟨.ok c, rfl⟩
  | cons p ps ih =>
    rw [List.forall_mem_cons] at hps
    obtain ⟨⟨key, hkey⟩, hps⟩ := hps
    obtain ⟨r, hr⟩ := exists_collision hkey c
    rw [admitAll, hr, Except.ok_bind]
    cases r with
    | some reason => exact ⟨_, rfl⟩
    | none =>
      dsimp only
      rw [hkey, Except.ok_bind]
      exact ih hps _

/-! ## Files -/

/-- Trying a file raises nothing, and what is left in the pool has its keys. -/
theorem wp_tryFile_keyed (hk : h.Keys) (origin : String) (entries : List Entry) (d : Desk)
    (w : World) (hd : ∀ s ∈ d.pool, s.Keyed) :
    wp (tryFile h origin entries d) (fun r _ ↦ ∀ s ∈ r.2.pool, s.Keyed) (fun _ _ ↦ False)
      (fun _ ↦ False) w := by
  rw [tryFile, wp_bind]
  refine wp_mono (wp_buildFile origin (enumerate entries) d.pool {} w) ?_ (fun _ _ h ↦ h.elim)
    fun _ h ↦ h
  rintro ⟨built, pool⟩ w' (⟨b, rfl, hf⟩ | ⟨⟨reason, rfl⟩, hperm, -⟩)
  · obtain ⟨hpool, hslots⟩ := hf.keyed hk hd (by simp)
    obtain ⟨verdict, hv⟩ := exists_admitAll (key_of_pipesOf hslots) d.claimed
    dsimp only
    rw [wp_bind, wp_ofExcept, hv]
    cases verdict with
    | error reason =>
      dsimp only
      rw [wp_bind, closeQuietly, wp_modify, wp_pure]
      obtain ⟨slots, taken, made, -, htaken, -, -, -, hall, -⟩ := hf.spec
      intro s hs
      rcases List.mem_append.mp hs with hs | hs
      · exact hpool s hs
      · rw [htaken] at hs
        exact hd s (hall.symm.subset (List.mem_append_left _ (by simpa using hs)))
    | ok claimed => exact hpool
  · intro s hs
    exact hd s (by simpa using hperm.subset hs)

theorem wp_keepLast_keyed (hk : h.Keys) (prevGood : List (String × List Entry)) (origin : String)
    (d : Desk) (w : World) (hd : ∀ s ∈ d.pool, s.Keyed) :
    wp (keepLast h prevGood origin d) (fun d' _ ↦ ∀ s ∈ d'.pool, s.Keyed) (fun _ _ ↦ False)
      (fun _ ↦ False) w := by
  rw [keepLast]
  split
  · exact hd
  · rw [wp_bind]
    exact wp_mono_ok (wp_tryFile_keyed hk origin _ d w hd) fun _ _ hr ↦ hr

theorem wp_settleFiles_keyed (hk : h.Keys) (l : Layout) (prevGood : List (String × List Entry))
    (order : List String) (d : Desk) (w : World) (hd : ∀ s ∈ d.pool, s.Keyed) :
    wp (settleFiles h l prevGood order d) (fun _ _ ↦ True) (fun _ _ ↦ False) (fun _ ↦ False) w := by
  induction order generalizing d w with
  | nil => trivial
  | cons origin order ih =>
    rw [settleFiles, wp_bind]
    suffices hone : wp (settleFile h l prevGood origin d) (fun d' _ ↦ ∀ s ∈ d'.pool, s.Keyed)
        (fun _ _ ↦ False) (fun _ ↦ False) w from
      wp_mono_ok hone fun d' w' hd' ↦ ih d' w' hd'
    rw [settleFile]
    split
    · exact wp_keepLast_keyed hk prevGood origin _ w hd
    · rw [wp_bind]
      refine wp_mono_ok (wp_tryFile_keyed hk origin _ d w hd) ?_
      rintro ⟨reason | _, d'⟩ w' hd'
      · exact wp_keepLast_keyed hk prevGood origin _ w' hd'
      · exact hd'

/-! ## A build -/

theorem wp_assemble_keyed (hk : h.Keys) (l : Layout) (previous : Option Build) (w : World)
    (hprevious : ∀ s ∈ previous.elim [] Build.slots, s.Keyed) :
    wp (assemble h l previous false) (fun _ _ ↦ True) (fun _ _ ↦ False) (fun _ ↦ False) w := by
  rw [assemble, wp_bind]
  refine wp_mono (wp_buildLegacy false _ _ w) ?_ (fun _ _ h ↦ Bool.false_ne_true h) fun _ h ↦ h
  rintro ⟨legacy, pool⟩ w₁ hlegacy
  obtain ⟨hpool, hslots⟩ := hlegacy.keyed hk hprevious (by simp)
  obtain ⟨claimed, hclaimed⟩ := exists_claimLegacy (key_of_pipesOf hslots) {}
  dsimp only
  rw [wp_bind, wp_ofExcept, hclaimed]
  dsimp only
  rw [wp_bind]
  exact wp_mono_ok (wp_settleFiles_keyed hk l _ _ _ w₁ hpool) fun _ _ _ ↦ trivial

theorem wp_make_firm (hk : h.Keys) (manifest : Manifest) (previous : Option Build) (w : World)
    (hprevious : ∀ s ∈ previous.elim [] Build.slots, s.Keyed)
    (hversion : ∀ n, w.now ≤ n → ∃ version, h.schemaVersion n = .ok version) :
    wp (make h manifest previous false) (fun _ w' ↦ w.Later w') (fun _ _ ↦ False)
      (fun _ ↦ False) w := by
  rw [make, loadLayout, wp_bind, wp_bind]
  refine wp_mono (wp_readDirectory w) ?_ (fun _ _ h ↦ h.elim) fun _ h ↦ h
  rintro ⟨sig, seen⟩ w₁ ⟨-, hlater⟩
  rw [wp_pure, wp_bind]
  have hbuild := wp_assemble_keyed hk (layoutOf manifest sig seen) previous w₁ hprevious
  refine wp_mono (wp_self (wp_mono hbuild (fun _ _ _ ↦ trivial) (fun _ _ h ↦ h.elim)
    fun _ h ↦ h)) ?_ ?_ fun _ h ↦ h
  · intro build w₂ hrun
    have hlater₂ := wp_ok (ticks_assemble _ previous false w₁) hrun
    obtain ⟨version, hv⟩ := hversion w₂.now (hlater.now.trans hlater₂.now)
    rw [wp_bind, wp_attempt, wp_call, hv]
    exact hlater.trans (hlater₂.trans ⟨Nat.le_succ _, le_rfl⟩)
  · intro e w₂ hrun
    exact (wp_raised hbuild hrun).elim

/-- **Nothing raises before the commit** while the version, the states and the keys can be had. -/
theorem wp_prepare_firm (s : State) (hfirm : h.Firm s) :
    wp (prepare h) (fun _ _ ↦ True) (fun _ _ ↦ False) (fun _ ↦ False) s := by
  rw [prepare, wp_bind, wp_get, wp_bind, onWorld, wp_zoom]
  refine wp_mono_ok (wp_make_firm hfirm.keys s.self.manifest (some s.self.build) s.world
    hfirm.slots hfirm.version) fun draft w' hlater ↦ ?_
  dsimp only
  split
  · rw [wp_bind, wp_attempt, onWorld, wp_zoom, wp_call, hfirm.states w'.now hlater.now]
    trivial
  · trivial

end Daemon
end HsUploader
