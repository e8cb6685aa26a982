import Mathlib.Data.Finset.Basic
import Mathlib.Logic.Function.Basic
import Mathlib.Logic.Relation
import HsUploader.SinkSwitch.ReadSwitch

/-!
# The cache of `read_switch`

Calls of `read_switch` on several threads look at one switch file, each in steps of its own
(`stat`, look up, read, store), while the file is created, replaced and removed.  No signature is
used twice.

A cache entry may pair an old signature with a newer content.  What makes it harmless is `Fresh`:
every call under way that has seen a file of the entry's signature has also seen, since it began, a
content that reads as the entry says.
-/

set_option autoImplicit false

namespace HsUploader.SinkSwitch.Cache

/-- `_signature(st)`. -/
structure Signature where
  mtimeNs : ℤ
  size : ℕ
  ino : ℕ
  deriving DecidableEq

/-- A file at the path: writing it anew replaces it, so that its bytes never change. -/
structure File where
  sig : Signature
  content : Bytes

/-- The next step of a call of `read_switch`, or how it ended. -/
inductive Pc (F : Type) where
  | stat
  | pop
  | lookup (sig : Signature)
  | parse (sig : Signature)
  | store (sig : Signature) (res : SwitchRead F)
  | returned (res : SwitchRead F)
  | raised (e : Exn)

/-- The call is under way. -/
def Pc.running {F : Type} : Pc F → Bool
  | .returned _ => false
  | .raised _ => false
  | _ => true

/-- A call of `read_switch(path, cache=cache)`, with what has stood at the path since it began, up
to its end. -/
structure Call (F : Type) where
  cache : Bool
  pc : Pc F
  stood : List (Option File)

/-- The path changes. -/
def Call.saw {F : Type} (x : Option File) (c : Call F) : Call F :=
  if c.pc.running then { c with stood := x :: c.stood } else c

/-- What stands at the path, the signatures used so far, the path's entry in `_cache`, and each
thread's call. -/
structure World (F : Type) where
  file : Option File
  used : List Signature
  cache : Option (Signature × SwitchRead F) := none
  calls : ℕ → Option (Call F) := fun _ ↦ none

namespace World

variable {F : Type}

/-- Something else stands at the path. -/
def change (s : World F) (x : Option File) : World F :=
  { s with file := x, calls := fun i ↦ (s.calls i).map (Call.saw x) }

/-- A thread's call goes on. -/
def set (s : World F) (i : ℕ) (c : Call F) : World F :=
  { s with calls := Function.update s.calls i (some c) }

/-- The world before the first call. -/
def start (file : Option File) : World F := { file, used := file.toList.map File.sig }

end World

section

variable {F : Type} (it : Interpreter F) (path : Text)

/-- What a file reads as. -/
def readsAs (x : Option File) : Except Exn (SwitchRead F) := parse it path (x.map File.content)

/-- One step: of the path, or of a thread in `read_switch`.  `errs` are the `OSError`s that
looking and reading may raise. -/
inductive Step (errs : Text → Prop) : World F → World F → Prop where
  /-- The file is created or replaced. -/
  | put {s : World F} (f : File) (hnew : f.sig ∉ s.used) :
    Step errs s { s.change (some f) with used := f.sig :: s.used }
  | remove {s : World F} : Step errs s (s.change none)
  | begin {s : World F} (i : ℕ) (cache : Bool)
      (hidle : ∀ c, s.calls i = some c → c.pc.running = false) :
    Step errs s (s.set i { cache, pc := .stat, stood := [s.file] })
  | statFound {s : World F} {i : ℕ} {c : Call F} (hc : s.calls i = some c) (hpc : c.pc = .stat)
      {f : File} (hf : s.file = some f) :
    Step errs s (s.set i { c with pc := if c.cache then .lookup f.sig else .parse f.sig })
  | statMissing {s : World F} {i : ℕ} {c : Call F} (hc : s.calls i = some c) (hpc : c.pc = .stat)
      (hf : s.file = none) : Step errs s (s.set i { c with pc := .pop })
  | statFails {s : World F} {i : ℕ} {c : Call F} (hc : s.calls i = some c) (hpc : c.pc = .stat)
      {e : Text} (he : errs e) :
    Step errs s (s.set i { c with pc := .returned (.unreadable path e) })
  | pop {s : World F} {i : ℕ} {c : Call F} (hc : s.calls i = some c) (hpc : c.pc = .pop) :
    Step errs s { s.set i { c with pc := .returned .absent } with cache := none }
  | hit {s : World F} {i : ℕ} {c : Call F} {sig : Signature} {res : SwitchRead F}
      (hc : s.calls i = some c) (hpc : c.pc = .lookup sig) (hhit : s.cache = some (sig, res)) :
    Step errs s (s.set i { c with pc := .returned res })
  | miss {s : World F} {i : ℕ} {c : Call F} {sig : Signature} (hc : s.calls i = some c)
      (hpc : c.pc = .lookup sig) (hmiss : ∀ res, s.cache ≠ some (sig, res)) :
    Step errs s (s.set i { c with pc := .parse sig })
  | parse {s : World F} {i : ℕ} {c : Call F} {sig : Signature} {res : SwitchRead F}
      (hc : s.calls i = some c) (hpc : c.pc = .parse sig)
      (hres : readsAs it path s.file = .ok res) :
    Step errs s (s.set i { c with pc := .store sig res })
  | parseRaises {s : World F} {i : ℕ} {c : Call F} {sig : Signature} {e : Exn}
      (hc : s.calls i = some c) (hpc : c.pc = .parse sig)
      (hres : readsAs it path s.file = .error e) :
    Step errs s (s.set i { c with pc := .raised e })
  | readFails {s : World F} {i : ℕ} {c : Call F} {sig : Signature} (hc : s.calls i = some c)
      (hpc : c.pc = .parse sig) {e : Text} (he : errs e) :
    Step errs s (s.set i { c with pc := .store sig (.unreadable path e) })
  | store {s : World F} {i : ℕ} {c : Call F} {sig : Signature} {res : SwitchRead F}
      (hc : s.calls i = some c) (hpc : c.pc = .store sig res) :
    Step errs s { s.set i { c with pc := .returned res } with cache := some (sig, res) }

/-- The worlds that steps lead to. -/
def Reached (errs : Text → Prop) (s : World F) : Prop :=
  ∃ file, Relation.ReflTransGen (Step it path errs) (World.start file) s

/-! ## The invariant -/

/-- The result is what an `OSError` gives. -/
def FromError (errs : Text → Prop) (res : SwitchRead F) : Prop :=
  ∃ e, errs e ∧ res = .unreadable path e

/-- A content that reads as the result has stood at the path since the call began. -/
def StoodFor (c : Call F) (res : SwitchRead F) : Prop := ∃ x ∈ c.stood, readsAs it path x = .ok res

/-- The result may be paired with the signature: what stands at the path with this signature, now
or in sight of a call under way, reads so, or the call has seen something else that does. -/
structure Fresh (s : World F) (sig : Signature) (res : SwitchRead F) : Prop where
  used : sig ∈ s.used
  now : ∀ f, s.file = some f → f.sig = sig → readsAs it path (some f) = .ok res
  calls : ∀ i c f, s.calls i = some c → c.pc.running → some f ∈ c.stood → f.sig = sig →
    StoodFor it path c res

/-- What a call has come to. -/
def Call.Sound (errs : Text → Prop) (s : World F) (c : Call F) : Prop :=
  match c.pc with
  | .lookup sig => sig ∈ s.used ∧ ∃ f, some f ∈ c.stood ∧ f.sig = sig
  | .parse sig => sig ∈ s.used
  | .store sig res =>
    (Fresh it path s sig res ∧ StoodFor it path c res) ∨ FromError path errs res
  | .returned res => StoodFor it path c res ∨ FromError path errs res
  | .pop => none ∈ c.stood
  | _ => True

/-- What holds in every world reached. -/
structure World.Sound (errs : Text → Prop) (s : World F) : Prop where
  fileUsed : ∀ f, s.file = some f → f.sig ∈ s.used
  stood : ∀ i c, s.calls i = some c → c.pc.running → s.file ∈ c.stood
  calls : ∀ i c, s.calls i = some c → c.Sound it path errs s
  cache : ∀ sig res, s.cache = some (sig, res) → Fresh it path s sig res ∨ FromError path errs res

variable {it path} {errs : Text → Prop} {s : World F}

/-! ## What each step keeps -/

theorem StoodFor.saw {c : Call F} {res : SwitchRead F} (h : StoodFor it path c res)
    (x : Option File) : StoodFor it path (c.saw x) res := by
  obtain ⟨y, hy, hres⟩ := h
  rw [Call.saw]
  split_ifs
  · exact ⟨y, List.mem_cons_of_mem _ hy, hres⟩
  · exact ⟨y, hy, hres⟩

theorem Call.saw_pc (x : Option File) (c : Call F) : (c.saw x).pc = c.pc := by
  rw [Call.saw]
  split_ifs <;> rfl

theorem Call.mem_saw {x y : Option File} {c : Call F} (hc : c.pc.running)
    (h : y ∈ (c.saw x).stood) : y = x ∨ y ∈ c.stood := by
  rw [Call.saw, if_pos hc] at h
  exact List.mem_cons.mp h

theorem Call.mem_saw_of_mem {x y : Option File} {c : Call F} (h : y ∈ c.stood) :
    y ∈ (c.saw x).stood := by
  rw [Call.saw]
  split_ifs
  · exact List.mem_cons_of_mem _ h
  · exact h

theorem World.calls_change {x : Option File} {i : ℕ} {c : Call F}
    (h : (s.change x).calls i = some c) : ∃ c₀, s.calls i = some c₀ ∧ c = c₀.saw x := by
  obtain ⟨c₀, hc₀, rfl⟩ := Option.map_eq_some_iff.mp h
  exact ⟨c₀, hc₀, rfl⟩

theorem World.calls_set {i j : ℕ} {c c' : Call F} (h : (s.set i c).calls j = some c') :
    (j = i ∧ c' = c) ∨ (j ≠ i ∧ s.calls j = some c') := by
  have hcalls : (s.set i c).calls = Function.update s.calls i (some c) := rfl
  rw [hcalls] at h
  by_cases hj : j = i
  · rw [hj, Function.update_self] at h
    exact .inl ⟨hj, (Option.some.inj h).symm⟩
  · rw [Function.update_of_ne hj] at h
    exact .inr ⟨hj, h⟩

/-- A change of the path keeps pairs fresh: what comes has a signature of its own. -/
theorem Fresh.change {sig : Signature} {res : SwitchRead F} (h : Fresh it path s sig res)
    {x : Option File} {used : List Signature} (hused : ∀ g ∈ s.used, g ∈ used)
    (hnew : ∀ f, x = some f → f.sig ∉ s.used) :
    Fresh it path { s.change x with used := used } sig res := by
  refine ⟨hused _ h.used, fun f hf hsig ↦ ?_, fun i c f hc hrun hf hsig ↦ ?_⟩
  · exact absurd (hsig ▸ h.used) (hnew f hf)
  · obtain ⟨c₀, hc₀, rfl⟩ := World.calls_change hc
    rw [Call.saw_pc] at hrun
    rcases Call.mem_saw hrun hf with hx | hmem
    · exact absurd (hsig ▸ h.used) (hnew f hx.symm)
    · exact (h.calls i c₀ f hc₀ hrun hmem hsig).saw x

/-- A thread's own step keeps pairs fresh where its call has seen nothing new. -/
theorem Fresh.set {sig : Signature} {res : SwitchRead F} (h : Fresh it path s sig res) {i : ℕ}
    {c : Call F} (hc : c.pc.running → ∀ f, some f ∈ c.stood → f.sig = sig → StoodFor it path c res)
    {cache : Option (Signature × SwitchRead F)} :
    Fresh it path { s.set i c with cache := cache } sig res := by
  refine ⟨h.used, h.now, fun j c' f hc' hrun hf hsig ↦ ?_⟩
  rcases World.calls_set hc' with ⟨-, rfl⟩ | ⟨-, hc'⟩
  · exact hc hrun f hf hsig
  · exact h.calls j c' f hc' hrun hf hsig

theorem Fresh.set_same {sig : Signature} {res : SwitchRead F} (h : Fresh it path s sig res)
    {i : ℕ} {c : Call F} (hc : s.calls i = some c) (hrun : c.pc.running) {pc : Pc F}
    {cache : Option (Signature × SwitchRead F)} :
    Fresh it path { s.set i { c with pc } with cache := cache } sig res :=
  h.set (c := { c with pc }) fun _ f hf hsig ↦ h.calls i c f hc hrun hf hsig

theorem sound_change (h : s.Sound it path errs) {x : Option File} {used : List Signature}
    (hused : ∀ g ∈ s.used, g ∈ used) (hx : ∀ f, x = some f → f.sig ∈ used)
    (hnew : ∀ f, x = some f → f.sig ∉ s.used) :
    World.Sound it path errs { s.change x with used := used } := by
  refine ⟨hx, fun i c hc hrun ↦ ?_, fun i c hc ↦ ?_, fun sig res hcache ↦ ?_⟩
  · obtain ⟨c₀, hc₀, rfl⟩ := World.calls_change hc
    rw [Call.saw_pc] at hrun
    rw [Call.saw, if_pos hrun]
    exact List.mem_cons_self
  · obtain ⟨c₀, hc₀, rfl⟩ := World.calls_change hc
    have hsound := h.calls i c₀ hc₀
    rw [Call.Sound] at hsound ⊢
    rw [Call.saw_pc]
    cases hpc : c₀.pc with
    | lookup sig =>
      rw [hpc] at hsound
      obtain ⟨hsig, f, hf, hfsig⟩ := hsound
      exact ⟨hused _ hsig, f, Call.mem_saw_of_mem hf, hfsig⟩
    | parse sig => rw [hpc] at hsound; exact hused _ hsound
    | store sig res =>
      rw [hpc] at hsound
      exact hsound.imp (fun hf ↦ ⟨hf.1.change hused hnew, hf.2.saw x⟩) id
    | returned res => rw [hpc] at hsound; exact hsound.imp (·.saw x) id
    | pop => rw [hpc] at hsound; exact Call.mem_saw_of_mem hsound
    | stat => trivial
    | raised e => trivial
  · exact (h.cache sig res hcache).imp (·.change hused hnew) id

/-- A thread's own step keeps everything where the call it leaves is sound and no cached pair is
spoilt. -/
theorem sound_set (h : s.Sound it path errs) {i : ℕ} {c : Call F}
    {cache : Option (Signature × SwitchRead F)}
    (hfile : c.pc.running → s.file ∈ c.stood)
    (hfresh : ∀ sig res, Fresh it path s sig res →
      Fresh it path { s.set i c with cache := cache } sig res)
    (hc : c.Sound it path errs { s.set i c with cache := cache })
    (hcache : ∀ sig res, cache = some (sig, res) →
      Fresh it path s sig res ∨ FromError path errs res) :
    World.Sound it path errs { s.set i c with cache := cache } := by
  refine ⟨h.fileUsed, fun j c' hc' hrun ↦ ?_, fun j c' hc' ↦ ?_, fun sig res hsr ↦ ?_⟩
  · rcases World.calls_set hc' with ⟨-, rfl⟩ | ⟨-, hc'⟩
    · exact hfile hrun
    · exact h.stood j c' hc' hrun
  · rcases World.calls_set hc' with ⟨-, rfl⟩ | ⟨-, hc'⟩
    · exact hc
    · have hsound := h.calls j c' hc'
      rw [Call.Sound] at hsound ⊢
      cases hpc : c'.pc with
      | store sig res =>
        rw [hpc] at hsound
        exact hsound.imp (fun hf ↦ ⟨hfresh sig res hf.1, hf.2⟩) id
      | lookup sig => rw [hpc] at hsound; exact hsound
      | parse sig => rw [hpc] at hsound; exact hsound
      | returned res => rw [hpc] at hsound; exact hsound
      | pop => rw [hpc] at hsound; exact hsound
      | stat => trivial
      | raised e => trivial
  · exact (hcache sig res hsr).imp (hfresh sig res) id

/-- The same for a step that only moves its call on. -/
theorem sound_goOn (h : s.Sound it path errs) {i : ℕ} {c : Call F} (hc : s.calls i = some c)
    (hrun : c.pc.running) {pc : Pc F} {cache : Option (Signature × SwitchRead F)}
    (hpc : Call.Sound it path errs { s.set i { c with pc } with cache := cache } { c with pc })
    (hcache : ∀ sig res, cache = some (sig, res) →
      Fresh it path s sig res ∨ FromError path errs res) :
    World.Sound it path errs { s.set i { c with pc } with cache := cache } :=
  sound_set h (fun _ ↦ h.stood i c hc hrun) (fun _ _ hf ↦ hf.set_same hc hrun) hpc hcache

theorem sound_step {s' : World F} (h : s.Sound it path errs) (hstep : Step it path errs s s') :
    s'.Sound it path errs := by
  cases hstep with
  | put f hnew =>
    refine sound_change h (fun g hg ↦ List.mem_cons_of_mem _ hg) ?_ ?_
    · rintro g ⟨⟩
      exact List.mem_cons_self
    · rintro g ⟨⟩
      exact hnew
  | remove => exact sound_change h (fun g hg ↦ hg) (by simp) (by simp)
  | begin i cache hidle =>
    refine sound_set h (fun _ ↦ List.mem_cons_self) (fun sig res hf ↦ ?_) trivial h.cache
    refine hf.set fun _ f hmem hsig ↦ ?_
    have hnow := List.mem_singleton.mp hmem
    exact ⟨some f, hmem, hf.now f hnow.symm hsig⟩
  | @statFound i c hc hpc f hf =>
    refine sound_goOn h hc (by rw [hpc]; rfl) ?_ h.cache
    rw [Call.Sound]
    dsimp only
    split_ifs
    · exact ⟨h.fileUsed f hf, f, hf ▸ h.stood i c hc (by rw [hpc]; rfl), rfl⟩
    · exact h.fileUsed f hf
  | @statMissing i c hc hpc hf =>
    have hnone : none ∈ c.stood := hf ▸ h.stood i c hc (by rw [hpc]; rfl)
    exact sound_goOn h hc (by rw [hpc]; rfl) hnone h.cache
  | @statFails i c hc hpc e he =>
    exact sound_goOn h hc (by rw [hpc]; rfl) (.inr ⟨e, he, rfl⟩) h.cache
  | @pop i c hc hpc =>
    have hsound := h.calls i c hc
    rw [Call.Sound, hpc] at hsound
    exact sound_goOn h hc (by rw [hpc]; rfl) (.inl ⟨none, hsound, rfl⟩) (by simp)
  | @hit i c sig res hc hpc hhit =>
    have hrun : c.pc.running := by rw [hpc]; rfl
    have hsound := h.calls i c hc
    rw [Call.Sound, hpc] at hsound
    obtain ⟨-, f, hf, hsig⟩ := hsound
    refine sound_goOn h hc hrun ?_ h.cache
    rcases h.cache sig res hhit with hfresh | herr
    · exact .inl (hfresh.calls i c f hc hrun hf hsig)
    · exact .inr herr
  | @miss i c sig hc hpc hmiss =>
    have hsound := h.calls i c hc
    rw [Call.Sound, hpc] at hsound
    exact sound_goOn h hc (by rw [hpc]; rfl) hsound.1 h.cache
  | @parse i c sig res hc hpc hres =>
    have hrun : c.pc.running := by rw [hpc]; rfl
    have hused := h.calls i c hc
    rw [Call.Sound, hpc] at hused
    have hfresh : Fresh it path s sig res :=
      ⟨hused, fun f hf _ ↦ hf ▸ hres, fun j c' f hc' hrun' _ _ ↦
        ⟨s.file, h.stood j c' hc' hrun', hres⟩⟩
    refine sound_goOn h hc hrun (.inl ⟨hfresh.set_same hc hrun, ?_⟩) h.cache
    exact ⟨s.file, h.stood i c hc hrun, hres⟩
  | @parseRaises i c sig e hc hpc hres =>
    exact sound_goOn h hc (by rw [hpc]; rfl) trivial h.cache
  | @readFails i c sig hc hpc e he =>
    exact sound_goOn h hc (by rw [hpc]; rfl) (.inr ⟨e, he, rfl⟩) h.cache
  | @store i c sig res hc hpc =>
    have hsound := h.calls i c hc
    rw [Call.Sound, hpc] at hsound
    refine sound_goOn h hc (by rw [hpc]; rfl) (hsound.imp (·.2) id) ?_
    rintro sig' res' ⟨⟩
    exact hsound.imp (·.1) id

theorem sound_start (file : Option File) :
    World.Sound it path errs (World.start file : World F) := by
  refine ⟨fun f hf ↦ ?_, by simp [World.start], by simp [World.start], by simp [World.start]⟩
  have : file = some f := hf
  simp [World.start, this]

theorem sound_of_reached (h : Reached it path errs s) : s.Sound it path errs := by
  obtain ⟨file, hrun⟩ := h
  induction hrun with
  | refl => exact sound_start file
  | tail _ hstep ih => exact sound_step ih hstep

/-- **No answer is stale**: what a call of `read_switch` returns is how a content reads that has
stood at the path since the call began, or else the answer to an `OSError`. -/
theorem answer_stood (h : Reached it path errs s) {i : ℕ} {c : Call F} (hc : s.calls i = some c)
    {res : SwitchRead F} (hres : c.pc = .returned res) :
    (StoodFor it path c res ∨ FromError path errs res) ∧
      ((∀ e, ¬ errs e) → StoodFor it path c res) := by
  have hsound := (sound_of_reached h).calls i c hc
  rw [Call.Sound, hres] at hsound
  refine ⟨hsound, fun hnone ↦ hsound.resolve_right ?_⟩
  rintro ⟨e, he, -⟩
  exact hnone e he

end

/-! ## A read that pairs an old signature with a newer content -/

/-- An interpreter that finds `state = "off"` in every text. -/
def offInterpreter : Interpreter ℤ where
  loads _ := .ok [("state".toList, .str "off".toList)]
  undecodable _ := []
  reprState _ := []

/-- Two files, one after the other. -/
def firstFile : File := ⟨⟨1, 6, 10⟩, encodeUtf8 "first\n".toList⟩

def secondFile : File := ⟨⟨2, 7, 11⟩, encodeUtf8 "second\n".toList⟩

/-- What both read as. -/
def offRead : SwitchRead ℤ :=
  { state := some "off".toList, missing := false, error := []
    data := [("state".toList, .str "off".toList)] }

theorem readsAs_secondFile :
    readsAs offInterpreter [] (some secondFile) = .ok offRead := by
  rw [readsAs, Option.map_some, parse, secondFile, decodeUtf8_encodeUtf8]
  rfl

/-- The call on thread 0, at its next step. -/
def zeroCall (pc : Pc ℤ) (stood : List (Option File)) : Call ℤ := { cache := true, pc, stood }

/-- The run: the file is replaced between the call's `stat` and its read. -/
theorem reached_replaced : ∃ s : World ℤ, Reached offInterpreter [] (fun _ ↦ False) s ∧
    s.calls 0 = some (zeroCall (.returned offRead) [some secondFile, some firstFile]) ∧
    s.cache = some (firstFile.sig, offRead) := by
  have hrun := Relation.ReflTransGen.refl
    (r := Step offInterpreter [] fun _ ↦ False) (a := World.start (some firstFile))
  have hrun := hrun.tail (.begin 0 true (by simp [World.start]))
  have hrun := hrun.tail (.statFound (i := 0) rfl rfl rfl)
  have hrun := hrun.tail (.miss (i := 0) rfl rfl (by simp [World.start, World.set]))
  have hrun := hrun.tail (.put secondFile (by decide))
  have hrun := hrun.tail (.parse (i := 0) rfl rfl readsAs_secondFile)
  have hrun := hrun.tail (.store (i := 0) rfl rfl)
  exact ⟨_, ⟨_, hrun⟩, rfl, rfl⟩

theorem answer_stood_replaced : ∃ s : World ℤ, Reached offInterpreter [] (fun _ ↦ False) s ∧
    (StoodFor offInterpreter [] (zeroCall (.returned offRead) [some secondFile, some firstFile])
        offRead ∨ FromError [] (fun _ ↦ False) offRead) ∧
      ((∀ e : Text, ¬ (fun _ ↦ False) e) → StoodFor offInterpreter []
        (zeroCall (.returned offRead) [some secondFile, some firstFile]) offRead) := by
  obtain ⟨s, hs, hcall, -⟩ := reached_replaced
  exact ⟨s, hs, answer_stood hs hcall rfl⟩

end HsUploader.SinkSwitch.Cache
