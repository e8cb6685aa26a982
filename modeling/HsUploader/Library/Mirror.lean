import HsUploader.Library.Transfer

/-!
# Sending a tree

A tree is sent by making its directories and writing its files under their own names, in one
session. A directory may stand already, so the lines that make one are tolerant; a file that cannot
be written ends the session (`Mirror`).

A session that goes on has brought every file (`steps_delivered`), also where one file is written
twice, as long as it is the same file (`Agree`).  One that nothing comes between goes on, if each
line finds the directory it needs among those that are known or made before it (`Orderly`).

## What is here

* `Mirror`, `Agree`, `Orderly` — the shape of a session, as conditions on its lines alone.
* `Fits` — the tree has a place for what the lines bring.
* `Delivered` — each file of the session stands in its place, whole.
* `steps_delivered` — however the session was disturbed, if it went on to its end.
* `mirror_quiet` — an undisturbed one goes on.
-/

set_option autoImplicit false

namespace Transfer

variable {κ β : Type}

/-- The lines make directories and write files. -/
def Mirror (ls : List (Line κ β)) : Prop :=
  ∀ l ∈ ls, (∃ p, l = ⟨true, .makeDir p⟩) ∨ ∃ data p, l = ⟨false, .put data p⟩

/-- What is written at one path is one file. -/
def Agree (ls : List (Line κ β)) : Prop :=
  ∀ data data' p, (⟨false, .put data p⟩ : Line κ β) ∈ ls → ⟨false, .put data' p⟩ ∈ ls → data = data'

/-- Each line finds the directory for its path among those that are known or made before it. -/
def Orderly (srv : Server κ) : (κ → Prop) → List (Line κ β) → Prop
  | _, [] => True
  | known, l :: ls => (∀ p ∈ l.op.touched, ∀ q, srv.parent p = some q → known q) ∧
    Orderly srv (fun q ↦ known q ∨ l.op = .makeDir q) ls

theorem Orderly.mono {srv : Server κ} {known known' : κ → Prop} {ls : List (Line κ β)}
    (h : Orderly srv known ls) (hle : ∀ q, known q → known' q) : Orderly srv known' ls := by
  induction ls generalizing known known' with
  | nil => trivial
  | cons l ls ih => exact ⟨fun p hp q hq ↦ hle q (h.1 p hp q hq), ih h.2 fun q ↦ Or.imp_left (hle q)⟩

theorem orderly_of_forall {srv : Server κ} {known : κ → Prop} {ls : List (Line κ β)}
    (h : ∀ l ∈ ls, ∀ p ∈ l.op.touched, ∀ q, srv.parent p = some q → known q) :
    Orderly srv known ls := by
  induction ls generalizing known with
  | nil => trivial
  | cons l ls ih =>
    rw [List.forall_mem_cons] at h
    exact ⟨h.1, ih fun m hm p hp q hq ↦ .inl (h.2 m hm p hp q hq)⟩

theorem Orderly.append {srv : Server κ} {known : κ → Prop} {ls ls' : List (Line κ β)}
    (h : Orderly srv known ls)
    (h' : Orderly srv (fun q ↦ known q ∨ ∃ l ∈ ls, l.op = .makeDir q) ls') :
    Orderly srv known (ls ++ ls') := by
  induction ls generalizing known with
  | nil => exact h'.mono fun q hq ↦ hq.resolve_right fun hmem ↦ by simp at hmem
  | cons l ls ih =>
    refine ⟨h.1, ih h.2 (h'.mono fun q hq ↦ ?_)⟩
    rcases hq with hq | ⟨m, hm, hq⟩
    · exact .inl (.inl hq)
    · rcases List.mem_cons.mp hm with rfl | hm
      · exact .inl (.inr hq)
      · exact .inr ⟨m, hm, hq⟩

namespace Server

/-- The tree has a place for what the lines bring: a directory or nothing where a directory is to
be, no directory where a file is to be, and the files can be read. -/
structure Fits (ls : List (Line κ β)) (t : Tree κ β) : Prop where
  dirs : ∀ p, (⟨true, .makeDir p⟩ : Line κ β) ∈ ls → (t p).all Node.isDir = true
  files : ∀ data p, (⟨false, .put data p⟩ : Line κ β) ∈ ls → (t p).any Node.isDir = false
  read : ∀ data p, (⟨false, .put data p⟩ : Line κ β) ∈ ls → data.isSome = true
  apart : ∀ data p, (⟨false, .put data p⟩ : Line κ β) ∈ ls → ⟨true, .makeDir p⟩ ∉ ls

theorem Fits.tail {l : Line κ β} {ls : List (Line κ β)} {t : Tree κ β} (h : Fits (l :: ls) t) :
    Fits ls t where
  dirs p hp := h.dirs p (List.mem_cons_of_mem l hp)
  files data p hp := h.files data p (List.mem_cons_of_mem l hp)
  read data p hp := h.read data p (List.mem_cons_of_mem l hp)
  apart data p hp hdir := h.apart data p (List.mem_cons_of_mem l hp) (List.mem_cons_of_mem l hdir)

variable [DecidableEq κ] {srv : Server κ} {t : Tree κ β} {ls : List (Line κ β)}
  {faults : ℕ → Fault} {i : ℕ}

/-- The file of each line that writes one stands in its place. -/
def Delivered (ls : List (Line κ β)) (t : Tree κ β) : Prop :=
  ∀ data p, (⟨false, .put data p⟩ : Line κ β) ∈ ls →
    ∃ z, data = some z ∧ t p = some (.file z)

/-- **A session that goes on has brought every file.** -/
theorem steps_delivered (hmirror : Mirror ls) (hagree : Agree ls)
    (h : (srv.steps faults i ls t).2 = true) : Delivered ls (srv.steps faults i ls t).1 := by
  -- the invariant: what the lines so far have written stands
  suffices hrule : True ∧ ((srv.steps faults i ls t).2 = true →
      ∃ before, ls = before ++ [] ∧ Delivered before (srv.steps faults i ls t).1) by
    obtain ⟨before, heq, hdelivered⟩ := hrule.2 h
    rw [List.append_nil] at heq
    rw [heq] at hdelivered ⊢
    exact hdelivered
  refine steps_rule (I := fun rest t₁ ↦ ∃ before, ls = before ++ rest ∧ Delivered before t₁)
    (J := fun _ ↦ True) (fun _ _ _ ↦ trivial) ?_ ?_
    ⟨[], rfl, fun _ _ hmem ↦ absurd hmem List.not_mem_nil⟩
  · rintro l rest t₁ t₂ ⟨before, heq, hdelivered⟩ hexec
    refine ⟨before ++ [l], by rw [heq, List.append_assoc, List.singleton_append], ?_⟩
    have hl : l ∈ ls := heq ▸ List.mem_append_right _ List.mem_cons_self
    rcases hmirror l hl with ⟨q, rfl⟩ | ⟨data', q, rfl⟩
    · obtain ⟨-, hnone, rfl⟩ := exec_makeDir hexec
      intro data p hmem
      rcases List.mem_append.mp hmem with hmem | hmem
      · obtain ⟨z, hz, hp⟩ := hdelivered data p hmem
        refine ⟨z, hz, ?_⟩
        rw [Function.update_of_ne (fun heq ↦ by rw [heq, hnone] at hp; cases hp), hp]
      · cases List.mem_singleton.mp hmem
    · obtain ⟨z', rfl, -, rfl⟩ := exec_put hexec
      intro data p hmem
      by_cases hp : p = q
      · subst hp
        have hsame : data = some z' := by
          refine hagree data (some z') p ?_ hl
          rcases List.mem_append.mp hmem with hmem | hmem
          · exact heq ▸ List.mem_append_left _ hmem
          · rw [List.mem_singleton.mp hmem]
            exact hl
        exact ⟨z', hsame, Function.update_self ..⟩
      · rcases List.mem_append.mp hmem with hmem | hmem
        · obtain ⟨z, hz, hstands⟩ := hdelivered data p hmem
          exact ⟨z, hz, (Function.update_of_ne hp _ _).trans hstands⟩
        · cases List.mem_singleton.mp hmem
          exact absurd rfl hp
  · rintro l rest t₁ w ⟨before, heq, hdelivered⟩
    refine ⟨trivial, fun htol ↦ ⟨before ++ [l], ?_, ?_⟩⟩
    · rw [heq, List.append_assoc, List.singleton_append]
    · have hl : l ∈ ls := heq ▸ List.mem_append_right _ List.mem_cons_self
      rcases hmirror l hl with ⟨q, rfl⟩ | ⟨data', q, rfl⟩
      · intro data p hmem
        rcases List.mem_append.mp hmem with hmem | hmem
        · exact hdelivered data p hmem
        · cases List.mem_singleton.mp hmem
      · cases htol

/-- A directory is made, or stands already. -/
theorem Fits.makeDir {p : κ} (h : Fits (⟨true, .makeDir p⟩ :: ls) t) (hroom : srv.room t p = true) :
    ∃ t₁, srv.step t ⟨true, .makeDir p⟩ .none = (t₁, true) ∧
      (∀ q, (t q).any Node.isDir = true → (t₁ q).any Node.isDir = true) ∧
      (t₁ p).any Node.isDir = true ∧ Fits ls t₁ := by
  cases hp : t p with
  | none =>
    have hexec : srv.exec t (.makeDir p) = some (Function.update t p (some .dir)) := by
      simp [exec, hroom, hp]
    refine ⟨_, by rw [step, hexec], fun q hq ↦ exec_isDir hexec hq, ?_, fun q hq ↦ ?_,
      fun data q hq ↦ ?_, h.tail.read, h.tail.apart⟩
    · rw [Function.update_self]
      rfl
    · by_cases hqp : q = p
      · rw [hqp, Function.update_self]
        rfl
      · rw [Function.update_of_ne hqp]
        exact h.tail.dirs q hq
    · refine exec_not_isDir hexec ?_ (h.tail.files data q hq)
      rintro heq
      obtain rfl := Op.makeDir.inj heq
      exact h.apart data p (List.mem_cons_of_mem _ hq) List.mem_cons_self
  | some n =>
    have hdir := h.dirs p List.mem_cons_self
    have hexec : srv.exec t (.makeDir p) = none := by simp [exec, hp]
    refine ⟨t, by rw [step, hexec], fun q hq ↦ hq, ?_, h.tail⟩
    rw [hp] at hdir ⊢
    exact hdir

/-- A file is written. -/
theorem Fits.put {p : κ} {data : Option (List β)} (h : Fits (⟨false, .put data p⟩ :: ls) t)
    (hroom : srv.room t p = true) :
    ∃ t₁, srv.step t ⟨false, .put data p⟩ .none = (t₁, true) ∧
      (∀ q, (t q).any Node.isDir = true → (t₁ q).any Node.isDir = true) ∧ Fits ls t₁ := by
  have hfile := h.files data p List.mem_cons_self
  obtain ⟨z, rfl⟩ := Option.isSome_iff_exists.mp (h.read data p List.mem_cons_self)
  have hexec : srv.exec t (.put (some z) p) = some (Function.update t p (some (.file z))) := by
    simp only [exec, writable_iff.mpr ⟨hroom, hfile⟩, if_true]
  refine ⟨_, by rw [step, hexec], fun q hq ↦ exec_isDir hexec hq, fun q hq ↦ ?_,
    fun data' q hq ↦ not_isDir_update (h.tail.files data' q hq) rfl, h.tail.read, h.tail.apart⟩
  have hne : q ≠ p := by
    rintro rfl
    exact h.apart _ q List.mem_cons_self (List.mem_cons_of_mem _ hq)
  rw [Function.update_of_ne hne]
  exact h.tail.dirs q hq

/-- **A session nothing comes between brings the whole tree.** -/
theorem mirror_quiet {known : κ → Prop} (hmirror : Mirror ls) (horder : Orderly srv known ls)
    (hknown : ∀ q, known q → (t q).any Node.isDir = true) (hfits : Fits ls t) :
    (srv.steps quiet i ls t).2 = true ∧
      ∀ p, (⟨true, .makeDir p⟩ : Line κ β) ∈ ls →
        ((srv.steps quiet i ls t).1 p).any Node.isDir = true := by
  induction ls generalizing i t known with
  | nil => exact ⟨rfl, fun p hp ↦ absurd hp List.not_mem_nil⟩
  | cons l ls ih =>
    have hroom : ∀ p ∈ l.op.touched, srv.room t p = true := by
      intro p hp
      rw [room, Option.all_eq_true]
      exact fun q hq ↦ hknown q (horder.1 p hp q hq)
    have hrest : Mirror ls := fun m hm ↦ hmirror m (List.mem_cons_of_mem _ hm)
    -- one line comes to its end or stands already, and leaves a place for the others
    have hone : ∃ t₁, srv.step t l .none = (t₁, true) ∧
        (∀ q, (t q).any Node.isDir = true → (t₁ q).any Node.isDir = true) ∧
        (∀ q, l.op = .makeDir q → (t₁ q).any Node.isDir = true) ∧ Fits ls t₁ := by
      rcases hmirror l List.mem_cons_self with ⟨p, rfl⟩ | ⟨data, p, rfl⟩
      · obtain ⟨t₁, hstep, hdirs, hmade, hfits₁⟩ := hfits.makeDir (hroom p List.mem_cons_self)
        exact ⟨t₁, hstep, hdirs, fun q hq ↦ Op.makeDir.inj hq ▸ hmade, hfits₁⟩
      · obtain ⟨t₁, hstep, hdirs, hfits₁⟩ := hfits.put (hroom p List.mem_cons_self)
        exact ⟨t₁, hstep, hdirs, (fun q hq ↦ by cases hq), hfits₁⟩
    obtain ⟨t₁, hstep, hdirs, hmade, hfits₁⟩ := hone
    have hknown₁ : ∀ q, known q ∨ l.op = .makeDir q → (t₁ q).any Node.isDir = true := by
      rintro q (hq | hq)
      · exact hdirs q (hknown q hq)
      · exact hmade q hq
    obtain ⟨hgo, hthere⟩ := ih (i := i + 1) hrest horder.2 hknown₁ hfits₁
    rw [steps, quiet, hstep]
    refine ⟨hgo, fun p hp ↦ ?_⟩
    rcases List.mem_cons.mp hp with rfl | hp
    · exact steps_isDir (hmade p rfl)
    · exact hthere p hp

end Server

end Transfer
