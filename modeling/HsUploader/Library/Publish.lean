import HsUploader.Library.Transfer

/-!
# Publishing files

A file is published by writing it under another name and renaming it.  Several are published in one
session by writing them all first (`publishLines`); where a rename does not take the place of a
file, the file that stands there may be removed before.

Wherever such a session stops, what stands under a file's own name is what stood there before or the
whole file, or nothing when it was to be removed (`publish_cases`); and a session nothing comes
between gets to its end from whatever earlier ones have left (`publish_quiet`).

## What is here

* `Upload`, `publishLines`, `finishLines` — the files, and the lines of a session.
* `Separate` — the names and the other names are all different; nothing is said of files that get in
  each other's way.
* `Fate` — what has become of one file: its name untouched, or waiting, or done.
* `publish_cases` — the fates after any session, disturbed at any line; all are done where it went
  on to its end.
* `Ready` and `publish_quiet` — an undisturbed session over a tree with places for the files,
  which may hold what earlier sessions left.
-/

set_option autoImplicit false

namespace Transfer

variable {κ β : Type}

/-- A file to publish: what is in it, the name it is written under, and its own. -/
structure Upload (κ β : Type) where
  data : Option (List β)
  part : κ
  dest : κ

namespace Upload

def putLine (u : Upload κ β) : Line κ β := ⟨false, .put u.data u.part⟩

/-- The file takes its name, what stands there being removed before if `clears` says so. -/
def finishLines (clears : Bool) (u : Upload κ β) : List (Line κ β) :=
  (if clears then [⟨true, .remove u.dest⟩] else []) ++ [⟨false, .rename u.part u.dest⟩]

end Upload

/-- All the files are written, and then each takes its name. -/
def publishLines (clears : Bool) (us : List (Upload κ β)) : List (Line κ β) :=
  us.map Upload.putLine ++ us.flatMap (Upload.finishLines clears)

/-- No two names are the same. -/
def Separate (us : List (Upload κ β)) : Prop :=
  (us.map Upload.part ++ us.map Upload.dest).Nodup

/-- What the session has made of a file: its name is as it was, or waits for the file that has been
written, or has the file. -/
inductive Fate (clears : Bool) (u : Upload κ β) (t t' : Tree κ β) : Prop
  | before (h : t' u.dest = t u.dest)
  | cleared (z : List β) (hc : clears = true) (hz : u.data = some z)
      (hpart : t' u.part = some (.file z)) (hdest : t' u.dest = none)
  | published (z : List β) (hz : u.data = some z) (hdest : t' u.dest = some (.file z))

/-- The file stands under its own name, and not under the other one. -/
def Upload.Done (u : Upload κ β) (t : Tree κ β) : Prop :=
  ∃ z, u.data = some z ∧ t u.dest = some (.file z) ∧ t u.part = none

/-- The file stands under the other name. -/
def Upload.Written (u : Upload κ β) (t : Tree κ β) : Prop :=
  ∃ z, u.data = some z ∧ t u.part = some (.file z)

theorem Separate.tail {u : Upload κ β} {us : List (Upload κ β)} (h : Separate (u :: us)) : Separate us := by
  refine h.sublist ?_
  rw [List.map_cons, List.map_cons]
  exact (List.sublist_cons_self ..).append (List.sublist_cons_self ..)

theorem Separate.ne {u : Upload κ β} {us : List (Upload κ β)} (h : Separate us) (hu : u ∈ us) :
    u.part ≠ u.dest :=
  (List.nodup_append.mp h).2.2 _ (List.mem_map_of_mem hu) _ (List.mem_map_of_mem hu)

theorem Separate.head_ne {v : Upload κ β} {us : List (Upload κ β)} (h : Separate (v :: us)) :
    ∀ u ∈ us, (v.part ≠ u.part ∧ v.part ≠ u.dest) ∧ v.dest ≠ u.part ∧ v.dest ≠ u.dest := by
  intro u hu
  rw [Separate, List.map_cons, List.map_cons, List.cons_append, List.nodup_cons,
    List.nodup_append] at h
  obtain ⟨hv, -, hnodup, hdisj⟩ := h
  rw [List.nodup_cons] at hnodup
  have hpart : u.part ∈ us.map Upload.part := List.mem_map_of_mem hu
  have hdest : u.dest ∈ us.map Upload.dest := List.mem_map_of_mem hu
  refine ⟨⟨?_, ?_⟩, ?_, ?_⟩ <;> intro heq
  · exact hv (heq ▸ List.mem_append_left _ hpart)
  · exact hv (heq ▸ List.mem_append_right _ (List.mem_cons_of_mem _ hdest))
  · exact hdisj _ hpart _ (heq ▸ List.mem_cons_self) rfl
  · exact hnodup.1 (heq ▸ hdest)

/-- What stands at a file's two names decides how it has come off. -/
theorem Fate.congr {clears : Bool} {u : Upload κ β} {t₁ t₂ t₃ : Tree κ β} (h : Fate clears u t₁ t₂)
    (hpart : t₃ u.part = t₂ u.part) (hdest : t₃ u.dest = t₂ u.dest) :
    Fate clears u t₁ t₃ := by
  cases h with
  | before h => exact .before (hdest.trans h)
  | cleared z hc hz hp hd => exact .cleared z hc hz (hpart.trans hp) (hdest.trans hd)
  | published z hz hd => exact .published z hz (hdest.trans hd)

theorem mem_touched_finishLines {clears : Bool} {u : Upload κ β} {p : κ}
    (h : ∃ l ∈ u.finishLines clears, p ∈ l.op.touched) : p = u.part ∨ p = u.dest := by
  obtain ⟨l, hl, hp⟩ := h
  rcases List.mem_append.mp hl with hl | hl
  · split at hl
    · rw [List.mem_singleton.mp hl] at hp
      exact .inr (List.mem_singleton.mp hp)
    · cases hl
  · rw [List.mem_singleton.mp hl] at hp
    simpa [Op.touched] using hp

theorem makes_finish {clears : Bool} {v : Upload κ β} {p : κ} :
    ∀ l ∈ v.finishLines clears, l.op ≠ .makeDir p := by
  intro l hl
  rcases List.mem_append.mp hl with hl | hl
  · split at hl
    · rw [List.mem_singleton.mp hl]
      exact fun h ↦ by cases h
    · cases hl
  · rw [List.mem_singleton.mp hl]
    exact fun h ↦ by cases h

/-- A session that publishes files changes nothing but their names. -/
theorem mem_touched_publishLines {clears : Bool} {us : List (Upload κ β)} {p : κ}
    (h : ∃ l ∈ publishLines clears us, p ∈ l.op.touched) : ∃ u ∈ us, p = u.part ∨ p = u.dest := by
  obtain ⟨l, hl, hp⟩ := h
  rcases List.mem_append.mp hl with hl | hl
  · obtain ⟨u, hu, rfl⟩ := List.mem_map.mp hl
    exact ⟨u, hu, .inl (List.mem_singleton.mp hp)⟩
  · obtain ⟨u, hu, hl⟩ := List.mem_flatMap.mp hl
    exact ⟨u, hu, mem_touched_finishLines ⟨l, hl, hp⟩⟩

/-- A session that publishes files makes no directory. -/
theorem makes_publish {clears : Bool} {us : List (Upload κ β)} {p : κ} :
    ∀ l ∈ publishLines clears us, l.op ≠ .makeDir p := by
  intro l hl
  rcases List.mem_append.mp hl with hl | hl
  · obtain ⟨u, -, rfl⟩ := List.mem_map.mp hl
    exact fun heq ↦ by cases heq
  · obtain ⟨u, -, hl⟩ := List.mem_flatMap.mp hl
    exact makes_finish l hl

namespace Server

variable [DecidableEq κ] {srv : Server κ} {t : Tree κ β} {us : List (Upload κ β)}
  {u : Upload κ β} {faults : ℕ → Fault} {i : ℕ} {clears : Bool} {p : κ}

/-! ## Where a session may stop -/

/-- A session that goes on after the first lines has written every file. -/
theorem written_of_puts (hseparate : (us.map Upload.part).Nodup)
    (h : (srv.steps faults i (us.map Upload.putLine) t).2 = true) :
    ∀ u ∈ us, u.Written (srv.steps faults i (us.map Upload.putLine) t).1 := by
  induction us generalizing i t with
  | nil => exact fun u hu ↦ absurd hu List.not_mem_nil
  | cons v us ih =>
    rw [List.map_cons, List.nodup_cons] at hseparate
    rw [List.map_cons, steps] at h ⊢
    rcases step_cases srv t v.putLine (faults i) with ⟨t', hexec, heq⟩ | ⟨w, goesOn, heq, htol⟩
    · rw [heq] at h ⊢
      obtain ⟨z, hz, -, rfl⟩ := exec_put hexec
      refine List.forall_mem_cons.mpr ⟨⟨z, hz, ?_⟩, ih hseparate.2 h⟩
      -- no later line touches the name this file was written under
      dsimp only
      rw [steps_frame, Function.update_self]
      intro l hl
      obtain ⟨u, hu, rfl⟩ := List.mem_map.mp hl
      intro hmem
      rw [Upload.putLine, Op.touched, List.mem_singleton] at hmem
      exact hseparate.1 (List.mem_map.mpr ⟨u, hu, hmem.symm⟩)
    · rw [heq] at h
      cases goesOn with
      | true => cases htol rfl
      | false => cases h

/-- The files are written under the other names only. -/
theorem frame_puts (hseparate : Separate us) (hu : u ∈ us) :
    (srv.steps faults i (us.map Upload.putLine) t).1 u.dest = t u.dest := by
  refine steps_frame fun l hl hmem ↦ ?_
  obtain ⟨v, hv, rfl⟩ := List.mem_map.mp hl
  rw [Upload.putLine, Op.touched, List.mem_singleton] at hmem
  exact (List.nodup_append.mp hseparate).2.2 _ (List.mem_map_of_mem hv) _ (List.mem_map_of_mem hu)
    hmem.symm

/-- A rename comes to its end, or nothing has happened. -/
theorem rename_cases (srv : Server κ) (faults : ℕ → Fault) (i : ℕ) {z : List β} {q : κ}
    (hne : p ≠ q) (hp : t p = some (.file z)) :
    srv.steps faults i [⟨false, .rename p q⟩] t = (t, false) ∨
    ∃ t', srv.steps faults i [⟨false, .rename p q⟩] t = (t', true) ∧
      t' q = some (.file z) ∧ t' p = none := by
  rw [steps]
  rcases step_cases srv t ⟨false, .rename p q⟩ (faults i) with
    ⟨t', hexec, heq⟩ | ⟨w, goesOn, heq, htol⟩
  · rw [heq]
    obtain ⟨-, -, rfl⟩ := exec_rename hexec
    refine .inr ⟨_, rfl, ?_, ?_⟩
    · rw [Function.update_self, hp]
    · rw [Function.update_of_ne hne, Function.update_self]
  · rw [heq]
    cases goesOn with
    | true => cases htol rfl
    | false => exact .inl rfl

/-- A file that has been written waits under the other name until it has taken its own. -/
theorem finish_cases (srv : Server κ) (faults : ℕ → Fault) (i : ℕ) (clears : Bool) {z : List β}
    (hne : u.part ≠ u.dest) (hz : u.data = some z)
    (hpart : t u.part = some (.file z)) :
    Fate clears u t (srv.steps faults i (u.finishLines clears) t).1 ∧
      ((srv.steps faults i (u.finishLines clears) t).2 = true →
        u.Done (srv.steps faults i (u.finishLines clears) t).1) := by
  cases clears with
  | false =>
    rcases rename_cases srv faults i hne hpart with heq | ⟨t', heq, hd, hp⟩
    · rw [Upload.finishLines, if_neg Bool.false_ne_true, List.nil_append, heq]
      exact ⟨.before rfl, fun h ↦ by cases h⟩
    · rw [Upload.finishLines, if_neg Bool.false_ne_true, List.nil_append, heq]
      exact ⟨.published z hz hd, fun _ ↦ ⟨z, hz, hd, hp⟩⟩
  | true =>
    rw [Upload.finishLines, if_pos rfl, List.singleton_append, steps]
    rcases step_cases srv t ⟨true, .remove u.dest⟩ (faults i) with
      ⟨t₁, hexec, heq⟩ | ⟨w, goesOn, heq, -⟩
    · rw [heq]
      obtain ⟨-, rfl⟩ := exec_remove hexec
      have hpart₁ : Function.update t u.dest none u.part = some (.file z) := by
        rw [Function.update_of_ne hne]
        exact hpart
      rcases rename_cases srv faults (i + 1) hne hpart₁ with
        heq | ⟨t', heq, hd, hp⟩
      · dsimp only
        rw [heq]
        exact ⟨.cleared z rfl hz hpart₁ (Function.update_self ..), fun h ↦ by cases h⟩
      · dsimp only
        rw [heq]
        exact ⟨.published z hz hd, fun _ ↦ ⟨z, hz, hd, hp⟩⟩
    · rw [heq]
      have hspoil : srv.spoil t w (.remove u.dest) = t := rfl
      rw [hspoil]
      cases goesOn with
      | false => exact ⟨.before rfl, fun h ↦ by cases h⟩
      | true =>
        rcases rename_cases srv faults (i + 1) hne hpart with
          heq | ⟨t', heq, hd, hp⟩
        · dsimp only
          rw [heq]
          exact ⟨.before rfl, fun h ↦ by cases h⟩
        · dsimp only
          rw [heq]
          exact ⟨.published z hz hd, fun _ ↦ ⟨z, hz, hd, hp⟩⟩

/-- The lines of other files leave a name alone. -/
theorem frame_finishes (srv : Server κ) (faults : ℕ → Fault) (i : ℕ) (clears : Bool)
    (hp : ∀ u ∈ us, p ≠ u.part ∧ p ≠ u.dest) :
    (srv.steps faults i (us.flatMap (Upload.finishLines clears)) t).1 p = t p := by
  refine steps_frame fun l hl hmem ↦ ?_
  obtain ⟨u, hu, hl⟩ := List.mem_flatMap.mp hl
  rcases mem_touched_finishLines ⟨l, hl, hmem⟩ with h | h
  · exact (hp u hu).1 h
  · exact (hp u hu).2 h

theorem finishes_cases (srv : Server κ) (faults : ℕ → Fault) (i : ℕ) (clears : Bool)
    (hseparate : Separate us) (hwritten : ∀ u ∈ us, u.Written t) :
    (∀ u ∈ us, Fate clears u t
      (srv.steps faults i (us.flatMap (Upload.finishLines clears)) t).1) ∧
    ((srv.steps faults i (us.flatMap (Upload.finishLines clears)) t).2 = true →
      ∀ u ∈ us, u.Done (srv.steps faults i (us.flatMap (Upload.finishLines clears)) t).1) := by
  induction us generalizing i t with
  | nil => exact ⟨fun u hu ↦ absurd hu List.not_mem_nil, fun _ u hu ↦ absurd hu List.not_mem_nil⟩
  | cons v us ih =>
    obtain ⟨z, hz, hpart⟩ := hwritten v List.mem_cons_self
    have hne := hseparate.head_ne
    have hself := hseparate.ne List.mem_cons_self
    obtain ⟨hout, hdone⟩ := finish_cases srv faults i clears hself hz hpart
    -- what the lines of the first file leave of the others
    have hframe : ∀ u ∈ us, ∀ p ∈ [u.part, u.dest],
        (srv.steps faults i (v.finishLines clears) t).1 p = t p := by
      intro u hu p hp
      obtain ⟨⟨h₁, h₂⟩, h₃, h₄⟩ := hne u hu
      refine steps_frame fun l hl hmem ↦ ?_
      rcases mem_touched_finishLines ⟨l, hl, hmem⟩ with rfl | rfl
      · rcases List.mem_pair.mp hp with h | h
        · exact h₁ h
        · exact h₂ h
      · rcases List.mem_pair.mp hp with h | h
        · exact h₃ h
        · exact h₄ h
    rw [List.flatMap_cons]
    rcases steps_append_cases srv faults i (v.finishLines clears)
      (us.flatMap (Upload.finishLines clears)) t with
      ⟨hstop, heq⟩ | ⟨hgo, heq⟩
    · rw [heq]
      refine ⟨List.forall_mem_cons.mpr ⟨hout, fun u hu ↦ .before ?_⟩, fun h ↦ ?_⟩
      · exact hframe u hu u.dest (by simp)
      · rw [hstop] at h
        cases h
    · rw [heq]
      have hwritten₁ : ∀ u ∈ us, u.Written (srv.steps faults i (v.finishLines clears) t).1 := by
        intro u hu
        obtain ⟨z, hz, hp⟩ := hwritten u (List.mem_cons_of_mem v hu)
        exact ⟨z, hz, (hframe u hu u.part (by simp)).trans hp⟩
      obtain ⟨houts, hdones⟩ := ih (i + (v.finishLines clears).length) hseparate.tail hwritten₁
      have hvpart : (srv.steps faults (i + (v.finishLines clears).length)
          (us.flatMap (Upload.finishLines clears)) (srv.steps faults i (v.finishLines clears) t).1).1
            v.part = (srv.steps faults i (v.finishLines clears) t).1 v.part :=
        frame_finishes srv faults _ clears fun u hu ↦ (hne u hu).1
      have hvdest : (srv.steps faults (i + (v.finishLines clears).length)
          (us.flatMap (Upload.finishLines clears)) (srv.steps faults i (v.finishLines clears) t).1).1
            v.dest = (srv.steps faults i (v.finishLines clears) t).1 v.dest :=
        frame_finishes srv faults _ clears fun u hu ↦ (hne u hu).2
      refine ⟨List.forall_mem_cons.mpr ⟨hout.congr hvpart hvdest, fun u hu ↦ ?_⟩,
        fun h ↦ List.forall_mem_cons.mpr ⟨?_, hdones h⟩⟩
      · rcases houts u hu with h | ⟨z, hc, hz, hp, hd⟩ | ⟨z, hz, hd⟩
        · exact .before (h.trans (hframe u hu u.dest (by simp)))
        · exact .cleared z hc hz hp hd
        · exact .published z hz hd
      · obtain ⟨z, hz, hd, hp⟩ := hdone hgo
        exact ⟨z, hz, hvdest.trans hd, hvpart.trans hp⟩

/-- **Wherever a session stops, each file's name is as it was or has the whole file**, or nothing
stands there while the whole file waits; and a session that goes on has published every file. -/
theorem publish_cases (srv : Server κ) (faults : ℕ → Fault) (i : ℕ) (clears : Bool)
    (t : Tree κ β) (hseparate : Separate us) :
    (∀ u ∈ us, Fate clears u t (srv.steps faults i (publishLines clears us) t).1) ∧
    ((srv.steps faults i (publishLines clears us) t).2 = true →
      ∀ u ∈ us, u.Done (srv.steps faults i (publishLines clears us) t).1) := by
  have hparts : (us.map Upload.part).Nodup := (List.nodup_append.mp hseparate).1
  rw [publishLines]
  rcases steps_append_cases srv faults i (us.map Upload.putLine)
    (us.flatMap (Upload.finishLines clears)) t with
    ⟨hstop, heq⟩ | ⟨hgo, heq⟩
  · rw [heq]
    refine ⟨fun u hu ↦ .before (frame_puts hseparate hu), fun h ↦ ?_⟩
    rw [hstop] at h
    cases h
  · rw [heq]
    obtain ⟨houts, hdones⟩ := finishes_cases srv faults (i + (us.map Upload.putLine).length) clears
      hseparate (written_of_puts hparts hgo)
    refine ⟨fun u hu ↦ ?_, hdones⟩
    rcases houts u hu with h | ⟨z, hc, hz, hp, hd⟩ | ⟨z, hz, hd⟩
    · exact .before (h.trans (frame_puts hseparate hu))
    · exact .cleared z hc hz hp hd
    · exact .published z hz hd

/-- What a session that clears no names makes of a path. -/
theorem session_path (srv : Server κ) (faults : ℕ → Fault) (t : Tree κ β) (hseparate : Separate us)
    (p : κ) :
    (srv.session faults (publishLines false us) t).1 p = t p ∨
      ∃ u ∈ us, p = u.part ∨ p = u.dest ∧ ∃ z, u.data = some z ∧
        (srv.session faults (publishLines false us) t).1 p = some (.file z) := by
  by_cases hmem : ∃ l ∈ publishLines false us, p ∈ l.op.touched
  · obtain ⟨u, hu, rfl | rfl⟩ := mem_touched_publishLines hmem
    · exact .inr ⟨u, hu, .inl rfl⟩
    · rcases (publish_cases srv faults 0 false t hseparate).1 u hu with h | ⟨z, hc, -, -, -⟩ |
        ⟨z, hz, hd⟩
      · exact .inl h
      · cases hc
      · exact .inr ⟨u, hu, .inr ⟨rfl, z, hz, hd⟩⟩
  · exact .inl (steps_frame fun l hl hp ↦ hmem ⟨l, hl, hp⟩)

/-! ## Nothing comes between -/

/-- The file can be read, both its names can be written, and what stands under its own is no
obstacle. -/
structure Ready (srv : Server κ) (clears : Bool) (t : Tree κ β) (u : Upload κ β) : Prop where
  data : u.data.isSome = true
  part : srv.writable t u.part = true
  dest : srv.writable t u.dest = true
  free : clears = true ∨ srv.replaces = true ∨ t u.dest = none

theorem puts_quiet (h : ∀ u ∈ us, u.data.isSome = true ∧ srv.writable t u.part = true) :
    (srv.steps quiet i (us.map Upload.putLine) t).2 = true := by
  induction us generalizing i t with
  | nil => rfl
  | cons u us ih =>
    rw [List.forall_mem_cons] at h
    obtain ⟨⟨hdata, hpart⟩, hus⟩ := h
    obtain ⟨z, hz⟩ := Option.isSome_iff_exists.mp hdata
    have hexec : srv.exec t (.put u.data u.part) =
        some (Function.update t u.part (some (.file z))) := by
      simp only [exec, hz, hpart, if_true]
    rw [List.map_cons, steps, quiet, step, Upload.putLine, hexec]
    exact ih fun v hv ↦ ⟨(hus v hv).1, exec_writable hexec (fun h ↦ by cases h) (hus v hv).2⟩

theorem rename_quiet {q : κ} (hp : (t p).any Node.isFile = true) (hq : srv.vacant t q = true) :
    (srv.steps quiet i [⟨false, .rename p q⟩] t).2 = true := by
  rw [steps, quiet, step]
  simp only [exec, hp, hq, Bool.and_self, if_true, steps]

/-- A file that has been written takes its name. -/
theorem finish_quiet (hne : u.part ≠ u.dest) (hpart : (t u.part).any Node.isFile = true)
    (hdest : srv.writable t u.dest = true)
    (hfree : clears = true ∨ srv.replaces = true ∨ t u.dest = none) :
    (srv.steps quiet i (u.finishLines clears) t).2 = true := by
  rw [writable_iff] at hdest
  obtain ⟨hroom, hdir⟩ := hdest
  have hstands := isFile_of_not_isDir hdir
  cases clears with
  | false =>
    rw [Upload.finishLines, if_neg Bool.false_ne_true, List.nil_append]
    refine rename_quiet hpart (vacant_iff.mpr ⟨hroom, ?_⟩)
    rcases hfree with h | h | h
    · cases h
    · exact hstands.imp_right fun hfile ↦ ⟨h, hfile⟩
    · exact .inl h
  | true =>
    rw [Upload.finishLines, if_pos rfl, List.singleton_append, steps, quiet, step]
    rcases hstands with hnone | hfile
    · have hexec : srv.exec t (.remove u.dest) = none := by simp [exec, hnone]
      rw [hexec]
      exact rename_quiet hpart (vacant_iff.mpr ⟨hroom, .inl hnone⟩)
    · have hexec : srv.exec t (.remove u.dest) = some (Function.update t u.dest none) := by
        simp only [exec, hfile, if_true]
      rw [hexec]
      refine rename_quiet ?_ (vacant_iff.mpr ⟨room_mono (fun q ↦ exec_isDir hexec) hroom, ?_⟩)
      · rw [Function.update_of_ne hne]
        exact hpart
      · exact .inl (Function.update_self ..)

theorem frame_finish {v : Upload κ β} (hp : p ≠ v.part ∧ p ≠ v.dest) :
    (srv.steps faults i (v.finishLines clears) t).1 p = t p := by
  refine steps_frame fun l hl hmem ↦ ?_
  rcases mem_touched_finishLines ⟨l, hl, hmem⟩ with h | h
  · exact hp.1 h
  · exact hp.2 h

theorem finishes_quiet (hseparate : Separate us)
    (h : ∀ u ∈ us, (t u.part).any Node.isFile = true ∧ srv.writable t u.dest = true ∧
      (clears = true ∨ srv.replaces = true ∨ t u.dest = none)) :
    (srv.steps quiet i (us.flatMap (Upload.finishLines clears)) t).2 = true := by
  induction us generalizing i t with
  | nil => rfl
  | cons v us ih =>
    have hne := hseparate.head_ne
    rw [List.forall_mem_cons] at h
    obtain ⟨⟨hpart, hdest, hfree⟩, hus⟩ := h
    have hgo := finish_quiet (i := i) (hseparate.ne List.mem_cons_self) hpart hdest hfree
    rw [List.flatMap_cons]
    rcases steps_append_cases srv quiet i (v.finishLines clears)
      (us.flatMap (Upload.finishLines clears)) t with ⟨hstop, -⟩ | ⟨-, heq⟩
    · rw [hgo] at hstop
      cases hstop
    · rw [heq]
      refine ih hseparate.tail fun u hu ↦ ?_
      obtain ⟨⟨h₁, h₂⟩, h₃, h₄⟩ := hne u hu
      obtain ⟨hp, hd, hf⟩ := hus u hu
      rw [frame_finish ⟨h₁.symm, h₃.symm⟩, frame_finish ⟨h₂.symm, h₄.symm⟩]
      exact ⟨hp, steps_writable makes_finish hd, hf⟩

/-- **A session nothing comes between publishes every file**, whatever earlier ones have left. -/
theorem publish_quiet (hseparate : Separate us) (h : ∀ u ∈ us, Ready srv clears t u) :
    (srv.steps quiet i (publishLines clears us) t).2 = true := by
  have hparts : (us.map Upload.part).Nodup := (List.nodup_append.mp hseparate).1
  have hgo : (srv.steps quiet i (us.map Upload.putLine) t).2 = true :=
    puts_quiet fun u hu ↦ ⟨(h u hu).data, (h u hu).part⟩
  rw [publishLines]
  rcases steps_append_cases srv quiet i (us.map Upload.putLine)
    (us.flatMap (Upload.finishLines clears)) t with ⟨hstop, -⟩ | ⟨-, heq⟩
  · rw [hgo] at hstop
    cases hstop
  · rw [heq]
    refine finishes_quiet hseparate fun u hu ↦ ?_
    obtain ⟨z, -, hz⟩ := written_of_puts hparts hgo u hu
    refine ⟨by rw [hz]; rfl, steps_writable ?_ (h u hu).dest, ?_⟩
    · intro l hl
      obtain ⟨v, -, rfl⟩ := List.mem_map.mp hl
      exact fun heq ↦ by cases heq
    · rw [frame_puts hseparate hu]
      exact (h u hu).free

end Server

end Transfer
