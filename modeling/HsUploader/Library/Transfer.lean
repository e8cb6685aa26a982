import Mathlib.Data.List.Infix
import Mathlib.Data.List.Nodup
import Mathlib.Logic.Function.Basic

/-!
# Transfers that may be cut short

A server keeps a tree of files and directories.  A session runs lines over it, one after the other:
each puts, removes or renames a file or makes a directory, and the session ends at the first line
that fails, unless the line tolerates it.  Anything may come between: a line may be refused for a
reason that is not in the tree, the connection may be lost, and a file of which only a part has been
written is left behind.  What happens at each line is a `Fault`, and the results hold for every
sequence of faults.

`steps_rule` is the rule for what a session does: an invariant that goes by the lines still to come,
and what holds of the tree wherever the session stops.

## What is here

* `Node`, `Tree`, `Op`, `Line` — what stands at a path, a server's tree, and the lines of a session.
* `Server` — where entries are made and whether a rename takes the place of a file: a parameter.
* `Fault` — what comes between, for each line; `Server.quiet` is the sequence of none.
* `exec`, `spoil`, `step`, `steps`, `session` — one operation, what it leaves if it is cut short, a
  line, and lines one after another.
* `Op.touched` and `Fitting` — the paths an operation may change, and a tree without directories in
  the places of files.
* `steps_rule` and `mark_cases` — the rule for a session, and what a directory that is made last
  tells of the lines before it.
-/

set_option autoImplicit false

namespace Transfer

/-- What stands at a path. -/
inductive Node (β : Type) where
  | file (data : List β)
  | dir
  deriving DecidableEq

def Node.isDir {β : Type} : Node β → Bool
  | file _ => false
  | dir => true

def Node.isFile {β : Type} (n : Node β) : Bool := !n.isDir

/-- The files and directories of a server. -/
abbrev Tree (κ β : Type) : Type := κ → Option (Node β)

/-- What a line asks for.  The data of a `put` is `none` where there is no file to read it from. -/
inductive Op (κ β : Type) where
  | put (data : Option (List β)) (dest : κ)
  | remove (path : κ)
  | rename (src dest : κ)
  | makeDir (path : κ)

/-- A line of a session; one that is tolerant may fail. -/
structure Line (κ β : Type) where
  tolerant : Bool
  op : Op κ β

/-- What comes between a session and a line: nothing, a refusal, or the loss of the connection.  A
`put` may have written the first so many items by then. -/
inductive Fault where
  | none
  | refused (written : Option ℕ)
  | cut (written : Option ℕ)

def Fault.isCut : Fault → Bool
  | cut _ => true
  | _ => false

/-- How a server keeps its tree: where an entry is made, and whether a rename takes the place of a
file. -/
structure Server (κ : Type) where
  /-- The directory of a path, `none` for a path at the top. -/
  parent : κ → Option κ
  replaces : Bool

/-- The paths an operation may change. -/
def Op.touched {κ β : Type} : Op κ β → List κ
  | put _ dest => [dest]
  | remove path => [path]
  | rename src dest => [src, dest]
  | makeDir path => [path]

/-- The paths at which an operation writes, moves or removes a file. -/
def Op.files {κ β : Type} : Op κ β → List κ
  | makeDir _ => []
  | op => op.touched

theorem Op.touched_of_files {κ β : Type} {op : Op κ β} {p : κ} (h : p ∈ op.files) :
    p ∈ op.touched := by
  cases op with
  | makeDir _ => cases h
  | _ => exact h

/-- No directory stands in the place of a file that lines write, move or remove, and none of them
makes one there. -/
structure Fitting {κ β : Type} (ls : List (Line κ β)) (t : Tree κ β) : Prop where
  clear : ∀ l ∈ ls, ∀ p ∈ l.op.files, (t p).any Node.isDir = false
  apart : ∀ l ∈ ls, ∀ p ∈ l.op.files, ∀ l' ∈ ls, l'.op ≠ .makeDir p

namespace Server

variable {κ β : Type} (srv : Server κ)

/-- There is a directory for the path to stand in. -/
def room (t : Tree κ β) (p : κ) : Bool := (srv.parent p).all fun q ↦ (t q).any Node.isDir

/-- A file may be written at the path. -/
def writable (t : Tree κ β) (p : κ) : Bool := srv.room t p && !(t p).any Node.isDir

/-- A file may be renamed to the path. -/
def vacant (t : Tree κ β) (p : κ) : Bool :=
  srv.room t p && ((t p).isNone || srv.replaces && (t p).any Node.isFile)

section

variable {srv} {t t' : Tree κ β} {p : κ}

theorem not_isDir_of_isFile (h : (t p).any Node.isFile = true) : (t p).any Node.isDir = false := by
  cases hn : t p with
  | none => rfl
  | some n =>
    rw [hn] at h
    cases n with
    | file data => rfl
    | dir => cases h

theorem not_isDir_of_writable (h : srv.writable t p = true) : (t p).any Node.isDir = false := by
  rw [writable, Bool.and_eq_true, Bool.not_eq_true'] at h
  exact h.2

theorem not_isDir_of_vacant (h : srv.vacant t p = true) : (t p).any Node.isDir = false := by
  rw [vacant, Bool.and_eq_true, Bool.or_eq_true, Bool.and_eq_true, Option.isNone_iff_eq_none] at h
  rcases h.2 with hnone | ⟨-, hfile⟩
  · rw [hnone]
    rfl
  · exact not_isDir_of_isFile hfile

theorem vacant_iff : srv.vacant t p = true ↔ srv.room t p = true ∧
    (t p = none ∨ srv.replaces = true ∧ (t p).any Node.isFile = true) := by
  rw [vacant, Bool.and_eq_true, Bool.or_eq_true, Bool.and_eq_true, Option.isNone_iff_eq_none]

theorem isFile_of_not_isDir (h : (t p).any Node.isDir = false) :
    t p = none ∨ (t p).any Node.isFile = true := by
  cases hn : t p with
  | none => exact .inl rfl
  | some n =>
    rw [hn] at h
    cases n with
    | file data => exact .inr rfl
    | dir => cases h

theorem room_mono (h : ∀ q, (t q).any Node.isDir = true → (t' q).any Node.isDir = true)
    (hp : srv.room t p = true) : srv.room t' p = true := by
  rw [room, Option.all_eq_true] at hp ⊢
  exact fun q hq ↦ h q (hp q hq)

theorem writable_iff :
    srv.writable t p = true ↔ srv.room t p = true ∧ (t p).any Node.isDir = false := by
  rw [writable, Bool.and_eq_true, Bool.not_eq_true']

end

variable [DecidableEq κ]

/-- What an operation makes of the tree, `none` where it fails. -/
def exec (t : Tree κ β) : Op κ β → Option (Tree κ β)
  | .put data dest => match data with
    | some data =>
      if srv.writable t dest then some (Function.update t dest (some (.file data))) else none
    | none => none
  | .remove path =>
    if (t path).any Node.isFile then some (Function.update t path none) else none
  | .rename src dest =>
    if (t src).any Node.isFile && srv.vacant t dest then
      some (Function.update (Function.update t src none) dest (t src))
    else none
  | .makeDir path =>
    if srv.room t path && (t path).isNone then some (Function.update t path (some .dir)) else none

/-- What an operation leaves that does not come to its end. -/
def spoil (t : Tree κ β) (written : Option ℕ) : Op κ β → Tree κ β
  | .put data dest => match data, written with
    | some data, some n =>
      if srv.writable t dest then Function.update t dest (some (.file (data.take n))) else t
    | _, _ => t
  | _ => t

/-- One line, and whether the session goes on. -/
def step (t : Tree κ β) (l : Line κ β) : Fault → Tree κ β × Bool
  | .none => match srv.exec t l.op with
    | some t' => (t', true)
    | none => (t, l.tolerant)
  | .refused written => (srv.spoil t written l.op, l.tolerant)
  | .cut written => (srv.spoil t written l.op, false)

/-- Lines from the one numbered `i` on, and whether the session goes on after them. -/
def steps (faults : ℕ → Fault) : ℕ → List (Line κ β) → Tree κ β → Tree κ β × Bool
  | _, [], t => (t, true)
  | i, l :: ls, t => match srv.step t l (faults i) with
    | (t', true) => steps faults (i + 1) ls t'
    | (t', false) => (t', false)

/-- A session, and whether it is reported to have succeeded. -/
def session (faults : ℕ → Fault) (ls : List (Line κ β)) (t : Tree κ β) : Tree κ β × Bool :=
  match srv.steps faults 0 ls t with
  | (t', goesOn) => (t', goesOn && !(faults ls.length).isCut)

/-- Nothing comes between a session and its lines. -/
def quiet : ℕ → Fault := fun _ ↦ .none

/-! ## What a line can do -/

variable {srv} {t t' : Tree κ β} {l : Line κ β} {ls : List (Line κ β)} {op : Op κ β} {p q : κ}
  {faults : ℕ → Fault} {i : ℕ} {written : Option ℕ}

theorem exec_put {data : Option (List β)} (h : srv.exec t (.put data p) = some t') :
    ∃ z, data = some z ∧ srv.writable t p = true ∧ t' = Function.update t p (some (.file z)) := by
  cases data with
  | none => cases h
  | some z =>
    simp only [exec] at h
    split at h
    · exact ⟨z, rfl, ‹_›, (Option.some.inj h).symm⟩
    · cases h

theorem exec_remove (h : srv.exec t (.remove p) = some t') :
    (t p).any Node.isFile = true ∧ t' = Function.update t p none := by
  simp only [exec] at h
  split at h
  · exact ⟨‹_›, (Option.some.inj h).symm⟩
  · cases h

theorem exec_rename (h : srv.exec t (.rename p q) = some t') :
    (t p).any Node.isFile = true ∧ srv.vacant t q = true ∧
      t' = Function.update (Function.update t p none) q (t p) := by
  simp only [exec] at h
  split at h
  · rename_i hc
    rw [Bool.and_eq_true] at hc
    exact ⟨hc.1, hc.2, (Option.some.inj h).symm⟩
  · cases h

theorem exec_makeDir (h : srv.exec t (.makeDir p) = some t') :
    srv.room t p = true ∧ t p = none ∧ t' = Function.update t p (some .dir) := by
  simp only [exec] at h
  split at h
  · rename_i hc
    rw [Bool.and_eq_true, Option.isNone_iff_eq_none] at hc
    exact ⟨hc.1, hc.2, (Option.some.inj h).symm⟩
  · cases h

theorem not_isDir_update {n : Option (Node β)} (h : (t p).any Node.isDir = false)
    (hn : n.any Node.isDir = false) : (Function.update t q n p).any Node.isDir = false := by
  by_cases hp : p = q
  · rw [hp, Function.update_self]
    exact hn
  · rw [Function.update_of_ne hp]
    exact h

theorem exec_frame (h : srv.exec t op = some t') (hp : p ∉ op.touched) : t' p = t p := by
  cases op with
  | put data dest =>
    obtain ⟨z, -, -, rfl⟩ := exec_put h
    exact Function.update_of_ne (by simpa [Op.touched] using hp) _ _
  | remove path =>
    obtain ⟨-, rfl⟩ := exec_remove h
    exact Function.update_of_ne (by simpa [Op.touched] using hp) _ _
  | rename src dest =>
    obtain ⟨-, -, rfl⟩ := exec_rename h
    simp only [Op.touched, List.mem_cons, List.not_mem_nil, or_false, not_or] at hp
    rw [Function.update_of_ne hp.2, Function.update_of_ne hp.1]
  | makeDir path =>
    obtain ⟨-, -, rfl⟩ := exec_makeDir h
    exact Function.update_of_ne (by simpa [Op.touched] using hp) _ _

@[simp] theorem spoil_none (op : Op κ β) : srv.spoil t none op = t := by
  cases op with
  | put data dest => cases data <;> rfl
  | _ => rfl

theorem spoil_frame (written : Option ℕ) (hp : p ∉ op.touched) :
    srv.spoil t written op p = t p := by
  cases op with
  | put data dest =>
    have hne : p ≠ dest := by simpa [Op.touched] using hp
    cases data with
    | none => rfl
    | some z =>
      cases written with
      | none => rfl
      | some n =>
        simp only [spoil]
        split
        · exact Function.update_of_ne hne _ _
        · rfl
  | _ => rfl

/-- A line comes to its end and the session goes on, or it leaves something half done and the
session goes on only if the line tolerates that. -/
theorem step_cases (srv : Server κ) (t : Tree κ β) (l : Line κ β) (f : Fault) :
    (∃ t', srv.exec t l.op = some t' ∧ srv.step t l f = (t', true)) ∨
      ∃ written goesOn, srv.step t l f = (srv.spoil t written l.op, goesOn) ∧
        (goesOn = true → l.tolerant = true) := by
  cases f with
  | none =>
    cases h : srv.exec t l.op with
    | some t' => exact .inl ⟨t', rfl, by simp only [step, h]⟩
    | none => exact .inr ⟨none, l.tolerant, by simp only [step, h, spoil_none], id⟩
  | refused w => exact .inr ⟨w, l.tolerant, rfl, id⟩
  | cut w => exact .inr ⟨w, false, rfl, fun h ↦ by cases h⟩

/-! ## Directories -/

/-- No line removes a directory. -/
theorem exec_isDir (h : srv.exec t op = some t') (hq : (t q).any Node.isDir = true) :
    (t' q).any Node.isDir = true := by
  have hne : ∀ p, (t p).any Node.isDir = false → q ≠ p := by
    rintro p hp rfl
    rw [hq] at hp
    cases hp
  cases op with
  | put data dest =>
    obtain ⟨z, -, hw, rfl⟩ := exec_put h
    rw [Function.update_of_ne (hne dest (not_isDir_of_writable hw))]
    exact hq
  | remove path =>
    obtain ⟨hfile, rfl⟩ := exec_remove h
    rw [Function.update_of_ne (hne path (not_isDir_of_isFile hfile))]
    exact hq
  | rename src dest =>
    obtain ⟨hfile, hv, rfl⟩ := exec_rename h
    rw [Function.update_of_ne (hne dest (not_isDir_of_vacant hv)),
      Function.update_of_ne (hne src (not_isDir_of_isFile hfile))]
    exact hq
  | makeDir path =>
    obtain ⟨-, -, rfl⟩ := exec_makeDir h
    by_cases hp : q = path
    · rw [hp, Function.update_self]
      rfl
    · rw [Function.update_of_ne hp]
      exact hq

/-- A directory comes from a line that makes it. -/
theorem exec_not_isDir (h : srv.exec t op = some t') (hp : op ≠ .makeDir p)
    (hn : (t p).any Node.isDir = false) : (t' p).any Node.isDir = false := by
  cases op with
  | put data dest =>
    obtain ⟨z, -, -, rfl⟩ := exec_put h
    exact not_isDir_update hn rfl
  | remove path =>
    obtain ⟨-, rfl⟩ := exec_remove h
    exact not_isDir_update hn rfl
  | rename src dest =>
    obtain ⟨hfile, -, rfl⟩ := exec_rename h
    exact not_isDir_update (not_isDir_update hn rfl) (not_isDir_of_isFile hfile)
  | makeDir path =>
    obtain ⟨-, -, rfl⟩ := exec_makeDir h
    rw [Function.update_of_ne fun heq ↦ hp (by rw [heq])]
    exact hn

theorem spoil_isDir (written : Option ℕ) (q : κ) :
    (srv.spoil t written op q).any Node.isDir = (t q).any Node.isDir := by
  cases op with
  | put data dest =>
    cases data with
    | none => rfl
    | some z =>
      cases written with
      | none => rfl
      | some n =>
        simp only [spoil]
        split
        · rename_i hw
          by_cases hq : q = dest
          · rw [hq, Function.update_self, not_isDir_of_writable hw]
            rfl
          · rw [Function.update_of_ne hq]
        · rfl
  | _ => rfl

/-- Where a file may be written stays so, but for a directory made there. -/
theorem exec_writable (h : srv.exec t op = some t') (hp : op ≠ .makeDir p)
    (hw : srv.writable t p = true) : srv.writable t' p = true := by
  rw [writable_iff] at hw ⊢
  exact ⟨room_mono (fun _ ↦ exec_isDir h) hw.1, exec_not_isDir h hp hw.2⟩

@[simp] theorem spoil_writable (written : Option ℕ) :
    srv.writable (srv.spoil t written op) p = srv.writable t p := by
  rw [writable, writable, room, room, spoil_isDir]
  simp only [spoil_isDir]

/-! ## What a session can do -/

/-- **The rule for a session.**  `I` goes by the lines still to come; `J` holds wherever the session
stops. -/
theorem steps_rule {I : List (Line κ β) → Tree κ β → Prop} {J : Tree κ β → Prop}
    (hstop : ∀ ls t, I ls t → J t)
    (hdone : ∀ l ls t t', I (l :: ls) t → srv.exec t l.op = some t' → I ls t')
    (hspoilt : ∀ l ls t written, I (l :: ls) t → J (srv.spoil t written l.op) ∧
      (l.tolerant = true → I ls (srv.spoil t written l.op))) (h : I ls t) :
    J (srv.steps faults i ls t).1 ∧
      ((srv.steps faults i ls t).2 = true → I [] (srv.steps faults i ls t).1) := by
  induction ls generalizing i t with
  | nil => exact ⟨hstop _ _ h, fun _ ↦ h⟩
  | cons l ls ih =>
    rw [steps]
    rcases step_cases srv t l (faults i) with ⟨t', hexec, heq⟩ | ⟨w, goesOn, heq, htol⟩
    · rw [heq]
      exact ih (hdone l ls t t' h hexec)
    · rw [heq]
      obtain ⟨hJ, hI⟩ := hspoilt l ls t w h
      cases goesOn with
      | true => exact ih (hI (htol rfl))
      | false => exact ⟨hJ, fun hgo ↦ by cases hgo⟩

/-- A path no line touches is left as it is. -/
theorem steps_frame (hp : ∀ l ∈ ls, p ∉ l.op.touched) : (srv.steps faults i ls t).1 p = t p := by
  refine (steps_rule (I := fun ls t' ↦ t' p = t p ∧ ∀ l ∈ ls, p ∉ l.op.touched)
    (J := fun t' ↦ t' p = t p) (fun _ _ h ↦ h.1) (fun l ls t₁ t₂ h hexec ↦ ?_)
    (fun l ls t₁ w h ↦ ?_) ⟨rfl, hp⟩).1
  · obtain ⟨heq, hls⟩ := h
    rw [List.forall_mem_cons] at hls
    exact ⟨(exec_frame hexec hls.1).trans heq, hls.2⟩
  · obtain ⟨heq, hls⟩ := h
    rw [List.forall_mem_cons] at hls
    have hspoil : srv.spoil t₁ w l.op p = t p := (spoil_frame w hls.1).trans heq
    exact ⟨hspoil, fun _ ↦ ⟨hspoil, hls.2⟩⟩

/-- No session removes a directory. -/
theorem steps_isDir (hq : (t q).any Node.isDir = true) :
    ((srv.steps faults i ls t).1 q).any Node.isDir = true := by
  refine (steps_rule (I := fun _ t ↦ (t q).any Node.isDir = true)
    (J := fun t ↦ (t q).any Node.isDir = true) (fun _ _ h ↦ h) (fun l ls t₁ t₂ h hexec ↦ ?_)
    (fun l ls t₁ w h ↦ ?_) hq).1
  · exact exec_isDir hexec h
  · rw [spoil_isDir]
    exact ⟨h, fun _ ↦ h⟩

/-- A directory comes from a line that makes it. -/
theorem steps_not_isDir (hp : ∀ l ∈ ls, l.op ≠ .makeDir p) (hn : (t p).any Node.isDir = false) :
    ((srv.steps faults i ls t).1 p).any Node.isDir = false := by
  refine (steps_rule (I := fun ls t ↦ (t p).any Node.isDir = false ∧ ∀ l ∈ ls, l.op ≠ .makeDir p)
    (J := fun t ↦ (t p).any Node.isDir = false) (fun _ _ h ↦ h.1) (fun l ls t₁ t₂ h hexec ↦ ?_)
    (fun l ls t₁ w h ↦ ?_) ⟨hn, hp⟩).1
  · obtain ⟨hn, hls⟩ := h
    rw [List.forall_mem_cons] at hls
    exact ⟨exec_not_isDir hexec hls.1 hn, hls.2⟩
  · obtain ⟨hn, hls⟩ := h
    rw [List.forall_mem_cons] at hls
    rw [spoil_isDir]
    exact ⟨hn, fun _ ↦ ⟨hn, hls.2⟩⟩

/-- Where a file may be written stays so through a session that makes no directory there. -/
theorem steps_writable (hp : ∀ l ∈ ls, l.op ≠ .makeDir p) (hw : srv.writable t p = true) :
    srv.writable (srv.steps faults i ls t).1 p = true := by
  rw [writable_iff] at hw ⊢
  exact ⟨room_mono (fun _ ↦ steps_isDir) hw.1, steps_not_isDir hp hw.2⟩

/-- Where only a directory is ever made, nothing stands or a directory. -/
theorem steps_isDir_or_none (hp : ∀ l ∈ ls, p ∈ l.op.touched → l.op = .makeDir p)
    (h : (t p).all Node.isDir = true) : ((srv.steps faults i ls t).1 p).all Node.isDir = true := by
  refine (steps_rule (I := fun ls t ↦ (t p).all Node.isDir = true ∧
      ∀ l ∈ ls, p ∈ l.op.touched → l.op = .makeDir p)
    (J := fun t ↦ (t p).all Node.isDir = true) (fun _ _ h ↦ h.1) (fun l ls t₁ t₂ h hexec ↦ ?_)
    (fun l ls t₁ w h ↦ ?_) ⟨h, hp⟩).1
  · obtain ⟨hd, hls⟩ := h
    rw [List.forall_mem_cons] at hls
    refine ⟨?_, hls.2⟩
    by_cases hmem : p ∈ l.op.touched
    · rw [hls.1 hmem] at hexec
      obtain ⟨-, -, rfl⟩ := exec_makeDir hexec
      rw [Function.update_self]
      rfl
    · rw [exec_frame hexec hmem]
      exact hd
  · obtain ⟨hd, hls⟩ := h
    rw [List.forall_mem_cons] at hls
    have hspoil : (srv.spoil t₁ w l.op p).all Node.isDir = true := by
      by_cases hmem : p ∈ l.op.touched
      · rw [hls.1 hmem]
        exact hd
      · rw [spoil_frame w hmem]
        exact hd
    exact ⟨hspoil, fun _ ↦ ⟨hspoil, hls.2⟩⟩

/-- One tolerated line that makes a directory: it is made, or the tree is as it was. -/
theorem makeDir_cases (srv : Server κ) (faults : ℕ → Fault) (i : ℕ) (t : Tree κ β) (p : κ) :
    (∃ goesOn, srv.steps faults i [⟨true, .makeDir p⟩] t = (t, goesOn) ∧
      (goesOn = true →
        (t p).isSome = true ∨ srv.room t p = false ∨ ∃ written, faults i = .refused written)) ∨
    srv.room t p = true ∧ t p = none ∧
      srv.steps faults i [⟨true, .makeDir p⟩] t = (Function.update t p (some .dir), true) := by
  rw [steps]
  cases hf : faults i with
  | none =>
    by_cases hc : (srv.room t p && (t p).isNone) = true
    · rw [Bool.and_eq_true, Option.isNone_iff_eq_none] at hc
      refine .inr ⟨hc.1, hc.2, ?_⟩
      simp [step, exec, hc.1, hc.2, steps]
    · refine .inl ⟨true, by simp [step, exec, hc, steps], fun _ ↦ ?_⟩
      rw [Bool.and_eq_true, not_and_or] at hc
      rcases hc with hroom | hnone
      · exact .inr (.inl (by simpa using hroom))
      · exact .inl (by simpa [Option.isSome_iff_ne_none] using hnone)
  | refused w => exact .inl ⟨true, rfl, fun _ ↦ .inr (.inr ⟨w, rfl⟩)⟩
  | cut w => exact .inl ⟨false, rfl, fun h ↦ absurd h Bool.false_ne_true⟩

theorem steps_append (faults : ℕ → Fault) (i : ℕ) (ls ls' : List (Line κ β)) (t : Tree κ β) :
    srv.steps faults i (ls ++ ls') t =
      match srv.steps faults i ls t with
      | (t', true) => srv.steps faults (i + ls.length) ls' t'
      | (t', false) => (t', false) := by
  induction ls generalizing i t with
  | nil => rfl
  | cons l ls ih =>
    rw [List.cons_append, steps, steps]
    rcases srv.step t l (faults i) with ⟨t', _ | _⟩
    · rfl
    · dsimp only
      rw [ih, List.length_cons, Nat.add_right_comm, Nat.add_assoc]

/-- Lines after others are reached only when those have come to their end. -/
theorem steps_append_cases (srv : Server κ) (faults : ℕ → Fault) (i : ℕ) (ls ls' : List (Line κ β))
    (t : Tree κ β) :
    ((srv.steps faults i ls t).2 = false ∧
      srv.steps faults i (ls ++ ls') t = srv.steps faults i ls t) ∨
    ((srv.steps faults i ls t).2 = true ∧
      srv.steps faults i (ls ++ ls') t =
        srv.steps faults (i + ls.length) ls' (srv.steps faults i ls t).1) := by
  rw [steps_append]
  rcases srv.steps faults i ls t with ⟨t', _ | _⟩
  · exact .inl ⟨rfl, rfl⟩
  · exact .inr ⟨rfl, rfl⟩

/-- A tolerated line that nothing comes between does not end a session. -/
theorem makeDir_quiet : (srv.steps quiet i [⟨true, .makeDir p⟩] t).2 = true := by
  rw [steps, quiet, step]
  cases srv.exec t (.makeDir p) <;> rfl

/-- Lines after others that have come to their end. -/
theorem steps_append_of_goes {ls' : List (Line κ β)} (h : (srv.steps faults i ls t).2 = true) :
    srv.steps faults i (ls ++ ls') t =
      srv.steps faults (i + ls.length) ls' (srv.steps faults i ls t).1 := by
  rcases steps_append_cases srv faults i ls ls' t with ⟨hstop, -⟩ | ⟨-, heq⟩
  · rw [h] at hstop
    cases hstop
  · exact heq

theorem session_fst : (srv.session faults ls t).1 = (srv.steps faults 0 ls t).1 := rfl

theorem steps_of_session (h : (srv.session faults ls t).2 = true) :
    (srv.steps faults 0 ls t).2 = true := (Bool.and_eq_true_iff.mp h).1

/-- **A directory made last marks a session that has got through** its other lines.  Where the
session succeeds without the mark, the server has no place for it or has refused it. -/
theorem mark_cases (srv : Server κ) (faults : ℕ → Fault) (t : Tree κ β)
    (hmark : ∀ l ∈ ls, p ∉ l.op.touched) :
    (∀ q, q ≠ p → (srv.session faults (ls ++ [⟨true, .makeDir p⟩]) t).1 q =
      (srv.steps faults 0 ls t).1 q) ∧
    ((srv.session faults (ls ++ [⟨true, .makeDir p⟩]) t).1 p ≠ t p →
      (srv.steps faults 0 ls t).2 = true) ∧
    ((srv.session faults (ls ++ [⟨true, .makeDir p⟩]) t).2 = true →
      (srv.steps faults 0 ls t).2 = true ∧
        ((srv.session faults (ls ++ [⟨true, .makeDir p⟩]) t).1 p ≠ none ∨
          srv.room (srv.session faults (ls ++ [⟨true, .makeDir p⟩]) t).1 p = false ∨
          ∃ i written, faults i = .refused written)) := by
  have hkept : (srv.steps faults 0 ls t).1 p = t p := steps_frame hmark
  have hthrough : (srv.session faults (ls ++ [⟨true, .makeDir p⟩]) t).2 = true →
      (srv.steps faults 0 (ls ++ [⟨true, .makeDir p⟩]) t).2 = true := steps_of_session
  rw [session_fst]
  rcases steps_append_cases srv faults 0 ls [⟨true, .makeDir p⟩] t with ⟨hstop, heq⟩ | ⟨hgo, heq⟩
  · rw [heq] at hthrough ⊢
    refine ⟨fun q _ ↦ rfl, fun hne ↦ absurd hkept hne, fun h ↦ ?_⟩
    have hgo := hthrough h
    rw [hstop] at hgo
    cases hgo
  · rw [heq] at hthrough ⊢
    generalize srv.steps faults 0 ls t = r at hkept hgo hthrough ⊢
    rcases makeDir_cases srv faults (0 + ls.length) r.1 p with ⟨goesOn, hmk, hwhy⟩ | ⟨-, -, hmk⟩
    · rw [hmk] at hthrough ⊢
      refine ⟨fun q _ ↦ rfl, fun _ ↦ hgo, fun h ↦ ⟨hgo, ?_⟩⟩
      rcases hwhy (hthrough h) with h | h | ⟨w, h⟩
      · exact .inl (Option.isSome_iff_ne_none.mp h)
      · exact .inr (.inl h)
      · exact .inr (.inr ⟨_, w, h⟩)
    · rw [hmk]
      refine ⟨fun q hq ↦ Function.update_of_ne hq _ _, fun _ ↦ hgo, fun _ ↦ ⟨hgo, .inl ?_⟩⟩
      dsimp only
      rw [Function.update_self]
      exact Option.some_ne_none _

/-- A directory is made where there is room for it. -/
theorem makeDir_isDir (hfree : (t p).all Node.isDir = true) (hroom : srv.room t p = true) :
    ((srv.steps quiet i [⟨true, .makeDir p⟩] t).1 p).any Node.isDir = true := by
  rcases makeDir_cases srv quiet i t p with ⟨goesOn, heq, hwhy⟩ | ⟨-, -, heq⟩
  · have hgo : goesOn = true := by
      have hquiet : (srv.steps quiet i [⟨true, .makeDir p⟩] t).2 = true := makeDir_quiet
      rwa [heq] at hquiet
    rcases hwhy hgo with hsome | hno | ⟨w, hf⟩
    · obtain ⟨n, hn⟩ := Option.isSome_iff_exists.mp hsome
      rw [hn] at hfree
      rw [heq]
      dsimp only
      rw [hn]
      exact hfree
    · rw [hroom] at hno
      cases hno
    · cases hf
  · rw [heq]
    dsimp only
    rw [Function.update_self]
    rfl

theorem session_quiet (h : (srv.steps quiet 0 ls t).2 = true) :
    (srv.session quiet ls t).2 = true := by
  change ((srv.steps quiet 0 ls t).2 && !Fault.isCut .none) = true
  rw [h]
  rfl

end Server

end Transfer
