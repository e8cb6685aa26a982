import HsUploader.Core.Types
import HsUploader.Library.Joined
import HsUploader.Transports.WsprdaemonTar

/-!
# Paths of files, and what an upload answers

A record of a dataset or of a heartbeat names a file by its path.  The text of a path is read back
as the path (`parsePath_pathText`), which is what a retry that keeps the text relies on.
-/

set_option autoImplicit false

namespace HsUploader.Sftp

open Wsprdaemon (FilePath slashJoin)

/-! ## Texts -/

/-- White space of a text: `c.isspace()`. -/
def isWhite : PyChar → Bool
  | .scalar c => c.toNat ∈ [9, 10, 11, 12, 13, 28, 29, 30, 31, 32, 133, 160, 5760, 8192, 8193, 8194,
      8195, 8196, 8197, 8198, 8199, 8200, 8201, 8202, 8232, 8233, 8239, 8287, 12288]
  | .surrogate _ => false

/-- `s.strip()`. -/
def strip (s : PyText) : PyText := ((s.dropWhile isWhite).reverse.dropWhile isWhite).reverse

/-! ## Paths -/

/-- The text of a path of the parts. -/
def partsText (absolute : Bool) (parts : List PyText) : PyText :=
  if absolute then .ofString "/" ++ slashJoin parts
  else if parts = [] then .ofString "."
  else slashJoin parts

/-- `str(path)`. -/
def pathText (path : FilePath) : PyText := partsText path.absolute path.parts

/-- `Path(text).parts`, but for the root. -/
def partsOf (text : PyText) : List PyText :=
  (text.splitOn (.scalar '/')).filter fun p ↦ p ≠ [] && p ≠ .ofString "."

/-- `Path(text)`, `none` where a NUL in the text keeps any file from standing there. -/
def parsePath (text : PyText) : Option FilePath :=
  if .scalar '\x00' ∈ text then none
  else some {
    absolute := text.head? = some (.scalar '/')
    parts := (partsOf text).filter fun p ↦ .scalar '/' ∉ p && .scalar '\x00' ∉ p
    wellFormed := by
      intro p hp
      obtain ⟨hmem, hkept⟩ := List.mem_filter.mp hp
      have hne := (List.mem_filter.mp hmem).2
      simp only [Bool.and_eq_true, decide_eq_true_eq] at hkept hne
      exact ⟨hne.1, hkept⟩ }

/-- A path as `pathlib` keeps it: no part is a dot. -/
def Normal (path : FilePath) : Prop := ∀ p ∈ path.parts, p ≠ .ofString "."

theorem pathText_ne_nil (path : FilePath) : pathText path ≠ [] := by
  rw [pathText, partsText]
  split
  · exact List.cons_ne_nil _ _
  · split
    · exact List.cons_ne_nil _ _
    · rename_i hparts
      obtain ⟨p, ps, hps⟩ := List.exists_cons_of_ne_nil hparts
      intro hnil
      have hne := (path.wellFormed p (hps ▸ List.mem_cons_self)).1
      rw [hps, slashJoin] at hnil
      cases ps with
      | nil => exact hne (by simpa [List.intercalate] using hnil)
      | cons q qs =>
        rw [Joined.intercalate_cons] at hnil
        exact hne (List.append_eq_nil_iff.mp hnil).1

theorem mem_slashJoin {parts : List PyText} {c : PyChar} (h : c ∈ slashJoin parts) :
    c = .scalar '/' ∨ ∃ p ∈ parts, c ∈ p := by
  rw [slashJoin] at h
  induction parts with
  | nil => exact absurd h List.not_mem_nil
  | cons p parts ih =>
    cases parts with
    | nil =>
      rw [List.intercalate_singleton] at h
      exact .inr ⟨p, List.mem_cons_self, h⟩
    | cons q parts =>
      rw [Joined.intercalate_cons, List.mem_append, List.mem_cons] at h
      rcases h with h | h | h
      · exact .inr ⟨p, List.mem_cons_self, h⟩
      · exact .inl h
      · exact (ih h).imp_right fun hmem ↦ by
          obtain ⟨q, hq, hc⟩ := hmem
          exact ⟨q, List.mem_cons_of_mem _ hq, hc⟩

theorem nul_not_mem_pathText (path : FilePath) : PyChar.scalar '\x00' ∉ pathText path := by
  have hjoin : PyChar.scalar '\x00' ∉ slashJoin path.parts := by
    intro h
    rcases mem_slashJoin h with h | ⟨p, hp, h⟩
    · cases h
    · exact (path.wellFormed p hp).2.2 h
  rw [pathText, partsText]
  split
  · intro h
    rcases List.mem_append.mp h with h | h
    · exact absurd h (by decide)
    · exact hjoin h
  · split
    · decide
    · exact hjoin

/-- The parts of a path can be read off it. -/
theorem splitOn_slashJoin (path : FilePath) (hne : path.parts ≠ []) :
    (slashJoin path.parts).splitOn (.scalar '/') = path.parts :=
  List.splitOn_intercalate _ (fun p hp ↦ (path.wellFormed p hp).2.1) hne

theorem head_slashJoin (path : FilePath) (hne : path.parts ≠ []) :
    (slashJoin path.parts).head? ≠ some (.scalar '/') := by
  obtain ⟨p, ps, hps⟩ := List.exists_cons_of_ne_nil hne
  obtain ⟨hp, hslash, -⟩ := path.wellFormed p (hps ▸ List.mem_cons_self)
  obtain ⟨c, cs, rfl⟩ := List.exists_cons_of_ne_nil hp
  have hhead : (slashJoin path.parts).head? = some c := by
    rw [hps, slashJoin]
    cases ps with
    | nil => rfl
    | cons q qs => rfl
  rw [hhead]
  rintro heq
  exact hslash (Option.some.inj heq ▸ List.mem_cons_self)

theorem filter_parts {path : FilePath} (h : Normal path) :
    (path.parts.filter fun p ↦ p ≠ [] && p ≠ PyText.ofString ".") = path.parts := by
  refine List.filter_eq_self.mpr fun p hp ↦ ?_
  simp [(path.wellFormed p hp).1, h p hp]

theorem partsOf_pathText {path : FilePath} (h : Normal path) :
    partsOf (pathText path) = path.parts := by
  rw [partsOf, pathText, partsText]
  by_cases hne : path.parts = []
  · rw [hne]
    split <;> decide
  · split
    · have hroot : PyText.ofString "/" ++ slashJoin path.parts = slashJoin ([] :: path.parts) := by
        obtain ⟨q, qs, hqs⟩ := List.exists_cons_of_ne_nil hne
        rw [hqs, slashJoin, slashJoin, Joined.intercalate_cons]
        rfl
      have hsplit : (slashJoin ([] :: path.parts)).splitOn (.scalar '/') = [] :: path.parts :=
        List.splitOn_intercalate _ (List.forall_mem_cons.mpr
          ⟨List.not_mem_nil, fun p hp ↦ (path.wellFormed p hp).2.1⟩) (List.cons_ne_nil _ _)
      rw [hroot, hsplit, List.filter_cons_of_neg (by decide)]
      exact filter_parts h
    · rw [splitOn_slashJoin path hne]
      exact filter_parts h

/-- The text of a path is read back as the path. -/
theorem parsePath_pathText {path : FilePath} (h : Normal path) :
    parsePath (pathText path) = some path := by
  have hhead : decide ((pathText path).head? = some (.scalar '/')) = path.absolute := by
    rw [pathText, partsText]
    cases habs : path.absolute with
    | true => rfl
    | false =>
      rw [if_neg Bool.false_ne_true, decide_eq_false_iff_not]
      split
      · decide
      · exact head_slashJoin path ‹_›
  have hparts : (partsOf (pathText path)).filter
      (fun p ↦ .scalar '/' ∉ p && .scalar '\x00' ∉ p) = path.parts := by
    rw [partsOf_pathText h]
    refine List.filter_eq_self.mpr fun p hp ↦ ?_
    simp [(path.wellFormed p hp).2.1, (path.wellFormed p hp).2.2]
  rw [parsePath, if_neg (nul_not_mem_pathText path)]
  simp only [hhead, hparts]

/-! ## Uploads -/

/-- `StationIdentity`, what is asked of it. -/
structure Identity where
  stationId : PyText := []
  sshKeyFile : Option PyText := none

/-- A record: the file it names. -/
structure FileRecord where
  payloadPath : Option FilePath := none

/-- What an upload answers.  The reason may hold a file's name, which need not be Unicode. -/
structure Answer where
  kind : OutcomeKind
  reason : PyText := []
  nBytes : ℕ := 0

namespace Answer

/-- `Outcome(kind="acked", n_bytes=nBytes)`. -/
def acked (nBytes : ℕ) : Answer := { kind := .acked, nBytes := nBytes }

/-- `Outcome.retry_later(reason)`. -/
def retryLater (reason : PyText) : Answer := { kind := .retryLater, reason := reason }

end Answer

end HsUploader.Sftp
