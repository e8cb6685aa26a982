import HsUploader.Library.Except
import HsUploader.Sources.Files

/-!
# What a batch of files holds

A poll cuts the oldest `limit` files off what lies past the cursor, its window, and the records of a
batch are those of the window's files, one file after the other (`iterBatches_eq_some`).  The limit
counts files: a batch keeps within it as a number of records exactly when the window's files parse
to that many or fewer (`within_limit_iff`).

## What is here

* `count` and `Quiet` — how many records a file gives, and whether all exceptions of it are caught.
* `iterBatches_eq_some` — the batch of a poll, by the files of its window.
* `within_limit_iff` — exactly when the batch keeps within the limit as a number of records.
* `spool` — files that hold a number of spots each.
-/

set_option autoImplicit false

namespace HsUploader.Files.FileTreeSource

variable {C : Type} {src : FileTreeSource C} {it : Interpreter C}

/-! ## Records of a file -/

variable (src it) in
/-- The number of records a file parses to. -/
def count (e : Entry) : ℕ :=
  match src.parse it e with
  | .ok items => items.length
  | .error _ => 0

variable (src it) in
/-- Nothing is raised past the guard: the items can be read, and the file's time is one that a
`datetime` has, where it is looked at. -/
def Quiet (e : Entry) : Prop :=
  (∃ items, src.parse it e = .ok items) ∧
    ((src.specFor e.path).isSome → ∃ t, it.fromMtime e.mtimeNs = .ok t)

theorem recordsOf_eq_ok {e : Entry} {rs : List (FileRecord C)} :
    src.recordsOf it e = .ok rs ↔
      (src.specFor e.path = none ∧ rs = []) ∨
      ∃ spec mtime items, src.specFor e.path = some spec ∧ it.fromMtime e.mtimeNs = .ok mtime ∧
        itemsOf it spec e = .ok items ∧ rs = items.map fun item ↦
          { table := spec.table, time := item.time.getD mtime, columns := item.columns
            file := e } := by
  rw [recordsOf]
  cases src.specFor e.path with
  | none =>
    rw [Except.pure_eq_ok]
    simp [eq_comm]
  | some spec =>
    simp only [Except.bind_eq_ok, Except.pure_eq_ok, reduceCtorEq, false_and, false_or,
      Option.some.injEq]
    constructor
    · rintro ⟨mtime, hmtime, items, hitems, rfl⟩
      exact ⟨spec, mtime, items, rfl, hmtime, hitems, rfl⟩
    · rintro ⟨_, mtime, items, rfl, hmtime, hitems, rfl⟩
      exact ⟨mtime, hmtime, items, hitems, rfl⟩

theorem recordsOf_ok_iff {e : Entry} : (∃ rs, src.recordsOf it e = .ok rs) ↔ Quiet src it e := by
  simp only [recordsOf_eq_ok, Quiet, parse]
  cases src.specFor e.path with
  | none => simp
  | some spec =>
    simp only [reduceCtorEq, false_and, false_or, Option.some.injEq, Option.isSome_some,
      true_implies]
    constructor
    · rintro ⟨_, _, mtime, items, rfl, hmtime, hitems, -⟩
      exact ⟨⟨items, hitems⟩, mtime, hmtime⟩
    · rintro ⟨⟨items, hitems⟩, mtime, hmtime⟩
      exact ⟨_, spec, mtime, items, rfl, hmtime, hitems, rfl⟩

theorem length_of_recordsOf {e : Entry} {rs : List (FileRecord C)}
    (h : src.recordsOf it e = .ok rs) : rs.length = src.count it e := by
  rcases recordsOf_eq_ok.mp h with ⟨hspec, rfl⟩ | ⟨spec, mtime, items, hspec, -, hitems, rfl⟩
  · rw [count, parse, hspec]
    rfl
  · rw [count, parse, hspec]
    simp only [hitems, List.length_map]

theorem file_of_recordsOf {e : Entry} {rs : List (FileRecord C)} (h : src.recordsOf it e = .ok rs) :
    ∀ r ∈ rs, r.file = e := by
  rcases recordsOf_eq_ok.mp h with ⟨-, rfl⟩ | ⟨spec, mtime, items, -, -, -, rfl⟩
  · exact fun r hr ↦ absurd hr List.not_mem_nil
  · intro r hr
    obtain ⟨item, -, rfl⟩ := List.mem_map.mp hr
    rfl

/-! ## The window -/

theorem iterBatches_eq_some {ord : SetOrder Entry} {tree : List Entry} {cursor : Bytes} {limit : ℕ}
    {batch : FileBatch C} :
    src.iterBatches it ord (some tree) cursor limit = .ok (some batch) ↔
      ∃ files found, src.afterCursor it cursor (src.collectFiles ord tree) = .ok files ∧
        (files.take limit).mapM (src.recordsOf it) = .ok found ∧ found.flatten ≠ [] ∧
        batch = src.batchOf found.flatten := by
  have hnil : src.collectFiles ord tree = [] → ∀ files,
      src.afterCursor it cursor (src.collectFiles ord tree) = .ok files → files = [] := by
    intro hnil files hfiles
    rw [hnil, afterCursor] at hfiles
    split_ifs at hfiles
    · obtain ⟨after, -, hfiles⟩ := Except.bind_eq_ok.mp hfiles
      exact (Except.pure_eq_ok.mp hfiles).symm
    · exact (Except.pure_eq_ok.mp hfiles).symm
  rw [iterBatches]
  split_ifs with hempty
  · constructor
    · intro h
      cases h
    · rintro ⟨files, found, hfiles, hfound, hne, -⟩
      rw [hnil (List.isEmpty_iff.mp hempty) files hfiles, List.take_nil] at hfound
      cases hfound
      exact absurd rfl hne
  · rw [Except.bind_eq_ok]
    refine exists_congr fun files ↦ ?_
    rw [Except.bind_eq_ok]
    constructor
    · rintro ⟨hfiles, found, hfound, h⟩
      refine ⟨found, hfiles, hfound, ?_⟩
      split_ifs at h with hflat
      · cases h
      · exact ⟨fun hnil ↦ hflat (List.isEmpty_iff.mpr hnil), (by cases h; rfl)⟩
    · rintro ⟨found, hfiles, hfound, hne, rfl⟩
      refine ⟨hfiles, found, hfound, ?_⟩
      rw [if_neg fun hflat ↦ hne (List.isEmpty_iff.mp hflat)]
      rfl

theorem records_batchOf (records : List (FileRecord C)) :
    (src.batchOf records).records = records := by
  rw [batchOf]
  split_ifs <;> rfl

theorem length_flatten_of_mapM {files : List Entry} {found : List (List (FileRecord C))}
    (h : files.mapM (src.recordsOf it) = .ok found) :
    found.flatten.length = (files.map (src.count it)).sum := by
  induction files generalizing found with
  | nil =>
    cases h
    rfl
  | cons e files ih =>
    obtain ⟨rs, found, hrs, hfound, rfl⟩ := Except.mapM_cons_eq_ok.mp h
    rw [List.flatten_cons, List.length_append, ih hfound, length_of_recordsOf hrs, List.map_cons,
      List.sum_cons]

/-! ## The limit -/

/-- **A batch has at most `limit` records exactly when the files of its window parse to that
many.** -/
theorem within_limit_iff (src : FileTreeSource C) (it : Interpreter C) (ord : SetOrder Entry)
    (tree : List Entry) (cursor : Bytes) (limit : ℕ) (files : List Entry) (batch : FileBatch C)
    (hfiles : src.afterCursor it cursor (src.collectFiles ord tree) = .ok files)
    (hbatch : src.iterBatches it ord (some tree) cursor limit = .ok (some batch)) :
    batch.records.length ≤ limit ↔ ((files.take limit).map (src.count it)).sum ≤ limit := by
  obtain ⟨files', found, hfiles', hfound, -, rfl⟩ := iterBatches_eq_some.mp hbatch
  rw [hfiles] at hfiles'
  cases hfiles'
  rw [records_batchOf, length_flatten_of_mapM hfound]

/-! ## A file of many records -/

/-- What the interpreter brings, with no columns. -/
def plainInterpreter : Interpreter Unit where
  fromMtime ns := .ok (ns / 1000)
  floatNs _ := .error (.valueError "could not convert string to float")
  pathColumns _ := ()

/-- A spool whose files hold a number of spots each. -/
def spool (spots : ℕ) : FileTreeSource Unit where
  root := ["spool"]
  specs := [{ globs := fun _ ↦ true, pathMatch := fun _ ↦ true
              parser := some fun _ _ ↦ .iterable (List.replicate spots { columns := () }) none }]

/-- Its files, in the order they are listed. -/
def listed : SetOrder Entry := ⟨id, fun l ↦ .refl l⟩

/-- A file of the spool. -/
def spotFile : Entry := { path := ["spool", "a.txt"], kind := .file, mtimeNs := 1, content := some [] }

theorem afterCursor_spool (spots : ℕ) :
    (spool spots).afterCursor plainInterpreter []
      ((spool spots).collectFiles listed [spotFile]) = .ok [spotFile] := by
  have hcollect : (spool spots).collectFiles listed [spotFile] = [spotFile] := by
    simp [collectFiles, wanted, spool, listed, spotFile]
  rw [hcollect]
  rfl

/-- The batch of a spool with one file. -/
theorem iterBatches_spool (spots limit : ℕ) (hspots : 1 ≤ spots) (hlimit : 1 ≤ limit) :
    ∃ batch, (spool spots).iterBatches plainInterpreter listed (some [spotFile]) [] limit =
      .ok (some batch) ∧ batch.records.length = spots := by
  have htake : [spotFile].take limit = [spotFile] := List.take_of_length_le hlimit
  have hquiet : Quiet (spool spots) plainInterpreter spotFile := ⟨⟨_, rfl⟩, fun _ ↦ ⟨_, rfl⟩⟩
  obtain ⟨rs, hrs⟩ := recordsOf_ok_iff.mpr hquiet
  have hlength : rs.length = spots := by
    rw [length_of_recordsOf hrs]
    exact List.length_replicate
  have hfound : ([spotFile].take limit).mapM ((spool spots).recordsOf plainInterpreter) =
      .ok [rs] := by
    rw [htake]
    exact Except.mapM_cons_eq_ok.mpr ⟨rs, [], hrs, rfl, rfl⟩
  have hne : [rs].flatten ≠ [] := by
    rw [List.flatten_singleton]
    exact List.ne_nil_of_length_pos (by omega)
  refine ⟨_, iterBatches_eq_some.mpr ⟨_, _, afterCursor_spool spots, hfound, hne, rfl⟩, ?_⟩
  rw [records_batchOf, List.flatten_singleton, hlength]

theorem within_limit_iff_spool :
    ∃ batch, (spool 2).iterBatches plainInterpreter listed (some [spotFile]) [] 999 =
        .ok (some batch) ∧
      (batch.records.length ≤ 999 ↔
        (([spotFile].take 999).map ((spool 2).count plainInterpreter)).sum ≤ 999) := by
  obtain ⟨batch, hbatch, -⟩ := iterBatches_spool 2 999 (by decide) (by decide)
  exact ⟨batch, hbatch, within_limit_iff (spool 2) plainInterpreter listed [spotFile] [] 999
    [spotFile] batch (afterCursor_spool 2) hbatch⟩

/-- One file of a thousand spots makes a batch that is larger than what an upload to wsprnet
takes. -/
theorem within_limit_fails :
    ¬ ∀ (C : Type) (src : FileTreeSource C) (it : Interpreter C) (ord : SetOrder Entry)
      (tree : List Entry) (cursor : Bytes) (limit : ℕ) (batch : FileBatch C), 1 ≤ limit →
      src.iterBatches it ord (some tree) cursor limit = .ok (some batch) →
      batch.records.length ≤ limit := by
  intro h
  obtain ⟨batch, hbatch, hlength⟩ := iterBatches_spool 1000 999 (by decide) (by decide)
  have hle := h _ (spool 1000) plainInterpreter listed [spotFile] [] 999 batch (by decide) hbatch
  omega

end HsUploader.Files.FileTreeSource
