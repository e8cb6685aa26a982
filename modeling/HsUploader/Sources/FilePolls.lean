import HsUploader.Library.Paging
import HsUploader.Sources.FileBatches
import HsUploader.Sources.FilePrune

/-!
# Polls of a source of files

A poll reads one batch and, the transport acking it, commits it and stores its cursor.

With `keep` the cursor is a time and the end of a batch a number of files, so that of the files that
share a time across the end of a batch those beyond it are passed over: each file is shipped once
exactly when there are none (`keep_ships_once_iff`).

## What is here

* `poll` and `polled` — a poll, and any number of them; the operating system may refuse to delete at
  any of them.
* `Eligible` and `shipped` — the files before a poll, and what it ships of one of them.
* `Parses` and `ShippedOnce` — what is asked for each file.
* `timeOf` and `pageOf` — a run with `keep` is a `Walk` over the modification times.
* `keep_ships_once_iff` — exactly when each file past the starting cursor is shipped once.
-/

set_option autoImplicit false

namespace HsUploader.Files.FileTreeSource

variable {C : Type}

/-- What the operating system does at one poll. -/
structure Os where
  files : SetOrder Entry
  dirs : SetOrder Path
  refuses : Path → Bool

/-- The tree and the stored cursor. -/
structure Polled where
  tree : List Entry
  cursor : Bytes

section Defs

variable (src : FileTreeSource C) (it : Interpreter C)

/-- One poll, whose batch is acked. -/
def poll (os : Os) (limit : ℕ) (st : Polled) : Option (FileBatch C) × Polled :=
  match src.iterBatches it os.files (some st.tree) st.cursor limit with
  | .ok (some batch) =>
    (some batch,
      { tree := (src.commit os.dirs os.refuses batch.commitToken st.tree).getD st.tree
        cursor := batch.cursorAfter })
  | .ok none | .error _ => (none, st)

/-- The state after `n` polls. -/
def polled (oss : ℕ → Os) (limit : ℕ) (st : Polled) : ℕ → Polled
  | 0 => st
  | n + 1 => (poll src it (oss n) limit (polled oss limit st n)).2

/-- The records of a file that a poll ships. -/
def shipped (oss : ℕ → Os) (limit : ℕ) (st : Polled) (n : ℕ) (e : Entry) : List (FileRecord C) :=
  match (poll src it (oss n) limit (polled src it oss limit st n)).1 with
  | none => []
  | some batch => batch.records.filter fun r ↦ r.file = e

/-- The file parses to at least one record. -/
def Parses (e : Entry) : Prop := 0 < src.count it e

/-- The file's records are shipped by one poll, and by no other. -/
def ShippedOnce (oss : ℕ → Os) (limit : ℕ) (st : Polled) (e : Entry) : Prop :=
  ∃ n rs, src.recordsOf it e = .ok rs ∧ rs ≠ [] ∧ shipped src it oss limit st n e = rs ∧
    ∀ m, m ≠ n → shipped src it oss limit st m e = []

/-- The files a poll has before it: those past the cursor, oldest first. -/
def Eligible (os : Os) (st : Polled) (files : List Entry) : Prop :=
  src.afterCursor it st.cursor (src.collectFiles os.files st.tree) = .ok files

end Defs

instance (src : FileTreeSource C) (it : Interpreter C) (e : Entry) : Decidable (src.Parses it e) :=
  inferInstanceAs (Decidable (0 < _))

variable {src : FileTreeSource C} {it : Interpreter C} {os : Os} {oss : ℕ → Os} {limit : ℕ}
  {st : Polled} {files : List Entry}

/-! ## The files of a poll -/

theorem mem_collectFiles {ord : SetOrder Entry} {tree : List Entry} {e : Entry} :
    e ∈ src.collectFiles ord tree ↔ e ∈ tree ∧ src.wanted e := by
  rw [collectFiles, List.mem_mergeSort, (ord.perm _).mem_iff, List.mem_filter]

theorem collectFiles_perm (ord : SetOrder Entry) (tree : List Entry) :
    (src.collectFiles ord tree).Perm (tree.filter src.wanted) :=
  (List.mergeSort_perm _ _).trans (ord.perm _)

theorem pairwise_collectFiles (ord : SetOrder Entry) (tree : List Entry) :
    (src.collectFiles ord tree).Pairwise fun a b ↦ a.mtimeNs ≤ b.mtimeNs := by
  have htrans : ∀ a b c : Entry, decide (a.mtimeNs ≤ b.mtimeNs) = true →
      decide (b.mtimeNs ≤ c.mtimeNs) = true → decide (a.mtimeNs ≤ c.mtimeNs) = true :=
    fun a b c hab hbc ↦ decide_eq_true ((of_decide_eq_true hab).trans (of_decide_eq_true hbc))
  have htotal : ∀ a b : Entry,
      (decide (a.mtimeNs ≤ b.mtimeNs) || decide (b.mtimeNs ≤ a.mtimeNs)) = true := fun a b ↦ by
    simpa using le_total a.mtimeNs b.mtimeNs
  have h := List.pairwise_mergeSort htrans htotal (ord.order (tree.filter src.wanted))
  exact h.imp fun hab ↦ of_decide_eq_true hab

theorem eligible_delete (hdelete : src.keep = false) :
    Eligible src it os st files ↔ files = src.collectFiles os.files st.tree := by
  rw [Eligible, afterCursor, hdelete, if_neg Bool.false_ne_true, Except.pure_eq_ok, eq_comm]

theorem eligible_keep {c : ℤ} (hkeep : src.keep = true)
    (hcursor : decodeKeepCursor it st.cursor = .ok c) :
    Eligible src it os st files ↔
      files = (src.collectFiles os.files st.tree).filter fun e ↦ c < e.mtimeNs := by
  rw [Eligible, afterCursor, hkeep, if_pos rfl, hcursor, Except.ok_bind, Except.pure_eq_ok, eq_comm]

theorem Eligible.sublist (h : Eligible src it os st files) :
    files.Sublist (src.collectFiles os.files st.tree) := by
  rw [Eligible, afterCursor] at h
  split_ifs at h
  · obtain ⟨c, -, h⟩ := Except.bind_eq_ok.mp h
    rw [← Except.pure_eq_ok.mp h]
    exact List.filter_sublist
  · rw [← Except.pure_eq_ok.mp h]

theorem Eligible.mem (h : Eligible src it os st files) {e : Entry} (he : e ∈ files) :
    e ∈ st.tree ∧ src.wanted e :=
  mem_collectFiles.mp (h.sublist.subset he)

theorem Eligible.nodup (h : Eligible src it os st files)
    (hdistinct : (st.tree.map (·.path)).Nodup) : files.Nodup :=
  ((collectFiles_perm os.files st.tree).nodup_iff.mpr (hdistinct.of_map.filter _)).sublist h.sublist

theorem Eligible.le_drop (h : Eligible src it os st files) {a b : Entry} (ha : a ∈ files.take limit)
    (hb : b ∈ files.drop limit) : a.mtimeNs ≤ b.mtimeNs := by
  have hsorted := (pairwise_collectFiles os.files st.tree).sublist h.sublist
  rw [← List.take_append_drop limit files, List.pairwise_append] at hsorted
  exact hsorted.2.2 a ha b hb

/-! ## The records of a poll -/

theorem recordsOf_of_parses {e : Entry} (hquiet : src.Quiet it e) (hparses : src.Parses it e) :
    ∃ rs, src.recordsOf it e = .ok rs ∧ rs ≠ [] := by
  obtain ⟨rs, hrs⟩ := recordsOf_ok_iff.mpr hquiet
  refine ⟨rs, hrs, List.ne_nil_of_length_pos ?_⟩
  rw [length_of_recordsOf hrs]
  exact hparses

theorem parses_of_recordsOf {e : Entry} {rs : List (FileRecord C)}
    (h : src.recordsOf it e = .ok rs) (hne : rs ≠ []) : src.Parses it e := by
  rw [Parses, ← length_of_recordsOf h]
  exact List.length_pos_of_ne_nil hne

/-- The records of one file among those of several. -/
theorem filter_of_mapM {found : List (List (FileRecord C))} {e : Entry}
    (h : files.mapM (src.recordsOf it) = .ok found) (hnodup : files.Nodup) :
    (e ∈ files → src.recordsOf it e = .ok (found.flatten.filter fun r ↦ r.file = e)) ∧
      (e ∉ files → (found.flatten.filter fun r ↦ r.file = e) = []) := by
  induction files generalizing found with
  | nil =>
    cases h
    exact ⟨fun he ↦ absurd he List.not_mem_nil, fun _ ↦ rfl⟩
  | cons f files ih =>
    obtain ⟨rs, found, hrs, hfound, rfl⟩ := Except.mapM_cons_eq_ok.mp h
    rw [List.nodup_cons] at hnodup
    obtain ⟨hin, hout⟩ := ih hfound hnodup.2
    have hfile := file_of_recordsOf hrs
    rw [List.flatten_cons, List.filter_append]
    by_cases hef : f = e
    · subst hef
      have hself : rs.filter (fun r ↦ r.file = f) = rs :=
        List.filter_eq_self.mpr fun r hr ↦ decide_eq_true (hfile r hr)
      rw [hself, hout hnodup.1, List.append_nil]
      exact ⟨fun _ ↦ hrs, fun hno ↦ absurd List.mem_cons_self hno⟩
    · have hnone : rs.filter (fun r ↦ r.file = e) = [] :=
        List.filter_eq_nil_iff.mpr fun r hr ↦ by simpa [hfile r hr] using hef
      rw [hnone, List.nil_append, List.mem_cons, or_iff_right (Ne.symm hef)]
      exact ⟨hin, hout⟩

/-- A window that raises nothing and holds a file that parses makes a batch. -/
theorem exists_batch (h : Eligible src it os st files)
    (hquiet : ∀ e ∈ files.take limit, src.Quiet it e)
    (hparses : ∃ e ∈ files.take limit, src.Parses it e) :
    ∃ found, (files.take limit).mapM (src.recordsOf it) = .ok found ∧ found.flatten ≠ [] ∧
      poll src it os limit st = (some (src.batchOf found.flatten),
        { tree := (src.commit os.dirs os.refuses (src.batchOf found.flatten).commitToken
            st.tree).getD st.tree
          cursor := (src.batchOf found.flatten).cursorAfter }) := by
  obtain ⟨found, hfound⟩ := Except.mapM_ok_iff.mpr fun e he ↦ recordsOf_ok_iff.mpr (hquiet e he)
  obtain ⟨e, he, hep⟩ := hparses
  have hne : found.flatten ≠ [] := by
    obtain ⟨rs, hrs, hrsne⟩ := recordsOf_of_parses (hquiet e he) hep
    obtain ⟨rs', hrs', heq⟩ := (Except.exists_of_mapM hfound).1 e he
    rw [hrs] at heq
    cases heq
    obtain ⟨r, hr⟩ := List.exists_mem_of_ne_nil rs hrsne
    exact List.ne_nil_of_mem (List.mem_flatten.mpr ⟨rs, hrs', hr⟩)
  refine ⟨found, hfound, hne, ?_⟩
  rw [poll, iterBatches_eq_some.mpr ⟨files, found, h, hfound, hne, rfl⟩]

/-- The files of the records of a window are those of it that parse. -/
theorem exists_record_iff {found : List (List (FileRecord C))} {e : Entry}
    (h : files.mapM (src.recordsOf it) = .ok found) :
    (∃ r ∈ found.flatten, r.file = e) ↔ e ∈ files ∧ src.Parses it e := by
  constructor
  · rintro ⟨r, hr, rfl⟩
    obtain ⟨rs, hrs, hrrs⟩ := List.mem_flatten.mp hr
    obtain ⟨f, hf, hfrs⟩ := (Except.exists_of_mapM h).2 rs hrs
    rw [file_of_recordsOf hfrs r hrrs]
    exact ⟨hf, parses_of_recordsOf hfrs (List.ne_nil_of_mem hrrs)⟩
  · rintro ⟨he, hep⟩
    obtain ⟨rs, hrs, hers⟩ := (Except.exists_of_mapM h).1 e he
    have hne : rs ≠ [] := List.ne_nil_of_length_pos (by rwa [length_of_recordsOf hers])
    obtain ⟨r, hr⟩ := List.exists_mem_of_ne_nil rs hne
    exact ⟨r, List.mem_flatten.mpr ⟨rs, hrs, hr⟩, file_of_recordsOf hers r hr⟩

theorem shipped_eq {found : List (List (FileRecord C))} {n : ℕ} {e : Entry} {after : Polled}
    (hpoll : poll src it (oss n) limit (polled src it oss limit st n) =
      (some (src.batchOf found.flatten), after))
    (h : (files.take limit).mapM (src.recordsOf it) = .ok found)
    (hnodup : files.Nodup) :
    (e ∈ files.take limit → src.recordsOf it e = .ok (shipped src it oss limit st n e)) ∧
      (e ∉ files.take limit → shipped src it oss limit st n e = []) := by
  rw [shipped, hpoll]
  dsimp only
  rw [records_batchOf]
  exact filter_of_mapM h (hnodup.sublist (List.take_sublist limit files))

/-- A file that is shipped was in the window, and the window raised nothing. -/
theorem mem_of_shipped {n : ℕ} {e : Entry} (h : shipped src it oss limit st n e ≠ []) :
    ∃ files, Eligible src it (oss n) (polled src it oss limit st n) files ∧
      e ∈ files.take limit ∧ src.Quiet it e := by
  rw [shipped, poll] at h
  cases hbatch : src.iterBatches it (oss n).files (some (polled src it oss limit st n).tree)
      (polled src it oss limit st n).cursor limit with
  | error => rw [hbatch] at h; exact absurd rfl h
  | ok batch =>
    cases batch with
    | none => rw [hbatch] at h; exact absurd rfl h
    | some batch =>
      rw [hbatch] at h
      dsimp only at h
      obtain ⟨files, found, hfiles, hfound, -, rfl⟩ := iterBatches_eq_some.mp hbatch
      rw [records_batchOf] at h
      obtain ⟨r, hr⟩ := List.exists_mem_of_ne_nil _ h
      obtain ⟨hrfound, hre⟩ := List.mem_filter.mp hr
      obtain ⟨he, -⟩ := (exists_record_iff hfound).mp ⟨r, hrfound, of_decide_eq_true hre⟩
      obtain ⟨rs, -, hrs⟩ := (Except.exists_of_mapM hfound).1 e he
      exact ⟨files, hfiles, he, recordsOf_ok_iff.mp ⟨rs, hrs⟩⟩

/-! ## The cursor of `keep` -/

@[simp] theorem decodeKeepCursor_encode (n : ℤ) :
    decodeKeepCursor it (encodeKeepCursor n) = .ok n := by
  have hne : (encodeKeepCursor n).isEmpty = false := by
    rw [List.isEmpty_eq_false_iff]
    exact Bytes.ofInt_ne_nil n
  have hint : (encodeKeepCursor n).decodeAscii.bind pyInt = some n := Bytes.toInt_ofInt n
  obtain ⟨text, htext, hn⟩ := Option.bind_eq_some_iff.mp hint
  rw [decodeKeepCursor, hne, if_neg Bool.false_ne_true, htext]
  simp only [hn]

theorem latestMtime_spec {records : List (FileRecord C)} (hne : records ≠ []) :
    (∀ r ∈ records, r.file.mtimeNs ≤ latestMtime records) ∧
      ∃ r ∈ records, r.file.mtimeNs = latestMtime records := by
  have hsome : (records.map fun r ↦ r.file.mtimeNs).max? = some (latestMtime records) := by
    rw [latestMtime]
    cases hmax : (records.map fun r ↦ r.file.mtimeNs).max? with
    | none => exact absurd (List.map_eq_nil_iff.mp (List.max?_eq_none_iff.mp hmax)) hne
    | some m => rfl
  obtain ⟨hmem, hle⟩ := List.max?_eq_some_iff.mp hsome
  exact ⟨fun r hr ↦ hle _ (List.mem_map_of_mem hr), List.mem_map.mp hmem⟩

/-- A poll with `keep` leaves the tree and moves the cursor to the latest time it shipped. -/
theorem poll_keep (hkeep : src.keep = true) (h : Eligible src it os st files)
    (hquiet : ∀ e ∈ files.take limit, src.Quiet it e)
    (hparses : ∃ e ∈ files.take limit, src.Parses it e) :
    ∃ found c', (files.take limit).mapM (src.recordsOf it) = .ok found ∧
      poll src it os limit st = (some (src.batchOf found.flatten),
        { tree := st.tree, cursor := encodeKeepCursor c' }) ∧
      (∀ e ∈ files.take limit, src.Parses it e → e.mtimeNs ≤ c') ∧
      ∃ e ∈ files.take limit, src.Parses it e ∧ e.mtimeNs = c' := by
  obtain ⟨found, hfound, hne, hpoll⟩ := exists_batch h hquiet hparses
  obtain ⟨hle, r, hr, hlatest⟩ := latestMtime_spec hne
  refine ⟨found, latestMtime found.flatten, hfound, ?_, fun e he hep ↦ ?_, ?_⟩
  · rw [hpoll, commit, batchOf, hkeep]
    rfl
  · obtain ⟨r, hr, rfl⟩ := (exists_record_iff hfound).mpr ⟨he, hep⟩
    exact hle r hr
  · obtain ⟨he, hep⟩ := (exists_record_iff hfound).mp ⟨r, hr, rfl⟩
    exact ⟨r.file, he, hep, hlatest⟩

/-- A window in which nothing parses leaves everything as it was. -/
theorem poll_barren (h : Eligible src it os st files)
    (hbarren : ∀ e ∈ files.take limit, ¬ src.Parses it e) :
    poll src it os limit st = (none, st) := by
  rw [poll]
  cases hbatch : src.iterBatches it os.files (some st.tree) st.cursor limit with
  | error => rfl
  | ok batch =>
    cases batch with
    | none => rfl
    | some batch =>
      obtain ⟨files', found, hfiles, hfound, hne, -⟩ := iterBatches_eq_some.mp hbatch
      rw [Eligible] at h
      rw [h] at hfiles
      cases hfiles
      obtain ⟨r, hr⟩ := List.exists_mem_of_ne_nil _ hne
      obtain ⟨he, hep⟩ := (exists_record_iff hfound).mp ⟨r, hr, rfl⟩
      exact absurd hep (hbarren r.file he)

/-! ## Every file once -/

variable (src it) in
/-- The time the stored cursor holds. -/
def timeOf (st : Polled) : ℤ :=
  match decodeKeepCursor it st.cursor with
  | .ok c => c
  | .error _ => 0

variable (src it) in
/-- The window of a poll with `keep`. -/
def pageOf (os : Os) (limit : ℕ) (st : Polled) : List Entry :=
  ((src.collectFiles os.files st.tree).filter fun e ↦ timeOf it st < e.mtimeNs).take limit

theorem timeOf_encode (tree : List Entry) (c : ℤ) :
    timeOf it { tree, cursor := encodeKeepCursor c } = c := by
  rw [timeOf, decodeKeepCursor_encode]

/-- A poll of a window whose files can all be shipped. -/
theorem poll_page (hkeep : src.keep = true)
    (hcursor : decodeKeepCursor it st.cursor = .ok (timeOf it st))
    (hall : ∀ e ∈ pageOf src it os limit st, src.Quiet it e ∧ src.Parses it e) :
    (pageOf src it os limit st = [] ∧ poll src it os limit st = (none, st)) ∨
      ∃ found c', (pageOf src it os limit st).mapM (src.recordsOf it) = .ok found ∧
        poll src it os limit st = (some (src.batchOf found.flatten),
          { tree := st.tree, cursor := encodeKeepCursor c' }) ∧
        (∀ e ∈ pageOf src it os limit st, e.mtimeNs ≤ c') ∧
        ∃ e ∈ pageOf src it os limit st, e.mtimeNs = c' := by
  have h : Eligible src it os st _ := (eligible_keep hkeep hcursor).mpr rfl
  by_cases hnil : pageOf src it os limit st = []
  · refine Or.inl ⟨hnil, poll_barren h fun e he ↦ ?_⟩
    rw [pageOf] at hnil
    rw [hnil] at he
    cases he
  · obtain ⟨e, he⟩ := List.exists_mem_of_ne_nil _ hnil
    obtain ⟨found, c', hfound, hpoll, hle, f, hf, -, hfc⟩ :=
      poll_keep hkeep h (fun e he ↦ (hall e he).1) ⟨e, he, (hall e he).2⟩
    exact Or.inr ⟨found, c', hfound, hpoll, fun e he ↦ hle e he (hall e he).2, f, hf, hfc⟩

theorem mem_pageOf {e : Entry} (he : e ∈ pageOf src it os limit st) :
    e ∈ st.tree ∧ src.wanted e ∧ timeOf it st < e.mtimeNs := by
  obtain ⟨hcollect, hlt⟩ := List.mem_filter.mp (List.mem_of_mem_take he)
  obtain ⟨htree, hwanted⟩ := mem_collectFiles.mp hcollect
  exact ⟨htree, hwanted, of_decide_eq_true hlt⟩

section Keep

variable {c : ℤ}

/-- What holds after each poll of a tree whose files past the cursor can all be shipped. -/
theorem polled_keep (oss : ℕ → Os) (limit : ℕ) (hkeep : src.keep = true)
    (hcursor : decodeKeepCursor it st.cursor = .ok c)
    (hparses : ∀ e ∈ st.tree, src.wanted e → src.Parses it e)
    (hquiet : ∀ e ∈ st.tree, src.wanted e → c < e.mtimeNs → src.Quiet it e) (n : ℕ) :
    (polled src it oss limit st n).tree = st.tree ∧
      c ≤ timeOf it (polled src it oss limit st n) ∧
      decodeKeepCursor it (polled src it oss limit st n).cursor =
        .ok (timeOf it (polled src it oss limit st n)) ∧
      ∀ e ∈ pageOf src it (oss n) limit (polled src it oss limit st n),
        src.Quiet it e ∧ src.Parses it e := by
  have hall : ∀ n, (polled src it oss limit st n).tree = st.tree →
      c ≤ timeOf it (polled src it oss limit st n) →
      ∀ e ∈ pageOf src it (oss n) limit (polled src it oss limit st n),
        src.Quiet it e ∧ src.Parses it e := by
    intro n htree hle e he
    obtain ⟨hmem, hwanted, hlt⟩ := mem_pageOf he
    rw [htree] at hmem
    exact ⟨hquiet e hmem hwanted (hle.trans_lt hlt), hparses e hmem hwanted⟩
  induction n with
  | zero =>
    have htime : timeOf it st = c := by rw [timeOf, hcursor]
    refine ⟨rfl, le_of_eq htime.symm, ?_, hall 0 rfl (le_of_eq htime.symm)⟩
    rw [polled, htime, hcursor]
  | succ n ih =>
    obtain ⟨htree, hle, hdecode, hpage⟩ := ih
    have hnext : (polled src it oss limit st (n + 1)).tree = st.tree ∧
        c ≤ timeOf it (polled src it oss limit st (n + 1)) ∧
        decodeKeepCursor it (polled src it oss limit st (n + 1)).cursor =
          .ok (timeOf it (polled src it oss limit st (n + 1))) := by
      rw [polled]
      rcases poll_page hkeep hdecode hpage with ⟨-, hpoll⟩ | ⟨found, c', -, hpoll, -, e, he, rfl⟩
      · rw [hpoll]
        exact ⟨htree, hle, hdecode⟩
      · rw [hpoll, timeOf_encode, decodeKeepCursor_encode]
        exact ⟨htree, hle.trans (le_of_lt (mem_pageOf he).2.2), rfl⟩
    exact ⟨hnext.1, hnext.2.1, hnext.2.2, hall (n + 1) hnext.1 hnext.2.1⟩

/-- The polls walk the files in the order of their times. -/
theorem walk_keep (oss : ℕ → Os) (limit : ℕ) (hkeep : src.keep = true)
    (hcursor : decodeKeepCursor it st.cursor = .ok c)
    (hparses : ∀ e ∈ st.tree, src.wanted e → src.Parses it e)
    (hquiet : ∀ e ∈ st.tree, src.wanted e → c < e.mtimeNs → src.Quiet it e) :
    Paging.Walk Entry.mtimeNs (st.tree.filter src.wanted) limit
      (fun n ↦ timeOf it (polled src it oss limit st n))
      (fun n ↦ pageOf src it (oss n) limit (polled src it oss limit st n)) := by
  have hpolled := fun n ↦ polled_keep oss limit hkeep hcursor hparses hquiet n
  have hpage := fun n ↦ poll_page hkeep (hpolled n).2.2.1 (hpolled n).2.2.2
  refine ⟨fun n ↦ ⟨_, ⟨?_, ?_⟩, rfl⟩, fun n hnil ↦ ?_, fun n e he ↦ ?_, fun n hne ↦ ?_⟩
  · rw [(hpolled n).1]
    exact (collectFiles_perm _ _).filter _
  · exact (pairwise_collectFiles _ _).sublist List.filter_sublist
  · rcases hpage n with ⟨-, hpoll⟩ | ⟨-, -, -, -, -, e, he, -⟩
    · rw [polled, hpoll]
    · rw [hnil] at he
      cases he
  · rcases hpage n with ⟨hnil, -⟩ | ⟨found, c', -, hpoll, hle, -⟩
    · rw [hnil] at he
      cases he
    · rw [polled, hpoll, timeOf_encode]
      exact hle e he
  · rcases hpage n with ⟨hnil, -⟩ | ⟨found, c', -, hpoll, -, e, he, hec⟩
    · exact absurd hnil hne
    · refine ⟨e, he, ?_⟩
      rw [polled, hpoll, timeOf_encode, hec]

/-- A file is shipped once exactly when it comes to stand in a window. -/
theorem shippedOnce_iff (hkeep : src.keep = true) (hcursor : decodeKeepCursor it st.cursor = .ok c)
    (hdistinct : (st.tree.map (·.path)).Nodup)
    (hparses : ∀ e ∈ st.tree, src.wanted e → src.Parses it e)
    (hquiet : ∀ e ∈ st.tree, src.wanted e → c < e.mtimeNs → src.Quiet it e) {e : Entry} :
    ShippedOnce src it oss limit st e ↔
      ∃ n, e ∈ pageOf src it (oss n) limit (polled src it oss limit st n) := by
  have hpolled := fun n ↦ polled_keep oss limit hkeep hcursor hparses hquiet n
  have hwalk := walk_keep oss limit hkeep hcursor hparses hquiet
  have hnodup : ∀ n, ((src.collectFiles (oss n).files (polled src it oss limit st n).tree).filter
      fun e ↦ timeOf it (polled src it oss limit st n) < e.mtimeNs).Nodup := by
    intro n
    rw [(hpolled n).1]
    exact ((collectFiles_perm _ _).nodup_iff.mpr (hdistinct.of_map.filter _)).filter _
  have hout : ∀ n, e ∉ pageOf src it (oss n) limit (polled src it oss limit st n) →
      shipped src it oss limit st n e = [] := by
    intro n hno
    rcases poll_page hkeep (hpolled n).2.2.1 (hpolled n).2.2.2 with
      ⟨-, hpoll⟩ | ⟨found, c', hfound, hpoll, -⟩
    · rw [shipped, hpoll]
    · exact (shipped_eq hpoll hfound (hnodup n)).2 hno
  constructor
  · rintro ⟨n, rs, -, hne, hshipped, -⟩
    refine ⟨n, ?_⟩
    by_contra hno
    exact hne (hshipped.symm.trans (hout n hno))
  · rintro ⟨n, hn⟩
    obtain ⟨hquietE, hparsesE⟩ := (hpolled n).2.2.2 e hn
    obtain ⟨rs, hrs, hne⟩ := recordsOf_of_parses hquietE hparsesE
    refine ⟨n, rs, hrs, hne, ?_, fun m hm ↦ hout m fun hmem ↦ hm (hwalk.unique hmem hn)⟩
    rcases poll_page hkeep (hpolled n).2.2.1 (hpolled n).2.2.2 with
      ⟨hnil, -⟩ | ⟨found, c', hfound, hpoll, -⟩
    · rw [hnil] at hn
      cases hn
    · have hsame := (shipped_eq hpoll hfound (hnodup n)).1 hn
      rw [hrs] at hsame
      cases hsame
      rfl

/-- **With `keep` every file past the starting cursor is shipped once exactly when each of their
times is one that a `datetime` has and no time is shared across the end of a window.** -/
theorem keep_ships_once_iff (src : FileTreeSource C) (it : Interpreter C) (oss : ℕ → Os)
    (limit : ℕ) (st : Polled) (c : ℤ) (hkeep : src.keep = true) (hlimit : 1 ≤ limit)
    (hdistinct : (st.tree.map (·.path)).Nodup)
    (hparses : ∀ e ∈ st.tree, src.wanted e → ∃ items, src.parse it e = .ok items ∧ items ≠ [])
    (hcursor : decodeKeepCursor it st.cursor = .ok c) :
    (∀ e ∈ st.tree, src.wanted e → c < e.mtimeNs → ShippedOnce src it oss limit st e) ↔
      (∀ e ∈ st.tree, src.wanted e → c < e.mtimeNs → ∃ t, it.fromMtime e.mtimeNs = .ok t) ∧
        Paging.Apart limit (Paging.keys Entry.mtimeNs (st.tree.filter src.wanted) c) := by
  have hspec : ∀ e ∈ st.tree, src.wanted e → (src.specFor e.path).isSome := by
    intro e he hwanted
    obtain ⟨items, hitems, hne⟩ := hparses e he hwanted
    rw [Option.isSome_iff_ne_none]
    intro hnone
    rw [parse, hnone] at hitems
    cases hitems
    exact hne rfl
  have hcount : ∀ e ∈ st.tree, src.wanted e → src.Parses it e := by
    intro e he hwanted
    obtain ⟨items, hitems, hne⟩ := hparses e he hwanted
    rw [Parses, count, hitems]
    exact List.length_pos_of_ne_nil hne
  have hquiet : (∀ e ∈ st.tree, src.wanted e → c < e.mtimeNs →
      ∃ t, it.fromMtime e.mtimeNs = .ok t) →
      ∀ e ∈ st.tree, src.wanted e → c < e.mtimeNs → src.Quiet it e := by
    intro htimes e he hwanted hlt
    obtain ⟨items, hitems, -⟩ := hparses e he hwanted
    exact ⟨⟨items, hitems⟩, fun _ ↦ htimes e he hwanted hlt⟩
  have htime : timeOf it (polled src it oss limit st 0) = c := by rw [polled, timeOf, hcursor]
  have hcomplete : (∀ e ∈ st.tree, src.wanted e → c < e.mtimeNs →
      ∃ t, it.fromMtime e.mtimeNs = .ok t) →
      ((∀ e ∈ st.tree, src.wanted e → c < e.mtimeNs → ShippedOnce src it oss limit st e) ↔
        Paging.Apart limit (Paging.keys Entry.mtimeNs (st.tree.filter src.wanted) c)) := by
    intro htimes
    have hwalk := walk_keep oss limit hkeep hcursor hcount (hquiet htimes)
    have hiff := hwalk.complete_iff hlimit (hdistinct.of_map.filter _)
    rw [htime] at hiff
    rw [← hiff]
    constructor
    · intro h e he hlt
      obtain ⟨he, hwanted⟩ := List.mem_filter.mp he
      exact (shippedOnce_iff hkeep hcursor hdistinct hcount (hquiet htimes)).mp (h e he hwanted hlt)
    · intro h e he hwanted hlt
      exact (shippedOnce_iff hkeep hcursor hdistinct hcount (hquiet htimes)).mpr
        (h e (List.mem_filter.mpr ⟨he, hwanted⟩) hlt)
  constructor
  · intro h
    have htimes : ∀ e ∈ st.tree, src.wanted e → c < e.mtimeNs →
        ∃ t, it.fromMtime e.mtimeNs = .ok t := by
      intro e he hwanted hlt
      obtain ⟨n, rs, -, hne, hshipped, -⟩ := h e he hwanted hlt
      obtain ⟨-, -, -, -, hdatetime⟩ := mem_of_shipped (n := n) (by rw [hshipped]; exact hne)
      exact hdatetime (hspec e he hwanted)
    exact ⟨htimes, (hcomplete htimes).mp h⟩
  · rintro ⟨htimes, hapart⟩
    exact (hcomplete htimes).mpr hapart

end Keep

/-- An archive that keeps its files and reads no columns from them. -/
def archive : FileTreeSource Unit where
  root := ["archive"]
  specs := [{ globs := fun _ ↦ true, pathMatch := fun _ ↦ true }]
  keep := true

/-- Two files of the archive. -/
def twoFiles (first second : ℤ) : List Entry :=
  [{ path := ["archive", "a"], kind := .file, mtimeNs := first },
   { path := ["archive", "b"], kind := .file, mtimeNs := second }]

/-- The archive before the first poll. -/
def stored (first second : ℤ) : Polled := { tree := twoFiles first second, cursor := [] }

/-- An operating system that refuses nothing. -/
def plainOs : Os := ⟨listed, ⟨id, fun l ↦ .refl l⟩, fun _ ↦ false⟩

theorem keys_twoFiles {first second : ℤ} (hfirst : 0 < first) (hle : first ≤ second) :
    Paging.keys Entry.mtimeNs ((twoFiles first second).filter archive.wanted) 0 =
      [first, second] := by
  have hsecond : 0 < second := hfirst.trans_le hle
  have hpast : (((twoFiles first second).filter archive.wanted).filter
      fun e ↦ 0 < e.mtimeNs).map Entry.mtimeNs = [first, second] := by
    simp [twoFiles, archive, wanted, hfirst, hsecond]
  rw [Paging.keys, hpast]
  exact List.mergeSort_of_pairwise (by simpa using hle)

theorem keep_ships_once_iff_archive :
    Paging.Apart 1 (Paging.keys Entry.mtimeNs ((stored 1 2).tree.filter archive.wanted) 0) ∧
      ∀ e ∈ twoFiles 1 2, archive.wanted e → 0 < e.mtimeNs →
        ShippedOnce archive plainInterpreter (fun _ ↦ plainOs) 1 (stored 1 2) e := by
  have hapart : Paging.Apart 1
      (Paging.keys Entry.mtimeNs ((stored 1 2).tree.filter archive.wanted) 0) := by
    rw [stored, keys_twoFiles (by decide) (by decide)]
    intro k hk a b ha hb
    rcases Nat.lt_or_ge k 2 with hlt | hge
    · obtain rfl : k = 1 := by omega
      cases ha
      cases hb
      decide
    · rw [List.getElem?_eq_none (by simpa using hge)] at hb
      cases hb
  exact ⟨hapart, (keep_ships_once_iff archive plainInterpreter (fun _ ↦ plainOs) 1 (stored 1 2) 0
    rfl le_rfl (by decide) (fun e _ _ ↦ ⟨_, rfl, by simp⟩) rfl).mpr
    ⟨fun e _ _ _ ↦ ⟨_, rfl⟩, hapart⟩⟩

/-- Of two files of one time the second is never shipped where a batch holds one file. -/
theorem keep_ships_once_fails :
    ¬ ∀ (C : Type) (src : FileTreeSource C) (it : Interpreter C) (oss : ℕ → Os) (limit : ℕ)
      (st : Polled) (c : ℤ), src.keep = true → 1 ≤ limit → (st.tree.map (·.path)).Nodup →
      (∀ e ∈ st.tree, src.wanted e → ∃ items, src.parse it e = .ok items ∧ items ≠ []) →
      decodeKeepCursor it st.cursor = .ok c →
      ∀ e ∈ st.tree, src.wanted e → c < e.mtimeNs → ShippedOnce src it oss limit st e := by
  intro h
  have hships := h Unit archive plainInterpreter (fun _ ↦ plainOs) 1 (stored 5 5) 0 rfl le_rfl
    (by decide) (fun e _ _ ↦ ⟨_, rfl, by simp⟩) rfl
  have hparses : ∀ e ∈ (stored 5 5).tree, archive.wanted e → archive.Parses plainInterpreter e :=
    fun e _ _ ↦ Nat.one_pos
  have hquiet : ∀ e ∈ (stored 5 5).tree, archive.wanted e → 0 < e.mtimeNs →
      archive.Quiet plainInterpreter e := fun e _ _ _ ↦ ⟨⟨_, rfl⟩, fun _ ↦ ⟨_, rfl⟩⟩
  have hwalk : Paging.Walk Entry.mtimeNs ((stored 5 5).tree.filter archive.wanted) 1
      (fun n ↦ timeOf plainInterpreter
        (polled archive plainInterpreter (fun _ ↦ plainOs) 1 (stored 5 5) n))
      (fun n ↦ pageOf archive plainInterpreter plainOs 1
        (polled archive plainInterpreter (fun _ ↦ plainOs) 1 (stored 5 5) n)) :=
    walk_keep _ _ rfl rfl hparses hquiet
  have hapart := (hwalk.complete_iff le_rfl (by decide)).mp fun e he hlt ↦ by
    obtain ⟨htree, hwanted⟩ := List.mem_filter.mp he
    exact (shippedOnce_iff rfl rfl (by decide) hparses hquiet).mp (hships e htree hwanted hlt)
  have hkeys : Paging.keys Entry.mtimeNs ((stored 5 5).tree.filter archive.wanted) 0 = [5, 5] :=
    keys_twoFiles (by decide) le_rfl
  exact absurd (hkeys ▸ hapart : Paging.Apart 1 [(5 : ℤ), 5]) fun h ↦
    h 1 Nat.one_pos 5 5 rfl rfl rfl

end HsUploader.Files.FileTreeSource
