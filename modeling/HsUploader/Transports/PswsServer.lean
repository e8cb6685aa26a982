import HsUploader.Transports.PswsDataset

/-!
# A dataset on the server

What the uploads of a dataset make of the server's tree, whatever comes between a session and its
lines, and however often a session that failed is made again.

Every attempt meets its own clock and its own call of `sftp`, of which `Documented` is relied on.
That is about batches the program takes whole and about paths that are the one path of their place
(`Sendable`), on a server where no directory stands in a file's place (`Clear`); from there on the
call is one that plays the batch (`exists_onServer`), and what it does is said by the rules for
sessions.

A file's own name is never left with a part of the file.  A trigger is only made once the data is
there, and an upload that is reported done has brought the data.  Whatever earlier attempts have
left, one that nothing comes between gets through.

## What is here

* `sessionOps` — the session of a batch: the directory for the data, the data, the trigger.
* `readAs_batchLines` — what `sftp` reads of the batch is this session.
* `Sent` and `fileSession_sent` — what one session makes of the file's name, and when it can make
  the trigger.
* `attempts_rule` — what every session keeps is kept by any number of attempts, where each leaves a
  place for the lines of the next one.
* `Place` and `fileSession_quiet` — a server with a place for the file, and the session that gets
  through there.
-/

set_option autoImplicit false

namespace HsUploader.Psws

open Transfer Sftp
open Wsprdaemon (FilePath slashJoin)

/-- An attempt in which `sftp` plays its batches against the server. -/
def onServer (srv : Server PyText) (disk : Disk) (now : WsprNet.DateTime) (c : Connection) :
    Attempt := ⟨now, fun _ ↦ c.play srv disk.content⟩

/-! ## The session of a batch -/

namespace Transport

variable (tr : Transport)

/-- The directory for the data, where it is not the top. -/
def openingOps : List (Line PyText UInt8) :=
  if tr.remotePath ≠ [] then [⟨true, .makeDir tr.remotePath⟩] else []

/-- The file of a dataset: it is written under its name with `.part` after it. -/
def upload (disk : Disk) (path : FilePath) : Upload PyText UInt8 where
  data := disk.content (pathText path)
  part := tr.remotePathOf path.name ++ .ofString ".part"
  dest := tr.remotePathOf path.name

/-- The trigger of an attempt. -/
def trigger (path : FilePath) (ds : Dataset) (now : WsprNet.DateTime) : PyText :=
  tr.triggerRemotePath (tr.triggerDirName now (ds.name path))

/-- The lines of a turn of the walk. -/
def visitOps (disk : Disk) (base : PyText) (path : FilePath) (v : Visit) :
    List (Line PyText UInt8) :=
  v.dirs.map (fun d ↦ ⟨true, .makeDir (remoteDir base v.rel ++ [.scalar '/'] ++ d.text)⟩) ++
    v.files.map fun f ↦ ⟨false, .put (disk.content (osJoin (rootText path v.rel) f.text))
      (remoteDir base v.rel ++ [.scalar '/'] ++ f.text)⟩

/-- The lines that bring the data. -/
def dataOps (disk : Disk) (path : FilePath) : Dataset → List (Line PyText UInt8)
  | .file => publishLines true [tr.upload disk path]
  | .dir l => ⟨true, .makeDir (tr.remotePathOf path.name)⟩ ::
      (l.walk []).flatMap (visitOps disk (tr.remotePathOf path.name) path)

/-- The session of a batch. -/
def sessionOps (disk : Disk) (path : FilePath) (ds : Dataset) (now : WsprNet.DateTime) :
    List (Line PyText UInt8) :=
  tr.openingOps ++ tr.dataOps disk path ds ++ [⟨true, .makeDir (tr.trigger path ds now)⟩]

/-- `sftp` reads the paths of a batch as they were meant. -/
structure Legible (path : FilePath) (ds : Dataset) : Prop where
  remote : Quotable tr.remotePath
  source : Quotable (pathText path)
  dest : Quotable (tr.remotePathOf path.name)
  triggerDir : Quotable tr.triggerPath
  triggerName : Quotable (tr.triggerPrefix ++ ds.name path ++ .ofString "_#" ++ tr.instrumentId)
  tree : ∀ l, ds = .dir l → ∀ v ∈ l.walk [],
    ∀ n ∈ v.rel ++ v.dirs ++ v.files, ∀ c ∈ n.text, c ≠ .scalar '"' ∧ c ≠ .scalar '\\' ∧
      c ≠ .scalar '\n'

end Transport

/-! ## Reading the batch -/

variable {tr : Transport} {disk : Disk} {path : FilePath} {ds : Dataset}
  {now : WsprNet.DateTime} {identity : Identity} {srv : Server PyText}

theorem quotable_append {s rest : PyText} (h : Quotable s) (hne : s ≠ [])
    (hrest : ∀ c ∈ rest, c ≠ .scalar '"' ∧ c ≠ .scalar '\\' ∧ c ≠ .scalar '\n') :
    Quotable (s ++ rest) where
  letters := by
    intro c hc
    rcases List.mem_append.mp hc with hc | hc
    · exact h.letters c hc
    · exact hrest c hc
  noOption := by
    rw [isOption_append hne]
    exact h.noOption

/-- Something after a slash, in a directory that may be the top. -/
theorem quotable_slash {s rest : PyText} (h : Quotable s)
    (hrest : ∀ c ∈ rest, c ≠ .scalar '"' ∧ c ≠ .scalar '\\' ∧ c ≠ .scalar '\n') :
    Quotable (s ++ [.scalar '/'] ++ rest) where
  letters := by
    intro c hc
    rw [List.append_assoc, List.mem_append, List.singleton_append, List.mem_cons] at hc
    rcases hc with hc | rfl | hc
    · exact h.letters c hc
    · decide
    · exact hrest c hc
  noOption := by
    by_cases hne : s = []
    · rw [hne]
      rfl
    · rw [List.append_assoc, isOption_append hne]
      exact h.noOption

/-- The name a file is written under. -/
theorem quotable_part {s : PyText} (h : Quotable s) : Quotable (s ++ .ofString ".part") := by
  have hletters : ∀ c ∈ PyText.ofString ".part",
      c ≠ .scalar '"' ∧ c ≠ .scalar '\\' ∧ c ≠ .scalar '\n' := by decide
  by_cases hne : s = []
  · rw [hne]
    exact ⟨hletters, by decide⟩
  · exact quotable_append h hne hletters

theorem quotable_osJoin {s rest : PyText} (h : Quotable s) (hne : s ≠ [])
    (hrest : ∀ c ∈ rest, c ≠ .scalar '"' ∧ c ≠ .scalar '\\' ∧ c ≠ .scalar '\n') :
    Quotable (osJoin s rest) ∧ osJoin s rest ≠ [] := by
  rw [osJoin]
  split
  · rename_i hhead
    refine ⟨⟨hrest, ?_⟩, fun hnil ↦ ?_⟩
    · rw [isOption, hhead]
      decide
    · rw [hnil] at hhead
      cases hhead
  · split
    · exact ⟨quotable_append h hne hrest, fun hnil ↦ hne (List.append_eq_nil_iff.mp hnil).1⟩
    · refine ⟨quotable_slash h hrest, fun hnil ↦ ?_⟩
      rw [List.append_assoc] at hnil
      exact hne (List.append_eq_nil_iff.mp hnil).1

theorem quotable_rootText (hpath : Quotable (pathText path)) {rel : List Name}
    (hrel : ∀ n ∈ rel, ∀ c ∈ n.text, c ≠ .scalar '"' ∧ c ≠ .scalar '\\' ∧ c ≠ .scalar '\n') :
    Quotable (rootText path rel) ∧ rootText path rel ≠ [] := by
  rw [rootText]
  have hstart := pathText_ne_nil path
  generalize pathText path = s at hpath hstart
  induction rel generalizing s with
  | nil => exact ⟨hpath, hstart⟩
  | cons n rel ih =>
    rw [List.forall_mem_cons] at hrel
    obtain ⟨hq, hne⟩ := quotable_osJoin hpath hstart hrel.1
    exact ih hrel.2 _ hq hne

theorem letters_slashJoin {parts : List PyText}
    (h : ∀ p ∈ parts, ∀ c ∈ p, c ≠ .scalar '"' ∧ c ≠ .scalar '\\' ∧ c ≠ .scalar '\n') :
    ∀ c ∈ slashJoin parts, c ≠ .scalar '"' ∧ c ≠ .scalar '\\' ∧ c ≠ .scalar '\n' := by
  rw [slashJoin]
  induction parts with
  | nil => exact fun c hc ↦ absurd hc List.not_mem_nil
  | cons p parts ih =>
    rw [List.forall_mem_cons] at h
    cases parts with
    | nil =>
      rw [List.intercalate_singleton]
      exact h.1
    | cons q parts =>
      rw [Joined.intercalate_cons]
      intro c hc
      rw [List.mem_append, List.mem_cons] at hc
      rcases hc with hc | rfl | hc
      · exact h.1 c hc
      · decide
      · exact ih h.2 c hc

theorem quotable_remoteDir {base : PyText} (hbase : Quotable base) {rel : List Name}
    (hrel : ∀ n ∈ rel, ∀ c ∈ n.text, c ≠ .scalar '"' ∧ c ≠ .scalar '\\' ∧ c ≠ .scalar '\n') :
    Quotable (remoteDir base rel) := by
  rw [remoteDir]
  split
  · exact hbase
  · refine quotable_slash hbase (letters_slashJoin fun p hp ↦ ?_)
    obtain ⟨n, hn, rfl⟩ := List.mem_map.mp hp
    exact hrel n hn

theorem letters_twoDigits (n : ℕ) : ∀ c ∈ (WsprNet.twoDigits n).toList, c.isDigit = true := by
  have hdigit : ∀ m, (Nat.digitChar (m % 10)).isDigit = true := by
    have hall : ∀ d : Fin 10, (Nat.digitChar d).isDigit = true := by decide
    exact fun m ↦ hall ⟨m % 10, Nat.mod_lt m (by decide)⟩
  intro c hc
  rw [WsprNet.twoDigits, String.toList_ofList] at hc
  rcases List.mem_pair.mp hc with rfl | rfl
  · exact hdigit _
  · exact hdigit _

/-- The stamp of a trigger is digits, dashes, colons and a `T`. -/
theorem letters_stamp : ∀ c ∈ tr.stamp now,
    c ≠ .scalar '"' ∧ c ≠ .scalar '\\' ∧ c ≠ .scalar '\n' := by
  intro c hc
  rw [Transport.stamp, PyText.ofString, List.mem_map] at hc
  obtain ⟨d, hd, rfl⟩ := hc
  have hkind : d.isDigit = true ∨ d = '-' ∨ d = 'T' ∨ d = ':' := by
    simp only [String.toList_append, List.mem_append] at hd
    rcases hd with (((((((hd | hd) | hd) | hd) | hd) | hd) | hd) | hd) | hd
    · rw [Nat.toString_eq_repr, Nat.toList_repr] at hd
      exact .inl (Nat.isDigit_of_mem_toDigits (by decide) (by decide) hd)
    · exact .inr (.inl (List.mem_singleton.mp hd))
    · exact .inl (letters_twoDigits _ d hd)
    · exact .inr (.inl (List.mem_singleton.mp hd))
    · exact .inl (letters_twoDigits _ d hd)
    · exact .inr (.inr (.inl (List.mem_singleton.mp hd)))
    · exact .inl (letters_twoDigits _ d hd)
    · split at hd
      · exact .inr (.inr (.inr (List.mem_singleton.mp hd)))
      · exact .inr (.inl (List.mem_singleton.mp hd))
    · exact .inl (letters_twoDigits _ d hd)
  have hne : ∀ e : Char, e.isDigit = false → e ≠ '-' → e ≠ 'T' → e ≠ ':' →
      PyChar.scalar d ≠ .scalar e := by
    rintro e hdigit h₁ h₂ h₃ heq
    obtain rfl := PyChar.scalar.inj heq
    rcases hkind with h | h | h | h
    · rw [hdigit] at h
      cases h
    · exact h₁ h
    · exact h₂ h
    · exact h₃ h
  exact ⟨hne _ (by decide) (by decide) (by decide) (by decide),
    hne _ (by decide) (by decide) (by decide) (by decide),
    hne _ (by decide) (by decide) (by decide) (by decide)⟩

theorem quotable_trigger (h : tr.Legible path ds) : Quotable (tr.trigger path ds now) := by
  have hname : Quotable (tr.triggerDirName now (ds.name path)) := by
    rw [Transport.triggerDirName, List.append_assoc]
    refine quotable_append h.triggerName (by simp [PyText.ofString]) fun c hc ↦ ?_
    rcases List.mem_append.mp hc with hc | hc
    · have hmark : ∀ c ∈ PyText.ofString "_#",
          c ≠ .scalar '"' ∧ c ≠ .scalar '\\' ∧ c ≠ .scalar '\n' := by decide
      exact hmark c hc
    · exact letters_stamp c hc
  rw [Transport.trigger, Transport.triggerRemotePath, under]
  split
  · exact quotable_slash h.triggerDir hname.letters
  · exact hname

/-- **What `sftp` reads of a batch** is its session. -/
theorem readAs_batchLines (h : tr.Legible path ds) : List.Forall₂ (ReadAs disk.content)
    (tr.batchLines path ds now) (tr.sessionOps disk path ds now) := by
  unfold Transport.batchLines
  rw [Transport.sessionOps]
  refine List.rel_append (List.rel_append ?_ ?_)
    (.cons (readAs_mkdir (w := .quotes) (quotable_trigger h)) .nil)
  · rw [Transport.openingOps]
    split
    · exact .cons (readAs_mkdir (w := .quotes) h.remote) .nil
    · exact .nil
  · cases ds with
    | file =>
      have hpart := quotable_part h.dest
      exact .cons (readAs_put (w := .quotes) h.source hpart) (.cons (readAs_rm (w := .quotes) h.dest)
        (.cons (readAs_rename (w := .quotes) hpart h.dest) .nil))
    | dir l =>
      refine .cons (readAs_mkdir (w := .quotes) h.dest) (readAs_flatMap fun v hv ↦ ?_)
      have hnames := h.tree l rfl v hv
      have hrel : ∀ n ∈ v.rel, ∀ c ∈ n.text,
          c ≠ .scalar '"' ∧ c ≠ .scalar '\\' ∧ c ≠ .scalar '\n' :=
        fun n hn ↦ hnames n (List.mem_append_left _ (List.mem_append_left _ hn))
      have hdir := quotable_remoteDir h.dest hrel
      obtain ⟨hroot, hne⟩ := quotable_rootText h.source hrel
      refine List.rel_append (readAs_map fun d hd ↦ ?_) (readAs_map fun f hf ↦ ?_)
      · exact readAs_mkdir (w := .quotes) (quotable_slash hdir
          (hnames d (List.mem_append_left _ (List.mem_append_right _ hd))))
      · have hf := hnames f (List.mem_append_right _ hf)
        exact readAs_put (w := .quotes) (quotable_osJoin hroot hne hf).1 (quotable_slash hdir hf)

/-! ## One attempt -/

variable {c : Connection} {t t' : Tree PyText UInt8} {answer : Answer}
  {batch : Bytes} {ls : List (Line PyText UInt8)}

/-- A call of `sftp` plays the session or does nothing, and its code is zero exactly when the
session has got through in time. -/
theorem runSftp_cases (tr : Transport) (srv : Server PyText) (now : WsprNet.DateTime)
    (c : Connection) (t : Tree PyText UInt8) (user : PyText) (key : Option PyText)
    (hread : linesOf disk.content batch = some ls) :
    ((tr.runSftp (onServer srv disk now c) user key batch t).1 = t ∧ c.ending = .notFound ∨
      (tr.runSftp (onServer srv disk now c) user key batch t).1 =
        (srv.session c.faults ls t).1 ∧ c.ending ≠ .notFound) ∧
    ((tr.runSftp (onServer srv disk now c) user key batch t).2.1 = 0 ↔
      c.ending = .exited ∧ (srv.session c.faults ls t).2 = true) := by
  simp only [Transport.runSftp, onServer, Connection.play, hread]
  cases hending : c.ending with
  | notFound => simp
  | timedOut => simp
  | exited =>
    cases hok : (srv.session c.faults ls t).2 with
    | true => simp
    | false => simp [c.code_ne]

theorem linesOf_batch (disk : Disk) (h : tr.Legible path ds)
    (hbatch : PyText.encode (joined (tr.batchLines path ds now ++ [.ofString "quit"])) = .ok batch) :
    linesOf disk.content batch = some (tr.sessionOps disk path ds now) :=
  linesOf_joined (readAs_batchLines h) (.inr rfl) (by simp) hbatch

/-- **What one upload does**: nothing, and then it is not reported done unless nothing was to be
sent; or the session of its batch, and then it is reported done only if that got through. -/
theorem uploadOne_cases (hstands : disk.stands path = some ds) (hlegible : tr.Legible path ds)
    (h : tr.uploadOne disk identity path (onServer srv disk now c) t = .ok (t', answer)) :
    t' = t ∧ (answer.kind = .acked → tr.dryRun = true) ∨
      t' = (srv.session c.faults (tr.sessionOps disk path ds now) t).1 ∧
        (answer.kind = .acked →
          (srv.session c.faults (tr.sessionOps disk path ds now) t).2 = true) := by
  rw [Transport.uploadOne, hstands] at h
  dsimp only at h
  cases huser : tr.sftpUser identity with
  | none =>
    rw [huser] at h
    obtain ⟨rfl, rfl⟩ := Prod.mk.inj (Except.ok.inj h)
    exact .inl ⟨rfl, fun h ↦ absurd h (by decide)⟩
  | some user =>
    rw [huser] at h
    obtain ⟨batch, hbatch, h⟩ := Except.bind_eq_ok.mp h
    have hread := linesOf_batch disk hlegible hbatch
    split at h
    · obtain ⟨rfl, rfl⟩ := Prod.mk.inj (Except.ok.inj h)
      exact .inl ⟨rfl, fun _ ↦ ‹_›⟩
    obtain ⟨htree, hcode⟩ := runSftp_cases tr srv now c t user (tr.sshKey identity) hread
    have hsent : ∀ r : Tree PyText UInt8 × ℤ × PyText,
        (if r.2.1 = 0 then pure (r.1, { kind := .acked })
          else pure (r.1, { kind := .retryLater,
                            reason := .ofString ("sftp rc=" ++ toString r.2.1 ++ ": ") ++
                              diagnose r.2.2 }) : Except Exn (Tree PyText UInt8 × Answer)) =
          .ok (t', answer) → t' = r.1 ∧ (answer.kind = .acked ↔ r.2.1 = 0) := by
      intro r hr
      split at hr
      · obtain ⟨rfl, rfl⟩ := Prod.mk.inj (Except.ok.inj hr)
        exact ⟨rfl, iff_of_true rfl ‹_›⟩
      · obtain ⟨rfl, rfl⟩ := Prod.mk.inj (Except.ok.inj hr)
        exact ⟨rfl, iff_of_false (fun h ↦ by cases h) ‹_›⟩
    obtain ⟨rfl, hacked⟩ := hsent _ h
    rcases htree with ⟨htree, hending⟩ | ⟨htree, -⟩
    · refine .inl ⟨htree, fun hk ↦ ?_⟩
      rw [(hcode.mp (hacked.mp hk)).1] at hending
      cases hending
    · exact .inr ⟨htree, fun hk ↦ (hcode.mp (hacked.mp hk)).2⟩

/-! ## A file's session -/

/-- No hash, which every trigger has, is in the dataset's name or in that of its directory. -/
structure Transport.Unmarked (tr : Transport) (path : FilePath) : Prop where
  remote : .scalar '#' ∉ tr.remotePath
  name : .scalar '#' ∉ path.name

theorem mem_under {dir leaf : PyText} {c : PyChar} (h : c ∈ leaf) : c ∈ under dir leaf := by
  rw [under]
  split
  · exact List.mem_append_right _ h
  · exact h

theorem hash_mem_trigger : .scalar '#' ∈ tr.trigger path ds now := by
  refine mem_under ?_
  rw [Transport.triggerDirName]
  simp [PyText.ofString]

theorem hash_not_mem_under {dir leaf : PyText} (hdir : .scalar '#' ∉ dir)
    (hleaf : .scalar '#' ∉ leaf) :
    PyChar.scalar '#' ∉ under dir leaf := by
  rw [under]
  split
  · simp [hdir, hleaf]
  · exact hleaf

theorem hash_not_mem_dest (h : tr.Unmarked path) : .scalar '#' ∉ tr.remotePathOf path.name :=
  hash_not_mem_under h.remote h.name

theorem trigger_ne_remote (h : tr.Unmarked path) : tr.trigger path ds now ≠ tr.remotePath :=
  fun heq ↦ h.remote (heq ▸ hash_mem_trigger)

theorem trigger_ne_dest (disk : Disk) (h : tr.Unmarked path) :
    tr.trigger path ds now ≠ (tr.upload disk path).dest := by
  intro heq
  have hmem : PyChar.scalar '#' ∈ (tr.upload disk path).dest := heq ▸ hash_mem_trigger
  exact hash_not_mem_dest h hmem

theorem trigger_ne_part (disk : Disk) (h : tr.Unmarked path) :
    tr.trigger path ds now ≠ (tr.upload disk path).part := by
  intro heq
  have hmem : PyChar.scalar '#' ∈ (tr.upload disk path).part := heq ▸ hash_mem_trigger
  rcases List.mem_append.mp hmem with hmem | hmem
  · exact hash_not_mem_dest h hmem
  · exact absurd hmem (by decide)

theorem under_ne {dir : PyText} (h : dir ≠ []) (leaf rest : PyText) :
    under dir leaf ++ rest ≠ dir := by
  rw [under, if_pos h]
  intro heq
  have hlen := congrArg List.length heq
  simp only [List.length_append, List.length_singleton] at hlen
  omega

theorem dest_ne_remote (h : tr.remotePath ≠ []) : (tr.upload disk path).dest ≠ tr.remotePath := by
  intro heq
  refine under_ne h path.name [] ?_
  rw [List.append_nil]
  exact heq

theorem part_ne_remote (h : tr.remotePath ≠ []) : (tr.upload disk path).part ≠ tr.remotePath :=
  under_ne h _ _

theorem separate_upload : Separate [tr.upload disk path] := by
  have hne : (tr.upload disk path).part ≠ (tr.upload disk path).dest := by
    intro heq
    have hlen := congrArg List.length heq
    simp [Transport.upload, PyText.ofString] at hlen
  simpa [Separate] using hne

theorem openingOps_makeDir {line : Line PyText UInt8} (h : line ∈ tr.openingOps) :
    tr.remotePath ≠ [] ∧ line = ⟨true, .makeDir tr.remotePath⟩ := by
  rw [Transport.openingOps] at h
  split at h
  · exact ⟨‹_›, List.mem_singleton.mp h⟩
  · exact absurd h List.not_mem_nil

theorem mem_touched_openingOps {l : Line PyText UInt8} {p : PyText} (hl : l ∈ tr.openingOps)
    (hp : p ∈ l.op.touched) : p = tr.remotePath := by
  rw [(openingOps_makeDir hl).2] at hp
  exact List.mem_singleton.mp hp

theorem openingOps_frame {faults : ℕ → Fault} {i : ℕ} {p : PyText}
    (hp : tr.remotePath ≠ [] → p ≠ tr.remotePath) :
    (srv.steps faults i tr.openingOps t).1 p = t p := by
  refine Server.steps_frame fun l hl hmem ↦ ?_
  exact hp (openingOps_makeDir hl).1 (mem_touched_openingOps hl hmem)

/-- The data is sent to a tree that the directory for it may have been added to. -/
theorem data_cases (tr : Transport) (srv : Server PyText) (faults : ℕ → Fault)
    (data : List (Line PyText UInt8)) (t : Tree PyText UInt8) :
    ∃ t₁ i, (∀ p, (tr.remotePath ≠ [] → p ≠ tr.remotePath) → t₁ p = t p) ∧
      (srv.steps faults 0 (tr.openingOps ++ data) t = (t₁, false) ∨
        srv.steps faults 0 (tr.openingOps ++ data) t = srv.steps faults i data t₁) := by
  refine ⟨(srv.steps faults 0 tr.openingOps t).1, 0 + tr.openingOps.length,
    fun p hp ↦ openingOps_frame hp, ?_⟩
  rcases Server.steps_append_cases srv faults 0 tr.openingOps data t with ⟨hstop, heq⟩ | ⟨-, heq⟩
  · exact .inl (heq.trans (Prod.ext rfl hstop))
  · exact .inr heq

/-- What a session makes of the file, and when there can be a trigger. -/
structure Sent (tr : Transport) (disk : Disk) (path : FilePath) (now : WsprNet.DateTime)
    (t t' : Tree PyText UInt8) : Prop where
  fate : Fate true (tr.upload disk path) t t'
  trigger : t' (tr.trigger path .file now) ≠ t (tr.trigger path .file now) →
    (tr.upload disk path).Done t'
  frame : ∀ p, p ≠ tr.remotePath → p ≠ (tr.upload disk path).part →
    p ≠ (tr.upload disk path).dest → p ≠ tr.trigger path .file now → t' p = t p

theorem fileData_frame {faults : ℕ → Fault} {i : ℕ} {p : PyText}
    (hpart : p ≠ (tr.upload disk path).part) (hdest : p ≠ (tr.upload disk path).dest) :
    (srv.steps faults i (publishLines true [tr.upload disk path]) t).1 p = t p := by
  refine Server.steps_frame fun l hl hmem ↦ ?_
  rcases mem_touched_publishLines ⟨l, hl, hmem⟩ with ⟨u, hu, h⟩
  rw [List.mem_singleton.mp hu] at h
  rcases h with h | h
  · exact hpart h
  · exact hdest h

/-- The data of a file, from the start of the session to the trigger. -/
theorem fileData_cases (tr : Transport) (srv : Server PyText) (disk : Disk) (path : FilePath)
    (faults : ℕ → Fault) (t : Tree PyText UInt8) :
    let r := srv.steps faults 0 (tr.openingOps ++ publishLines true [tr.upload disk path]) t
    Fate true (tr.upload disk path) t r.1 ∧ (r.2 = true → (tr.upload disk path).Done r.1) ∧
      ∀ p, p ≠ tr.remotePath → p ≠ (tr.upload disk path).part →
        p ≠ (tr.upload disk path).dest → r.1 p = t p := by
  obtain ⟨t₁, i, hkept, heq | heq⟩ := data_cases tr srv faults
    (publishLines true [tr.upload disk path]) t
  · dsimp only
    rw [heq]
    exact ⟨.before (hkept _ dest_ne_remote), fun h ↦ absurd h Bool.false_ne_true,
      fun p hp _ _ ↦ hkept p fun _ ↦ hp⟩
  · dsimp only
    rw [heq]
    obtain ⟨hfate, hdone⟩ := Server.publish_cases srv faults i true t₁ separate_upload
    refine ⟨?_, fun h ↦ hdone h _ List.mem_cons_self, fun p hp hpart hdest ↦ ?_⟩
    · rcases hfate _ List.mem_cons_self with h | ⟨z, hc, hz, hp, hd⟩ | ⟨z, hz, hd⟩
      · exact .before (h.trans (hkept _ dest_ne_remote))
      · exact .cleared z hc hz hp hd
      · exact .published z hz hd
    · rw [fileData_frame hpart hdest]
      exact hkept p fun _ ↦ hp

/-- **The session of a file**: the file comes before the trigger, and nothing else is touched. -/
theorem fileSession_sent (srv : Server PyText) (disk : Disk) (now : WsprNet.DateTime)
    (hmarked : tr.Unmarked path) (faults : ℕ → Fault) (t : Tree PyText UInt8) :
    Sent tr disk path now t (srv.session faults (tr.sessionOps disk path .file now) t).1 ∧
    ((srv.session faults (tr.sessionOps disk path .file now) t).2 = true →
      (tr.upload disk path).Done (srv.session faults (tr.sessionOps disk path .file now) t).1 ∧
      ((srv.session faults (tr.sessionOps disk path .file now) t).1
          (tr.trigger path .file now) ≠ none ∨
        srv.room (srv.session faults (tr.sessionOps disk path .file now) t).1
          (tr.trigger path .file now) = false ∨
        ∃ i written, faults i = .refused written)) := by
  obtain ⟨hfate, hdone, hframe⟩ := fileData_cases tr srv disk path faults t
  have hmark : ∀ l ∈ tr.openingOps ++ tr.dataOps disk path .file,
      tr.trigger path .file now ∉ l.op.touched := by
    intro l hl hmem
    rcases List.mem_append.mp hl with hl | hl
    · exact trigger_ne_remote hmarked (mem_touched_openingOps hl hmem)
    · obtain ⟨u, hu, hp⟩ := mem_touched_publishLines ⟨l, hl, hmem⟩
      rw [List.mem_singleton.mp hu] at hp
      rcases hp with hp | hp
      · exact trigger_ne_part disk hmarked hp
      · exact trigger_ne_dest disk hmarked hp
  obtain ⟨hkept, hnew, hok⟩ := Server.mark_cases srv faults t hmark
  have hpart := hkept _ (trigger_ne_part disk hmarked).symm
  have hdest := hkept _ (trigger_ne_dest disk hmarked).symm
  have hdone' : (srv.steps faults 0 (tr.openingOps ++ tr.dataOps disk path .file) t).2 = true →
      (tr.upload disk path).Done (srv.session faults (tr.sessionOps disk path .file now) t).1 := by
    intro hgo
    obtain ⟨z, hz, hd, hp⟩ := hdone hgo
    exact ⟨z, hz, hdest.trans hd, hpart.trans hp⟩
  refine ⟨⟨hfate.congr hpart hdest, fun hne ↦ hdone' (hnew hne), fun p h₁ h₂ h₃ h₄ ↦ ?_⟩,
    fun h ↦ ⟨hdone' (hok h).1, (hok h).2⟩⟩
  exact (hkept p h₄).trans (hframe p h₁ h₂ h₃)

/-! ## What is relied on -/

/-- The batch for a dataset is one that `sftp` takes whole and reads as it was meant, and each path
in it is the one path of its place. -/
structure Transport.Sendable (tr : Transport) (disk : Disk) (path : FilePath) (ds : Dataset)
    (now : WsprNet.DateTime) : Prop where
  legible : tr.Legible path ds
  whole : ∀ batch, PyText.encode (joined (tr.batchLines path ds now ++ [.ofString "quit"])) =
    .ok batch → Whole batch
  tidy : ∀ l ∈ tr.sessionOps disk path ds now, ∀ p ∈ l.op.touched, Tidy p

/-- **An attempt plays its batch against the server**, where the tree has a place for its lines. -/
theorem exists_onServer (identity : Identity) {undisturbed : Prop} {replaces : Bool}
    {att : Attempt} (hstands : disk.stands path = some ds) (hsend : tr.Sendable disk path ds att.now)
    (hdoc : ∀ command, Documented undisturbed replaces disk.content (att.program command))
    (hfit : Fitting (tr.sessionOps disk path ds att.now) t) :
    ∃ c : Connection, (undisturbed → c.Quiet) ∧ tr.uploadOne disk identity path att t =
      tr.uploadOne disk identity path (onServer (textServer replaces) disk att.now c) t := by
  have hquiet : undisturbed → quietCall.Quiet := fun _ ↦ ⟨rfl, rfl⟩
  cases huser : tr.sftpUser identity with
  | none => exact ⟨quietCall, hquiet, by simp only [Transport.uploadOne, hstands, huser]⟩
  | some user =>
    cases hbatch : PyText.encode (joined (tr.batchLines path ds att.now ++
        [.ofString "quit"])) with
    | error e =>
      refine ⟨quietCall, hquiet, ?_⟩
      simp only [Transport.uploadOne, hstands, huser, onServer, hbatch]
      rfl
    | ok batch =>
      obtain ⟨c, hc, hplay⟩ := hdoc (tr.sftpCommand user (tr.sshKey identity)) batch _ t
        (linesOf_batch disk hsend.legible hbatch) (hsend.whole batch hbatch) hsend.tidy hfit
      have hrun : tr.runSftp att user (tr.sshKey identity) batch t =
          tr.runSftp (onServer (textServer replaces) disk att.now c) user (tr.sshKey identity)
            batch t := by
        rw [Transport.runSftp, hplay]
        rfl
      have hnow : (onServer (textServer replaces) disk att.now c).now = att.now := rfl
      refine ⟨c, hc, ?_⟩
      simp only [Transport.uploadOne, hstands, huser, hnow, hbatch, Except.ok_bind, hrun]

/-! ## Any number of attempts -/

/-- The server after attempts that were made with the dataset one after the other. -/
def Transport.attempts (tr : Transport) (disk : Disk) (path : FilePath) :
    List (Identity × Attempt) → Tree PyText UInt8 → Tree PyText UInt8
  | [], t => t
  | a :: as, t => attempts tr disk path as
    (match tr.uploadOne disk a.1 path a.2 t with
    | .ok (t', _) => t'
    | .error _ => t)

/-- **The rule for attempts**: what every session keeps is kept, where it leaves a place for the
lines of the next one. -/
theorem attempts_rule {I : Tree PyText UInt8 → Prop} {replaces : Bool}
    {as : List (Identity × Attempt)} (hstands : disk.stands path = some ds)
    (hsend : ∀ a ∈ as, tr.Sendable disk path ds a.2.now)
    (hdoc : ∀ a ∈ as, ∀ command, Documented False replaces disk.content (a.2.program command))
    (hfit : ∀ a ∈ as, ∀ t, I t → Fitting (tr.sessionOps disk path ds a.2.now) t)
    (hstep : ∀ a ∈ as, ∀ faults t, I t →
      I ((textServer replaces).session faults (tr.sessionOps disk path ds a.2.now) t).1)
    (h : I t) : I (tr.attempts disk path as t) := by
  induction as generalizing t with
  | nil => exact h
  | cons a as ih =>
    rw [List.forall_mem_cons] at hsend hdoc hfit hstep
    refine ih hsend.2 hdoc.2 hfit.2 hstep.2 ?_
    obtain ⟨c, -, hserver⟩ :=
      exists_onServer a.1 hstands hsend.1 hdoc.1 (hfit.1 t h)
    rw [hserver]
    cases hup : tr.uploadOne disk a.1 path (onServer (textServer replaces) disk a.2.now c) t with
    | error e => exact h
    | ok r =>
      rcases uploadOne_cases hstands hsend.1.legible hup with ⟨heq, -⟩ | ⟨heq, -⟩
      · dsimp only
        rw [heq]
        exact h
      · dsimp only
        rw [heq]
        exact hstep.1 _ t h

/-- No directory stands in the file's place, nor where it is written. -/
structure Clear (tr : Transport) (disk : Disk) (path : FilePath) (t : Tree PyText UInt8) :
    Prop where
  part : (t (tr.upload disk path).part).any Node.isDir = false
  dest : (t (tr.upload disk path).dest).any Node.isDir = false

theorem mem_sessionOps_file {l : Line PyText UInt8}
    (h : l ∈ tr.sessionOps disk path .file now) :
    (tr.remotePath ≠ [] ∧ l = ⟨true, .makeDir tr.remotePath⟩) ∨
      l ∈ publishLines true [tr.upload disk path] ∨
      l = ⟨true, .makeDir (tr.trigger path .file now)⟩ := by
  rcases List.mem_append.mp h with h | h
  · rcases List.mem_append.mp h with h | h
    · exact .inl (openingOps_makeDir h)
    · exact .inr (.inl h)
  · exact .inr (.inr (List.mem_singleton.mp h))

/-- A file's session makes no directory but its own and the trigger. -/
theorem makeDir_ne {p : PyText} (hremote : tr.remotePath ≠ [] → p ≠ tr.remotePath)
    (htrigger : p ≠ tr.trigger path .file now) :
    ∀ l ∈ tr.sessionOps disk path .file now, l.op ≠ .makeDir p := by
  intro l hl heq
  rcases mem_sessionOps_file hl with ⟨hne, rfl⟩ | hl | rfl
  · exact hremote hne (Op.makeDir.inj heq).symm
  · exact makes_publish l hl heq
  · exact htrigger (Op.makeDir.inj heq).symm

/-- No attempt makes a directory there. -/
theorem Clear.kept (hmarked : tr.Unmarked path) (h : Clear tr disk path t) (faults : ℕ → Fault) :
    Clear tr disk path (srv.session faults (tr.sessionOps disk path .file now) t).1 where
  part := Server.steps_not_isDir
    (makeDir_ne part_ne_remote (trigger_ne_part disk hmarked).symm) h.part
  dest := Server.steps_not_isDir
    (makeDir_ne dest_ne_remote (trigger_ne_dest disk hmarked).symm) h.dest

/-- The tree has a place for the lines of a file's session. -/
theorem Clear.fitting (hmarked : tr.Unmarked path) (h : Clear tr disk path t)
    (now : WsprNet.DateTime) : Fitting (tr.sessionOps disk path .file now) t := by
  have hfiles : ∀ l ∈ tr.sessionOps disk path .file now, ∀ p ∈ l.op.files,
      p = (tr.upload disk path).part ∨ p = (tr.upload disk path).dest := by
    intro l hl p hp
    rcases mem_sessionOps_file hl with ⟨-, rfl⟩ | hl | rfl
    · cases hp
    · obtain ⟨u, hu, h⟩ := mem_touched_publishLines ⟨l, hl, Op.touched_of_files hp⟩
      rwa [List.mem_singleton.mp hu] at h
    · cases hp
  constructor
  · intro l hl p hp
    rcases hfiles l hl p hp with rfl | rfl
    · exact h.part
    · exact h.dest
  · intro l hl p hp
    rcases hfiles l hl p hp with rfl | rfl
    · exact makeDir_ne part_ne_remote (trigger_ne_part disk hmarked).symm
    · exact makeDir_ne dest_ne_remote (trigger_ne_dest disk hmarked).symm

theorem magnetometer_legible : magnetometer.Legible magDay .file where
  remote := ⟨by decide, by decide⟩
  source := ⟨by decide, by decide⟩
  dest := ⟨by decide, by decide⟩
  triggerDir := ⟨by decide, by decide⟩
  triggerName := ⟨by decide, by decide⟩
  tree l h := by cases h

theorem magDisk_stands : magDisk.stands magDay = some .file := rfl

theorem magnetometer_unmarked : magnetometer.Unmarked magDay :=
  ⟨by decide, by decide⟩

/-- The batch for the dataset at a minute of a day. -/
def magBatch (minute : ℕ) : String :=
  String.join ["-mkdir \"magData\"\n",
    "put \"/q/OBS T00:00.zip\" \"magData/OBS T00:00.zip.part\"\n",
    "-rm \"magData/OBS T00:00.zip\"\n",
    "rename \"magData/OBS T00:00.zip.part\" \"magData/OBS T00:00.zip\"\n",
    "-mkdir \"mOBS T00:00_#372_#2026-08-24T17:", toString minute, "\"\nquit\n"]

theorem joined_magBatch : ∀ minute ∈ [30, 40],
    joined (magnetometer.batchLines magDay .file ⟨2026, 8, 24, 17, minute⟩ ++
      [.ofString "quit"]) = .ofString (magBatch minute) := by
  intro minute h
  refine Eq.trans ?_ (PyText.ofString_join _).symm
  revert minute
  decide +kernel

theorem magnetometer_sendable {minute : ℕ} (h : minute ∈ [30, 40]) :
    magnetometer.Sendable magDisk magDay .file ⟨2026, 8, 24, 17, minute⟩ where
  legible := magnetometer_legible
  whole batch hbatch := by
    have hall : ∀ minute ∈ [30, 40], 0 ∉ (magBatch minute).toByteArray.data.toList ∧
        (magBatch minute).toByteArray.data.toList.length < 2047 := by decide +kernel
    rw [joined_magBatch minute h, PyText.encode_ofString] at hbatch
    obtain rfl := Except.ok.inj hbatch
    exact whole_of_length (hall minute h).1 (hall minute h).2
  tidy := by
    have hall : ∀ minute ∈ [30, 40], ∀ l ∈ magnetometer.sessionOps magDisk magDay .file
        ⟨2026, 8, 24, 17, minute⟩, ∀ p ∈ l.op.touched, Tidy p := by decide
    exact hall minute h

/-- **A file's name is never left with a part of the file**, however many attempts stop wherever
they stop, and no other path changes. -/
theorem attempts_keep {replaces : Bool} {as : List (Identity × Attempt)}
    (hstands : disk.stands path = some .file) (hmarked : tr.Unmarked path)
    (hsend : ∀ a ∈ as, tr.Sendable disk path .file a.2.now)
    (hdoc : ∀ a ∈ as, ∀ command, Documented False replaces disk.content (a.2.program command))
    (hclear : Clear tr disk path t) :
    (tr.attempts disk path as t (tr.remotePathOf path.name) = t (tr.remotePathOf path.name) ∨
      tr.attempts disk path as t (tr.remotePathOf path.name) = none ∨
      ∃ z, disk.content (pathText path) = some z ∧
        tr.attempts disk path as t (tr.remotePathOf path.name) = some (.file z)) ∧
    ∀ p, p ≠ tr.remotePath → p ≠ tr.remotePathOf path.name →
      p ≠ tr.remotePathOf path.name ++ .ofString ".part" →
      (∀ a ∈ as, p ≠ tr.trigger path .file a.2.now) →
        tr.attempts disk path as t p = t p := by
  constructor
  · refine (attempts_rule (I := fun t₁ ↦ Clear tr disk path t₁ ∧
      (t₁ (tr.remotePathOf path.name) = t (tr.remotePathOf path.name) ∨
        t₁ (tr.remotePathOf path.name) = none ∨
        ∃ z, disk.content (pathText path) = some z ∧
          t₁ (tr.remotePathOf path.name) = some (.file z))) hstands hsend hdoc
      (fun a _ t₁ h ↦ h.1.fitting hmarked a.2.now) ?_ ⟨hclear, .inl rfl⟩).2
    intro a _ faults t₁ ht
    refine ⟨ht.1.kept hmarked faults, ?_⟩
    obtain ⟨hsent, -⟩ := fileSession_sent (textServer replaces) disk a.2.now hmarked faults t₁
    rcases hsent.fate with h | ⟨z, -, -, -, hd⟩ | ⟨z, hz, hd⟩
    · have hsame : ((textServer replaces).session faults
          (tr.sessionOps disk path .file a.2.now) t₁).1 (tr.remotePathOf path.name) =
          t₁ (tr.remotePathOf path.name) := h
      rw [hsame]
      exact ht.2
    · exact .inr (.inl hd)
    · exact .inr (.inr ⟨z, hz, hd⟩)
  · intro p hremote hdest hpart htrigger
    refine (attempts_rule (I := fun t₁ ↦ Clear tr disk path t₁ ∧ t₁ p = t p) hstands hsend hdoc
      (fun a _ t₁ h ↦ h.1.fitting hmarked a.2.now) ?_ ⟨hclear, rfl⟩).2
    intro a ha faults t₁ ht
    obtain ⟨hsent, -⟩ := fileSession_sent (textServer replaces) disk a.2.now hmarked faults t₁
    exact ⟨ht.1.kept hmarked faults, (hsent.frame p hremote hpart hdest (htrigger a ha)).trans ht.2⟩

/-- An attempt that loses its connection. -/
def lostAttempt : Identity × Attempt :=
  ({ stationId := .ofString "S000170" },
    onServer (textServer false) magDisk ⟨2026, 8, 24, 17, 30⟩ lostCall)

/-- An attempt ten minutes later that nothing comes between. -/
def quietAttempt : Identity × Attempt :=
  ({ stationId := .ofString "S000170" },
    onServer (textServer false) magDisk ⟨2026, 8, 24, 17, 40⟩ quietCall)

theorem lostAttempt_documented (command : List PyText) :
    Documented False false magDisk.content (lostAttempt.2.program command) :=
  documented_play lostCall False.elim false magDisk.content

theorem quietAttempt_documented (undisturbed : Prop) (command : List PyText) :
    Documented undisturbed false magDisk.content (quietAttempt.2.program command) :=
  documented_play quietCall (fun _ ↦ ⟨rfl, rfl⟩) false magDisk.content

theorem lostAttempt_sendable : magnetometer.Sendable magDisk magDay .file lostAttempt.2.now :=
  magnetometer_sendable (by decide)

theorem quietAttempt_sendable : magnetometer.Sendable magDisk magDay .file quietAttempt.2.now :=
  magnetometer_sendable (by decide)

theorem magnetometer_clear : Clear magnetometer magDisk magDay fun _ ↦ none := ⟨rfl, rfl⟩

theorem attempts_keep_lost :
    let t := magnetometer.attempts magDisk magDay [lostAttempt, quietAttempt] fun _ ↦ none
    t (magnetometer.remotePathOf magDay.name) = none ∨
      ∃ z, magDisk.content (pathText magDay) = some z ∧
        t (magnetometer.remotePathOf magDay.name) = some (.file z) := by
  have hsend : ∀ a ∈ [lostAttempt, quietAttempt],
      magnetometer.Sendable magDisk magDay .file a.2.now :=
    List.forall_mem_cons.mpr ⟨lostAttempt_sendable,
      List.forall_mem_singleton.mpr quietAttempt_sendable⟩
  have hdoc : ∀ a ∈ [lostAttempt, quietAttempt], ∀ command,
      Documented False false magDisk.content (a.2.program command) :=
    List.forall_mem_cons.mpr ⟨lostAttempt_documented,
      List.forall_mem_singleton.mpr (quietAttempt_documented False)⟩
  rcases (attempts_keep magDisk_stands magnetometer_unmarked hsend hdoc magnetometer_clear).1 with
    h | h | h
  · exact .inl h
  · exact .inl h
  · exact .inr h

/-! ## A retry that nothing comes between -/

/-- The server has a place for the file: where the data is to go there is a directory or one can be
made, and no directory stands in the file's place. -/
structure Place (tr : Transport) (srv : Server PyText) (disk : Disk) (path : FilePath)
    (t : Tree PyText UInt8) : Prop where
  clear : Clear tr disk path t
  home : tr.remotePath = [] →
    srv.room t (tr.upload disk path).part = true ∧ srv.room t (tr.upload disk path).dest = true
  inside : tr.remotePath ≠ [] → srv.parent (tr.upload disk path).part = some tr.remotePath ∧
    srv.parent (tr.upload disk path).dest = some tr.remotePath
  free : tr.remotePath ≠ [] → (t tr.remotePath).all Node.isDir = true
  made : tr.remotePath ≠ [] → (t tr.remotePath).any Node.isDir = true ∨
    srv.room t tr.remotePath = true

/-- No attempt takes the file's place. -/
theorem Place.kept (hmarked : tr.Unmarked path) (h : Place tr srv disk path t)
    (faults : ℕ → Fault) :
    Place tr srv disk path (srv.session faults (tr.sessionOps disk path .file now) t).1 := by
  have hroom : ∀ q, (t q).any Node.isDir = true →
      ((srv.session faults (tr.sessionOps disk path .file now) t).1 q).any Node.isDir = true :=
    fun q hq ↦ Server.steps_isDir hq
  constructor
  · exact h.clear.kept hmarked faults
  · exact fun hnil ↦ ⟨Server.room_mono hroom (h.home hnil).1, Server.room_mono hroom (h.home hnil).2⟩
  · exact h.inside
  · refine fun hne ↦ Server.steps_isDir_or_none (fun l hl hmem ↦ ?_) (h.free hne)
    rcases mem_sessionOps_file hl with ⟨-, rfl⟩ | hl | rfl
    · rfl
    · obtain ⟨u, hu, hp⟩ := mem_touched_publishLines ⟨l, hl, hmem⟩
      rw [List.mem_singleton.mp hu] at hp
      rcases hp with hp | hp
      · exact absurd hp.symm (part_ne_remote hne)
      · exact absurd hp.symm (dest_ne_remote hne)
    · exact absurd (List.mem_singleton.mp hmem).symm (trigger_ne_remote hmarked)
  · exact fun hne ↦ (h.made hne).imp (hroom _) (Server.room_mono hroom)

/-- The directory for the data stands once the first line has been played. -/
theorem openingOps_quiet (hfree : tr.remotePath ≠ [] → (t tr.remotePath).all Node.isDir = true)
    (hmade : tr.remotePath ≠ [] → (t tr.remotePath).any Node.isDir = true ∨
      srv.room t tr.remotePath = true) :
    (srv.steps Server.quiet 0 tr.openingOps t).2 = true ∧ (tr.remotePath ≠ [] →
      ((srv.steps Server.quiet 0 tr.openingOps t).1 tr.remotePath).any Node.isDir = true) := by
  by_cases hnil : tr.remotePath = []
  · rw [Transport.openingOps, if_neg (not_not_intro hnil)]
    exact ⟨rfl, fun hne ↦ absurd hnil hne⟩
  · rw [Transport.openingOps, if_pos hnil]
    refine ⟨Server.makeDir_quiet, fun _ ↦ ?_⟩
    rcases hmade hnil with hdir | hroom
    · exact Server.steps_isDir hdir
    · exact Server.makeDir_isDir (hfree hnil) hroom

/-- A session that nothing comes between gets through. -/
theorem fileSession_quiet (now : WsprNet.DateTime) {z : Bytes}
    (hz : disk.content (pathText path) = some z)
    (h : Place tr srv disk path t) :
    (srv.session Server.quiet (tr.sessionOps disk path .file now) t).2 = true := by
  refine Server.session_quiet ?_
  obtain ⟨hgo, hremote⟩ := openingOps_quiet h.free h.made
  have hroom : srv.room (srv.steps Server.quiet 0 tr.openingOps t).1
        (tr.upload disk path).part = true ∧
      srv.room (srv.steps Server.quiet 0 tr.openingOps t).1 (tr.upload disk path).dest = true := by
    by_cases hnil : tr.remotePath = []
    · rw [Transport.openingOps, if_neg (not_not_intro hnil)]
      exact h.home hnil
    · obtain ⟨hpart, hdest⟩ := h.inside hnil
      rw [Server.room, Server.room, hpart, hdest]
      exact ⟨hremote hnil, hremote hnil⟩
  obtain ⟨hpart, hdest⟩ := hroom
  have hready : Server.Ready srv true (srv.steps Server.quiet 0 tr.openingOps t).1
      (tr.upload disk path) := by
    have hkept : ∀ p, (tr.remotePath ≠ [] → p ≠ tr.remotePath) →
        (srv.steps Server.quiet 0 tr.openingOps t).1 p = t p := fun p hp ↦ openingOps_frame hp
    refine ⟨?_, ?_, ?_, .inl rfl⟩
    · rw [Transport.upload, hz]
      rfl
    · rw [Server.writable_iff, hkept _ part_ne_remote]
      exact ⟨hpart, h.clear.part⟩
    · rw [Server.writable_iff, hkept _ dest_ne_remote]
      exact ⟨hdest, h.clear.dest⟩
  have hdata : ∀ i, (srv.steps Server.quiet i (publishLines true [tr.upload disk path])
      (srv.steps Server.quiet 0 tr.openingOps t).1).2 = true := by
    refine fun i ↦ Server.publish_quiet separate_upload fun u hu ↦ ?_
    rw [List.mem_singleton.mp hu]
    exact hready
  rw [Transport.sessionOps, Transport.dataOps, List.append_assoc]
  rw [Server.steps_append_of_goes hgo, Server.steps_append_of_goes (hdata _)]
  exact Server.makeDir_quiet

/-- A batch that gets through is reported done. -/
theorem uploadOne_acked (hstands : disk.stands path = some ds) (hlegible : tr.Legible path ds)
    (hdry : tr.dryRun = false) (huser : tr.sftpUser identity ≠ none)
    (hencodes : PyText.Encodable (joined (tr.batchLines path ds now ++ [.ofString "quit"])))
    (hending : c.ending = .exited)
    (hok : (srv.session c.faults (tr.sessionOps disk path ds now) t).2 = true) :
    tr.uploadOne disk identity path (onServer srv disk now c) t =
      .ok ((srv.session c.faults (tr.sessionOps disk path ds now) t).1, { kind := .acked }) := by
  obtain ⟨user, huser⟩ := Option.ne_none_iff_exists'.mp huser
  obtain ⟨batch, hbatch⟩ := hencodes
  have hread := linesOf_batch disk hlegible hbatch
  obtain ⟨htree, hcode⟩ := runSftp_cases tr srv now c t user (tr.sshKey identity) hread
  have htree' : (tr.runSftp (onServer srv disk now c) user (tr.sshKey identity) batch t).1 =
      (srv.session c.faults (tr.sessionOps disk path ds now) t).1 := by
    rcases htree with ⟨-, hnot⟩ | ⟨heq, -⟩
    · rw [hending] at hnot
      cases hnot
    · exact heq
  have hzero := hcode.mpr ⟨hending, hok⟩
  rw [Transport.uploadOne, hstands]
  simp only [huser, hdry]
  have hnow : (onServer srv disk now c).now = now := rfl
  rw [hnow, hbatch, Except.ok_bind]
  simp only [Bool.false_eq_true, if_false]
  rw [hzero, if_pos rfl, htree']
  rfl

/-- **A retry that nothing comes between gets through**, whatever the attempts before it have
left. -/
theorem retry_gets_through {replaces : Bool} {z : Bytes} {as : List (Identity × Attempt)}
    {att : Attempt} (hstands : disk.stands path = some .file) (hmarked : tr.Unmarked path)
    (hdry : tr.dryRun = false) (huser : tr.sftpUser identity ≠ none)
    (hz : disk.content (pathText path) = some z)
    (hencodes : PyText.Encodable (joined (tr.batchLines path .file att.now ++ [.ofString "quit"])))
    (hsend : ∀ a ∈ as, tr.Sendable disk path .file a.2.now)
    (hdoc : ∀ a ∈ as, ∀ command, Documented False replaces disk.content (a.2.program command))
    (hlast : tr.Sendable disk path .file att.now)
    (hquiet : ∀ command, Documented True replaces disk.content (att.program command))
    (hplace : Place tr (textServer replaces) disk path t) :
    ∃ t', tr.uploadOne disk identity path att (tr.attempts disk path as t) =
        .ok (t', { kind := .acked }) ∧
      t' (tr.remotePathOf path.name) = some (.file z) ∧
      t' (tr.remotePathOf path.name ++ .ofString ".part") = none ∧
      ((textServer replaces).room t' (tr.trigger path .file att.now) = true →
        t' (tr.trigger path .file att.now) ≠ none) := by
  have hplace' : Place tr (textServer replaces) disk path (tr.attempts disk path as t) :=
    attempts_rule hstands hsend hdoc (fun a _ t₁ ht ↦ ht.clear.fitting hmarked a.2.now)
      (fun _ _ faults _ ht ↦ ht.kept hmarked faults) hplace
  obtain ⟨c, hc, hserver⟩ := exists_onServer identity hstands hlast hquiet
    (hplace'.clear.fitting hmarked att.now)
  have hcquiet := hc trivial
  have hok := fileSession_quiet att.now hz hplace'
  rw [← hcquiet.1] at hok
  have hup := uploadOne_acked hstands hlast.legible hdry huser hencodes hcquiet.2 hok
  obtain ⟨-, hdone⟩ := fileSession_sent (textServer replaces) disk att.now hmarked c.faults
    (tr.attempts disk path as t)
  obtain ⟨⟨z', hz', hd, hp⟩, htrigger⟩ := hdone hok
  refine ⟨_, hserver.trans hup, ?_, hp, fun hroom ↦ ?_⟩
  · obtain rfl := Option.some.inj (hz.symm.trans hz')
    exact hd
  · rcases htrigger with h | h | ⟨i, w, h⟩
    · exact h
    · rw [h] at hroom
      cases hroom
    · rw [hcquiet.1] at h
      cases h

theorem magnetometer_place :
    Place magnetometer (textServer false) magDisk magDay fun _ ↦ none where
  clear := magnetometer_clear
  home h := absurd h (by decide)
  inside _ := by decide
  free _ := rfl
  made _ := .inr (by decide)

theorem magnetometer_encodes : PyText.Encodable (joined
    (magnetometer.batchLines magDay .file quietAttempt.2.now ++ [.ofString "quit"])) := by
  have hnow : quietAttempt.2.now = ⟨2026, 8, 24, 17, 40⟩ := rfl
  rw [hnow, joined_magBatch 40 (by decide)]
  exact ⟨_, PyText.encode_ofString _⟩

theorem magnetometer_user : magnetometer.sftpUser quietAttempt.1 ≠ none := by decide

theorem magnetometer_dry : magnetometer.dryRun = false := rfl

theorem magDisk_content : magDisk.content (pathText magDay) = some [80, 75, 3, 4] := rfl

theorem retry_gets_through_lost :
    ∃ t', magnetometer.uploadOne magDisk quietAttempt.1 magDay quietAttempt.2
        (magnetometer.attempts magDisk magDay [lostAttempt] fun _ ↦ none) =
        .ok (t', { kind := .acked }) ∧
      t' (magnetometer.remotePathOf magDay.name) = some (.file [80, 75, 3, 4]) := by
  have hsend : ∀ a ∈ [lostAttempt], magnetometer.Sendable magDisk magDay .file a.2.now :=
    List.forall_mem_singleton.mpr lostAttempt_sendable
  have hdoc : ∀ a ∈ [lostAttempt], ∀ command,
      Documented False false magDisk.content (a.2.program command) :=
    List.forall_mem_singleton.mpr lostAttempt_documented
  obtain ⟨t', hup, hd, -⟩ := retry_gets_through magDisk_stands magnetometer_unmarked
    magnetometer_dry magnetometer_user magDisk_content magnetometer_encodes hsend hdoc
    quietAttempt_sendable (quietAttempt_documented True) magnetometer_place
  exact ⟨t', hup, hd⟩

/-- **The trigger comes after the data**: one that an upload makes stands beside the whole file,
and an upload that is reported done has brought the file and left nothing under the name it was
written under. -/
theorem trigger_after_file {replaces : Bool} {att : Attempt}
    (hstands : disk.stands path = some .file) (hmarked : tr.Unmarked path)
    (hdry : tr.dryRun = false) (hsend : tr.Sendable disk path .file att.now)
    (hdoc : ∀ command, Documented False replaces disk.content (att.program command))
    (hclear : Clear tr disk path t)
    (h : tr.uploadOne disk identity path att t = .ok (t', answer)) :
    (t' (tr.trigger path .file att.now) ≠ t (tr.trigger path .file att.now) →
      ∃ z, disk.content (pathText path) = some z ∧
        t' (tr.remotePathOf path.name) = some (.file z)) ∧
    (answer.kind = .acked → ∃ z, disk.content (pathText path) = some z ∧
      t' (tr.remotePathOf path.name) = some (.file z) ∧
      t' (tr.remotePathOf path.name ++ .ofString ".part") = none) := by
  obtain ⟨c, -, hserver⟩ := exists_onServer identity hstands hsend hdoc
    (hclear.fitting hmarked att.now)
  rw [hserver] at h
  rcases uploadOne_cases hstands hsend.legible h with ⟨rfl, hacked⟩ | ⟨rfl, hacked⟩
  · refine ⟨fun hne ↦ absurd rfl hne, fun hk ↦ ?_⟩
    rw [hacked hk] at hdry
    cases hdry
  · obtain ⟨hsent, hdone⟩ :=
      fileSession_sent (textServer replaces) disk att.now hmarked c.faults t
    refine ⟨fun hne ↦ ?_, fun hk ↦ ?_⟩
    · obtain ⟨z, hz, hd, -⟩ := hsent.trigger hne
      exact ⟨z, hz, hd⟩
    · exact (hdone (hacked hk)).1

theorem trigger_after_file_quiet :
    ∃ t', magnetometer.uploadOne magDisk quietAttempt.1 magDay quietAttempt.2 (fun _ ↦ none) =
        .ok (t', { kind := .acked }) ∧
      t' (magnetometer.remotePathOf magDay.name) = some (.file [80, 75, 3, 4]) := by
  have hok := fileSession_quiet quietAttempt.2.now
    (rfl : magDisk.content (pathText magDay) = some [80, 75, 3, 4]) magnetometer_place
  have hup := uploadOne_acked (c := quietCall) magDisk_stands magnetometer_legible rfl
    magnetometer_user magnetometer_encodes rfl hok
  obtain ⟨z, hz, hd, -⟩ := (trigger_after_file magDisk_stands magnetometer_unmarked rfl
    quietAttempt_sendable (quietAttempt_documented False) magnetometer_clear hup).2 rfl
  obtain rfl := Option.some.inj hz
  exact ⟨_, hup, hd⟩

end HsUploader.Psws
