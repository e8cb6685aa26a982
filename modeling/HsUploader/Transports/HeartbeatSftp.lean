import HsUploader.Transports.FilePaths
import HsUploader.Transports.SftpBatch

/-!
# The heartbeat transport

A batch of heartbeat files is sent in one call of `sftp`: every file is written under its name with
`.part` after it, and then every file takes its name (`batchCmd`).  When the call fails and the
output says that the server's key has changed, the key is forgotten and the call made once more
(`runSftpWithRetry`).

Every call of `sftp` is a function of the batch and the server's tree, of which `Documented` is
relied on: for a batch that the program takes whole and reads as it was meant (`Sendable`), on a
server where no directory stands in a file's place (`Clear`), it plays the session that publishes
the files.  A batch makes no directory, so what is clear stays clear.

A file's own name is never left with a part of the file, however many batches stop wherever they
stop.  A batch that is reported done has brought every file, and one that nothing comes between is
reported done whatever others have left, provided that the server lets a rename take the place of a
file.  What is kept for a retry is the files themselves, and a replay sends what they held then.
-/

set_option autoImplicit false

namespace HsUploader.Heartbeat

open Transfer Sftp
open Wsprdaemon (FilePath)

/-! ## The model -/

/-- `HeartbeatSftp`, as it is constructed. -/
structure Transport where
  host : PyText
  port : ℤ := 22
  sftpUser : PyText := .ofString "hamsci-hb"
  remotePath : PyText := .ofString "incoming"
  connectTimeoutSec : ℤ := 10
  xferTimeoutSec : ℤ := 30
  knownHostsFile : PyText := .ofString "/var/lib/hs-uploader/known_hosts"

/-- The local disk. -/
structure Disk where
  /-- `p.stat().st_size`, `none` where that raises `OSError`. -/
  size : FilePath → Option ℕ
  /-- `p.read_bytes()`, `none` where that raises `OSError`. -/
  bytes : FilePath → Option Bytes
  /-- What `sftp` reads from the file of the name. -/
  content : PyText → Option Bytes

/-- The server's tree, and the commands that have been run. -/
structure World where
  tree : Tree PyText UInt8
  ran : List (List PyText) := []

/-- What the calls of a batch meet, by their number: `sftp` is handed the files it can read, its
command line and the batch. -/
structure Calls where
  sftp : ℕ → (PyText → Option Bytes) → List PyText → Bytes → Tree PyText UInt8 →
    Tree PyText UInt8 × Completed

namespace Transport

variable (tr : Transport)

/-- `batch_policy()`. -/
def batchPolicy (_ : Transport) : BatchPolicy := { maxRecords := 8 }

/-- `f"{self.remote_path}/{basename}"`. -/
def destOf (basename : PyText) : PyText := tr.remotePath ++ [.scalar '/'] ++ basename

/-- `f"{self.remote_path}/{basename}.part"`. -/
def partOf (basename : PyText) : PyText := tr.destOf basename ++ .ofString ".part"

/-- The lines of `_batch_cmd(files)`: local files with the names they get. -/
def batchLines (files : List (PyText × PyText)) : List PyText :=
  files.map (fun f ↦ twoWords "put" .asIs f.1 (tr.partOf f.2)) ++
    files.map fun f ↦ twoWords "rename" .asIs (tr.partOf f.2) (tr.destOf f.2)

/-- `_batch_cmd(files)`. -/
def batchCmd (files : List (PyText × PyText)) : Except Exn Bytes :=
  PyText.encode (joined (tr.batchLines files))

/-- The command line of `_run_sftp`. -/
def sftpCommand (identity : Identity) (extraOpts : List PyText) : List PyText :=
  (["sftp", "-b", "-", "-o", "BatchMode=yes", "-o",
      "ConnectTimeout=" ++ toString tr.connectTimeoutSec, "-o"].map PyText.ofString) ++
    [.ofString "UserKnownHostsFile=" ++ tr.knownHostsFile, .ofString "-o",
      .ofString "GlobalKnownHostsFile=/dev/null", .ofString "-o",
      .ofString "StrictHostKeyChecking=accept-new"] ++
    (match identity.sshKeyFile with
      | some (c :: cs) => [.ofString "-i", c :: cs]
      | _ => []) ++
    extraOpts.flatMap (fun opt ↦ [.ofString "-o", opt]) ++
    [.ofString "-P", .ofString (toString tr.port), tr.sftpUser ++ .ofString "@" ++ tr.host]

/-- `_run_sftp(batch_cmd, identity, extra_opts)`, the call of the number. -/
def runSftp (calls : Calls) (n : ℕ) (content : PyText → Option Bytes) (identity : Identity)
    (extraOpts : List PyText) (batch : Bytes) (w : World) : World × Except Exn (ℤ × PyText) :=
  let cmd := tr.sftpCommand identity extraOpts
  match calls.sftp n content cmd batch w.tree with
  | (t, .exited code output) => (⟨t, w.ran ++ [cmd]⟩, .ok (code, output))
  | (t, .timedOut) => (⟨t, w.ran ++ [cmd]⟩, .ok (1, .ofString "sftp timed out"))
  | (t, .notFound) => (⟨t, w.ran ++ [cmd]⟩,
      .error (.other "FileNotFoundError" "[Errno 2] No such file or directory: 'sftp'"))

/-- The command of `_remove_host_key()`. -/
def keygenCommand : List PyText :=
  [.ofString "ssh-keygen", .ofString "-f", tr.knownHostsFile, .ofString "-R", tr.host]

/-- `_run_sftp_with_retry(batch_cmd, identity)`. -/
def runSftpWithRetry (calls : Calls) (content : PyText → Option Bytes) (identity : Identity)
    (batch : Bytes) (w : World) : World × Except Exn (ℤ × PyText) :=
  match tr.runSftp calls 0 content identity [] batch w with
  | (w, .error e) => (w, .error e)
  | (w, .ok (code, output)) =>
    if code ≠ 0 ∧ hostKeyErr output = true then
      tr.runSftp calls 1 content identity [.ofString "StrictHostKeyChecking=accept-new"] batch
        { w with ran := w.ran ++ [tr.keygenCommand] }
    else (w, .ok (code, output))

/-- The last letters of a text. -/
def lastOf (n : ℕ) (s : PyText) : PyText := s.drop (s.length - n)

/-- What the upload of a batch answers. -/
def answerOf (nBytes : ℕ) (result : ℤ × PyText) : Answer :=
  if result.1 ≠ 0 then
    .retryLater (.ofString ("sftp rc=" ++ toString result.1 ++ ": ") ++ strip (lastOf 200 result.2))
  else .acked nBytes

/-- The files are sent. -/
def send (calls : Calls) (content : PyText → Option Bytes) (identity : Identity)
    (files : List (PyText × PyText)) (nBytes : ℕ) (w : World) : World × Except Exn Answer :=
  match tr.batchCmd files with
  | .error e => (w, .error e)
  | .ok batch =>
    let (w, result) := tr.runSftpWithRetry calls content identity batch w
    (w, result.map (answerOf nBytes))

/-- `ship(batch, identity)`. -/
def ship (calls : Calls) (disk : Disk) (identity : Identity) (records : List FileRecord)
    (w : World) : World × Except Exn Answer :=
  let paths := records.filterMap FileRecord.payloadPath
  if paths = [] then (w, .ok (.acked 0))
  else
    match paths.find? fun p ↦ (disk.size p).isNone with
    | some p => (w, .ok (.retryLater (.ofString "file vanished before upload: " ++ pathText p)))
    | none => tr.send calls disk.content identity (paths.map fun p ↦ (pathText p, p.name))
        (paths.filterMap disk.size).sum w

end Transport

/-! ## What is kept for a retry -/

/-- A file of a retry blob. -/
structure Item where
  basename : PyText
  data : Bytes

/-- What `json.loads` makes of a retry blob. -/
inductive Loaded where
  | corrupt (reason : PyText)
  | items (items : List Item)
  /-- Anything else, which `serialize_for_retry` does not write: what comes of it raises. -/
  | strange (e : Exn)

/-- `json` and `base64`. -/
structure Codec where
  /-- `json.dumps(items).encode("utf-8")`, the data of each item in base 64. -/
  dumps : List Item → Bytes
  /-- `json.loads(blob.decode("utf-8"))`, the data of each item decoded. -/
  loads : Bytes → Loaded

/-- The files are read back as they were written. -/
structure Codec.Lawful (codec : Codec) (items : List Item) : Prop where
  loads_dumps : codec.loads (codec.dumps items) = .items items
  dumps_ne_nil : codec.dumps items ≠ []

/-- The files that can be read. -/
def itemsOf (disk : Disk) (paths : List FilePath) : List Item :=
  paths.filterMap fun p ↦ (disk.bytes p).map fun data ↦ ⟨p.name, data⟩

/-- `serialize_for_retry(batch, identity)`. -/
def serializeForRetry (codec : Codec) (disk : Disk) (records : List FileRecord) : Bytes :=
  codec.dumps (itemsOf disk (records.filterMap FileRecord.payloadPath))

/-- The temporary files of a replay, named by `tmp`. -/
def tmpContent (tmp : ℕ → PyText) (items : List Item) (path : PyText) : Option Bytes :=
  (items.zipIdx.find? fun item ↦ tmp item.2 = path).map fun item ↦ item.1.data

/-- `replay(payload_blob, identity)`. -/
def Transport.replay (tr : Transport) (codec : Codec) (calls : Calls) (tmp : ℕ → PyText)
    (identity : Identity) (blob : Bytes) (w : World) : World × Except Exn Answer :=
  match (if blob = [] then .items [] else codec.loads blob) with
  | .corrupt reason => (w, .ok (.retryLater (.ofString "corrupt replay blob: " ++ reason)))
  | .strange e => (w, .error e)
  | .items items =>
    if items = [] then (w, .ok (.acked 0))
    else tr.send calls (tmpContent tmp items) identity
      (items.zipIdx.map fun item ↦ (tmp item.2, item.1.basename))
      (items.map fun item ↦ item.data.length).sum w

/-! ## Batches -/

/-- A batch and what it meets. -/
structure Batch where
  disk : Disk
  identity : Identity
  records : List FileRecord
  calls : Calls

/-- The files of a batch. -/
def Batch.paths (b : Batch) : List FilePath := b.records.filterMap FileRecord.payloadPath

/-- The local files of a batch with the names they get. -/
def Batch.files (b : Batch) : List (PyText × PyText) := b.paths.map fun p ↦ (pathText p, p.name)

/-- `sftp` reads the paths of a batch as they were meant. -/
def Transport.Legible (tr : Transport) (files : List (PyText × PyText)) : Prop :=
  ∀ f ∈ files, Plain f.1 ∧ Plain (tr.destOf f.2)

/-- The batch for files is one that `sftp` takes whole and reads as it was meant, and each path in
it is the one path of its place. -/
structure Transport.Sendable (tr : Transport) (files : List (PyText × PyText)) : Prop where
  legible : tr.Legible files
  whole : ∀ batch, tr.batchCmd files = .ok batch → Whole batch
  tidy : ∀ f ∈ files, Tidy (tr.destOf f.2) ∧ Tidy (tr.partOf f.2)

/-- No directory stands in the place of one of the files, nor where it is written. -/
def Transport.Clear (tr : Transport) (files : List (PyText × PyText)) (t : Tree PyText UInt8) :
    Prop :=
  ∀ f ∈ files, (t (tr.destOf f.2)).any Node.isDir = false ∧
    (t (tr.partOf f.2)).any Node.isDir = false

/-! ## The session of a batch -/

variable {tr : Transport} {files : List (PyText × PyText)} {content : PyText → Option Bytes}
  {identity : Identity} {srv : Server PyText} {w w' : World} {disk : Disk} {n : ℕ}

/-- The uploads of a batch. -/
def Transport.uploads (tr : Transport) (content : PyText → Option Bytes)
    (files : List (PyText × PyText)) : List (Upload PyText UInt8) :=
  files.map fun f ↦ ⟨content f.1, tr.partOf f.2, tr.destOf f.2⟩

theorem publishLines_uploads : publishLines false (tr.uploads content files) =
    files.map (fun f ↦ ⟨false, .put (content f.1) (tr.partOf f.2)⟩) ++
      files.map fun f ↦ ⟨false, .rename (tr.partOf f.2) (tr.destOf f.2)⟩ := by
  rw [publishLines, Transport.uploads, List.map_map, List.flatMap_map]
  congr 1
  induction files with
  | nil => rfl
  | cons f files ih => rw [List.flatMap_cons, ih]; rfl

/-- **What `sftp` reads of a batch** is the session that publishes its files. -/
theorem readAs_batchLines (h : tr.Legible files) : List.Forall₂ (ReadAs content)
    (tr.batchLines files) (publishLines false (tr.uploads content files)) := by
  rw [publishLines_uploads]
  refine List.rel_append (readAs_map fun f hf ↦ ?_) (readAs_map fun f hf ↦ ?_)
  · exact readAs_put (w := .asIs) (h f hf).1 (plain_part (h f hf).2)
  · exact readAs_rename (w := .asIs) (plain_part (h f hf).2) (h f hf).2

theorem linesOf_batch (content : PyText → Option Bytes) (h : tr.Legible files) (hne : files ≠ [])
    {batch : Bytes}
    (hbatch : tr.batchCmd files = .ok batch) :
    linesOf content batch = some (publishLines false (tr.uploads content files)) := by
  have hlines : tr.batchLines files ++ [] ≠ [] := by
    obtain ⟨f, rest, rfl⟩ := List.exists_cons_of_ne_nil hne
    exact List.cons_ne_nil _ _
  refine linesOf_joined (readAs_batchLines h) (.inl rfl) hlines ?_
  rw [List.append_nil]
  exact hbatch

/-! ## What a batch does on the server -/

/-- Calls in which `sftp` plays its batches against the server. -/
def onServer (srv : Server PyText) (conns : ℕ → Connection) : Calls :=
  ⟨fun n content _ batch t ↦ (conns n).play srv content batch t⟩

/-- The calls do what `sftp` documents, undisturbed or not. -/
def Calls.Documented (calls : Calls) (undisturbed : Prop) (replaces : Bool)
    (content : PyText → Option Bytes) : Prop :=
  ∀ n command, Sftp.Documented undisturbed replaces content (calls.sftp n content command)

variable {conns : ℕ → Connection} {batch : Bytes} {extra : List PyText}
  {result : Except Exn (ℤ × PyText)} {ls : List (Line PyText UInt8)} {calls : Calls}
  {replaces : Bool} {undisturbed : Prop} {t : Tree PyText UInt8}

theorem tidy_uploads (h : tr.Sendable files) :
    ∀ l ∈ publishLines false (tr.uploads content files), ∀ p ∈ l.op.touched, Tidy p := by
  intro l hl p hp
  obtain ⟨u, hu, hpath⟩ := mem_touched_publishLines ⟨l, hl, hp⟩
  obtain ⟨f, hf, rfl⟩ := List.mem_map.mp hu
  rcases hpath with rfl | rfl
  · exact (h.tidy f hf).2
  · exact (h.tidy f hf).1

/-- The tree has a place for the lines of a batch. -/
theorem fitting_uploads (h : tr.Clear files t) :
    Fitting (publishLines false (tr.uploads content files)) t where
  clear := by
    intro l hl p hp
    obtain ⟨u, hu, hpath⟩ := mem_touched_publishLines ⟨l, hl, Op.touched_of_files hp⟩
    obtain ⟨f, hf, rfl⟩ := List.mem_map.mp hu
    rcases hpath with rfl | rfl
    · exact (h f hf).2
    · exact (h f hf).1
  apart _ _ _ _ := makes_publish

/-- No batch makes a directory. -/
theorem Transport.Clear.kept {files' : List (PyText × PyText)} (h : tr.Clear files t)
    (faults : ℕ → Fault) :
    tr.Clear files (srv.session faults (publishLines false (tr.uploads content files')) t).1 :=
  fun f hf ↦ ⟨Server.steps_not_isDir makes_publish (h f hf).1,
    Server.steps_not_isDir makes_publish (h f hf).2⟩

/-- **A call plays its batch against the server**, where the tree has a place for its lines. -/
theorem exists_onServer (n : ℕ) (identity : Identity) (extra : List PyText)
    (hsend : tr.Sendable files) (hne : files ≠ [])
    (hbatch : tr.batchCmd files = .ok batch)
    (hdoc : calls.Documented undisturbed replaces content) (hclear : tr.Clear files w.tree) :
    ∃ c : Connection, (undisturbed → c.Quiet) ∧
      tr.runSftp calls n content identity extra batch w =
        tr.runSftp (onServer (textServer replaces) fun _ ↦ c) n content identity extra batch w := by
  obtain ⟨c, hc, hplay⟩ := hdoc n (tr.sftpCommand identity extra) batch _ w.tree
    (linesOf_batch content hsend.legible hne hbatch) (hsend.whole batch hbatch)
    (tidy_uploads hsend) (fitting_uploads hclear)
  refine ⟨c, hc, ?_⟩
  rw [Transport.runSftp, hplay]
  rfl

/-- A call of `sftp` plays its lines or does nothing, and a code of zero says that they got
through. -/
theorem runSftp_cases (hread : linesOf content batch = some ls)
    (h : tr.runSftp (onServer srv conns) n content identity extra batch w = (w', result)) :
    (w'.tree = w.tree ∨ w'.tree = (srv.session (conns n).faults ls w.tree).1) ∧
    ∀ output, result = .ok (0, output) →
      w'.tree = (srv.session (conns n).faults ls w.tree).1 ∧
        (srv.session (conns n).faults ls w.tree).2 = true := by
  simp only [Transport.runSftp, onServer] at h
  rcases hplay : (conns n).play srv content batch w.tree with ⟨t, completed⟩
  obtain ⟨htree, hzero⟩ := Connection.play_cases hread hplay
  rw [hplay] at h
  cases completed with
  | exited code output =>
    obtain ⟨rfl, rfl⟩ := Prod.mk.inj h
    refine ⟨htree, fun output' ho ↦ hzero output ?_⟩
    rw [(Prod.mk.inj (Except.ok.inj ho)).1]
  | timedOut =>
    obtain ⟨rfl, rfl⟩ := Prod.mk.inj h
    exact ⟨htree, fun output ho ↦ absurd (Prod.mk.inj (Except.ok.inj ho)).1 (by decide)⟩
  | notFound =>
    obtain ⟨rfl, rfl⟩ := Prod.mk.inj h
    exact ⟨htree, fun output ho ↦ by cases ho⟩

/-- What `I` holds of the server, and what `D` says of a session that got through, after the one
call or the two of a batch. -/
theorem runSftpWithRetry_rule {I : Tree PyText UInt8 → Prop} {D : Tree PyText UInt8 → Prop}
    (hsend : tr.Sendable files) (hne : files ≠ []) (hbatch : tr.batchCmd files = .ok batch)
    (hdoc : calls.Documented undisturbed replaces content)
    (hclear : ∀ t, I t → tr.Clear files t)
    (hstep : ∀ faults t, I t →
      I ((textServer replaces).session faults (publishLines false (tr.uploads content files)) t).1 ∧
      (((textServer replaces).session faults
          (publishLines false (tr.uploads content files)) t).2 = true →
        D ((textServer replaces).session faults
          (publishLines false (tr.uploads content files)) t).1))
    (hw : I w.tree)
    (h : tr.runSftpWithRetry calls content identity batch w = (w', result)) :
    I w'.tree ∧ ∀ output, result = .ok (0, output) → D w'.tree := by
  have hread := linesOf_batch content hsend.legible hne hbatch
  have hcall : ∀ n extra w w' result, I w.tree →
      tr.runSftp calls n content identity extra batch w = (w', result) →
      I w'.tree ∧ ∀ output, result = .ok (0, output) → D w'.tree := by
    intro n extra w w' result hw h
    obtain ⟨c, -, hserver⟩ :=
      exists_onServer n identity extra hsend hne hbatch hdoc (hclear _ hw)
    rw [hserver] at h
    obtain ⟨htree, hzero⟩ := runSftp_cases hread h
    constructor
    · rcases htree with heq | heq
      · rw [heq]
        exact hw
      · rw [heq]
        exact (hstep _ _ hw).1
    · intro output ho
      obtain ⟨heq, hok⟩ := hzero output ho
      rw [heq]
      exact (hstep _ _ hw).2 hok
  rw [Transport.runSftpWithRetry] at h
  rcases hfirst : tr.runSftp calls 0 content identity [] batch w with ⟨w₁, e | r⟩
  · rw [hfirst] at h
    obtain ⟨rfl, rfl⟩ := Prod.mk.inj h
    exact hcall _ _ _ _ _ hw hfirst
  · rw [hfirst] at h
    dsimp only at h
    split at h
    · have hagain := (hcall _ _ _ _ _ hw hfirst).1
      exact hcall 1 _ ⟨w₁.tree, w₁.ran ++ [tr.keygenCommand]⟩ _ _ hagain h
    · obtain ⟨rfl, rfl⟩ := Prod.mk.inj h
      exact hcall _ _ _ _ _ hw hfirst

/-- The same of sending files: where the answer is that they have been sent, a session got
through. -/
theorem send_rule {I : Tree PyText UInt8 → Prop} {D : Tree PyText UInt8 → Prop}
    {answer : Except Exn Answer} (hsend : tr.Sendable files) (hne : files ≠ [])
    (hdoc : calls.Documented undisturbed replaces content)
    (hclear : ∀ t, I t → tr.Clear files t)
    (hstep : ∀ faults t, I t →
      I ((textServer replaces).session faults (publishLines false (tr.uploads content files)) t).1 ∧
      (((textServer replaces).session faults
          (publishLines false (tr.uploads content files)) t).2 = true →
        D ((textServer replaces).session faults
          (publishLines false (tr.uploads content files)) t).1))
    (hw : I w.tree) (h : tr.send calls content identity files n w = (w', answer)) :
    I w'.tree ∧ ∀ a, answer = .ok a → a.kind = .acked → D w'.tree ∧ a.nBytes = n := by
  rw [Transport.send] at h
  cases hbatch : tr.batchCmd files with
  | error e =>
    rw [hbatch] at h
    obtain ⟨rfl, rfl⟩ := Prod.mk.inj h
    exact ⟨hw, fun a ha ↦ by cases ha⟩
  | ok batch =>
    rw [hbatch] at h
    dsimp only at h
    rcases hrun : tr.runSftpWithRetry calls content identity batch w with ⟨w₁, result⟩
    rw [hrun] at h
    obtain ⟨rfl, rfl⟩ := Prod.mk.inj h
    obtain ⟨hI, hD⟩ := runSftpWithRetry_rule hsend hne hbatch hdoc hclear hstep hw hrun
    refine ⟨hI, fun a ha hk ↦ ?_⟩
    cases result with
    | error e => cases ha
    | ok r =>
      obtain rfl := Except.ok.inj ha
      rw [Transport.answerOf] at hk ⊢
      split at hk
      · cases hk
      · rename_i hcode
        rw [if_neg hcode]
        exact ⟨hD r.2 (by rw [← not_not.mp hcode]), rfl⟩

/-! ## Any number of batches -/

/-- One batch is shipped. -/
def Transport.shipBatch (tr : Transport) (b : Batch) (w : World) : World × Except Exn Answer :=
  tr.ship b.calls b.disk b.identity b.records w

/-- Batches are shipped one after the other. -/
def Transport.shipAll (tr : Transport) : List Batch → World → World
  | [], w => w
  | b :: bs, w => shipAll tr bs (tr.shipBatch b w).1

/-- The files of a batch can be sent and have names of their own, and none is called what another
is called while it is being written. -/
structure Batch.Proper (tr : Transport) (b : Batch) : Prop where
  sendable : tr.Sendable b.files
  distinct : (b.paths.map FilePath.name).Nodup
  unlike : ∀ p ∈ b.paths, ∀ q ∈ b.paths, p.name ≠ q.name ++ .ofString ".part"

variable {b : Batch} {bs : List Batch} {answer : Except Exn Answer}

theorem destOf_inj {s s' : PyText} (h : tr.destOf s = tr.destOf s') : s = s' :=
  List.append_cancel_left h

theorem partOf_eq (s : PyText) : tr.partOf s = tr.destOf (s ++ .ofString ".part") := by
  rw [Transport.partOf, Transport.destOf, Transport.destOf, List.append_assoc _ s]

/-- Files of different names that are unlike one another are kept apart. -/
theorem separate_uploads (hdistinct : (files.map Prod.snd).Nodup)
    (hunlike : ∀ s ∈ files.map Prod.snd, ∀ s' ∈ files.map Prod.snd, s ≠ s' ++ .ofString ".part") :
    Separate (tr.uploads content files) := by
  have hnames : ∀ f : PyText → PyText, (∀ s s', f s = f s' → s = s') →
      (files.map fun file ↦ f file.2).Nodup := by
    intro f hf
    have hmap : files.map (fun file ↦ f file.2) = (files.map Prod.snd).map f := by
      rw [List.map_map]
      rfl
    rw [hmap]
    exact hdistinct.map hf
  have hmap : ∀ f : Upload PyText UInt8 → PyText, (tr.uploads content files).map f =
      files.map fun file ↦ f ⟨content file.1, tr.partOf file.2, tr.destOf file.2⟩ := by
    intro f
    rw [Transport.uploads, List.map_map]
    rfl
  rw [Separate, hmap, hmap, List.nodup_append]
  refine ⟨hnames tr.partOf fun s s' hs ↦ ?_, hnames tr.destOf fun s s' ↦ destOf_inj, ?_⟩
  · exact destOf_inj (List.append_cancel_right hs)
  · intro s hs s' hs' heq
    obtain ⟨q, hq, rfl⟩ := List.mem_map.mp hs
    obtain ⟨p, hp, rfl⟩ := List.mem_map.mp hs'
    have hname : tr.partOf q.2 = tr.destOf p.2 := heq
    rw [partOf_eq] at hname
    exact hunlike _ (List.mem_map_of_mem hp) _ (List.mem_map_of_mem hq) (destOf_inj hname).symm

theorem names_files : b.files.map Prod.snd = b.paths.map FilePath.name := by
  rw [Batch.files, List.map_map]
  rfl

theorem separate_of_proper (h : b.Proper tr) : Separate (tr.uploads b.disk.content b.files) := by
  refine separate_uploads (names_files ▸ h.distinct) fun s hs s' hs' ↦ ?_
  rw [names_files] at hs hs'
  obtain ⟨p, hp, rfl⟩ := List.mem_map.mp hs
  obtain ⟨q, hq, rfl⟩ := List.mem_map.mp hs'
  exact h.unlike p hp q hq

theorem ship_eq (hne : b.paths ≠ [])
    (hfind : b.paths.find? (fun p ↦ (b.disk.size p).isNone) = none) :
    tr.ship calls b.disk b.identity b.records w =
      tr.send calls b.disk.content b.identity b.files (b.paths.filterMap b.disk.size).sum w := by
  refine (if_neg hne).trans ?_
  split
  · rename_i p hp
    exact absurd (hfind.symm.trans hp) (by simp)
  · rfl

/-- The calls of a batch do what `sftp` documents. -/
def Batch.Served (undisturbed : Prop) (replaces : Bool) (b : Batch) : Prop :=
  b.calls.Documented undisturbed replaces b.disk.content

/-- **The rule for a batch.** -/
theorem shipBatch_rule {I : Tree PyText UInt8 → Prop} {D : Tree PyText UInt8 → Prop}
    (hproper : b.Proper tr) (hserved : b.Served undisturbed replaces)
    (hclear : ∀ t, I t → tr.Clear b.files t)
    (hstep : ∀ faults t, I t →
      I ((textServer replaces).session faults
        (publishLines false (tr.uploads b.disk.content b.files)) t).1 ∧
      (((textServer replaces).session faults
          (publishLines false (tr.uploads b.disk.content b.files)) t).2 = true →
        D ((textServer replaces).session faults
          (publishLines false (tr.uploads b.disk.content b.files)) t).1))
    (hw : I w.tree) (h : tr.shipBatch b w = (w', answer)) :
    I w'.tree ∧ ∀ a, answer = .ok a → a.kind = .acked → b.paths = [] ∨
      D w'.tree ∧ a.nBytes = (b.paths.filterMap b.disk.size).sum := by
  rw [Transport.shipBatch, Transport.ship] at h
  change (if b.paths = [] then _ else _) = _ at h
  split at h
  · obtain ⟨rfl, rfl⟩ := Prod.mk.inj h
    exact ⟨hw, fun a _ _ ↦ .inl ‹_›⟩
  · rename_i hne
    have hfiles : b.files ≠ [] := fun hnil ↦ hne (List.map_eq_nil_iff.mp hnil)
    split at h
    · obtain ⟨rfl, rfl⟩ := Prod.mk.inj h
      refine ⟨hw, fun a ha hk ↦ ?_⟩
      obtain rfl := Except.ok.inj ha
      cases hk
    · obtain ⟨hI, hD⟩ := send_rule hproper.sendable hfiles hserved hclear hstep hw h
      exact ⟨hI, fun a ha hk ↦ .inr (hD a ha hk)⟩

/-- What a session makes of a path. -/
theorem session_cases (srv : Server PyText) (hproper : b.Proper tr) (faults : ℕ → Fault)
    (t : Tree PyText UInt8) (p : PyText) :
    (srv.session faults (publishLines false (tr.uploads b.disk.content b.files)) t).1 p = t p ∨
      ∃ path ∈ b.paths, p = tr.partOf path.name ∨ p = tr.destOf path.name ∧
        ∃ z, b.disk.content (pathText path) = some z ∧
          (srv.session faults (publishLines false (tr.uploads b.disk.content b.files)) t).1 p =
            some (.file z) := by
  rcases Server.session_path srv faults t (separate_of_proper hproper) p with h | ⟨u, hu, hp⟩
  · exact .inl h
  · obtain ⟨f, hf, rfl⟩ := List.mem_map.mp hu
    obtain ⟨path, hpath, rfl⟩ := List.mem_map.mp hf
    exact .inr ⟨path, hpath, hp⟩

/-- A session that got through has brought every file. -/
theorem session_brings (hproper : b.Proper tr) {faults : ℕ → Fault} {t : Tree PyText UInt8}
    (h : (srv.session faults (publishLines false (tr.uploads b.disk.content b.files)) t).2 = true) :
    ∀ path ∈ b.paths, ∃ z, b.disk.content (pathText path) = some z ∧
      (srv.session faults (publishLines false (tr.uploads b.disk.content b.files)) t).1
          (tr.destOf path.name) = some (.file z) ∧
      (srv.session faults (publishLines false (tr.uploads b.disk.content b.files)) t).1
          (tr.partOf path.name) = none := by
  intro path hpath
  exact (Server.publish_cases srv faults 0 false t (separate_of_proper hproper)).2
    (Server.steps_of_session h) _ (List.mem_map_of_mem (List.mem_map_of_mem hpath))

/-! ### Two heartbeats, once lost and once brought -/

/-- The drop directory of a host. -/
def dropHost : Transport where
  host := .ofString "hb.example.org"

def heartbeatA : FilePath where
  absolute := true
  parts := [.ofString "hb", .ofString "a.json"]
  wellFormed := by decide

def heartbeatB : FilePath where
  absolute := true
  parts := [.ofString "hb", .ofString "b.json"]
  wellFormed := by decide

/-- A disk where every file holds two bytes. -/
def spool : Disk where
  size _ := some 2
  bytes _ := some [123, 125]
  content _ := some [123, 125]

/-- The server before the first batch. -/
def emptyDrop : Tree PyText UInt8 := fun p ↦ if p = .ofString "incoming" then some .dir else none

def heartbeats : List FileRecord :=
  [{ payloadPath := some heartbeatA }, { payloadPath := some heartbeatB }]

/-- The heartbeats, sent over calls that all go as the one given. -/
def heartbeatBatch (c : Connection) : Batch :=
  ⟨spool, {}, heartbeats, onServer (textServer true) fun _ ↦ c⟩

theorem dropHost_plain : Plain (dropHost.destOf (.ofString "a.json")) ∧
    Plain (dropHost.destOf (.ofString "b.json")) :=
  ⟨⟨by decide, by decide, by decide⟩,
    ⟨by decide, by decide, by decide⟩⟩

theorem heartbeatBatch_text (c : Connection) :
    joined (dropHost.batchLines (heartbeatBatch c).files) =
      .ofString ("put /hb/a.json incoming/a.json.part\n" ++
        "put /hb/b.json incoming/b.json.part\n" ++
        "rename incoming/a.json.part incoming/a.json\n" ++
        "rename incoming/b.json.part incoming/b.json\n") := by
  have htext : joined (dropHost.batchLines (heartbeatBatch quietCall).files) =
      .ofString ("put /hb/a.json incoming/a.json.part\n" ++
        "put /hb/b.json incoming/b.json.part\n" ++
        "rename incoming/a.json.part incoming/a.json\n" ++
        "rename incoming/b.json.part incoming/b.json\n") := by
    simp only [PyText.ofString_append, -String.reduceAppend]
    decide +kernel
  exact htext

theorem heartbeatBatch_proper (c : Connection) : (heartbeatBatch c).Proper dropHost where
  sendable := {
    legible := by
      have h : ∀ f ∈ (heartbeatBatch quietCall).files,
          f = (.ofString "/hb/a.json", .ofString "a.json") ∨
            f = (.ofString "/hb/b.json", .ofString "b.json") := by decide
      intro f hf
      rcases h f hf with rfl | rfl
      · exact ⟨⟨by decide, by decide, by decide⟩, dropHost_plain.1⟩
      · exact ⟨⟨by decide, by decide, by decide⟩, dropHost_plain.2⟩
    whole := by
      intro batch hbatch
      rw [Transport.batchCmd, heartbeatBatch_text, PyText.encode_ofString] at hbatch
      obtain rfl := Except.ok.inj hbatch
      exact whole_of_length (by decide +kernel) (by decide +kernel)
    tidy := by
      have h : ∀ f ∈ (heartbeatBatch quietCall).files,
          Tidy (dropHost.destOf f.2) ∧ Tidy (dropHost.partOf f.2) := by decide
      exact h }
  distinct := by
    have h : ((heartbeatBatch quietCall).paths.map FilePath.name).Nodup := by decide
    exact h
  unlike := by
    have h : ∀ p ∈ (heartbeatBatch quietCall).paths, ∀ q ∈ (heartbeatBatch quietCall).paths,
        p.name ≠ q.name ++ .ofString ".part" := by decide
    exact h

theorem heartbeatBatch_served {undisturbed : Prop} {c : Connection} (h : undisturbed → c.Quiet) :
    (heartbeatBatch c).Served undisturbed true :=
  fun _ _ ↦ documented_play c h true spool.content

theorem heartbeatBatch_clear (c : Connection) :
    dropHost.Clear (heartbeatBatch c).files emptyDrop := by
  have h : ∀ f ∈ (heartbeatBatch quietCall).files,
      (emptyDrop (dropHost.destOf f.2)).any Node.isDir = false ∧
        (emptyDrop (dropHost.partOf f.2)).any Node.isDir = false := by decide
  exact h

theorem heartbeatBatch_encodes (c : Connection) :
    (joined (dropHost.batchLines (heartbeatBatch c).files)).Encodable := by
  rw [heartbeatBatch_text]
  exact ⟨_, PyText.encode_ofString _⟩

theorem heartbeatBatch_readable (c : Connection) : ∀ path ∈ (heartbeatBatch c).paths,
    ((heartbeatBatch c).disk.size path).isSome = true ∧
      ((heartbeatBatch c).disk.content (pathText path)).isSome = true :=
  fun _ _ ↦ ⟨rfl, rfl⟩

theorem heartbeatBatch_place (c : Connection) : ∀ path ∈ (heartbeatBatch c).paths,
    (textServer true).writable emptyDrop (dropHost.destOf path.name) = true ∧
      (textServer true).writable emptyDrop (dropHost.partOf path.name) = true := by
  have h : ∀ path ∈ (heartbeatBatch quietCall).paths,
      (textServer true).writable emptyDrop (dropHost.destOf path.name) = true ∧
        (textServer true).writable emptyDrop (dropHost.partOf path.name) = true := by decide
  exact h

/-- Batches leave clear what is clear. -/
theorem shipBatch_clear {files : List (PyText × PyText)} (hproper : b.Proper tr)
    (hserved : b.Served undisturbed replaces) (hb : tr.Clear b.files w.tree)
    (h : tr.Clear files w.tree) : tr.Clear files (tr.shipBatch b w).1.tree := by
  rcases hship : tr.shipBatch b w with ⟨w', answer⟩
  exact (shipBatch_rule (I := fun t ↦ tr.Clear b.files t ∧ tr.Clear files t) (D := fun _ ↦ True)
    hproper hserved (fun _ ht ↦ ht.1)
    (fun faults t ht ↦ ⟨⟨ht.1.kept faults, ht.2.kept faults⟩, fun _ ↦ trivial⟩) ⟨hb, h⟩ hship).1.2

/-- **A heartbeat's name is never left with a part of the file**: whatever batches have been shipped
and wherever they stopped, a path is as it was, or holds the whole of a file that was shipped to it,
or is one that files are written under. -/
theorem batches_keep (bs : List Batch) (hproper : ∀ b ∈ bs, b.Proper tr)
    (hserved : ∀ b ∈ bs, b.Served False replaces) (w : World)
    (hclear : ∀ b ∈ bs, tr.Clear b.files w.tree) (p : PyText) :
    (tr.shipAll bs w).tree p = w.tree p ∨
      ∃ b ∈ bs, ∃ path ∈ b.paths, p = tr.partOf path.name ∨ p = tr.destOf path.name ∧
        ∃ z, b.disk.content (pathText path) = some z ∧
          (tr.shipAll bs w).tree p = some (.file z) := by
  induction bs generalizing w with
  | nil => exact .inl rfl
  | cons b bs ih =>
    rw [List.forall_mem_cons] at hproper hserved hclear
    have hnext : ∀ b' ∈ bs, tr.Clear b'.files (tr.shipBatch b w).1.tree := fun b' hb' ↦
      shipBatch_clear hproper.1 hserved.1 hclear.1 (hclear.2 b' hb')
    rcases hship : tr.shipBatch b w with ⟨w', answer⟩
    rw [hship] at hnext
    have hone : w'.tree p = w.tree p ∨ ∃ path ∈ b.paths, p = tr.partOf path.name ∨
        p = tr.destOf path.name ∧ ∃ z, b.disk.content (pathText path) = some z ∧
          w'.tree p = some (.file z) := by
      refine (shipBatch_rule (I := fun t ↦ tr.Clear b.files t ∧ (t p = w.tree p ∨
        ∃ path ∈ b.paths, p = tr.partOf path.name ∨ p = tr.destOf path.name ∧
          ∃ z, b.disk.content (pathText path) = some z ∧ t p = some (.file z)))
        (D := fun _ ↦ True) hproper.1 hserved.1 (fun _ ht ↦ ht.1)
        (fun faults t ht ↦ ⟨⟨ht.1.kept faults, ?_⟩, fun _ ↦ trivial⟩)
        ⟨hclear.1, .inl rfl⟩ hship).1.2
      rcases session_cases (textServer replaces) hproper.1 faults t p with heq | h
      · rw [heq]
        exact ht.2
      · exact .inr h
    have hrest := ih hproper.2 hserved.2 w' hnext
    rw [Transport.shipAll, hship]
    rcases hrest with heq | ⟨b', hb', h⟩
    · dsimp only
      rw [heq]
      exact hone.imp_right fun hmem ↦ by
        obtain ⟨path, hpath, h⟩ := hmem
        exact ⟨b, List.mem_cons_self, path, hpath, h⟩
    · exact .inr ⟨b', List.mem_cons_of_mem b hb', h⟩

theorem batches_keep_lost :
    let t := (dropHost.shipAll [heartbeatBatch lostCall, heartbeatBatch quietCall]
      ⟨emptyDrop, []⟩).tree
    t (.ofString "incoming/b.json") = none ∨
      t (.ofString "incoming/b.json") = some (.file [123, 125]) := by
  have hall : ∀ b ∈ [heartbeatBatch lostCall, heartbeatBatch quietCall],
      ∃ c, b = heartbeatBatch c := by
    intro b hb
    rcases List.mem_pair.mp hb with rfl | rfl <;> exact ⟨_, rfl⟩
  have hproper : ∀ b ∈ [heartbeatBatch lostCall, heartbeatBatch quietCall],
      b.Proper dropHost ∧ b.Served False true ∧ dropHost.Clear b.files emptyDrop := by
    intro b hb
    obtain ⟨c, rfl⟩ := hall b hb
    exact ⟨heartbeatBatch_proper c, heartbeatBatch_served False.elim, heartbeatBatch_clear c⟩
  rcases batches_keep _ (fun b hb ↦ (hproper b hb).1) (fun b hb ↦ (hproper b hb).2.1)
    ⟨emptyDrop, []⟩ (fun b hb ↦ (hproper b hb).2.2) (.ofString "incoming/b.json") with
    h | ⟨b, hb, path, hpath, hpart | ⟨-, z, hz, hd⟩⟩
  · exact .inl (h.trans (by decide))
  · have hnot : ∀ path ∈ (heartbeatBatch quietCall).paths,
        PyText.ofString "incoming/b.json" ≠ dropHost.partOf path.name := by decide
    obtain ⟨c, rfl⟩ := hall b hb
    exact absurd hpart (hnot path hpath)
  · obtain ⟨c, rfl⟩ := hall b hb
    obtain rfl := Option.some.inj hz
    exact .inr hd

/-! ## A batch that nothing comes between -/

theorem shipAll_writable {p : PyText} (hproper : ∀ b ∈ bs, b.Proper tr)
    (hserved : ∀ b ∈ bs, b.Served False replaces)
    (hclear : ∀ b ∈ bs, tr.Clear b.files w.tree)
    (h : (textServer replaces).writable w.tree p = true) :
    (textServer replaces).writable (tr.shipAll bs w).tree p = true := by
  induction bs generalizing w with
  | nil => exact h
  | cons b bs ih =>
    rw [List.forall_mem_cons] at hproper hserved hclear
    have hnext : ∀ b' ∈ bs, tr.Clear b'.files (tr.shipBatch b w).1.tree := fun b' hb' ↦
      shipBatch_clear hproper.1 hserved.1 hclear.1 (hclear.2 b' hb')
    rcases hship : tr.shipBatch b w with ⟨w', answer⟩
    rw [hship] at hnext
    rw [Transport.shipAll, hship]
    refine ih hproper.2 hserved.2 hnext ?_
    exact (shipBatch_rule (I := fun t ↦ tr.Clear b.files t ∧
        (textServer replaces).writable t p = true) (D := fun _ ↦ True) hproper.1 hserved.1
      (fun _ ht ↦ ht.1)
      (fun faults t ht ↦ ⟨⟨ht.1.kept faults, Server.steps_writable makes_publish ht.2⟩,
        fun _ ↦ trivial⟩) ⟨hclear.1, h⟩ hship).1.2

theorem runSftp_quiet (tr : Transport) (identity : Identity) (extra : List PyText)
    (hread : linesOf content batch = some ls) (hquiet : (conns n).Quiet)
    (hok : (srv.session Server.quiet ls w.tree).2 = true) :
    tr.runSftp (onServer srv conns) n content identity extra batch w =
      (⟨(srv.session Server.quiet ls w.tree).1, w.ran ++ [tr.sftpCommand identity extra]⟩,
        .ok (0, (conns n).output)) := by
  simp only [Transport.runSftp, onServer, Connection.play, hread, hquiet.1, hquiet.2, hok]
  rfl

theorem send_quiet (identity : Identity) (n : ℕ) (hsend : tr.Sendable files) (hne : files ≠ [])
    (hencodes : (joined (tr.batchLines files)).Encodable)
    (hdoc : calls.Documented True replaces content) (hclear : tr.Clear files w.tree)
    (hok : ((textServer replaces).session Server.quiet
      (publishLines false (tr.uploads content files)) w.tree).2 = true) :
    ∃ w', tr.send calls content identity files n w = (w', .ok (.acked n)) ∧
      w'.tree = ((textServer replaces).session Server.quiet
        (publishLines false (tr.uploads content files)) w.tree).1 := by
  obtain ⟨batch, hbatch⟩ := hencodes
  have hread := linesOf_batch content hsend.legible hne hbatch
  have hcmd : tr.batchCmd files = .ok batch := hbatch
  obtain ⟨c, hc, hserver⟩ := exists_onServer 0 identity [] hsend hne hcmd hdoc hclear
  have hquiet : ((fun _ ↦ c : ℕ → Connection) 0).Quiet := hc trivial
  have hrun := hserver.trans (runSftp_quiet tr identity [] hread hquiet hok)
  rw [Transport.send, hcmd]
  simp only [Transport.runSftpWithRetry, hrun]
  exact ⟨_, rfl, rfl⟩

/-- Where files may be written no directory stands. -/
theorem clear_of_writable (hplace : ∀ path ∈ b.paths,
    srv.writable w.tree (tr.destOf path.name) = true ∧
      srv.writable w.tree (tr.partOf path.name) = true) : tr.Clear b.files w.tree := by
  intro f hf
  obtain ⟨path, hpath, rfl⟩ := List.mem_map.mp hf
  exact ⟨Server.not_isDir_of_writable (hplace path hpath).1,
    Server.not_isDir_of_writable (hplace path hpath).2⟩

/-- A batch that nothing comes between, on a server with a place for its files. -/
theorem shipBatch_quiet (hb : b.Proper tr)
    (hencodes : (joined (tr.batchLines b.files)).Encodable) (hserved : b.Served True true)
    (hreadable : ∀ path ∈ b.paths, (b.disk.size path).isSome = true ∧
      (b.disk.content (pathText path)).isSome = true)
    (hplace : ∀ path ∈ b.paths,
      (textServer true).writable w.tree (tr.destOf path.name) = true ∧
        (textServer true).writable w.tree (tr.partOf path.name) = true) :
    ∃ w', tr.shipBatch b w = (w', .ok (.acked (b.paths.filterMap b.disk.size).sum)) ∧
      ∀ path ∈ b.paths, ∃ z, b.disk.content (pathText path) = some z ∧
        w'.tree (tr.destOf path.name) = some (.file z) ∧ w'.tree (tr.partOf path.name) = none := by
  by_cases hnil : b.paths = []
  · rw [hnil]
    refine ⟨w, ?_, fun path hpath ↦ absurd hpath List.not_mem_nil⟩
    rw [Transport.shipBatch, Transport.ship]
    exact if_pos hnil
  · have hfiles : b.files ≠ [] := fun h ↦ hnil (List.map_eq_nil_iff.mp h)
    have hok : ((textServer true).session Server.quiet
        (publishLines false (tr.uploads b.disk.content b.files)) w.tree).2 = true := by
      refine Server.session_quiet (Server.publish_quiet (separate_of_proper hb) fun u hu ↦ ?_)
      obtain ⟨f, hf, rfl⟩ := List.mem_map.mp hu
      obtain ⟨path, hpath, rfl⟩ := List.mem_map.mp hf
      exact ⟨(hreadable path hpath).2, (hplace path hpath).2, (hplace path hpath).1,
        .inr (.inl rfl)⟩
    obtain ⟨w', hsend, htree⟩ := send_quiet b.identity (b.paths.filterMap b.disk.size).sum
      hb.sendable hfiles hencodes hserved (clear_of_writable hplace) hok
    have hfind : b.paths.find? (fun p ↦ (b.disk.size p).isNone) = none := by
      rw [List.find?_eq_none]
      intro path hpath hnone
      rw [Option.isNone_iff_eq_none] at hnone
      have hsome := (hreadable path hpath).1
      rw [hnone] at hsome
      cases hsome
    refine ⟨w', ?_, ?_⟩
    · rw [Transport.shipBatch, ship_eq hnil hfind]
      exact hsend
    · rw [htree]
      exact session_brings hb hok

/-- **A batch that is reported done has brought every file**, and reports the sizes they had. -/
theorem acked_brought (hproper : b.Proper tr) (hserved : b.Served False replaces)
    (hclear : tr.Clear b.files w.tree) {a : Answer}
    (h : tr.shipBatch b w = (w', .ok a)) (hacked : a.kind = .acked) :
    (∀ path ∈ b.paths, ∃ z, b.disk.content (pathText path) = some z ∧
      w'.tree (tr.destOf path.name) = some (.file z) ∧ w'.tree (tr.partOf path.name) = none) ∧
    (b.paths ≠ [] → a.nBytes = (b.paths.filterMap b.disk.size).sum) := by
  obtain ⟨-, hdone⟩ := shipBatch_rule (I := fun t ↦ tr.Clear b.files t)
    (D := fun t ↦ ∀ path ∈ b.paths, ∃ z, b.disk.content (pathText path) = some z ∧
      t (tr.destOf path.name) = some (.file z) ∧ t (tr.partOf path.name) = none) hproper hserved
    (fun _ ht ↦ ht) (fun faults t ht ↦ ⟨ht.kept faults, session_brings hproper⟩) hclear h
  rcases hdone a rfl hacked with hnil | ⟨hall, hbytes⟩
  · refine ⟨fun path hpath ↦ ?_, fun hne ↦ absurd hnil hne⟩
    rw [hnil] at hpath
    cases hpath
  · exact ⟨hall, fun _ ↦ hbytes⟩

theorem acked_brought_heartbeats : ∃ w',
    dropHost.shipBatch (heartbeatBatch quietCall) ⟨emptyDrop, []⟩ = (w', .ok (.acked 4)) ∧
      w'.tree (.ofString "incoming/a.json") = some (.file [123, 125]) := by
  obtain ⟨w', hship, -⟩ := shipBatch_quiet (w := ⟨emptyDrop, []⟩)
    (heartbeatBatch_proper quietCall) (heartbeatBatch_encodes quietCall)
    (heartbeatBatch_served fun _ ↦ ⟨rfl, rfl⟩) (heartbeatBatch_readable quietCall)
    (heartbeatBatch_place quietCall)
  obtain ⟨hall, -⟩ := acked_brought (heartbeatBatch_proper quietCall)
    (heartbeatBatch_served False.elim) (heartbeatBatch_clear quietCall) hship rfl
  obtain ⟨z, hz, hd, -⟩ := hall heartbeatA List.mem_cons_self
  obtain rfl := Option.some.inj hz
  exact ⟨w', hship, hd⟩

/-- **A batch that nothing comes between is reported done and has brought every file**, whatever the
batches before it have left, where a rename may take the place of a file. -/
theorem batch_gets_through (hproper : ∀ b ∈ bs, b.Proper tr)
    (hserved : ∀ b ∈ bs, b.Served False true) (hclear : ∀ b ∈ bs, tr.Clear b.files w.tree)
    (hb : b.Proper tr) (hencodes : (joined (tr.batchLines b.files)).Encodable)
    (hquiet : b.Served True true)
    (hreadable : ∀ path ∈ b.paths, (b.disk.size path).isSome = true ∧
      (b.disk.content (pathText path)).isSome = true)
    (hplace : ∀ path ∈ b.paths,
      (textServer true).writable w.tree (tr.destOf path.name) = true ∧
        (textServer true).writable w.tree (tr.partOf path.name) = true) :
    ∃ w' a, tr.shipBatch b (tr.shipAll bs w) = (w', .ok a) ∧ a.kind = .acked ∧
      ∀ path ∈ b.paths, ∃ z, b.disk.content (pathText path) = some z ∧
        w'.tree (tr.destOf path.name) = some (.file z) ∧ w'.tree (tr.partOf path.name) = none := by
  obtain ⟨w', hship, hall⟩ := shipBatch_quiet (w := tr.shipAll bs w) hb hencodes hquiet
    hreadable fun path hpath ↦
      ⟨shipAll_writable hproper hserved hclear (hplace path hpath).1,
        shipAll_writable hproper hserved hclear (hplace path hpath).2⟩
  exact ⟨w', _, hship, rfl, hall⟩

theorem batch_gets_through_lost : ∃ w' a,
    dropHost.shipBatch (heartbeatBatch quietCall)
        (dropHost.shipAll [heartbeatBatch lostCall] ⟨emptyDrop, []⟩) =
      (w', .ok a) ∧ a.kind = .acked ∧
      w'.tree (.ofString "incoming/b.json") = some (.file [123, 125]) ∧
      w'.tree (.ofString "incoming/b.json.part") = none := by
  have hproper : ∀ b ∈ [heartbeatBatch lostCall], b.Proper dropHost :=
    List.forall_mem_singleton.mpr (heartbeatBatch_proper lostCall)
  obtain ⟨w', a, hship, hk, hall⟩ := batch_gets_through (w := ⟨emptyDrop, []⟩) hproper
    (List.forall_mem_singleton.mpr (heartbeatBatch_served False.elim))
    (List.forall_mem_singleton.mpr (heartbeatBatch_clear lostCall))
    (heartbeatBatch_proper quietCall) (heartbeatBatch_encodes quietCall)
    (heartbeatBatch_served fun _ ↦ ⟨rfl, rfl⟩) (heartbeatBatch_readable quietCall)
    (heartbeatBatch_place quietCall)
  obtain ⟨z, hz, hd, hpart⟩ := hall heartbeatB (List.mem_cons_of_mem _ List.mem_cons_self)
  obtain rfl := Option.some.inj hz
  exact ⟨w', a, hship, hk, hd, hpart⟩

/-! ## A replay -/

theorem tmpContent_eq {tmp : ℕ → PyText} (htmp : Function.Injective tmp) {items : List Item}
    {item : Item × ℕ} (h : item ∈ items.zipIdx) :
    tmpContent tmp items (tmp item.2) = some item.1.data := by
  rw [tmpContent]
  cases hfind : items.zipIdx.find? fun other ↦ tmp other.2 = tmp item.2 with
  | none =>
    rw [List.find?_eq_none] at hfind
    exact absurd (decide_eq_true rfl) (hfind item h)
  | some other =>
    have hmem := List.mem_of_find?_eq_some hfind
    have hfound := List.find?_some hfind
    have hsame := htmp (of_decide_eq_true hfound)
    have h₁ := List.mem_zipIdx_iff_getElem?.mp h
    have h₂ := List.mem_zipIdx_iff_getElem?.mp hmem
    rw [hsame, h₁] at h₂
    rw [Option.map_some, Option.some.inj h₂]

/-- The temporary files of a replay, with the names they get. -/
def replayFiles (tmp : ℕ → PyText) (items : List Item) : List (PyText × PyText) :=
  items.zipIdx.map fun item ↦ (tmp item.2, item.1.basename)

theorem names_replay (tmp : ℕ → PyText) (items : List Item) :
    (items.zipIdx.map fun item ↦ (tmp item.2, item.1.basename)).map Prod.snd =
      items.map Item.basename := by
  have hmap : (items.zipIdx.map fun item ↦ (tmp item.2, item.1.basename)).map Prod.snd =
      (items.zipIdx.map Prod.fst).map Item.basename := by
    rw [List.map_map, List.map_map]
    rfl
  rw [hmap, List.zipIdx_map_fst]

/-- The files that could be read keep their names. -/
theorem basenames_sublist (disk : Disk) (paths : List FilePath) :
    ((itemsOf disk paths).map Item.basename).Sublist (paths.map FilePath.name) := by
  induction paths with
  | nil => exact .slnil
  | cons p paths ih =>
    cases hp : disk.bytes p with
    | none =>
      rw [itemsOf, List.filterMap_cons_none (by rw [hp]; rfl)]
      exact ih.cons _
    | some data =>
      rw [itemsOf, List.filterMap_cons_some (by rw [hp]; rfl)]
      exact ih.cons_cons _

/-- A session of a replay that got through has brought every file. -/
theorem replaySession_brings {tmp : ℕ → PyText} (htmp : Function.Injective tmp) {items : List Item}
    (hseparate : Separate (tr.uploads (tmpContent tmp items)
      (items.zipIdx.map fun item ↦ (tmp item.2, item.1.basename)))) {faults : ℕ → Fault}
    {t : Tree PyText UInt8}
    (h : (srv.session faults (publishLines false (tr.uploads (tmpContent tmp items)
      (items.zipIdx.map fun item ↦ (tmp item.2, item.1.basename)))) t).2 = true) :
    ∀ item ∈ items, (srv.session faults (publishLines false (tr.uploads (tmpContent tmp items)
      (items.zipIdx.map fun item ↦ (tmp item.2, item.1.basename)))) t).1
        (tr.destOf item.basename) = some (.file item.data) := by
  intro item hitem
  rw [← List.zipIdx_map_fst 0 items] at hitem
  obtain ⟨numbered, hnumbered, rfl⟩ := List.mem_map.mp hitem
  obtain ⟨z, hz, hd, -⟩ := (Server.publish_cases srv faults 0 false t hseparate).2
    (Server.steps_of_session h) _ (List.mem_map_of_mem (List.mem_map_of_mem hnumbered))
  dsimp only at hz hd
  rw [tmpContent_eq htmp hnumbered] at hz
  obtain rfl := Option.some.inj hz
  exact hd

/-- Replaying what was kept of files sends them. -/
theorem replay_eq {codec : Codec} {items : List Item} (hcodec : codec.Lawful items)
    (hne : items ≠ []) (calls : Calls) (tmp : ℕ → PyText) :
    tr.replay codec calls tmp identity (codec.dumps items) w =
      tr.send calls (tmpContent tmp items) identity
        (items.zipIdx.map fun item ↦ (tmp item.2, item.1.basename))
        (items.map fun item ↦ item.data.length).sum w := by
  rw [Transport.replay, if_neg hcodec.dumps_ne_nil, hcodec.loads_dumps]
  exact if_neg hne

/-- **A replay sends what the files held when they were kept**, whatever has become of them
since. -/
theorem replay_brings {codec : Codec} {tmp : ℕ → PyText} (htmp : Function.Injective tmp)
    {records : List FileRecord}
    (hcodec : codec.Lawful (itemsOf disk (records.filterMap FileRecord.payloadPath)))
    (hdistinct : ((records.filterMap FileRecord.payloadPath).map FilePath.name).Nodup)
    (hunlike : ∀ p ∈ records.filterMap FileRecord.payloadPath,
      ∀ q ∈ records.filterMap FileRecord.payloadPath, p.name ≠ q.name ++ .ofString ".part")
    (hsend : tr.Sendable (replayFiles tmp
      (itemsOf disk (records.filterMap FileRecord.payloadPath))))
    (hdoc : calls.Documented False replaces (tmpContent tmp
      (itemsOf disk (records.filterMap FileRecord.payloadPath))))
    (hclear : tr.Clear (replayFiles tmp
      (itemsOf disk (records.filterMap FileRecord.payloadPath))) w.tree) {a : Answer}
    (h : tr.replay codec calls tmp identity (serializeForRetry codec disk records) w =
      (w', .ok a)) (hacked : a.kind = .acked) :
    ∀ p ∈ records.filterMap FileRecord.payloadPath, ∀ data, disk.bytes p = some data →
      w'.tree (tr.destOf p.name) = some (.file data) := by
  intro p hp data hdata
  rw [serializeForRetry] at h
  generalize records.filterMap FileRecord.payloadPath = paths at *
  have hsub := basenames_sublist disk paths
  have hitem : (⟨p.name, data⟩ : Item) ∈ itemsOf disk paths :=
    List.mem_filterMap.mpr ⟨p, hp, by rw [hdata]; rfl⟩
  have hname : ∀ s ∈ (itemsOf disk paths).map Item.basename, ∃ q ∈ paths, q.name = s :=
    fun s hs ↦ List.mem_map.mp (hsub.subset hs)
  rw [replay_eq hcodec (List.ne_nil_of_mem hitem)] at h
  have hfiles : (itemsOf disk paths).zipIdx.map (fun item ↦ (tmp item.2, item.1.basename)) ≠ [] := by
    intro hnil
    have hlen := congrArg List.length hnil
    rw [List.length_map, List.length_zipIdx] at hlen
    exact List.ne_nil_of_mem hitem (List.length_eq_zero_iff.mp hlen)
  have hseparate : Separate (tr.uploads (tmpContent tmp (itemsOf disk paths))
      ((itemsOf disk paths).zipIdx.map fun item ↦ (tmp item.2, item.1.basename))) := by
    refine separate_uploads ?_ fun s hs s' hs' ↦ ?_
    · rw [names_replay]
      exact hdistinct.sublist hsub
    · rw [names_replay] at hs hs'
      obtain ⟨q, hq, rfl⟩ := hname s hs
      obtain ⟨q', hq', rfl⟩ := hname s' hs'
      exact hunlike q hq q' hq'
  obtain ⟨-, hdone⟩ := send_rule (I := fun t ↦ tr.Clear (replayFiles tmp (itemsOf disk paths)) t)
    (D := fun t ↦ ∀ item ∈ itemsOf disk paths, t (tr.destOf item.basename) = some (.file item.data))
    hsend hfiles hdoc (fun _ ht ↦ ht)
    (fun faults t ht ↦ ⟨ht.kept faults, replaySession_brings htmp hseparate⟩) hclear h
  exact (hdone a rfl hacked).1 _ hitem

/-- What `json` and `base64` make of the two heartbeats. -/
def heartbeatBlob : Bytes :=
  ("[\x7b\"basename\": \"a.json\", \"b64\": \"e30=\"\x7d, " ++
    "\x7b\"basename\": \"b.json\", \"b64\": \"e30=\"\x7d]").toUTF8.toList

def heartbeatItems : List Item :=
  [⟨.ofString "a.json", [123, 125]⟩, ⟨.ofString "b.json", [123, 125]⟩]

/-- The codec at the two heartbeats. -/
def heartbeatCodec : Codec where
  dumps _ := heartbeatBlob
  loads blob := if blob = heartbeatBlob then .items heartbeatItems
    else .corrupt (.ofString "Expecting value: line 1 column 1 (char 0)")

/-- `tempfile.mkstemp(prefix="hb-replay-")`. -/
def heartbeatTmp (i : ℕ) : PyText :=
  PyText.ofString "/tmp/hb-replay-" ++ List.replicate (i + 1) (.scalar 'a')

theorem heartbeatTmp_plain (i : ℕ) : Plain (heartbeatTmp i) where
  ne h := absurd (List.append_eq_nil_iff.mp h).1 (by decide)
  letters c hc := by
    rcases List.mem_append.mp hc with hc | hc
    · have h : ∀ c ∈ PyText.ofString "/tmp/hb-replay-",
          c ≠ .scalar '"' ∧ isSpace c = false ∧ c ≠ .scalar '#' ∧ isSpecial c = false := by
        decide
      exact h c hc
    · rw [List.eq_of_mem_replicate hc]
      decide
  noOption := by
    rw [heartbeatTmp, isOption_append (by decide)]
    decide

theorem heartbeatTmp_injective : Function.Injective heartbeatTmp := by
  intro i j h
  have hlen := congrArg List.length (List.append_cancel_left h)
  rw [List.length_replicate, List.length_replicate] at hlen
  exact Nat.succ.inj hlen

theorem heartbeatCodec_lawful : heartbeatCodec.Lawful heartbeatItems :=
  ⟨if_pos rfl, by decide +kernel⟩

theorem replayBatch_text : joined (dropHost.batchLines (replayFiles heartbeatTmp heartbeatItems)) =
    .ofString ("put /tmp/hb-replay-a incoming/a.json.part\n" ++
      "put /tmp/hb-replay-aa incoming/b.json.part\n" ++
      "rename incoming/a.json.part incoming/a.json\n" ++
      "rename incoming/b.json.part incoming/b.json\n") := by
  simp only [PyText.ofString_append, -String.reduceAppend]
  decide +kernel

theorem replayBatch_sendable :
    dropHost.Sendable (replayFiles heartbeatTmp heartbeatItems) where
  legible := by
    intro f hf
    rcases List.mem_pair.mp hf with rfl | rfl
    · exact ⟨heartbeatTmp_plain 0, dropHost_plain.1⟩
    · exact ⟨heartbeatTmp_plain 1, dropHost_plain.2⟩
  whole := by
    intro batch hbatch
    rw [Transport.batchCmd, replayBatch_text, PyText.encode_ofString] at hbatch
    obtain rfl := Except.ok.inj hbatch
    exact whole_of_length (by decide +kernel) (by decide +kernel)
  tidy := by decide

theorem replayBatch_clear :
    dropHost.Clear (replayFiles heartbeatTmp heartbeatItems) emptyDrop := by
  have h : ∀ f ∈ replayFiles heartbeatTmp heartbeatItems,
      (emptyDrop (dropHost.destOf f.2)).any Node.isDir = false ∧
        (emptyDrop (dropHost.partOf f.2)).any Node.isDir = false := by decide
  exact h

/-- Calls that nothing comes between. -/
def quietCalls : Calls := onServer (textServer true) fun _ ↦ quietCall

theorem quietCalls_documented (undisturbed : Prop) (content : PyText → Option Bytes) :
    quietCalls.Documented undisturbed true content :=
  fun _ _ ↦ documented_play quietCall (fun _ ↦ ⟨rfl, rfl⟩) true content

/-- The heartbeats are replayed over a call that nothing comes between. -/
theorem replay_heartbeats : ∃ w',
    dropHost.replay heartbeatCodec quietCalls heartbeatTmp {} heartbeatBlob ⟨emptyDrop, []⟩ =
      (w', .ok (.acked 4)) := by
  have hok : ((textServer true).session Server.quiet
      (publishLines false (dropHost.uploads (tmpContent heartbeatTmp heartbeatItems)
        (replayFiles heartbeatTmp heartbeatItems))) emptyDrop).2 = true := by decide
  have hencodes : (joined (dropHost.batchLines
      (replayFiles heartbeatTmp heartbeatItems))).Encodable := by
    rw [replayBatch_text]
    exact ⟨_, PyText.encode_ofString _⟩
  have hne : replayFiles heartbeatTmp heartbeatItems ≠ [] := by
    simp [replayFiles, heartbeatItems]
  obtain ⟨w', hsend, -⟩ := send_quiet (w := ⟨emptyDrop, []⟩) {} 4 replayBatch_sendable hne hencodes
    (quietCalls_documented True _) replayBatch_clear hok
  exact ⟨w', (replay_eq heartbeatCodec_lawful (by simp [heartbeatItems]) _ _).trans hsend⟩

theorem replay_brings_heartbeats : ∃ w',
    dropHost.replay heartbeatCodec quietCalls heartbeatTmp {}
        (serializeForRetry heartbeatCodec spool heartbeats) ⟨emptyDrop, []⟩ = (w', .ok (.acked 4)) ∧
      w'.tree (.ofString "incoming/b.json") = some (.file [123, 125]) := by
  obtain ⟨w', hreplay⟩ := replay_heartbeats
  have hnames : ((heartbeats.filterMap FileRecord.payloadPath).map FilePath.name).Nodup ∧
      ∀ p ∈ heartbeats.filterMap FileRecord.payloadPath,
        ∀ q ∈ heartbeats.filterMap FileRecord.payloadPath, p.name ≠ q.name ++ .ofString ".part" := by
    decide
  have hcodec : heartbeatCodec.Lawful
      (itemsOf spool (heartbeats.filterMap FileRecord.payloadPath)) := heartbeatCodec_lawful
  have hall := replay_brings (w := ⟨emptyDrop, []⟩) heartbeatTmp_injective hcodec hnames.1
    hnames.2 replayBatch_sendable (quietCalls_documented False _) replayBatch_clear hreplay rfl
  exact ⟨w', hreplay, hall heartbeatB (List.mem_cons_of_mem _ List.mem_cons_self) _ rfl⟩

end HsUploader.Heartbeat
