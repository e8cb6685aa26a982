import Mathlib.Data.List.Infix
import HsUploader.Transports.FilePaths
import HsUploader.Transports.SftpBatch

/-!
# The PSWS dataset transport

A dataset is a file, or a directory that is walked in the order of its names.  It is sent in one
session of `sftp`: the file under another name first, the tree file by file, and after the data a
directory whose name tells the server to take the dataset in, the trigger.  The lines of the session
and the trigger's name are `fileLines`, `dirPutLines` and `triggerDirName`; `uploadOne` hands the
lines to a program that stands for `sftp` and reads its exit code.

A failed session is not undone, and the retry sends everything again.  What that may leave on the
server is the subject of `PswsServer`.
-/

set_option autoImplicit false

namespace HsUploader.Psws

open Transfer Sftp
open Wsprdaemon (FilePath slashJoin)

/-! ## Texts -/

/-- `s.rstrip("/")`. -/
def rstripSlash (s : PyText) : PyText := (s.reverse.dropWhile fun c ↦ c = .scalar '/').reverse

/-- Ends of a line for `splitlines`, of which a return and a newline together are one. -/
def endsLine : PyChar → Bool
  | .scalar c => c.toNat ∈ [10, 11, 12, 13, 28, 29, 30, 133, 8232, 8233]
  | .surrogate _ => false

/-- `s.splitlines()`, but for empty lines more or fewer. -/
def splitLines (s : PyText) : List PyText := s.splitOnP endsLine

/-- `c.lower()`, as far as ASCII letters come of it. -/
def lower : PyChar → PyText
  | .scalar c =>
    if c.toNat = 8490 then .ofString "k"
    else if c.toNat = 304 then [.scalar 'i', .scalar (.ofNat 775)]
    else [.scalar c.toLower]
  | c => [c]

/-- `_SFTP_DIAGNOSTICS`. -/
def sftpDiagnostics : List String :=
  ["permission denied", "host key verification failed", "remote host identification has changed",
    "no such file or directory", "connection refused", "connection closed", "connection timed out",
    "could not resolve hostname", "disk quota exceeded", "no space left on device",
    "too many authentication failures", "operation not permitted", "broken pipe", "timed out",
    "not found on path"]

/-- The line says why `sftp` failed. -/
def isDiagnostic (line : PyText) : Bool :=
  sftpDiagnostics.any fun sig ↦ decide (PyText.ofString sig <:+: line.flatMap lower)

/-- `_diagnose(output)`. -/
def diagnose (output : PyText) : PyText :=
  let lines := ((splitLines output).map strip).filter fun ln ↦ ln ≠ []
  match lines.find? isDiagnostic with
  | some ln => ln.take 300
  | none =>
    if lines ≠ [] then
      let text := List.intercalate (PyText.ofString " | ") lines
      text.drop (text.length - 300)
    else .ofString "(no output from sftp)"

/-- `path.stem`, of a name: what stands before its last dot, unless that is its first letter or its
last one. -/
def stem (name : PyText) : PyText :=
  let suffix := name.reverse.takeWhile fun c ↦ c ≠ .scalar '.'
  let i := name.length - suffix.length - 1
  if .scalar '.' ∈ name && 0 < i && i < name.length - 1 then name.take i else name

/-- `os.path.join(a, b)`. -/
def osJoin (a b : PyText) : PyText :=
  if b.head? = some (.scalar '/') then b
  else if a = [] || a.getLast? = some (.scalar '/') then a ++ b
  else a ++ [.scalar '/'] ++ b

/-- A remote path: a name in a directory, where there is one. -/
def under (dir leaf : PyText) : PyText := if dir ≠ [] then dir ++ [.scalar '/'] ++ leaf else leaf

/-! ## Configuration -/

/-- `PswsMagnetometerSftp`, as it is constructed. -/
structure Transport where
  instrumentId : PyText
  host : PyText := .ofString "pswsnetwork.eng.ua.edu"
  sftpUserOverride : Option PyText := none
  sshKeyOverride : Option PyText := none
  /-- The argument `remote_path`. -/
  remoteArg : PyText := []
  /-- The argument `trigger_path`. -/
  triggerArg : Option PyText := none
  triggerPrefix : PyText := .ofString "c"
  triggerTsColons : Bool := false
  table : String := "mag.daily_zip"
  connectTimeoutSec : ℤ := 10
  xferTimeoutSec : ℤ := 3600
  bandwidthLimitKbps : Option ℤ := none
  dryRun : Bool := false

namespace Transport

variable (tr : Transport)

/-- `self.remote_path`. -/
def remotePath : PyText := rstripSlash tr.remoteArg

/-- `self.trigger_path`. -/
def triggerPath : PyText := match tr.triggerArg with
  | none => tr.remotePath
  | some path => rstripSlash path

/-- `batch_policy()`. -/
def batchPolicy (_ : Transport) : BatchPolicy := { maxRecords := 1 }

/-- `_sftp_user(identity)`, `none` where it raises `ValueError`. -/
def sftpUser (identity : Identity) : Option PyText :=
  match tr.sftpUserOverride with
  | some (c :: cs) => some (c :: cs)
  | _ => if strip identity.stationId ≠ [] then some (strip identity.stationId) else none

/-- `_ssh_key(identity)`. -/
def sshKey (identity : Identity) : Option PyText :=
  match tr.sshKeyOverride with
  | some (c :: cs) => some (c :: cs)
  | _ => identity.sshKeyFile

/-- `_remote_path(leaf)`. -/
def remotePathOf (leaf : PyText) : PyText := under tr.remotePath leaf

/-- `_trigger_remote_path(trigger)`. -/
def triggerRemotePath (trigger : PyText) : PyText := under tr.triggerPath trigger

/-- `now.strftime(fmt)`. -/
def stamp (now : WsprNet.DateTime) : PyText :=
  .ofString (toString now.year ++ "-" ++ WsprNet.twoDigits now.month ++ "-" ++
    WsprNet.twoDigits now.day ++ "T" ++ WsprNet.twoDigits now.hour ++
    (if tr.triggerTsColons then ":" else "-") ++ WsprNet.twoDigits now.minute)

/-- `_trigger_dir_name(dataset_name)`. -/
def triggerDirName (now : WsprNet.DateTime) (datasetName : PyText) : PyText :=
  tr.triggerPrefix ++ datasetName ++ .ofString "_#" ++ tr.instrumentId ++ .ofString "_#" ++
    tr.stamp now

end Transport

/-! ## Datasets -/

/-- The name of an entry of a directory. -/
structure Name where
  text : PyText
  ne : text ≠ []
  noSlash : .scalar '/' ∉ text
  deriving DecidableEq

/-- What a directory holds, entry by entry as the system lists it.  A subdirectory that is a link or
cannot be listed is not walked. -/
inductive Listing where
  | nil
  | file (name : Name) (rest : Listing)
  | sub (name : Name) (walked : Bool) (inner rest : Listing)

/-- The order of names. -/
def nameLe (a b : Name) : Bool := !WsprNet.textLt b.text a.text

namespace Listing

/-- The files of a directory. -/
def files : Listing → List Name
  | nil => []
  | file name rest => name :: rest.files
  | sub _ _ _ rest => rest.files

/-- The directories in a directory. -/
def dirs : Listing → List Name
  | nil => []
  | file _ rest => rest.dirs
  | sub name _ _ rest => name :: rest.dirs

end Listing

/-- One turn of `os.walk`: the names that lead to a directory from the top, the directories in it
and the files, each in order. -/
structure Visit where
  rel : List Name
  dirs : List Name
  files : List Name

/-- The turn for a directory. -/
def Listing.visit (l : Listing) (rel : List Name) : Visit :=
  ⟨rel, l.dirs.mergeSort nameLe, l.files.mergeSort nameLe⟩

/-- The turns for the directories in a directory, each with its name. -/
def Listing.inside : List Name → Listing → List (Name × List Visit)
  | _, .nil => []
  | rel, .file _ rest => rest.inside rel
  | rel, .sub name walked inner rest =>
    (name, if walked then
        inner.visit (rel ++ [name]) ::
          ((inner.inside (rel ++ [name])).mergeSort fun a b ↦ nameLe a.1 b.1).flatMap Prod.snd
      else []) :: rest.inside rel

/-- `os.walk(local_path)`, the directories of each turn gone through in order. -/
def Listing.walk (l : Listing) (rel : List Name) : List Visit :=
  l.visit rel :: ((l.inside rel).mergeSort fun a b ↦ nameLe a.1 b.1).flatMap Prod.snd

/-- What stands at a dataset's path. -/
inductive Dataset where
  | file
  | dir (l : Listing)

/-- The local disk. -/
structure Disk where
  stands : FilePath → Option Dataset
  /-- What is read from the file of the name. -/
  content : PyText → Option Bytes

/-- `dataset_path.name if is_dir else dataset_path.stem`. -/
def Dataset.name (path : FilePath) : Dataset → PyText
  | .file => stem path.name
  | .dir _ => path.name

/-! ## The batch -/

def mkdirLine (path : PyText) : PyText := .scalar '-' :: oneWord "mkdir" .quotes path

def rmLine (path : PyText) : PyText := .scalar '-' :: oneWord "rm" .quotes path

def putLine (path dest : PyText) : PyText := twoWords "put" .quotes path dest

def renameLine (src dest : PyText) : PyText := twoWords "rename" .quotes src dest

/-- The directory on the server for a turn of the walk. -/
def remoteDir (base : PyText) (rel : List Name) : PyText :=
  if rel = [] then base else base ++ [.scalar '/'] ++ slashJoin (rel.map Name.text)

/-- The local directory of a turn of the walk. -/
def rootText (path : FilePath) (rel : List Name) : PyText :=
  (rel.map Name.text).foldl osJoin (pathText path)

/-- The lines for one turn of the walk. -/
def visitLines (base : PyText) (path : FilePath) (v : Visit) : List PyText :=
  let dir := remoteDir base v.rel
  v.dirs.map (fun d ↦ mkdirLine (dir ++ [.scalar '/'] ++ d.text)) ++
    v.files.map fun f ↦
      putLine (osJoin (rootText path v.rel) f.text) (dir ++ [.scalar '/'] ++ f.text)

namespace Transport

variable (tr : Transport)

/-- The lines for a dataset that is a file. -/
def fileLines (path : FilePath) : List PyText :=
  let remote := tr.remotePathOf path.name
  let part := remote ++ .ofString ".part"
  [putLine (pathText path) part, rmLine remote, renameLine part remote]

/-- `_dir_put_lines(local_path, remote_name)`. -/
def dirPutLines (path : FilePath) (remoteName : PyText) (l : Listing) : List PyText :=
  let base := tr.remotePathOf remoteName
  mkdirLine base :: (l.walk []).flatMap (visitLines base path)

/-- The lines of a batch, but for `quit`. -/
def batchLines (path : FilePath) (ds : Dataset) (now : WsprNet.DateTime) : List PyText :=
  (if tr.remotePath ≠ [] then [mkdirLine tr.remotePath] else []) ++
    (match ds with
      | .file => tr.fileLines path
      | .dir l => tr.dirPutLines path path.name l) ++
    [mkdirLine (tr.triggerRemotePath (tr.triggerDirName now (ds.name path)))]

/-! ## Uploads -/

/-- The command line of `_run_sftp`. -/
def sftpCommand (user : PyText) (key : Option PyText) : List PyText :=
  (["sftp", "-b", "-", "-o", "LogLevel=ERROR", "-o", "BatchMode=yes", "-o",
      "ConnectTimeout=" ++ toString tr.connectTimeoutSec, "-o",
      "StrictHostKeyChecking=accept-new"].map PyText.ofString) ++
    (match key with
      | some (c :: cs) => [.ofString "-i", c :: cs]
      | _ => []) ++
    (match tr.bandwidthLimitKbps with
      | some limit => [.ofString "-l", .ofString (toString limit)]
      | none => []) ++
    [user ++ .ofString "@" ++ tr.host]

end Transport

/-- What one upload meets: the clock, and what comes of a call of `sftp`. -/
structure Attempt where
  now : WsprNet.DateTime
  program : List PyText → Bytes → Tree PyText UInt8 → Tree PyText UInt8 × Completed

namespace Transport

variable (tr : Transport)

/-- `_run_sftp(user, ssh_key, batch_input)`: the server's tree, the return code and the output. -/
def runSftp (att : Attempt) (user : PyText) (key : Option PyText) (batch : Bytes)
    (t : Tree PyText UInt8) : Tree PyText UInt8 × ℤ × PyText :=
  match att.program (tr.sftpCommand user key) batch t with
  | (t', .exited code output) => (t', code, output)
  | (t', .timedOut) =>
    (t', 1, .ofString ("sftp timed out after " ++ toString tr.xferTimeoutSec ++ "s"))
  | (t', .notFound) => (t', 1, .ofString "sftp binary not found on PATH")

/-- The answer for a dataset that is gone. -/
def vanished (text : PyText) : Answer :=
  { kind := .permanent, reason := .ofString "dataset vanished before upload: " ++ text }

/-- `_upload_one(dataset_path, identity)`, on the server's tree. -/
def uploadOne (disk : Disk) (identity : Identity) (path : FilePath) (att : Attempt)
    (t : Tree PyText UInt8) : Except Exn (Tree PyText UInt8 × Answer) :=
  match disk.stands path with
  | none => pure (t, vanished (pathText path))
  | some ds => match tr.sftpUser identity with
    | none =>
      pure (t, { kind := .permanent
                 reason := .ofString
                  "PswsMagnetometerSftp: no sftp_user and identity.station_id is empty" })
    | some user => do
      let batch ← PyText.encode (joined (tr.batchLines path ds att.now ++ [.ofString "quit"]))
      if tr.dryRun then pure (t, { kind := .acked })
      else
        let (t', code, output) := tr.runSftp att user (tr.sshKey identity) batch t
        if code = 0 then pure (t', { kind := .acked })
        else
          pure (t', { kind := .retryLater,
                      reason := .ofString ("sftp rc=" ++ toString code ++ ": ") ++
                        diagnose output })

/-- The datasets of a batch, one after the other up to the first that does not get through. -/
def uploadAll (disk : Disk) (identity : Identity) :
    List FilePath → (ℕ → Attempt) → Tree PyText UInt8 → Except Exn (Tree PyText UInt8 × Answer)
  | [], _, t => pure (t, { kind := .acked })
  | path :: paths, atts, t => do
    let (t', answer) ← tr.uploadOne disk identity path (atts 0) t
    if answer.kind = .acked ∨ answer.kind = .partialAck then
      uploadAll disk identity paths (fun i ↦ atts (i + 1)) t'
    else pure (t', answer)

/-- `ship(batch, identity)`. -/
def ship (disk : Disk) (identity : Identity) (records : List FileRecord) (atts : ℕ → Attempt)
    (t : Tree PyText UInt8) : Except Exn (Tree PyText UInt8 × Answer) :=
  tr.uploadAll disk identity (records.filterMap FileRecord.payloadPath) atts t

/-- `serialize_for_retry(batch, identity)`. -/
def serializeForRetry (records : List FileRecord) : Except Exn Bytes :=
  match records.filterMap FileRecord.payloadPath with
  | path :: _ => PyText.encode (pathText path)
  | [] => pure []

/-- `replay(payload_blob, identity)`. -/
def replay (disk : Disk) (identity : Identity) (blob : Bytes) (att : Attempt)
    (t : Tree PyText UInt8) : Except Exn (Tree PyText UInt8 × Answer) :=
  if blob = [] then
    pure (t, { kind := .permanent
               reason := .ofString ("no dataset path in retry blob (deliverable predates the " ++
                "path-carrying build); the source will re-ship if the dataset is still queued") })
  else do
    let text ← PyText.decode blob
    match parsePath text with
    | some path => tr.uploadOne disk identity path att t
    | none =>
      pure (t, vanished (partsText (text.head? = some (.scalar '/')) (partsOf text)))

end Transport

/-! ## What is kept for a retry -/

namespace Transport

variable {tr : Transport} {disk : Disk} {identity : Identity} {t : Tree PyText UInt8}

theorem uploadOne_reason {path : FilePath} {att : Attempt} {t' : Tree PyText UInt8}
    {answer : Answer} (h : tr.uploadOne disk identity path att t = .ok (t', answer)) :
    answer.kind ≠ .partialAck ∧ (answer.kind = .acked → answer = { kind := .acked }) := by
  rw [uploadOne] at h
  cases hstands : disk.stands path with
  | none =>
    rw [hstands] at h
    obtain ⟨rfl, rfl⟩ := Prod.mk.inj (Except.ok.inj h)
    exact ⟨(fun hk ↦ by cases hk), fun hk ↦ by cases hk⟩
  | some ds =>
    rw [hstands] at h
    dsimp only at h
    cases huser : tr.sftpUser identity with
    | none =>
      rw [huser] at h
      obtain ⟨rfl, rfl⟩ := Prod.mk.inj (Except.ok.inj h)
      exact ⟨(fun hk ↦ by cases hk), fun hk ↦ by cases hk⟩
    | some user =>
      rw [huser] at h
      obtain ⟨batch, -, h⟩ := Except.bind_eq_ok.mp h
      split at h
      · obtain ⟨rfl, rfl⟩ := Prod.mk.inj (Except.ok.inj h)
        exact ⟨(fun hk ↦ by cases hk), fun _ ↦ rfl⟩
      · split at h
        · obtain ⟨rfl, rfl⟩ := Prod.mk.inj (Except.ok.inj h)
          exact ⟨(fun hk ↦ by cases hk), fun _ ↦ rfl⟩
        · obtain ⟨rfl, rfl⟩ := Prod.mk.inj (Except.ok.inj h)
          exact ⟨(fun hk ↦ by cases hk), fun hk ↦ by cases hk⟩

/-- Shipping one dataset is uploading it. -/
theorem ship_single {r : FileRecord} {path : FilePath} (hr : r.payloadPath = some path)
    (atts : ℕ → Attempt) :
    tr.ship disk identity [r] atts t = tr.uploadOne disk identity path (atts 0) t := by
  have hpaths : [r].filterMap FileRecord.payloadPath = [path] := by simp [hr]
  rw [ship, hpaths, uploadAll]
  cases hup : tr.uploadOne disk identity path (atts 0) t with
  | error e => rfl
  | ok result =>
    obtain ⟨t', answer⟩ := result
    obtain ⟨hpart, hacked⟩ := uploadOne_reason hup
    rw [Except.ok_bind]
    dsimp only
    split
    · rename_i hkind
      rw [hacked (hkind.resolve_right hpart)]
      rfl
    · rfl

/-- **A retry ships the dataset again**: replaying what was kept of a batch of one dataset does what
shipping it does. -/
theorem replay_serialize {r : FileRecord} {path : FilePath} {blob : Bytes}
    (hr : r.payloadPath = some path) (hnormal : Normal path)
    (h : serializeForRetry [r] = .ok blob) (atts : ℕ → Attempt) :
    tr.replay disk identity blob (atts 0) t = tr.ship disk identity [r] atts t := by
  have hpaths : [r].filterMap FileRecord.payloadPath = [path] := by simp [hr]
  unfold serializeForRetry at h
  rw [hpaths] at h
  have hne : blob ≠ [] := by
    rintro rfl
    exact pathText_ne_nil path (PyText.eq_nil_of_encode h)
  rw [ship_single hr, replay, if_neg hne, PyText.decode_encode h, Except.ok_bind,
    parsePath_pathText hnormal]

end Transport

/-- A magnetometer, whose data goes to a directory of its own. -/
def magnetometer : Transport where
  instrumentId := .ofString "372"
  remoteArg := .ofString "magData"
  triggerArg := some []
  triggerPrefix := .ofString "m"
  triggerTsColons := true

/-- Its dataset of a day. -/
def magDay : FilePath where
  absolute := true
  parts := [.ofString "q", .ofString "OBS T00:00.zip"]
  wellFormed := by decide

/-- A disk with the dataset. -/
def magDisk : Disk where
  stands _ := some .file
  content _ := some [80, 75, 3, 4]

/-- The station it stands at. -/
def magStation : Identity := { stationId := .ofString "S000170" }

theorem replay_serialize_day : ∃ blob,
    Transport.serializeForRetry [{ payloadPath := some magDay }] = .ok blob ∧
      magnetometer.replay magDisk magStation blob
          ⟨⟨2026, 8, 24, 17, 30⟩, fun _ _ t ↦ (t, .timedOut)⟩
          (fun _ ↦ none) =
        magnetometer.ship magDisk magStation [{ payloadPath := some magDay }]
          (fun _ ↦ ⟨⟨2026, 8, 24, 17, 30⟩, fun _ _ t ↦ (t, .timedOut)⟩) fun _ ↦ none := by
  have htext : pathText magDay = .ofString "/q/OBS T00:00.zip" := by decide
  have hblob : Transport.serializeForRetry [{ payloadPath := some magDay }] =
      PyText.encode (pathText magDay) := rfl
  rw [htext, PyText.encode_ofString] at hblob
  have hnormal : Normal magDay := by
    intro p hp
    have hall : ∀ p ∈ magDay.parts, p ≠ .ofString "." := by decide
    exact hall p hp
  exact ⟨_, hblob, Transport.replay_serialize rfl hnormal hblob
    fun _ ↦ ⟨⟨2026, 8, 24, 17, 30⟩, fun _ _ t ↦ (t, .timedOut)⟩⟩

end HsUploader.Psws
