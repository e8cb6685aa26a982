import HsUploader.Transports.FilePaths
import HsUploader.Transports.SftpBatch
import HsUploader.Transports.WsprdaemonRetry
import Mathlib.Data.List.MinMax

/-!
# A tar on its way to a gateway

`WsprdaemonTarSftp` sends a tar to the first of its servers that takes it (`uploadTar`).  One call
of `sftp` writes it under its name with `.part` after it and renames it.  When the output of a call
that fails says that the server's key has changed, the key is forgotten, the connection that is
held open to the server is closed, and the call is made once more over a connection of its own
(`sftpPut`).

## What is relied on

Every call of `sftp` is a function of its command, the batch and the trees of all servers.
`Calls.Documented` says what is relied on of it: servers of different names are different servers, a
call changes nothing but the server it names (the connection that is held open for a host leads to
that host), and there it does what `Documented` says of one call.  That covers the batches that
`sftp` takes whole and reads as they were meant (`Sendable`), on servers where no directory stands
in the tar's place or where it is written (`Clear`).

## What is shown

The rules go from one call (`runSftp_rule`) over the one or two calls to a server (`sftpPut_rule`)
to the loop over the servers (`uploadFrom_rule`): what every session keeps of every server is kept,
and where the answer is that the tar has been sent, a session got through at one of them and no
server after that one has been touched.
-/

set_option autoImplicit false

namespace HsUploader.TarSftp

open Transfer Sftp
open Wsprdaemon (FilePath Station reporterId)

/-! ## The sockets of connections that are held open -/

/-- A file's name in a directory. -/
def within (base : FilePath) (leaf : PyText) : PyText :=
  partsText base.absolute (base.parts ++ [leaf])

/-- What follows the directory in the name of a socket, before `ssh` makes the user, the host and
the port of it. -/
def socketName : PyText := .ofString "cm-%r@%h:%p"

/-- `_ssh_control_path(base, servers, user)`. -/
def sshControlPath (base : Option FilePath) (servers : List PyText) (user : PyText) :
    Option PyText :=
  match base with
  | none => none
  | some base =>
    let longestHost := if servers = [] then 32 else (servers.map List.length).foldr max 0
    let longestUser := if user = [] then 24 else user.length
    let expanded :=
      (within base (.ofString "cm-")).length + longestUser + 1 + longestHost + 1 + "65535".length
    if expanded ≤ 100 then some (within base socketName) else none

/-! ## The calls -/

/-- One call of `sftp`: what stands after `-o`, after `-i`, after `-o` again, and at the end. -/
structure Command where
  options : List (String × PyText)
  keyFile : Option PyText
  extraOptions : List (String × PyText)
  user : PyText
  host : PyText

namespace Command

variable (cmd : Command)

/-- An option of the command line. -/
def option (opt : String × PyText) : List PyText :=
  [.ofString "-o", .ofString (opt.1 ++ "=") ++ opt.2]

/-- The command line. -/
def argv : List PyText :=
  [.ofString "sftp", .ofString "-b", .ofString "-"] ++ cmd.options.flatMap option ++
    cmd.keyFile.elim [] (fun file ↦ [.ofString "-i", file]) ++ cmd.extraOptions.flatMap option ++
    [cmd.user ++ .ofString "@" ++ cmd.host]

end Command

/-- The servers by their names, and the commands that have been run. -/
structure World where
  trees : PyText → Tree PyText UInt8
  ran : List (List PyText) := []

/-- What the calls of `sftp` come to, by their number: each has its command, the files it can read,
the batch and the servers. -/
structure Calls where
  sftp : ℕ → Command → (PyText → Option Bytes) → Bytes → (PyText → Tree PyText UInt8) →
    (PyText → Tree PyText UInt8) × Completed

/-! ## The transport -/

/-- `WsprdaemonTarSftp`, as it is constructed. -/
structure Transport where
  servers : List PyText
  sftpUserOverride : Option PyText := none
  remotePath : PyText := .ofString "uploads"
  connectTimeoutSec : ℤ := 10
  knownHostsFile : PyText := .ofString "/var/lib/hs-uploader/known_hosts"
  /-- The directory of the sockets, where there is one. -/
  sshControlDir : Option FilePath := none

/-- What the station is known by. -/
structure Identity extends Station where
  sshKeyFile : Option PyText := none

/-- A text that is there and not empty. -/
def given : Option PyText → Option PyText
  | some (c :: cs) => some (c :: cs)
  | _ => none

namespace Transport

variable (tr : Transport)

/-- `self._ssh_control_path`. -/
def controlPath : Option PyText :=
  sshControlPath tr.sshControlDir tr.servers ((given tr.sftpUserOverride).getD [])

/-- `_sftp_user(identity)`. -/
def sftpUser (identity : Identity) : PyText :=
  (given tr.sftpUserOverride).getD (reporterId identity.toStation)

/-- The command of `_run_sftp`. -/
def command (server : PyText) (identity : Identity) (extraOpts : List (String × PyText))
    (multiplex : Bool) : Command where
  options :=
    [("BatchMode", .ofString "yes"), ("ConnectTimeout", .ofString (toString tr.connectTimeoutSec)),
      ("UserKnownHostsFile", tr.knownHostsFile), ("GlobalKnownHostsFile", .ofString "/dev/null"),
      ("StrictHostKeyChecking", .ofString "accept-new")] ++
    if multiplex then
      tr.controlPath.elim [] fun path ↦
        [("ControlMaster", .ofString "auto"), ("ControlPath", path),
          ("ControlPersist", .ofString "10m"), ("ServerAliveInterval", .ofString "30"),
          ("ServerAliveCountMax", .ofString "3")]
    else []
  keyFile := given identity.sshKeyFile
  extraOptions := extraOpts
  user := tr.sftpUser identity
  host := server

/-- `_run_sftp(server, batch_cmd, identity, extra_opts, multiplex)`, the call of the number. -/
def runSftp (calls : Calls) (n : ℕ) (content : PyText → Option Bytes) (server : PyText)
    (batch : Bytes) (identity : Identity) (extraOpts : List (String × PyText)) (multiplex : Bool)
    (w : World) : World × Except Exn (ℤ × PyText) :=
  let cmd := tr.command server identity extraOpts multiplex
  let ran := w.ran ++ [cmd.argv]
  match calls.sftp n cmd content batch w.trees with
  | (trees, .exited code output) => (⟨trees, ran⟩, .ok (code, output))
  | (trees, .timedOut) => (⟨trees, ran⟩, .ok (1, .ofString "sftp timed out"))
  | (trees, .notFound) => (⟨trees, ran⟩,
      .error (.other "FileNotFoundError" "[Errno 2] No such file or directory: 'sftp'"))

/-- `_remove_host_key(server)`. -/
def removeHostKey (server : PyText) (w : World) : World :=
  { w with ran := w.ran ++
    [[.ofString "ssh-keygen", .ofString "-f", tr.knownHostsFile, .ofString "-R", server]] }

/-- `_close_control_master(server, identity)`. -/
def closeControlMaster (server : PyText) (identity : Identity) (w : World) : World :=
  match tr.controlPath with
  | none => w
  | some path => { w with ran := w.ran ++
    [[.ofString "ssh", .ofString "-O", .ofString "exit"] ++ Command.option ("ControlPath", path) ++
      [tr.sftpUser identity ++ .ofString "@" ++ server]] }

/-- Where a tar is to stand. -/
def destOf (tarName : PyText) : PyText := tr.remotePath ++ [.scalar '/'] ++ tarName

/-- Where it is written. -/
def partOf (tarName : PyText) : PyText := tr.destOf tarName ++ .ofString ".part"

/-- The lines of `_sftp_batch_cmd(tar_path, tar_name)`. -/
def batchLines (tarPath tarName : PyText) : List PyText :=
  [twoWords "put" .asIs tarPath (tr.partOf tarName),
    twoWords "rename" .asIs (tr.partOf tarName) (tr.destOf tarName)]

/-- `_sftp_batch_cmd(tar_path, tar_name)`. -/
def sftpBatchCmd (tarPath tarName : PyText) : Except Exn Bytes :=
  PyText.encode (joined (tr.batchLines tarPath tarName))

end Transport

/-- A tar that is to be sent: the file it lies in, and the name it gets. -/
structure Parcel where
  identity : Identity
  tarPath : PyText
  tarName : PyText
  /-- What `sftp` reads from the file of the name. -/
  content : PyText → Option Bytes

namespace Transport

variable (tr : Transport)

/-- `_sftp_put(server, tar_path, tar_name, identity)`, to the server of the number. -/
def sftpPut (calls : Calls) (x : Parcel) (i : ℕ) (server : PyText) (w : World) :
    World × Except Exn (Bool × PyText) :=
  match tr.sftpBatchCmd x.tarPath x.tarName with
  | .error e => (w, .error e)
  | .ok batch =>
    match tr.runSftp calls (2 * i) x.content server batch x.identity [] true w with
    | (w, .error e) => (w, .error e)
    | (w, .ok (code, output)) =>
      if code = 0 then (w, .ok (true, output))
      else if hostKeyErr output then
        let w := tr.closeControlMaster server x.identity (tr.removeHostKey server w)
        match tr.runSftp calls (2 * i + 1) x.content server batch x.identity
            [("StrictHostKeyChecking", .ofString "accept-new")] false w with
        | (w, .error e) => (w, .error e)
        | (w, .ok (code, output)) => (w, .ok (decide (code = 0), output))
      else (w, .ok (false, output))

/-- The loop of `_upload_tar` over the servers, from the one of the number on; `shown` is what the
list of all of them is printed as. -/
def uploadFrom (calls : Calls) (x : Parcel) (shown : PyText) :
    ℕ → List PyText → World → World × Except Exn Answer
  | _, [], w => (w, .ok (.retryLater (.ofString "all sftp servers failed: " ++ shown)))
  | i, server :: servers, w =>
    match tr.sftpPut calls x i server w with
    | (w, .error e) => (w, .error e)
    | (w, .ok (true, _)) => (w, .ok (.acked 0))
    | (w, .ok (false, _)) => uploadFrom calls x shown (i + 1) servers w

/-- `_upload_tar(tar_bytes, tar_name, identity)`. -/
def uploadTar (calls : Calls) (x : Parcel) (shown : PyText) (w : World) :
    World × Except Exn Answer :=
  tr.uploadFrom calls x shown 0 tr.servers w

end Transport

/-! ## What is relied on -/

/-- The batch for a tar is one that `sftp` takes whole and reads as it was meant, and each path in
it is the one path of its place. -/
structure Transport.Sendable (tr : Transport) (x : Parcel) : Prop where
  legible : Plain x.tarPath ∧ Plain (tr.destOf x.tarName)
  whole : ∀ batch, tr.sftpBatchCmd x.tarPath x.tarName = .ok batch → Whole batch
  tidy : Tidy (tr.destOf x.tarName) ∧ Tidy (tr.partOf x.tarName)

/-- No directory stands in the place of the tar, nor where it is written. -/
def Transport.Clear (tr : Transport) (x : Parcel) (t : Tree PyText UInt8) : Prop :=
  (t (tr.destOf x.tarName)).any Node.isDir = false ∧
    (t (tr.partOf x.tarName)).any Node.isDir = false

/-- **The calls do what `sftp` documents**: each changes the server it names and no other, servers
of different names being different servers, and does there what one call of `sftp` does. -/
def Calls.Documented (calls : Calls) (replaces : PyText → Bool) (content : PyText → Option Bytes) :
    Prop :=
  ∀ n cmd trees,
    (∀ batch o, o ≠ cmd.host → (calls.sftp n cmd content batch trees).1 o = trees o) ∧
    Sftp.Documented False (replaces cmd.host) content fun batch t ↦
      let r := calls.sftp n cmd content batch (Function.update trees cmd.host t)
      (r.1 cmd.host, r.2)

/-- Calls in which `sftp` plays its batches against the server that the command names. -/
def onServers (replaces : PyText → Bool) (conns : ℕ → Connection) : Calls where
  sftp n cmd content batch trees :=
    let (t, completed) :=
      (conns n).play (textServer (replaces cmd.host)) content batch (trees cmd.host)
    (Function.update trees cmd.host t, completed)

theorem documented_onServers (replaces : PyText → Bool) (conns : ℕ → Connection)
    (content : PyText → Option Bytes) :
    (onServers replaces conns).Documented replaces content := by
  intro n cmd trees
  refine ⟨fun batch o ho ↦ Function.update_of_ne ho _ _, fun batch ls t _ _ _ _ ↦
    ⟨conns n, False.elim, ?_⟩⟩
  simp only [onServers, Function.update_self]

/-! ## One call -/

variable {tr : Transport} {servers : List PyText} {w w' : World} {n i : ℕ} {x : Parcel}
  {content : PyText → Option Bytes} {batch : Bytes} {server shown : PyText} {identity : Identity}
  {extraOpts : List (String × PyText)} {multiplex : Bool} {calls : Calls}
  {replaces : PyText → Bool} {conns : ℕ → Connection} {ls : List (Line PyText UInt8)}

/-- The tar, as it is published. -/
def Transport.upload (tr : Transport) (x : Parcel) : Upload PyText UInt8 :=
  ⟨x.content x.tarPath, tr.partOf x.tarName, tr.destOf x.tarName⟩

theorem separate_upload : Separate [tr.upload x] := by
  have hne : (tr.upload x).part ≠ (tr.upload x).dest := by
    intro heq
    have hlen := congrArg List.length heq
    simp [Transport.upload, Transport.partOf, PyText.ofString] at hlen
  simpa [Separate] using hne

theorem linesOf_batch (h : tr.Sendable x)
    (hbatch : tr.sftpBatchCmd x.tarPath x.tarName = .ok batch) :
    linesOf x.content batch = some (publishLines false [tr.upload x]) := by
  have hread : List.Forall₂ (ReadAs x.content) (tr.batchLines x.tarPath x.tarName)
      (publishLines false [tr.upload x]) :=
    .cons (readAs_put (w := .asIs) h.legible.1 (plain_part h.legible.2))
      (.cons (readAs_rename (w := .asIs) (plain_part h.legible.2) h.legible.2) .nil)
  refine linesOf_joined hread (.inl rfl) (List.cons_ne_nil _ _) ?_
  rw [List.append_nil]
  exact hbatch

theorem tidy_upload (h : tr.Sendable x) :
    ∀ l ∈ publishLines false [tr.upload x], ∀ p ∈ l.op.touched, Tidy p := by
  intro l hl p hp
  obtain ⟨u, hu, hpath⟩ := mem_touched_publishLines ⟨l, hl, hp⟩
  obtain rfl := List.mem_singleton.mp hu
  rcases hpath with rfl | rfl
  · exact h.tidy.2
  · exact h.tidy.1

/-- The tree has a place for the lines of a tar. -/
theorem fitting_upload {t : Tree PyText UInt8} (h : tr.Clear x t) :
    Fitting (publishLines false [tr.upload x]) t where
  clear := by
    intro l hl p hp
    obtain ⟨u, hu, hpath⟩ := mem_touched_publishLines ⟨l, hl, Op.touched_of_files hp⟩
    obtain rfl := List.mem_singleton.mp hu
    rcases hpath with rfl | rfl
    · exact h.2
    · exact h.1
  apart _ _ _ _ := makes_publish

/-- No tar makes a directory. -/
theorem Transport.Clear.kept {srv : Server PyText} {t : Tree PyText UInt8} (h : tr.Clear x t)
    (faults : ℕ → Fault) :
    tr.Clear x (srv.session faults (publishLines false [tr.upload x]) t).1 := by
  rw [Server.session]
  exact ⟨Server.steps_not_isDir makes_publish h.1, Server.steps_not_isDir makes_publish h.2⟩

/-- **A call plays its batch against the server it names**, where there is a place for its lines. -/
theorem exists_onServers (n : ℕ) (server : PyText) (identity : Identity)
    (extraOpts : List (String × PyText)) (multiplex : Bool) (hsend : tr.Sendable x)
    (hbatch : tr.sftpBatchCmd x.tarPath x.tarName = .ok batch)
    (hdoc : calls.Documented replaces x.content) (hclear : tr.Clear x (w.trees server)) :
    ∃ c : Connection,
      tr.runSftp calls n x.content server batch identity extraOpts multiplex w =
        tr.runSftp (onServers replaces fun _ ↦ c) n x.content server batch identity extraOpts
          multiplex w := by
  obtain ⟨hothers, hserver⟩ := hdoc n (tr.command server identity extraOpts multiplex) w.trees
  obtain ⟨c, -, hplay⟩ := hserver batch _ (w.trees server) (linesOf_batch hsend hbatch)
    (hsend.whole batch hbatch) (tidy_upload hsend) (fitting_upload hclear)
  have hname : (tr.command server identity extraOpts multiplex).host = server := rfl
  refine ⟨c, ?_⟩
  simp only [hname, Function.update_eq_self] at hplay
  have hcall : calls.sftp n (tr.command server identity extraOpts multiplex) x.content batch
      w.trees = (onServers replaces fun _ ↦ c).sftp n
        (tr.command server identity extraOpts multiplex) x.content batch w.trees := by
    simp only [onServers, hname, ← hplay]
    refine Prod.ext (funext fun o ↦ ?_) rfl
    by_cases ho : o = server
    · rw [ho]
      exact (Function.update_self server _ w.trees).symm
    · exact (hothers batch o ho).trans (Function.update_of_ne ho _ _).symm
  rw [Transport.runSftp, hcall]
  rfl

/-- A call of `sftp` plays its lines at the server it names or does nothing, and a code of zero says
that they got through. -/
theorem runSftp_cases {result : Except Exn (ℤ × PyText)}
    (hread : linesOf content batch = some ls)
    (h : tr.runSftp (onServers replaces conns) n content server batch identity extraOpts multiplex
      w = (w', result)) :
    (∀ o, o ≠ server → w'.trees o = w.trees o) ∧
    (w'.trees server = w.trees server ∨ w'.trees server =
      ((textServer (replaces server)).session (conns n).faults ls (w.trees server)).1) ∧
    ∀ output, result = .ok (0, output) →
      w'.trees server =
        ((textServer (replaces server)).session (conns n).faults ls (w.trees server)).1 ∧
      ((textServer (replaces server)).session (conns n).faults ls (w.trees server)).2 = true := by
  have hname : (tr.command server identity extraOpts multiplex).host = server := rfl
  simp only [Transport.runSftp, onServers, hname] at h
  rcases hplay : (conns n).play (textServer (replaces server)) content batch (w.trees server) with
    ⟨t, completed⟩
  obtain ⟨htree, hzero⟩ := Connection.play_cases hread hplay
  have hothers : ∀ o, o ≠ server → Function.update w.trees server t o = w.trees o :=
    fun o ho ↦ Function.update_of_ne ho _ _
  rw [← Function.update_self server t w.trees] at htree hzero
  rw [hplay] at h
  cases completed with
  | exited code output =>
    obtain ⟨rfl, rfl⟩ := Prod.mk.inj h
    refine ⟨hothers, htree, fun output' ho ↦ hzero output ?_⟩
    rw [(Prod.mk.inj (Except.ok.inj ho)).1]
  | timedOut =>
    obtain ⟨rfl, rfl⟩ := Prod.mk.inj h
    exact ⟨hothers, htree,
      fun output ho ↦ absurd (Prod.mk.inj (Except.ok.inj ho)).1 (by decide)⟩
  | notFound =>
    obtain ⟨rfl, rfl⟩ := Prod.mk.inj h
    exact ⟨hothers, htree, fun output ho ↦ by cases ho⟩

/-- What `I` holds of the server's tree, and what `D` says of a session that got through, after one
call; the other servers are left as they are. -/
theorem runSftp_rule {I D : Tree PyText UInt8 → Prop} {result : Except Exn (ℤ × PyText)}
    (hsend : tr.Sendable x) (hbatch : tr.sftpBatchCmd x.tarPath x.tarName = .ok batch)
    (hdoc : calls.Documented replaces x.content) (hclear : ∀ t, I t → tr.Clear x t)
    (hstep : ∀ faults t, I t →
      I ((textServer (replaces server)).session faults (publishLines false [tr.upload x]) t).1 ∧
      (((textServer (replaces server)).session faults (publishLines false [tr.upload x]) t).2 =
          true →
        D ((textServer (replaces server)).session faults (publishLines false [tr.upload x]) t).1))
    (hw : I (w.trees server))
    (h : tr.runSftp calls n x.content server batch identity extraOpts multiplex w = (w', result)) :
    I (w'.trees server) ∧ (∀ o, o ≠ server → w'.trees o = w.trees o) ∧
      ∀ output, result = .ok (0, output) → D (w'.trees server) := by
  obtain ⟨c, hserver⟩ :=
    exists_onServers n server identity extraOpts multiplex hsend hbatch hdoc (hclear _ hw)
  rw [hserver] at h
  obtain ⟨hothers, htree, hzero⟩ := runSftp_cases (linesOf_batch hsend hbatch) h
  refine ⟨?_, hothers, fun output ho ↦ ?_⟩
  · rcases htree with heq | heq
    · rw [heq]
      exact hw
    · rw [heq]
      exact (hstep _ _ hw).1
  · obtain ⟨heq, hok⟩ := hzero output ho
    rw [heq]
    exact (hstep _ _ hw).2 hok

/-! ## One server, and all of them -/

theorem trees_closeControlMaster :
    (tr.closeControlMaster server identity w).trees = w.trees := by
  rw [Transport.closeControlMaster]
  cases tr.controlPath <;> rfl

/-- The same of one server, tried once or twice. -/
theorem sftpPut_rule {I D : Tree PyText UInt8 → Prop} {result : Except Exn (Bool × PyText)}
    (hsend : tr.Sendable x) (hdoc : calls.Documented replaces x.content)
    (hclear : ∀ t, I t → tr.Clear x t)
    (hstep : ∀ faults t, I t →
      I ((textServer (replaces server)).session faults (publishLines false [tr.upload x]) t).1 ∧
      (((textServer (replaces server)).session faults (publishLines false [tr.upload x]) t).2 =
          true →
        D ((textServer (replaces server)).session faults (publishLines false [tr.upload x]) t).1))
    (hw : I (w.trees server)) (h : tr.sftpPut calls x i server w = (w', result)) :
    I (w'.trees server) ∧ (∀ o, o ≠ server → w'.trees o = w.trees o) ∧
      ∀ output, result = .ok (true, output) → D (w'.trees server) := by
  rw [Transport.sftpPut] at h
  cases hbatch : tr.sftpBatchCmd x.tarPath x.tarName with
  | error e =>
    rw [hbatch] at h
    obtain ⟨rfl, rfl⟩ := Prod.mk.inj h
    exact ⟨hw, fun o _ ↦ rfl, fun output ho ↦ by cases ho⟩
  | ok batch =>
    rw [hbatch] at h
    dsimp only at h
    rcases hrun : tr.runSftp calls (2 * i) x.content server batch x.identity [] true w
      with ⟨w₁, e | ⟨code, output⟩⟩
    · rw [hrun] at h
      obtain ⟨rfl, rfl⟩ := Prod.mk.inj h
      obtain ⟨hI, hothers, -⟩ := runSftp_rule hsend hbatch hdoc hclear hstep hw hrun
      exact ⟨hI, hothers, fun output ho ↦ by cases ho⟩
    · obtain ⟨hI, hothers, hzero⟩ := runSftp_rule hsend hbatch hdoc hclear hstep hw hrun
      rw [hrun] at h
      dsimp only at h
      split at h
      · rename_i hcode
        obtain ⟨rfl, rfl⟩ := Prod.mk.inj h
        exact ⟨hI, hothers, fun _ _ ↦ hzero output (by rw [hcode])⟩
      · split at h
        · -- the key is forgotten, and the call made again
          have hclosed : (tr.closeControlMaster server x.identity
              (tr.removeHostKey server w₁)).trees = w₁.trees := trees_closeControlMaster
          rcases hagain : tr.runSftp calls (2 * i + 1) x.content server batch x.identity
            [("StrictHostKeyChecking", .ofString "accept-new")] false
            (tr.closeControlMaster server x.identity (tr.removeHostKey server w₁)) with
            ⟨w₂, e | ⟨code', output'⟩⟩
          all_goals
            obtain ⟨hI₂, hothers₂, hzero₂⟩ :=
              runSftp_rule hsend hbatch hdoc hclear hstep (by rwa [hclosed]) hagain
            rw [hclosed] at hothers₂
            rw [hagain] at h
            obtain ⟨rfl, rfl⟩ := Prod.mk.inj h
            refine ⟨hI₂, fun o ho ↦ (hothers₂ o ho).trans (hothers o ho), fun out ho ↦ ?_⟩
          · cases ho
          · have hcode := of_decide_eq_true (Prod.mk.inj (Except.ok.inj ho)).1
            exact hzero₂ output' (by rw [hcode])
        · obtain ⟨rfl, rfl⟩ := Prod.mk.inj h
          exact ⟨hI, hothers, fun output ho ↦ by cases ho⟩

/-- What is kept of every server's tree and what has been brought, after the loop over servers. -/
theorem uploadFrom_rule {I : PyText → Tree PyText UInt8 → Prop} {D : Tree PyText UInt8 → Prop}
    {answer : Except Exn Answer} (hsend : tr.Sendable x)
    (hdoc : calls.Documented replaces x.content)
    (hclear : ∀ s ∈ servers, ∀ t, I s t → tr.Clear x t)
    (hstep : ∀ s faults t, I s t →
      I s ((textServer (replaces s)).session faults (publishLines false [tr.upload x]) t).1 ∧
      (((textServer (replaces s)).session faults (publishLines false [tr.upload x]) t).2 = true →
        D ((textServer (replaces s)).session faults (publishLines false [tr.upload x]) t).1))
    (hw : ∀ s, I s (w.trees s)) (h : tr.uploadFrom calls x shown i servers w = (w', answer)) :
    (∀ s, I s (w'.trees s)) ∧ (∀ o, o ∉ servers → w'.trees o = w.trees o) ∧
      ∀ a, answer = .ok a → a.kind = .acked → ∃ failed s rest, servers = failed ++ s :: rest ∧
        D (w'.trees s) ∧ ∀ o, o ∉ failed → o ≠ s → w'.trees o = w.trees o := by
  induction servers generalizing i w with
  | nil =>
    obtain ⟨rfl, rfl⟩ := Prod.mk.inj h
    refine ⟨hw, fun o _ ↦ rfl, fun a ha hk ↦ ?_⟩
    obtain rfl := Except.ok.inj ha
    cases hk
  | cons server servers ih =>
    rw [List.forall_mem_cons] at hclear
    rw [Transport.uploadFrom] at h
    rcases hput : tr.sftpPut calls x i server w with ⟨w₁, result⟩
    obtain ⟨hI, hothers, hbrought⟩ :=
      sftpPut_rule hsend hdoc hclear.1 (hstep server) (hw server) hput
    have hkept : ∀ s, I s (w₁.trees s) := by
      intro s
      by_cases hs : s = server
      · exact hs ▸ hI
      · rw [hothers s hs]
        exact hw s
    rw [hput] at h
    rcases result with e | ⟨_ | _, output⟩
    · obtain ⟨rfl, rfl⟩ := Prod.mk.inj h
      refine ⟨hkept, fun o ho ↦ hothers o (List.ne_of_not_mem_cons ho), fun a ha ↦ by cases ha⟩
    · obtain ⟨hI', hothers', hacked⟩ := ih hclear.2 hkept h
      refine ⟨hI', fun o ho ↦ ?_, fun a ha hk ↦ ?_⟩
      · exact (hothers' o (List.not_mem_of_not_mem_cons ho)).trans
          (hothers o (List.ne_of_not_mem_cons ho))
      · obtain ⟨failed, s, rest, rfl, hD, hrest⟩ := hacked a ha hk
        refine ⟨server :: failed, s, rest, rfl, hD, fun o ho hs ↦ ?_⟩
        exact (hrest o (List.not_mem_of_not_mem_cons ho) hs).trans
          (hothers o (List.ne_of_not_mem_cons ho))
    · obtain ⟨rfl, rfl⟩ := Prod.mk.inj h
      exact ⟨hkept, fun o ho ↦ hothers o (List.ne_of_not_mem_cons ho),
        fun a _ _ ↦ ⟨[], server, servers, rfl, hbrought output rfl, fun o _ ho ↦ hothers o ho⟩⟩

/-! ## What is brought where -/

/-- What a session makes of a path. -/
theorem session_upload (srv : Server PyText) (faults : ℕ → Fault) (t : Tree PyText UInt8)
    (p : PyText) :
    (srv.session faults (publishLines false [tr.upload x]) t).1 p = t p ∨ p = tr.partOf x.tarName ∨
      p = tr.destOf x.tarName ∧ ∃ z, x.content x.tarPath = some z ∧
        (srv.session faults (publishLines false [tr.upload x]) t).1 p = some (.file z) := by
  rcases Server.session_path srv faults t separate_upload p with hp | ⟨u, hu, hp⟩
  · exact .inl hp
  · rw [List.mem_singleton.mp hu] at hp
    exact .inr hp

/-- A session that got through has brought the tar. -/
theorem session_upload_done {srv : Server PyText} {faults : ℕ → Fault} {t : Tree PyText UInt8}
    (h : (srv.session faults (publishLines false [tr.upload x]) t).2 = true) :
    ∃ z, x.content x.tarPath = some z ∧
      (srv.session faults (publishLines false [tr.upload x]) t).1 (tr.destOf x.tarName) =
        some (.file z) ∧
      (srv.session faults (publishLines false [tr.upload x]) t).1 (tr.partOf x.tarName) = none :=
  (Server.publish_cases srv faults 0 false t separate_upload).2 (Server.steps_of_session h) _
    List.mem_cons_self

/-- **A tar arrives whole or not at all**: on no server is its name left with a part of it, and when
it is reported done, one of the servers has it and no part of it, and the servers after that one
have not been touched. -/
theorem tar_arrives {answer : Except Exn Answer} (hsend : tr.Sendable x)
    (hdoc : calls.Documented replaces x.content)
    (hclear : ∀ s ∈ tr.servers, tr.Clear x (w.trees s))
    (h : tr.uploadTar calls x shown w = (w', answer)) :
    (∀ s p, w'.trees s p = w.trees s p ∨ s ∈ tr.servers ∧ (p = tr.partOf x.tarName ∨
      p = tr.destOf x.tarName ∧
        ∃ z, x.content x.tarPath = some z ∧ w'.trees s p = some (.file z))) ∧
    ∀ a, answer = .ok a → a.kind = .acked → ∃ failed s rest, tr.servers = failed ++ s :: rest ∧
      (∃ z, x.content x.tarPath = some z ∧
        w'.trees s (tr.destOf x.tarName) = some (.file z) ∧
        w'.trees s (tr.partOf x.tarName) = none) ∧
      ∀ o, o ∉ failed → o ≠ s → w'.trees o = w.trees o := by
  obtain ⟨hkeeps, hothers, hacked⟩ := uploadFrom_rule
    (I := fun s t ↦ (s ∈ tr.servers → tr.Clear x t) ∧ ∀ p, t p = w.trees s p ∨
      p = tr.partOf x.tarName ∨ p = tr.destOf x.tarName ∧
        ∃ z, x.content x.tarPath = some z ∧ t p = some (.file z))
    (D := fun t ↦ ∃ z, x.content x.tarPath = some z ∧ t (tr.destOf x.tarName) = some (.file z) ∧
      t (tr.partOf x.tarName) = none) hsend hdoc (fun s hs t ht ↦ ht.1 hs)
    (fun s faults t ht ↦ ⟨⟨fun hs ↦ (ht.1 hs).kept faults, fun p ↦
      (session_upload (textServer (replaces s)) faults t p).elim (fun hp ↦ hp ▸ ht.2 p) .inr⟩,
      session_upload_done⟩) (fun s ↦ ⟨hclear s, fun p ↦ .inl rfl⟩) h
  refine ⟨fun s p ↦ ?_, hacked⟩
  by_cases hs : s ∈ tr.servers
  · exact ((hkeeps s).2 p).imp_right fun hp ↦ ⟨hs, hp⟩
  · exact .inl (by rw [hothers s hs])

/-! ### Two gateways, the first of which is lost -/

/-- Two gateways, and a directory for the sockets. -/
def gateways : Transport where
  servers := [.ofString "gw1.wsprdaemon.org", .ofString "gw2.wsprdaemon.org"]
  sshControlDir := some
    { absolute := true
      parts := [.ofString "run", .ofString "hs-uploader"]
      wellFormed := by decide }

example : gateways.controlPath = some (.ofString "/run/hs-uploader/cm-%r@%h:%p") := by
  decide +kernel

/-- The gateways before the first tar. -/
def emptyGateways : World where
  trees _ p := if p = .ofString "uploads" then some .dir else none

/-- A tar of three bytes. -/
def smallTar : Parcel where
  identity := { call := .ofString "AC0G/B1", grid := .ofString "EM38ww" }
  tarPath := .ofString "/tmp/tmpa.tbz"
  tarName := .ofString "AC0G_B1_260824_1730.tbz"
  content _ := some [66, 90, 104]

/-- The connection of the first call is lost, and no other. -/
def failing (n : ℕ) : Connection := if n = 0 then lostCall else quietCall

/-- The calls on the way to the first gateway and to the second. -/
def failover : Calls := onServers (fun _ ↦ true) failing

theorem smallTar_text : joined (gateways.batchLines smallTar.tarPath smallTar.tarName) =
    .ofString ("put /tmp/tmpa.tbz uploads/AC0G_B1_260824_1730.tbz.part\n" ++
      "rename uploads/AC0G_B1_260824_1730.tbz.part uploads/AC0G_B1_260824_1730.tbz\n") := by
  decide +kernel

theorem smallTar_sendable : gateways.Sendable smallTar where
  legible := ⟨⟨by decide, by decide, by decide⟩,
    ⟨by decide, by decide, by decide⟩⟩
  whole := by
    intro batch hbatch
    rw [Transport.sftpBatchCmd, smallTar_text, PyText.encode_ofString] at hbatch
    obtain rfl := Except.ok.inj hbatch
    exact whole_of_length (by decide +kernel) (by decide +kernel)
  tidy := by
    constructor
    · decide
    · decide

theorem smallTar_clear :
    ∀ s ∈ gateways.servers, gateways.Clear smallTar (emptyGateways.trees s) := by
  have hclear : gateways.Clear smallTar (emptyGateways.trees []) :=
    ⟨by decide, by decide⟩
  exact fun _ _ ↦ hclear

/-- What a call comes to that ends by itself. -/
theorem runSftp_exited (tr : Transport) (replaces : PyText → Bool) (conns : ℕ → Connection) (n : ℕ)
    (server : PyText) (identity : Identity) (extraOpts : List (String × PyText)) (multiplex : Bool)
    (w : World) (hread : linesOf content batch = some ls) (hending : (conns n).ending = .exited)
    {ok : Bool} (hok : ((textServer (replaces server)).session (conns n).faults ls
      (w.trees server)).2 = ok) :
    ∃ w', tr.runSftp (onServers replaces conns) n content server batch identity extraOpts multiplex
        w = (w', .ok (if ok then 0 else (conns n).code, (conns n).output)) ∧
      ∀ o, o ≠ server → w'.trees o = w.trees o := by
  subst hok
  have hname : (tr.command server identity extraOpts multiplex).host = server := rfl
  simp only [Transport.runSftp, onServers, Connection.play, hread, hending, hname]
  exact ⟨_, rfl, fun o ho ↦ Function.update_of_ne ho _ _⟩

/-- A put whose first call ends by itself, and not over the server's key. -/
theorem sftpPut_exited {code : ℤ} {output : PyText}
    (hbatch : tr.sftpBatchCmd x.tarPath x.tarName = .ok batch)
    (hrun : tr.runSftp calls (2 * i) x.content server batch x.identity [] true w =
      (w', .ok (code, output)))
    (hkey : hostKeyErr output = false) :
    tr.sftpPut calls x i server w = (w', .ok (decide (code = 0), output)) := by
  rw [Transport.sftpPut, hbatch]
  dsimp only
  rw [hrun]
  dsimp only
  by_cases hcode : code = 0
  · rw [if_pos hcode, decide_eq_true hcode]
  · rw [if_neg hcode, hkey, decide_eq_false hcode]
    rfl

theorem uploadFrom_next {output : PyText}
    (h : tr.sftpPut calls x i server w = (w', .ok (false, output))) :
    tr.uploadFrom calls x shown i (server :: servers) w =
      tr.uploadFrom calls x shown (i + 1) servers w' := by
  rw [Transport.uploadFrom, h]

theorem uploadFrom_done {output : PyText}
    (h : tr.sftpPut calls x i server w = (w', .ok (true, output))) :
    tr.uploadFrom calls x shown i (server :: servers) w = (w', .ok (.acked 0)) := by
  rw [Transport.uploadFrom, h]

theorem failover_acked : ∃ w,
    gateways.uploadTar failover smallTar (.ofString "[]") emptyGateways = (w, .ok (.acked 0)) := by
  obtain ⟨batch, hbatch⟩ : ∃ batch,
      gateways.sftpBatchCmd smallTar.tarPath smallTar.tarName = .ok batch := by
    rw [Transport.sftpBatchCmd, smallTar_text, PyText.encode_ofString]
    exact ⟨_, rfl⟩
  have hread := linesOf_batch smallTar_sendable hbatch
  have hlost : ((textServer true).session lostCall.faults
      (publishLines false [gateways.upload smallTar])
      (emptyGateways.trees (.ofString "gw1.wsprdaemon.org"))).2 = false := by decide +kernel
  obtain ⟨w₁, hrun₁, htrees⟩ := runSftp_exited gateways (fun _ ↦ true) failing (2 * 0)
    (.ofString "gw1.wsprdaemon.org") smallTar.identity [] true emptyGateways hread rfl hlost
  have hquiet : ((textServer true).session quietCall.faults
      (publishLines false [gateways.upload smallTar])
      (w₁.trees (.ofString "gw2.wsprdaemon.org"))).2 = true := by
    rw [htrees _ (by decide)]
    decide +kernel
  obtain ⟨w₂, hrun₂, -⟩ := runSftp_exited gateways (fun _ ↦ true) failing (2 * 1)
    (.ofString "gw2.wsprdaemon.org") smallTar.identity [] true w₁ hread rfl hquiet
  have hlostKey : hostKeyErr (.ofString "Connection closed") = false := by decide
  have hrun₁' : gateways.runSftp failover (2 * 0) smallTar.content
      (.ofString "gw1.wsprdaemon.org") batch smallTar.identity [] true emptyGateways =
        (w₁, .ok (255, .ofString "Connection closed")) := hrun₁
  have hrun₂' : gateways.runSftp failover (2 * 1) smallTar.content
      (.ofString "gw2.wsprdaemon.org") batch smallTar.identity [] true w₁ =
        (w₂, .ok (0, [])) := hrun₂
  have hput₁ : gateways.sftpPut failover smallTar 0 (.ofString "gw1.wsprdaemon.org") emptyGateways =
      (w₁, .ok (false, .ofString "Connection closed")) := sftpPut_exited hbatch hrun₁' hlostKey
  have hput₂ : gateways.sftpPut failover smallTar 1 (.ofString "gw2.wsprdaemon.org") w₁ =
      (w₂, .ok (true, [])) := sftpPut_exited hbatch hrun₂' (by decide)
  have hservers : gateways.servers =
      [.ofString "gw1.wsprdaemon.org", .ofString "gw2.wsprdaemon.org"] := rfl
  refine ⟨w₂, ?_⟩
  rw [Transport.uploadTar, hservers, uploadFrom_next hput₁, uploadFrom_done hput₂]

theorem tar_arrives_gateways : ∃ w s,
    gateways.uploadTar failover smallTar (.ofString "[]") emptyGateways = (w, .ok (.acked 0)) ∧
      s ∈ gateways.servers ∧
      w.trees s (.ofString "uploads/AC0G_B1_260824_1730.tbz") = some (.file [66, 90, 104]) ∧
      w.trees s (.ofString "uploads/AC0G_B1_260824_1730.tbz.part") = none := by
  obtain ⟨w, hupload⟩ := failover_acked
  obtain ⟨-, hacked⟩ := tar_arrives smallTar_sendable (documented_onServers _ _ _) smallTar_clear
    hupload
  obtain ⟨failed, s, rest, hservers, ⟨z, hz, hd, hpart⟩, -⟩ := hacked _ rfl rfl
  obtain rfl := Option.some.inj hz
  refine ⟨w, s, hupload, ?_, hd, hpart⟩
  rw [hservers]
  exact List.mem_append_right failed List.mem_cons_self

end HsUploader.TarSftp
