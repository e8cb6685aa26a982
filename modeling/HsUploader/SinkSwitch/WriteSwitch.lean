import HsUploader.Daemon.Layout
import HsUploader.SinkSwitch.ReadSwitch
import HsUploader.SinkSwitch.Rewritten

/-!
# Changing a switch file: `write_switch`

Under the lock of its directory a call reads the switch file, changes the dict it holds, adds one
entry to the dict's history and puts a new file in the place of the old one.  What the operating
system answers to each of its steps is outside (`Os`), and any of them may fail.

The calls on one file come one after another, so the file between two calls is all there is to say
about them: `writeSwitch` takes the bytes that stand at the path, if there is a file, and gives the
bytes that stand there afterwards.
-/

set_option autoImplicit false

namespace HsUploader.SinkSwitch

/-! ## Outside -/

/-- What the standard library brings, beside `Interpreter`. -/
structure Stdlib (fl : Floats) extends Interpreter fl.Finite where
  /-- A value counts as true in an `or`. -/
  truthy : Value fl.Finite → Bool
  /-- `tomllib.loads` gives dicts: no key stands in one twice. -/
  distinct : ∀ text d, toInterpreter.loads text = .ok d → Distinct (Value.table d).parts
  /-- `str(n)` gives the digits: they are not too many. -/
  printable : ℤ → Bool
  /-- It is the parser of `Tomllib`, where that parser reads a text and no integer in it has too
  many digits. -/
  loads_eq : ∀ text d, SinkSwitch.loads fl text = some d → Distinct (Value.table d).parts →
    (∀ n, .int n ∈ (Value.table d).parts → printable n) → toInterpreter.loads text = .ok d

/-- What `lstat` finds at the path. -/
inductive Stat where
  | missing
  | replaceable
  | irregular
  | raises (e : Exn)

/-- What opening a temporary file under a new name comes to. -/
inductive Opened where
  | opened
  | exists
  | raises (e : Exn)

/-- What the operating system answers to the steps of one call.  `none` is success, and `some` the
exception that is raised. -/
structure Os where
  isDir : Bool
  mkdir : Option Exn
  chmodDir : Option Exn
  openLock : Option Exn
  chmodLock : Option Exn
  /-- The clock when the wait for the lock begins. -/
  waits : ℚ
  /-- The clock after each try at which another held the lock. -/
  held : List ℚ
  /-- The try after these. -/
  lock : Option Exn
  /-- The text of the `OSError` of `stat` or `read_bytes`. -/
  unreadable : Option Text
  /-- What `dumps_toml` or the encoding of its text raises that is no `TypeError`, as for tables
  that are nested too deeply. -/
  emit : Option Exn
  stat : Stat
  temp : ℕ → Opened
  chmodTemp : Option Exn
  /-- What was written when the write raised, and what it raised. -/
  write : Option (Bytes × Exn)
  syncTemp : Option Exn
  replace : Option Exn
  /-- Removing the temporary file raises something else than `FileNotFoundError`. -/
  unlink : Option Exn
  syncDir : Option Exn
  closeLock : Option Exn

/-- A step of the operating system. -/
def step : Option Exn → Except Exn Unit
  | none => .ok ()
  | some e => .error e

/-! ## The change -/

section

variable {F : Type}

/-- What a caller asks for: `change`, whose tables are dicts. -/
structure Change (F : Type) where
  state : Option (Value F)
  setAt : Option (Value F) := none
  setBy : Option (Value F) := none
  reason : Option (Value F) := none
  grant : Members F := []
  identity : Members F := []

/-- `SITE`. -/
def site : Text := "site".toList

/-- `_check_path(path)`, on the parts of the path. -/
def checkPath (parts : List String) : Except Exn Text :=
  let file := parts.getLastD ""
  if parts.contains ".." || !(".toml".toList.isSuffixOf file.toList) then
    .error (.valueError "not a switch file path")
  else
    let name := Daemon.stem file
    if name ≠ "site" && !Daemon.validClientName name then
      .error (.valueError "not a switch file path")
    else .ok name.toList

local instance lawfulText : LawfulBEq Text := inferInstance

/-- The state of the change, where it is one of `STATES`. -/
def newState (change : Change F) : Except Exn Text :=
  match change.state with
  | some (.str s) =>
    if s ∈ states then .ok s else .error (.valueError "state is not one of off/fill/upload")
  | _ => .error (.valueError "state is not one of off/fill/upload")

/-- `{**old, **new}`. -/
def merged (old new : Members F) : Members F := new.foldl (fun ms m ↦ setItem ms m.1 m.2) old

/-- `{**v}`, for what the dict may hold under `grant`. -/
def tableOf : Option (Value F) → Except Exn (Members F)
  | none => .ok []
  | some (.table ms) => .ok ms
  | some _ => .error (.typeError "object is not a mapping")

/-- `list(v)`, for what the dict may hold under `history`. -/
def listOf : Option (Value F) → Except Exn (List (Value F))
  | none => .ok []
  | some (.arr items) => .ok items
  | some (.table ms) => .ok (ms.map fun m ↦ .str m.1)
  | some (.str s) => .ok (s.map fun c ↦ .str [c])
  | some _ => .error (.typeError "object is not iterable")

/-- The history entry of a call. -/
def entryOf (name : Text) (change : Change F) (at_ old new : Value F) : Members F :=
  [("at".toList, at_), ("from".toList, old), ("to".toList, new),
    ("by".toList, change.setBy.getD (.str [])), ("reason".toList, change.reason.getD (.str []))] ++
  if name ≠ site ∧ change.identity ≠ [] then [("identity".toList, .table change.identity)] else []

/-- The dict with what every change sets. -/
def stamped (name : Text) (change : Change F) (at_ new : Value F) (data : Members F) :
    Members F :=
  let data := if name ≠ site then setItem data "client".toList (.str name) else data
  let data := setItem data "state".toList new
  let data := setItem data "reason".toList (change.reason.getD (.str []))
  let data := setItem data "set_by".toList (change.setBy.getD (.str []))
  setItem data "set_at".toList at_

/-- The dict with the grant of the change in its own. -/
def granted (change : Change F) (data : Members F) : Except Exn (Members F) :=
  if change.grant ≠ [] then do
    let grant ← tableOf (data.lookup "grant".toList)
    pure (setItem data "grant".toList (.table (merged grant change.grant)))
  else pure data

/-- The dict after the change. -/
def changed (name : Text) (change : Change F) (at_ new : Value F) (cur : SwitchRead F) :
    Except Exn (Members F) := do
  let data ← granted change (stamped name change at_ new cur.data)
  let old := Value.str (cur.state.getD "off".toList)
  let items ← listOf (data.lookup "history".toList)
  pure (setItem data "history".toList
    (.arr (items ++ [.table (entryOf name change at_ old new)])))

end

/-! ## The call -/

section

variable {fl : Floats} (lib : Stdlib fl)

/-- The wait for the lock: a try that finds it held after the deadline ends it. -/
def takeLock (os : Os) : List ℚ → Except Exn Unit
  | [] => step os.lock
  | now :: rest =>
    if os.waits + 10 ≤ now then .error (.other "TimeoutError" "could not take the switch lock")
    else takeLock os rest

/-- `read_switch(path, cache=False)`. -/
def readNow (os : Os) (path : Text) (file : Option Bytes) : Except Exn (SwitchRead fl.Finite) :=
  match os.unreadable with
  | some e => .ok (.unreadable path e)
  | none => parse lib.toInterpreter path file

/-- What the file said before. -/
def before {F : Type} (cur : SwitchRead F) : Text :=
  match cur.state with
  | some s => s
  | none => if cur.missing then "missing".toList else "invalid".toList

/-- `change.get("set_at") or _now()`. -/
def timeOf (change : Change fl.Finite) (now : Text) : Value fl.Finite :=
  match change.setAt with
  | some v => if lib.truthy v then v else .str now
  | none => .str now

/-- An integer of the value has no text. -/
def unprintable (v : Value fl.Finite) : Bool :=
  v.parts.any fun
    | .int n => !lib.printable n
    | _ => false

/-- `write_switch` under the lock, up to `_atomic_write`: the answer and the bytes to write. -/
def underLock (os : Os) (path name state : Text) (change : Change fl.Finite) (now : Text)
    (file : Option Bytes) : Except Exn (Text × Bytes) := do
  step os.chmodLock
  takeLock os os.held
  let cur ← readNow lib os path file
  if cur.failed then throw (.valueError "refusing to rewrite a broken switch file")
  let data ← changed name change (timeOf lib change now) (.str state) cur
  step os.emit
  if unprintable lib (.table data) then
    throw (.valueError "Exceeds the limit for integer string conversion")
  match dumpsToml fl data with
  | .error e => throw (.valueError ("cannot re-emit this file (" ++ e ++ ")"))
  | .ok text => pure (before cur, encodeUtf8 text)

/-- The names `_atomic_write` tries for its temporary file. -/
def openTemp (os : Os) : ℕ → ℕ → Except Exn Unit
  | 0, _ => .error (.other "OSError" "could not create a temporary file")
  | tries + 1, n =>
    match os.temp n with
    | .opened => .ok ()
    | .exists => openTemp os tries (n + 1)
    | .raises e => .error e

/-- The temporary file once it is open: what is in it, and what was raised. -/
def fillTemp (os : Os) (data : Bytes) : Bytes × Option Exn :=
  match os.chmodTemp with
  | some e => ([], some e)
  | none =>
    match os.write with
    | some (part, e) => (part, some e)
    | none => (data, os.syncTemp)

/-- How `_atomic_write` and `write_switch` end: with an answer, with an exception before the file
was replaced, or with one in the sync of the directory or after it. -/
inductive Ended (α : Type) where
  | returned (answer : α)
  | failed (e : Exn)
  | late (e : Exn)
  deriving DecidableEq

/-- `_atomic_write(path, data, mode)`, with the file at the path before and after. -/
def atomicWrite (os : Os) (data : Bytes) (file : Option Bytes) : Ended Unit × Option Bytes :=
  match os.stat with
  | .raises e => (.failed e, file)
  | .irregular => (.failed (.other "OSError" "not a regular file; refusing to replace it"), file)
  | .missing | .replaceable =>
    match openTemp os 100 0 with
    | .error e => (.failed e, file)
    | .ok () =>
      match fillTemp os data with
      | (_, some e) => (.failed (os.unlink.getD e), file)
      | (temp, none) =>
        match os.replace with
        | some e => (.failed (os.unlink.getD e), file)
        | none =>
          match os.syncDir with
          | some e => (.late e, some temp)
          | none => (.returned (), some temp)

/-- The steps before the lock is open: the name of the file and the new state. -/
def openLock (os : Os) (parts : List String) (change : Change fl.Finite) :
    Except Exn (Text × Text) := do
  let name ← checkPath parts
  let state ← newState change
  if !os.isDir then
    step os.mkdir
    step os.chmodDir
  step os.openLock
  pure (name, state)

/-- The path as a text: the first part of an absolute path is its `/`. -/
def pathText : List String → Text
  | "/" :: parts => '/' :: "/".toList.intercalate (parts.map String.toList)
  | parts => "/".toList.intercalate (parts.map String.toList)

/-- `write_switch(path, change)`, with the file at the path before and after. -/
def writeSwitch (os : Os) (parts : List String) (change : Change fl.Finite) (now : Text)
    (file : Option Bytes) : Ended Text × Option Bytes :=
  match openLock os parts change with
  | .error e => (.failed e, file)
  | .ok (name, state) =>
    match underLock lib os (pathText parts) name state change now file with
    | .error e => (.failed (os.closeLock.getD e), file)
    | .ok (answer, data) =>
      match atomicWrite os data file with
      | (.failed e, file) => (.failed (os.closeLock.getD e), file)
      | (.late e, file) => (.late (os.closeLock.getD e), file)
      | (.returned (), file) =>
        match os.closeLock with
        | some e => (.late e, file)
        | none => (.returned answer, file)

end

end HsUploader.SinkSwitch
