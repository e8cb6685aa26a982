import HsUploader.Bytes
import HsUploader.Library.Prog
import HsUploader.Daemon.Toml

/-!
# What the daemon runs on

The daemon's main thread reads a directory that others write, calls builders, and talks to a store
that may be locked.  All of it is outside the daemon, and all of it may change between any two of
the daemon's steps.  `Host` is that outside as a function of the number of steps taken so far; a
`World` counts them.  Quantifying over hosts is quantifying over every interleaving of the
daemon's steps with everybody else's.

## What is here

* `Stat`, `File`, `Disk` — the directory at one instant.  A file is its `stat` and what a reader
  makes of its bytes; a listing may fail although the files stand there.
* `Host` — a disk for each step, what each builder answers at each step, what a pipeline's key is,
  and what the store and the switch files say.
* `Obj` and `Parts` — the sources and transports a built pipeline holds.  An object is told from all
  others by the step its entry was built at.
* `look` and `call` — the two kinds of steps: one that only reads, and one that may raise.
* `birth` — the identity of a new pipeline, which no earlier one has.
-/

set_option autoImplicit false

namespace HsUploader
namespace Daemon

/-- An `OSError`: the absence of the file, or any other, by its type's name and its text. -/
inductive OsError where
  | notFound
  | other (type text : String)
  deriving DecidableEq, Repr

/-- `str(exc)`. -/
def OsError.text : OsError → String
  | notFound => "[Errno 2] No such file or directory"
  | other _ text => text

/-- `_stat_key(st)`: modification time in ns, size, inode. -/
structure StatKey where
  mtimeNs : ℤ
  size : ℕ
  inode : ℕ
  deriving DecidableEq, Repr

/-- `os.stat`: the key, and whether the file is a regular one. -/
structure Stat where
  key : StatKey
  regular : Bool := true
  deriving DecidableEq, Repr

/-- What reading one file as TOML gives: its table, or the text of what went wrong. -/
abbrev Parsed := Except String Entry

/-- One file of the directory: its `stat`, and what a reader makes of its bytes. -/
structure File where
  stat : Except OsError Stat
  parsed : Parsed

/-- `pipelines.d/` at one instant.  `names` is what stands in the directory; `fault` is what
`os.listdir` answers instead of it. -/
structure Disk where
  top : Except OsError StatKey
  names : List String := []
  fault : Option OsError := none
  file : String → File

/-- `os.listdir(pdir)`. -/
def Disk.listing (d : Disk) : Except OsError (List String) :=
  match d.fault with
  | some e => .error e
  | none => .ok d.names

/-- A send-record key: source, destination, table. -/
abbrev Key := String × String × String

/-- Which of the objects that building its entry made a pipeline holds. -/
structure Parts where
  source : ℕ := 0
  transport : ℕ := 0
  fallback : Option ℕ := none
  deriving DecidableEq

/-- A source or a transport: the step its entry was built at and its number among the entry's, and
of a source whether it has a `producer`. -/
inductive Obj where
  | source (entry number : ℕ) (producer : Bool)
  | transport (entry number : ℕ)
  deriving DecidableEq

/-- The step the object's entry was built at. -/
def Obj.entry : Obj → ℕ
  | source entry _ _ => entry
  | transport entry _ => entry

/-- The main thread, or the thread a pipeline pumps on. -/
inductive Thread where
  | main
  | pump (id : ℕ)
  deriving DecidableEq

/-- What building one pipeline gives, apart from what the daemon itself sets on it. -/
structure Made where
  name : String
  /-- `pipeline_key(p)`, which asks the source and the transports. -/
  key : Except Exn Key
  /-- The source has a `producer`. -/
  producer : Bool := false
  /-- The transport is the heartbeat's, discard wrappers apart. -/
  heartbeat : Bool := false
  /-- The source offers `initial_cursor()`. -/
  initial : Bool := false
  parts : Parts := {}

/-- Everything outside the daemon, by the number of steps taken. -/
structure Host where
  disk : ℕ → Disk
  /-- A generic entry's source and transport, for one origin. -/
  generic : ℕ → Entry → String → Except Exn Made
  /-- A `builder` entry: resolving and calling it. -/
  builder : ℕ → Entry → Except Exn (List Made)
  /-- `watermark.refresh_schema_version()`. -/
  schemaVersion : ℕ → Except Exn ℕ := fun _ ↦ .ok 3
  /-- `watermark.record_pipeline_states(rows, replace=True)` raises. -/
  recordStates : ℕ → Except Exn Unit := fun _ ↦ .ok ()
  /-- `os.lstat(marker)`. -/
  marker : ℕ → Except OsError Unit := fun _ ↦ .error .notFound
  /-- `sinks.is_dir()`. -/
  sinks : ℕ → Except Exn Bool := fun _ ↦ .ok false
  /-- `effective_state(client).state`. -/
  switch : ℕ → String → Except Exn String := fun _ _ ↦ .ok "off"
  /-- Swapping the running set; what raises there does so before an object is closed. -/
  swap : ℕ → Except Exn Unit := fun _ ↦ .ok ()
  /-- Reaching the store of send records. -/
  store : ℕ → Except Exn Unit := fun _ ↦ .ok ()
  /-- `source.initial_cursor()` of a pipeline, by its identity. -/
  initialCursor : ℕ → ℕ → Except Exn (Option Bytes) := fun _ _ ↦ .ok none

/-- The daemon's own part of the state: the steps taken, the pipelines made, and the objects it has
closed, each with the thread it closed on. -/
structure World where
  now : ℕ := 0
  born : ℕ := 0
  closed : List (Obj × Thread) := []

/-- A step that reads the outside. -/
def look {α : Type} (f : ℕ → α) : Prog World Exn α :=
  Prog.act fun w ↦ (f w.now, { w with now := w.now + 1 })

/-- A step outside that may raise. -/
def call {α : Type} (f : ℕ → Except Exn α) : Prog World Exn α := do
  Prog.ofExcept (← look f)

/-- The number of steps taken. -/
def present : Prog World Exn ℕ := Prog.act fun w ↦ (w.now, w)

/-- A new pipeline's identity. -/
def birth : Prog World Exn ℕ := Prog.act fun w ↦ (w.born, { w with born := w.born + 1 })

section rules

variable {α : Type} {Q : α → World → Prop} {E : Exn → World → Prop} {S : World → Prop} {w : World}

@[simp] theorem wp_look (f : ℕ → α) :
    Prog.wp (look f) Q E S w = Q (f w.now) { w with now := w.now + 1 } := rfl

theorem wp_call (f : ℕ → Except Exn α) :
    Prog.wp (call f) Q E S w =
      (match f w.now with
        | .ok a => Q a { w with now := w.now + 1 }
        | .error e => E e { w with now := w.now + 1 }) := by
  rw [call, Prog.wp_bind, wp_look, Prog.wp_ofExcept]
  cases f w.now <;> rfl

@[simp] theorem wp_present {T : ℕ → World → Prop} :
    Prog.wp present T E S w = T w.now w := rfl

@[simp] theorem wp_birth {T : ℕ → World → Prop} :
    Prog.wp birth T E S w = T w.born { w with born := w.born + 1 } := rfl

end rules

end Daemon
end HsUploader
