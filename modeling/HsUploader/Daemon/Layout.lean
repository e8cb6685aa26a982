import HsUploader.Daemon.Host
import HsUploader.Sources.WsprCycle

/-!
# Reading `pipelines.d/`

`pipelinesSignature` takes the directory's signature, one `stat` a step; `loadLayout` takes it
first, then lists the directory again and reads file after file.  The reading is kept apart from
what is made of it: `readFiles` is the part that others can interleave with, `layoutOf` a function
of what was read.

## What is here

* `originFor`, `isPipelineFile`, `validClientName` — what the name of a file says.
* `pipelinesSignature` — the directory's key, then the key of each file in the order of the names.
* `checkFile` — the checks of one file: its client, and each entry's name, type, start and flag.
  The first that fails is the reason the file is refused.
* `readFiles` and `judge` — what opening, reading and parsing a file comes to; a file that is gone
  by then is a refusal too.
* `legacyEntries` — a client with a file in the directory has no legacy entry, whether that file is
  accepted or not.
* `loadLayout` — the reading and the layout of it.
-/

set_option autoImplicit false

namespace HsUploader
namespace Daemon

def PIPELINES_DIR : String := "pipelines.d"

def LEGACY : String := "legacy"

/-- `origin_for(filename)`. -/
def originFor (filename : String) : String := PIPELINES_DIR ++ "/" ++ filename

/-- `is_pipeline_file(filename)`. -/
def isPipelineFile (filename : String) : Bool :=
  ".toml".toList.isSuffixOf filename.toList && !".".toList.isPrefixOf filename.toList

/-- `filename[: -len(".toml")]`. -/
def stem (filename : String) : String := String.ofList (filename.toList.take (filename.length - 5))

/-- `valid_client_name(name)`. -/
def validClientName (name : String) : Bool :=
  let letter (c : Char) := c.isLower || c.isDigit
  match name.toList with
  | [] => false
  | c :: cs => letter c && cs.all (fun c ↦ letter c || c = '-') && name ≠ "site"

/-- `file_client(filename)`. -/
def fileClient (filename : String) : Option String :=
  if isPipelineFile filename && validClientName (stem filename) then some (stem filename) else none

/-- A pipeline file the daemon refused whole, and why: `Refusal`. -/
structure Refusal where
  file : String
  client : String
  reason : String
  deriving DecidableEq, Repr

/-- `refusal.row_name`. -/
def Refusal.rowName (r : Refusal) : String := originFor r.file

/-- The legacy manifest, the part of it a build reads: its `[[pipeline]]` tables. -/
structure Manifest where
  pipeline : List Entry := []

/-- `pipelines_signature`'s answer. -/
inductive Signature where
  | missing
  | error (type : String)
  | listed (top : StatKey) (files : List (String × Option StatKey))
  deriving DecidableEq, Repr

/-- What the daemon will try to build: `Layout`. -/
structure Layout where
  entries : List (Entry × String)
  refused : List Refusal
  signature : Signature

/-! ## The signature -/

/-- `sorted(names)`. -/
def sortNames (names : List String) : List String := names.insertionSort (· ≤ ·)

/-- Stat every name, in order; a name that cannot be read counts as `None`. -/
def statFiles (h : Host) : List String → Prog World Exn (List (String × Option StatKey))
  | [] => pure []
  | name :: names => do
    let st ← look fun n ↦ ((h.disk n).file name).stat.toOption.map Stat.key
    let rest ← statFiles h names
    pure ((name, st) :: rest)

/-- `pipelines_signature(pdir)`. -/
def pipelinesSignature (h : Host) : Prog World Exn Signature := do
  match ← look fun n ↦ (h.disk n).top with
  | .error .notFound => pure .missing
  | .error (.other type _) => pure (.error type)
  | .ok top =>
    match ← look fun n ↦ (h.disk n).listing with
    | .error .notFound => pure .missing
    | .error (.other type _) => pure (.error type)
    | .ok names =>
      let files ← statFiles h (sortNames names)
      pure (.listed top files)

/-! ## Reading -/

/-- `text.strip().lower()`. -/
def stripLower (text : String) : List Char :=
  ((text.toList.dropWhile WsprCycleSource.isStripped).rdropWhile
    WsprCycleSource.isStripped).map WsprCycleSource.pyLower

/-- `_start_at_problem(source)`. -/
def startAtProblem (source : Entry) : Option String :=
  match source.get "start_at" with
  | none => none
  | some value =>
    if value.eq (.str "now") then
      some "start_at = \"now\" is not allowed in a pipeline file"
    else
      let type := match source.get "type" with
        | some t => t.pyStr
        | none => ""
      if stripLower type = "wspr_cycle".toList ∧ ¬ value.eq (.str "beginning") then
        some (s!"start_at = {value.repr}: a wspr_cycle source reads it as now; "
          ++ "a pipeline file may name only \"beginning\"")
      else none

/-- One entry of a pipeline file, the `i`-th: `_check_file`'s loop body. -/
def checkEntry (client : String) (i : ℕ) (entry : Entry) : Except String Entry :=
  let label := match entry.get "name" with
    | some v => if v.truthy then v.repr else Toml.reprText s!"entry {i + 1}"
    | none => Toml.reprText s!"entry {i + 1}"
  match entry.get "client" with
  | some named =>
    if named.eq (.str client) then rest label entry
    else .error (s!"pipeline {label} names client {named.repr}; "
      ++ s!"the file's name gives {Toml.reprText client}")
  | none => rest label entry
where
  /-- The checks after the client's. -/
  rest (label : String) (entry : Entry) : Except String Entry :=
    match (entry.get "governed").getD (.bool true) with
    | .bool _ =>
      match entry.get "source" with
      | some (.table source) =>
        match startAtProblem source with
        | some reason => .error s!"pipeline {label}: {reason}"
        | none => .ok (Table.upsert "client" (.str client) entry)
      | _ => .ok (Table.upsert "client" (.str client) entry)
    | _ => .error s!"pipeline {label}: governed must be true or false"

/-- `_check_file`'s loop, from the `i`-th entry on. -/
def checkEntries (client : String) : ℕ → List Entry → Except String (List Entry)
  | _, [] => .ok []
  | i, entry :: entries => do
    let e ← checkEntry client i entry
    let es ← checkEntries client (i + 1) entries
    pure (e :: es)

/-- The tables of a list of values, when each is one. -/
def tables : List Toml → Option (List Entry)
  | [] => some []
  | .table ms :: vs => (tables vs).map (ms :: ·)
  | _ :: _ => none

/-- `_check_file(filename, data)`: the entries with `client` set, or the reason to refuse. -/
def checkFile (filename : String) (data : Entry) : Except String (List Entry) :=
  if (data.get "daemon").isSome then
    .error "a [daemon] table is host-wide; it belongs in the legacy manifest"
  else
    match data.get "identity" with
    | some (.table ident) =>
      if (ident.lookup "ssh_key_file").isSome then
        .error ("[identity] names ssh_key_file, a host-wide setting; "
          ++ "it belongs in the legacy manifest")
      else rest
    | some _ => .error "identity must be a table"
    | none => rest
where
  /-- The checks after the identity's. -/
  rest : Except String (List Entry) :=
    match (data.get "pipeline").getD (.arr []) with
    | .arr items =>
      match tables items with
      | some raw => checkEntries (stem filename) 0 raw
      | none => .error "pipeline must be an array of tables ([[pipeline]])"
    | _ => .error "pipeline must be an array of tables ([[pipeline]])"

/-- What came of reading one file. -/
inductive Seen where
  | illegal
  | notRegular
  | broken (text : String)
  | data (table : Entry)

/-- Read one file of the directory.  A file with an illegal name is not opened. -/
def readFile (h : Host) (name : String) : Prog World Exn Seen :=
  if fileClient name = none then pure .illegal
  else do
    match ← look fun n ↦ ((h.disk n).file name).stat with
    | .error e => pure (.broken e.text)
    | .ok st =>
      if st.regular then do
        match ← look fun n ↦ ((h.disk n).file name).parsed with
        | .error text => pure (.broken text)
        | .ok table => pure (.data table)
      else pure .notRegular

/-- Read file after file. -/
def readFiles (h : Host) : List String → Prog World Exn (List (String × Seen))
  | [] => pure []
  | name :: names => do
    let seen ← readFile h name
    let rest ← readFiles h names
    pure ((name, seen) :: rest)

/-- The entries of a file that was read, or why it is refused. -/
def judge (name : String) : Seen → Except String (List Entry)
  | .illegal => .error (Toml.reprText (stem name)
      ++ " is not a legal client name ([a-z0-9][a-z0-9-]*, not 'site')")
  | .notRegular => .error "not a regular file"
  | .broken text => .error s!"cannot read: {text}"
  | .data table => checkFile name table

/-- The pipeline files of a listing, sorted.  A directory that is absent or cannot be listed gives
none. -/
def listedFiles : Except OsError (List String) → List String
  | .ok names => sortNames (names.filter isPipelineFile)
  | .error _ => []

/-- The legacy entries no present file silences. -/
def legacyEntries (manifest : Manifest) (present : List String) : List Entry :=
  manifest.pipeline.filter fun e ↦ e.text "client" "" ∉ present

/-- The layout of what was read. -/
def layoutOf (manifest : Manifest) (signature : Signature) (seen : List (String × Seen)) :
    Layout where
  entries := (legacyEntries manifest (seen.map fun s ↦ stem s.1)).map (·, LEGACY)
    ++ seen.flatMap fun s ↦
      match judge s.1 s.2 with
      | .ok es => es.map (·, originFor s.1)
      | .error _ => []
  refused := seen.filterMap fun s ↦
    match judge s.1 s.2 with
    | .ok _ => none
    | .error reason => some ⟨s.1, stem s.1, reason⟩
  signature

/-- The reading part of `load_layout`: the signature, then the files. -/
def readDirectory (h : Host) : Prog World Exn (Signature × List (String × Seen)) := do
  let signature ← pipelinesSignature h
  let listing ← look fun n ↦ (h.disk n).listing
  let seen ← readFiles h (listedFiles listing)
  pure (signature, seen)

/-- `load_layout(manifest_path, manifest=manifest)`. -/
def loadLayout (h : Host) (manifest : Manifest) : Prog World Exn Layout := do
  let r ← readDirectory h
  pure (layoutOf manifest r.1 r.2)

end Daemon
end HsUploader
