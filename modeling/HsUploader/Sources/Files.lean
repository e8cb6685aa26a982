import Mathlib.Data.List.Sort
import HsUploader.Core.Types

/-!
# The source of files: `FileTreeSource`

The files below a root that match a pattern, oldest first, a batch of at most `limit` files at a
time.  With `delete_on_ack` the files of a batch are deleted once it is acked, and the directories
that this empties are pruned; with `keep` the files stay, and the cursor is the latest modification
time of the batch.

The patterns and the parsers are the caller's.  A set of paths is iterated in an order of Python's
own (`SetOrder`), and the limits of a `datetime` and the floats of old cursors are the
interpreter's.

## What is here

* `Entry` and `SetOrder` — the tree, and the order of a Python set.
* `Item`, `Answer`, `FileSpec` — what a parser may come to, an exception while its items are read
  among it.
* `Interpreter` — the years of a `datetime` and the texts of floats, as parameters.
* `collectFiles`, `recordsOf`, `batchOf`, `iterBatches` — a poll: files, window, records, batch.
* `encodeKeepCursor` and `decodeKeepCursor` — the cursor of `keep`.
* `unlinkAll`, `prune`, `commit` — the files of a token, and the directories above them, tried in a
  worklist.
-/

set_option autoImplicit false

namespace HsUploader.Files

/-! ## Files -/

/-- The parts of a path. -/
abbrev Path := List String

/-- `path.parent`. -/
def parent (p : Path) : Path := p.dropLast

/-- What stands at a path. -/
inductive Kind where
  | file
  | dir
  | other
  deriving DecidableEq

/-- An entry of the tree. -/
structure Entry where
  path : Path
  kind : Kind
  mtimeNs : ℤ
  /-- What `read_bytes` gives; `none` where it raises `OSError`. -/
  content : Option Bytes := none
  deriving DecidableEq

/-- An order in which a set is iterated. -/
structure SetOrder (α : Type) where
  order : List α → List α
  perm : ∀ l, (order l).Perm l

/-! ## Parsers -/

/-- A mapping a parser answers: its `time`, where that is a `datetime`, and its other items. -/
structure Item (C : Type) where
  time : Option Instant := none
  columns : C

/-- What a parser comes to.  The items of an iterable are read after the call, and reading them may
raise, as it does when what was returned is no iterable of mappings at all. -/
inductive Answer (C : Type) where
  | raises (e : Exn)
  | mapping (item : Item C)
  | iterable (items : List (Item C)) (raised : Option Exn)

/-- `FileSpec`. -/
structure FileSpec (C : Type) where
  /-- `root.rglob(pattern)` gives the path. -/
  globs : Path → Bool
  /-- `path.match(pattern)`. -/
  pathMatch : Path → Bool
  parser : Option (Path → Bytes → Answer C) := none
  table : String := "files"

/-- What the interpreter brings. -/
structure Interpreter (C : Type) where
  /-- `datetime.fromtimestamp(st_mtime, tz=utc)`, from the nanoseconds of the time; it raises for a
  year that a `datetime` has not. -/
  fromMtime : ℤ → Except Exn Instant
  /-- `int(float(text) * 1_000_000_000)`. -/
  floatNs : List Char → Except Exn ℤ
  /-- `{"path": str(path)}`. -/
  pathColumns : Path → C

/-! ## Cursors -/

/-- `_encode_keep_cursor`. -/
def encodeKeepCursor (mtimeNs : ℤ) : Bytes := .ofInt mtimeNs

/-- `_decode_keep_cursor`. -/
def decodeKeepCursor {C : Type} (it : Interpreter C) (cursor : Bytes) : Except Exn ℤ :=
  if cursor.isEmpty then .ok 0
  else
    match cursor.decodeAscii with
    | none => .ok 0
    | some text =>
      match pyInt text with
      | some n => .ok n
      | none =>
        match it.floatNs text with
        | .error (.valueError _) => .ok 0
        | ns => ns

/-- `_keep_cursor_decodes`. -/
def keepCursorDecodes {C : Type} (it : Interpreter C) (cursor : Bytes) : Except Exn Bool :=
  match cursor.decodeAscii with
  | none => .ok false
  | some text =>
    match pyInt text with
    | some _ => .ok true
    | none =>
      match it.floatNs text with
      | .ok _ => .ok true
      | .error (.valueError _) | .error (.overflowError _) => .ok false
      | .error e => .error e

/-! ## The source -/

/-- A record of a batch, with the file it came from. -/
structure FileRecord (C : Type) where
  table : String
  time : Instant
  columns : C
  file : Entry

/-- A batch; its token is the JSON of a list of paths, kept as the list. -/
structure FileBatch (C : Type) where
  records : List (FileRecord C)
  cursorAfter : Bytes
  commitToken : List Path

/-- The configuration of a `FileTreeSource`. -/
structure FileTreeSource (C : Type) where
  root : Path
  specs : List (FileSpec C)
  /-- `retention` is `"keep"`. -/
  keep : Bool := false
  pruneEmptyDirs : Bool := true
  matchDirs : Bool := false

namespace FileTreeSource

variable {C : Type} (src : FileTreeSource C) (it : Interpreter C)

/-- `_spec_for`: the first spec that matches. -/
def specFor (p : Path) : Option (FileSpec C) := src.specs.find? fun spec ↦ spec.pathMatch p

/-- The entry is one to ship. -/
def wanted (e : Entry) : Bool :=
  (src.specs.any fun spec ↦ spec.globs e.path) &&
    (e.kind = .file || src.matchDirs && e.kind = .dir)

/-- `_collect_files`. -/
def collectFiles (ord : SetOrder Entry) (tree : List Entry) : List Entry :=
  (ord.order (tree.filter src.wanted)).mergeSort fun a b ↦ a.mtimeNs ≤ b.mtimeNs

/-- The items of one file.  A file that cannot be read and one whose parser raises have none; the
loop over the items of an iterable is not guarded. -/
def itemsOf (spec : FileSpec C) (e : Entry) : Except Exn (List (Item C)) :=
  match spec.parser with
  | none => .ok [{ columns := it.pathColumns e.path }]
  | some parser =>
    match e.content with
    | none => .ok []
    | some payload =>
      match parser e.path payload with
      | .raises _ => .ok []
      | .mapping item => .ok [item]
      | .iterable items none => .ok items
      | .iterable _ (some e) => .error e

/-- What a file parses to. -/
def parse (e : Entry) : Except Exn (List (Item C)) :=
  match src.specFor e.path with
  | none => .ok []
  | some spec => itemsOf it spec e

/-- The records of one file. -/
def recordsOf (e : Entry) : Except Exn (List (FileRecord C)) :=
  match src.specFor e.path with
  | none => pure []
  | some spec => do
    -- not guarded either
    let mtime ← it.fromMtime e.mtimeNs
    let items ← itemsOf it spec e
    pure (items.map fun item ↦
      { table := spec.table, time := item.time.getD mtime, columns := item.columns, file := e })

/-- The files past the cursor, all of them with `delete_on_ack`. -/
def afterCursor (cursor : Bytes) (files : List Entry) : Except Exn (List Entry) :=
  if src.keep then do
    let after ← decodeKeepCursor it cursor
    pure (files.filter fun e ↦ after < e.mtimeNs)
  else pure files

/-- The latest modification time of the files of some records. -/
def latestMtime (records : List (FileRecord C)) : ℤ :=
  ((records.map fun r ↦ r.file.mtimeNs).max?).getD 0

/-- The batch of the records. -/
def batchOf (records : List (FileRecord C)) : FileBatch C :=
  if src.keep then
    { records, cursorAfter := encodeKeepCursor (latestMtime records), commitToken := [] }
  else
    { records
      cursorAfter := .ofAscii "<delete-on-ack>".toList
      commitToken := (records.map fun r ↦ r.file.path).eraseDups }

/-- `iter_batches`; the tree is `none` where the root does not exist. -/
def iterBatches (ord : SetOrder Entry) (tree : Option (List Entry)) (cursor : Bytes) (limit : ℕ) :
    Except Exn (Option (FileBatch C)) :=
  match tree with
  | none => pure none
  | some entries =>
    let files := src.collectFiles ord entries
    if files.isEmpty then pure none
    else do
      let files ← src.afterCursor it cursor files
      let records ← (files.take limit).mapM (src.recordsOf it)
      if records.flatten.isEmpty then pure none
      else pure (some (src.batchOf records.flatten))

/-- `cursor_is_after`. -/
def cursorIsAfter (new stored : Bytes) : Except Exn Bool :=
  if !src.keep then pure true
  else if stored.isEmpty then pure true
  else do
    if !(← keepCursorDecodes it new) then pure true
    else if !(← keepCursorDecodes it stored) then pure true
    else do
      let new ← decodeKeepCursor it new
      let stored ← decodeKeepCursor it stored
      pure (stored < new)

/-! ## Deletion -/

/-- `p.unlink(missing_ok=True)`, which the operating system may refuse. -/
def unlink (refuses : Path → Bool) (p : Path) (tree : List Entry) : Except Exn (List Entry) :=
  if refuses p || tree.any (fun e ↦ e.path = p && e.kind = .dir) then
    .error (.other "OSError" "cannot delete")
  else .ok (tree.filter fun e ↦ e.path ≠ p)

/-- The loop over the paths of a token: the tree, and the directories something was deleted in. -/
def unlinkAll (refuses : Path → Bool) : List Path → List Entry → List Path →
    List Entry × List Path
  | [], tree, dirs => (tree, dirs)
  | p :: ps, tree, dirs =>
    match unlink refuses p tree with
    | .ok tree => unlinkAll refuses ps tree (if parent p ∈ dirs then dirs else dirs ++ [parent p])
    | .error _ => unlinkAll refuses ps tree dirs

/-- `d.rmdir()`, which succeeds exactly on an empty directory. -/
def rmdir (d : Path) (tree : List Entry) : Except Exn (List Entry) :=
  if tree.any (fun e ↦ e.path = d && e.kind = .dir) &&
      !tree.any (fun e ↦ e.path ≠ d && parent e.path = d) then
    .ok (tree.filter fun e ↦ e.path ≠ d)
  else .error (.other "OSError" "cannot remove")

/-- `self.root in d.parents`, for a directory that is not the root. -/
def below (d : Path) : Bool := src.root.isPrefixOf d && d ≠ src.root

/-- The loop over `to_try`: `none` when the fuel runs out.  A directory that is removed has its
parent tried again. -/
def prune : ℕ → List Path → List Entry → Option (List Entry)
  | _, [], tree => some tree
  | 0, _ :: _, _ => none
  | fuel + 1, d :: toTry, tree =>
    if !src.below d then prune fuel toTry tree
    else
      match rmdir d tree with
      | .error _ => prune fuel toTry tree
      | .ok tree =>
        prune fuel (if parent d ≠ src.root then toTry ++ [parent d] else toTry) tree

/-- `commit`. -/
def commit (ord : SetOrder Path) (refuses : Path → Bool) (token : List Path) (tree : List Entry) :
    Option (List Entry) :=
  if src.keep then some tree
  else
    let (tree, dirs) := unlinkAll refuses token tree []
    if src.pruneEmptyDirs then
      let toTry := (ord.order dirs).mergeSort fun a b ↦ b.length ≤ a.length
      -- each turn takes a directory off the list or one out of the tree
      src.prune (toTry.length + tree.length) toTry tree
    else some tree

end FileTreeSource

end HsUploader.Files
