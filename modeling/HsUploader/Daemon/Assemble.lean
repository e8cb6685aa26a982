import HsUploader.Daemon.Layout
import HsUploader.Library.Pool

/-!
# Building a layout

`assemble` is the daemon's `_assemble`: the legacy entries first, then each pipeline file whole or
not at all, reusing the slots of the previous build.  The slots still free are passed along as a
list (`_Pool`), and so are the names and keys already taken (`Claimed`).

A slot is found by its *label*: its origin, its naming index and what its entry compares by.

## What is here

* `Slot`, `Label`, `take` — an entry with the pipelines it built, what it is found by, and the first
  slot of a pool with a label.
* `buildOne` and `buildEach` — one entry, and one of the loops over the legacy entries; a legacy
  entry that fails is skipped but in a strict build.
* `buildFile` — a file's entries, all or none: where one fails, what was built fresh is closed and
  what was drawn goes back.
* `Claimed` and `admitAll` — the names and keys that are taken, with the first collision as the
  reason a file is refused.
* `tryFile`, `keepLast`, `settleFile` — one file of the loop: accepted, or back to its last good
  build, or nothing.
* `assemble` — files that did not change come first, so that an edited file cannot take their names.
-/

set_option autoImplicit false

namespace HsUploader
namespace Daemon

open Prog

/-- A built pipeline, the part of it the daemon reads.  `id` is the object it is, `entry` the step
its entry was built at. -/
structure Pipeline where
  id : ℕ
  entry : ℕ
  name : String
  client : String
  governed : Bool
  origin : String
  key : Except Exn Key
  producer : Bool
  heartbeat : Bool
  initial : Bool
  parts : Parts

/-- `p.source`. -/
def Pipeline.source (p : Pipeline) : Obj := .source p.entry p.parts.source p.producer

/-- `(p.source, p.transport, p.fallback_transport)`, but for a fallback that is `None`. -/
def Pipeline.objects (p : Pipeline) : List Obj :=
  p.source :: .transport p.entry p.parts.transport ::
    p.parts.fallback.toList.map (Obj.transport p.entry)

/-- One entry and the pipelines it built: `_Slot`. -/
structure Slot where
  origin : String
  index : Option ℕ
  entry : Entry
  pipes : List Pipeline

/-- One build's result: `Build`. -/
structure Build where
  pipelines : List Pipeline := []
  refused : List Refusal := []
  slots : List Slot := []
  good : List (String × List Entry) := []
  fresh : List Pipeline := []

/-- What a slot is found by. -/
abbrev Label := String × Option ℕ × List (String × List Toml.Token)

def Slot.label (s : Slot) : Label := (s.origin, s.index, s.entry.code)

/-- `pool.take(origin, index, entry)`: the first free slot with the label, and the others. -/
def take (l : Label) (pool : List Slot) : Option (Slot × List Slot) := Pool.take Slot.label l pool

/-- `_naming_index(entry, i)`. -/
def namingIndex (entry : Entry) (i : ℕ) : Option ℕ :=
  if entry.has "name" || entry.has "builder" then none else some i

/-- The label the `i`-th entry asks for. -/
def labelOf (origin : String) (e : ℕ × Entry) : Label := (origin, namingIndex e.2 e.1, e.2.code)

/-- Make a pipeline of each answer, with the client, the flag and the origin the daemon sets. -/
def enlist (entry : Entry) (origin : String) : List Made → Prog World Exn (List Pipeline)
  | [] => pure []
  | m :: ms => do
    let step ← present
    let id ← birth
    let rest ← enlist entry origin ms
    pure ({ id, entry := step, name := m.name, client := entry.text "client" "",
            governed := entry.flag "governed" true, origin, key := m.key, producer := m.producer,
            heartbeat := m.heartbeat, initial := m.initial, parts := m.parts } :: rest)

/-- `_build_one(entry, origin, i)`. -/
def buildOne (h : Host) (origin : String) (e : ℕ × Entry) : Prog World Exn (List Pipeline) :=
  if e.2.has "builder" then do
    let made ← call fun n ↦ h.builder n e.2
    enlist e.2 origin made
  else do
    let made ← call fun n ↦ h.generic n e.2 origin
    enlist e.2 origin [{ made with name := e.2.text "name" s!"pipeline-{e.1}" }]

/-- `_close_quietly(pipes)`: their sources, on the main thread. -/
def closeQuietly (pipes : List Pipeline) : Prog World Exn Unit :=
  modify fun w ↦ { w with closed := w.closed ++ pipes.map fun p ↦ (p.source, .main) }

/-- What building some entries gives: the slots, those of them that were reused, and the pipelines
built fresh. -/
structure Built where
  slots : List Slot := []
  taken : List Slot := []
  fresh : List Pipeline := []

/-- `built` with one more slot, reused. -/
def Built.reuse (b : Built) (s : Slot) : Built :=
  { b with slots := b.slots ++ [s], taken := b.taken ++ [s] }

/-- `built` with one more slot, built fresh. -/
def Built.make (b : Built) (l : Label) (entry : Entry) (pipes : List Pipeline) : Built :=
  { b with slots := b.slots ++ [⟨l.1, l.2.1, entry, pipes⟩], fresh := b.fresh ++ pipes }

/-- One loop of `_build_legacy`.  An entry that fails raises when `strict`, else it builds
nothing. -/
def buildEach (h : Host) (strict : Bool) :
    List (ℕ × Entry) → List Slot → Built → Prog World Exn (Built × List Slot)
  | [], pool, built => pure (built, pool)
  | e :: es, pool, built =>
    match take (labelOf LEGACY e) pool with
    | some (s, pool) => buildEach h strict es pool (built.reuse s)
    | none => do
      match ← attempt (buildOne h LEGACY e) with
      | .ok pipes => buildEach h strict es pool (built.make (labelOf LEGACY e) e.2 pipes)
      | .error err =>
        if strict then do
          closeQuietly built.fresh
          raise err
        else buildEach h strict es pool (built.make (labelOf LEGACY e) e.2 [])

/-- The pairs `enumerate` gives. -/
def enumerate (entries : List Entry) : List (ℕ × Entry) := entries.zipIdx.map Prod.swap

/-- `_build_legacy(entries)`: the generic entries, then the builders; a builder that fails is
skipped in any case. -/
def buildLegacy (h : Host) (strict : Bool) (entries : List Entry) (pool : List Slot) :
    Prog World Exn (Built × List Slot) := do
  let generic ← buildEach h strict (enumerate (entries.filter fun e ↦ !e.has "builder")) pool {}
  buildEach h false ((entries.filter fun e ↦ e.has "builder").map fun e ↦ (0, e)) generic.2
    generic.1

/-- `type(exc).__name__` and the exception's text. -/
def excParts : Exn → String × String
  | .valueError m => ("ValueError", m)
  | .attributeError m => ("AttributeError", m)
  | .typeError m => ("TypeError", m)
  | .runtimeError m => ("RuntimeError", m)
  | .overflowError m => ("OverflowError", m)
  | .operationalError m => ("OperationalError", m)
  | .other type m => (type, m)

/-- The reason a file is refused when one of its entries does not build. -/
def failedToBuild (e : ℕ × Entry) (err : Exn) : String :=
  let label :=
    if e.2.has "name" then (e.2.get "name").elim "" Toml.repr
    else if e.2.has "builder" then (e.2.get "builder").elim "" Toml.repr
    else Toml.reprText s!"entry {e.1 + 1}"
  s!"pipeline {label} failed to build: {(excParts err).1}({Toml.reprText (excParts err).2})"

/-- `_build_file(entries, origin)`, from what the entries before gave.  When one fails, the fresh
pipelines are closed and the reused slots go back to the pool. -/
def buildFile (h : Host) (origin : String) :
    List (ℕ × Entry) → List Slot → Built → Prog World Exn (Except String Built × List Slot)
  | [], pool, built => pure (.ok built, pool)
  | e :: es, pool, built =>
    match take (labelOf origin e) pool with
    | some (s, pool) => buildFile h origin es pool (built.reuse s)
    | none => do
      match ← attempt (buildOne h origin e) with
      | .ok pipes => buildFile h origin es pool (built.make (labelOf origin e) e.2 pipes)
      | .error err => do
        closeQuietly built.fresh
        pure (.error (failedToBuild e err), pool ++ built.taken)

/-! ## Names and keys -/

/-- The names and the keys accepted pipelines hold. -/
structure Claimed where
  names : List (String × Pipeline) := []
  keys : List (Key × Pipeline) := []

/-- The text of a collision. -/
def collides (p other : Pipeline) (what : String) : String :=
  s!"pipeline {Toml.reprText p.name} ({p.origin}) collides on {what} with "
    ++ s!"pipeline {Toml.reprText other.name} ({other.origin})"

/-- `_collision(p, names, keys)`.  The key is asked for only when the name is free. -/
def collision (p : Pipeline) (c : Claimed) : Except Exn (Option String) :=
  match Table.lookup p.name c.names with
  | some other => .ok (some (collides p other "name"))
  | none => do
    let key ← p.key
    match Table.lookup key c.keys with
    | some other => .ok (some (collides p other s!"key {key.1}|{key.2.1}|{key.2.2}"))
    | none => .ok none

/-- `dict.setdefault`. -/
def setDefault {κ : Type} [DecidableEq κ] (k : κ) (p : Pipeline) (l : List (κ × Pipeline)) :
    List (κ × Pipeline) :=
  if (Table.lookup k l).isSome then l else l ++ [(k, p)]

/-- Enter the legacy pipelines, collisions among them included. -/
def claimLegacy : List Pipeline → Claimed → Except Exn Claimed
  | [], c => .ok c
  | p :: ps, c => do
    let _ ← collision p c
    let key ← p.key
    claimLegacy ps ⟨setDefault p.name p c.names, setDefault key p c.keys⟩

/-- `_admit(slots, names, keys)`: the names and keys with the pipelines entered, or the first
collision. -/
def admitAll : List Pipeline → Claimed → Except Exn (Except String Claimed)
  | [], c => .ok (.ok c)
  | p :: ps, c => do
    match ← collision p c with
    | some reason => .ok (.error reason)
    | none =>
      let key ← p.key
      admitAll ps ⟨Table.upsert p.name p c.names, Table.upsert key p c.keys⟩

/-! ## `_assemble` -/

/-- What the loop over the files carries. -/
structure Desk where
  pool : List Slot
  claimed : Claimed
  accepted : List (String × List Slot) := []
  good : List (String × List Entry) := []
  refused : List Refusal := []
  fresh : List Pipeline

/-- The pipelines of some slots. -/
def pipesOf (slots : List Slot) : List Pipeline := slots.flatMap Slot.pipes

/-- Build one file's entries and let in what they built.  On a failure everything but the closed
pipelines is as before, and the reused slots stand at the end of the pool. -/
def tryFile (h : Host) (origin : String) (entries : List Entry) (d : Desk) :
    Prog World Exn (Except String Unit × Desk) := do
  let (built, pool) ← buildFile h origin (enumerate entries) d.pool {}
  match built with
  | .error reason => pure (.error reason, { d with pool })
  | .ok built =>
    match ← ofExcept (admitAll (pipesOf built.slots) d.claimed) with
    | .error reason => do
      closeQuietly built.fresh
      pure (.error reason, { d with pool := pool ++ built.taken })
    | .ok claimed =>
      pure (.ok (), { d with
        pool, claimed
        accepted := d.accepted ++ [(origin, built.slots)]
        good := d.good ++ [(origin, entries)]
        fresh := d.fresh ++ built.fresh })

/-- `by_file[origin]`. -/
def Layout.inFile (l : Layout) (origin : String) : List Entry :=
  l.entries.filterMap fun e ↦ if e.2 = origin then some e.1 else none

/-- `load_refused.get(origin)`. -/
def Layout.refusal (l : Layout) (origin : String) : Option Refusal :=
  l.refused.reverse.find? fun r ↦ r.rowName = origin

/-- `sorted(set(by_file) | set(load_refused))`. -/
def Layout.origins (l : Layout) : List String :=
  (((l.entries.map Prod.snd).filter (· ≠ LEGACY)) ++ l.refused.map Refusal.rowName).dedup
    |>.insertionSort (· ≤ ·)

/-- `unchanged(origin)`. -/
def Layout.unchanged (l : Layout) (prevGood : List (String × List Entry)) (origin : String) :
    Bool :=
  !(l.inFile origin).isEmpty &&
    match prevGood.lookup origin with
    | some last => eqEntries last (l.inFile origin)
    | none => false

/-- The files in the order they are built: those that did not change first. -/
def Layout.order (l : Layout) (prevGood : List (String × List Entry)) : List String :=
  l.origins.filter (l.unchanged prevGood ·) ++ l.origins.filter (!l.unchanged prevGood ·)

/-- `origin.split("/", 1)[1]`. -/
def fileOf (origin : String) : String :=
  String.ofList ((origin.toList.dropWhile (· ≠ '/')).drop 1)

/-- A file that now fails keeps what it last built, unless that collides. -/
def keepLast (h : Host) (prevGood : List (String × List Entry)) (origin : String) (d : Desk) :
    Prog World Exn Desk :=
  match prevGood.lookup origin with
  | none => pure d
  | some last => do
    let r ← tryFile h origin last d
    pure r.2

/-- One file of `_assemble`'s loop. -/
def settleFile (h : Host) (l : Layout) (prevGood : List (String × List Entry)) (origin : String)
    (d : Desk) : Prog World Exn Desk :=
  match l.refusal origin with
  | some r => keepLast h prevGood origin { d with refused := d.refused ++ [r] }
  | none => do
    match ← tryFile h origin (l.inFile origin) d with
    | (.ok (), d) => pure d
    | (.error reason, d) =>
      keepLast h prevGood origin
        { d with refused := d.refused ++ [⟨fileOf origin, stem (fileOf origin), reason⟩] }

/-- `_assemble`'s loop over the files. -/
def settleFiles (h : Host) (l : Layout) (prevGood : List (String × List Entry)) :
    List String → Desk → Prog World Exn Desk
  | [], d => pure d
  | origin :: order, d => do
    let d ← settleFile h l prevGood origin d
    settleFiles h l prevGood order d

/-- The accepted slots, files in name order. -/
def Desk.inOrder (d : Desk) : List Slot :=
  (d.accepted.insertionSort fun a b ↦ a.1 ≤ b.1).flatMap Prod.snd

/-- `_assemble(layout, previous=previous, strict=strict)`. -/
def assemble (h : Host) (l : Layout) (previous : Option Build) (strict : Bool) :
    Prog World Exn Build := do
  let pool := previous.elim [] Build.slots
  let prevGood := previous.elim [] Build.good
  let (legacy, pool) ← buildLegacy h strict (l.inFile LEGACY) pool
  let claimed ← ofExcept (claimLegacy (pipesOf legacy.slots) {})
  let d ← settleFiles h l prevGood (l.order prevGood) { pool, claimed, fresh := legacy.fresh }
  let slots := legacy.slots ++ d.inOrder
  let pipelines := pipesOf slots
  let made := d.fresh.map Pipeline.id
  pure { pipelines, refused := d.refused, slots, good := d.good
         fresh := pipelines.filter fun p ↦ made.contains p.id }

end Daemon
end HsUploader
