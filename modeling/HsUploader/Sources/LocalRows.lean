import HsUploader.Core.Uploader
import HsUploader.Sources.Sql

/-!
# Statements on the sink file, and the filter that keeps local rows in it

The outside of a source that reads the queue is `Outside μ`: the sink, what the ceiling provider
would answer, and `μ`, what the source object holds in memory.  A statement is one step: the
environment moves, and then the statement runs on the table as it stands, or raises because the
file cannot be read.

The log is a ghost.  It records each statement that selected rows to send or deleted rows it sent,
with the table it ran on and with what of the `local` column the source could have seen before, and
no definition reads it.

`LocalRowFilter` is the shared helper of the two sources.  It looks once per connection whether the
table has a `local` column, and answers from memory after that.

## What is here

* `Statement` and `Sight` — a logged statement, with the rows it found and the rows it hit.
* `Outside` and `Act` — what lies outside a source, and what others do to it.
* `statement`, `query`, `clock` — the steps of a source, each with the environment's move before it.
* `LocalRowFilter` — what it remembers, of which connection; `LocalRowFilter.probe` and
  `LocalRowFilter.clause` — the look, and what it adds to a statement.
-/

set_option autoImplicit false

namespace HsUploader

open Prog

variable {μ ρ α : Type}

/-- What a logged statement was for. -/
inductive StatementKind where
  /-- The selection of a batch, past a cursor and under a ceiling. -/
  | select (cursor : ℤ) (ceiling : Option String)
  /-- The selection of the rows of one WSPR cycle, or of its riders. -/
  | selectCycle (cycle : String)
  /-- The cleanup of a commit. -/
  | delete
  deriving DecidableEq

/-- What was there to be seen of the `local` column before a statement on a connection. -/
structure Sight where
  /-- The table had the column when the connection was opened. -/
  opened : Bool
  /-- The table had the column when the filter looked through the connection. -/
  probed : Bool
  deriving DecidableEq

/-- A statement that selected rows to send, or deleted rows. -/
structure Statement where
  kind : StatementKind
  /-- The rows of the table when it ran. -/
  rows : List Row
  /-- The table had a `local` column. -/
  localColumn : Bool
  /-- What the source could have seen of the column before. -/
  sight : Sight
  /-- The rows it selected or deleted. -/
  hit : List Row

/-- The switch files of the host, as `sinkswitch` reads them. -/
structure Switches where
  /-- `marker_stands(marker)`. -/
  marker : Bool := false
  /-- `effective_state(producer).state`; it may raise. -/
  effective : String → Except Exn String := fun _ ↦ .ok "off"

/-- What lies outside the uploader for a source that reads the queue. -/
structure Outside (μ : Type) where
  sink : Sink := none
  /-- The sink file can be opened and read. -/
  reachable : Bool := true
  /-- What the ceiling provider would answer. -/
  ceiling : Option String := none
  switches : Switches := {}
  /-- What the source object holds in memory. -/
  mem : μ
  log : List Statement := []

/-- What other processes do to the outside of such a source. -/
inductive Act where
  | sink (op : SinkOp)
  | reachable (b : Bool)
  | ceiling (c : Option String)
  | switches (s : Switches)

instance : Surroundings Act (Outside μ) where
  react
    | .sink op, o => { o with sink := op.apply o.sink }
    | .reachable b, o => { o with reachable := b }
    | .ceiling c, o => { o with ceiling := c }
    | .switches s, o => { o with switches := s }

/-- A program of a source that reads the queue. -/
abbrev SqlM (μ ρ : Type) := SysM (Outside μ) Act ρ

/-- The error of a statement on a file that cannot be read. -/
def unreachable : Exn := .operationalError "unable to open database file"

/-- One statement. -/
def statement (f : Outside μ → Except Exn (α × Outside μ)) : SqlM μ ρ α := do
  let _ ← Sys.breathe
  actE fun s ↦
    if s.here.reachable then (f s.here).map fun r ↦ (r.1, { s with here := r.2 })
    else .error unreachable

/-- A statement that only reads. -/
def query (f : Sink → Except Exn α) : SqlM μ ρ α :=
  statement fun o ↦ (f o.sink).map fun a ↦ (a, o)

/-- Read what the source object holds. -/
def mem : SqlM μ ρ μ := Sys.inMemory fun o ↦ (o.mem, o)

/-- Change what the source object holds. -/
def setMem (f : μ → μ) : SqlM μ ρ Unit := Sys.inMemory fun o ↦ ((), { o with mem := f o.mem })

/-- `time.time()` or `datetime.now(timezone.utc)`. -/
def clock : SqlM μ ρ ℚ := do
  let c ← Sys.breathe
  pure c.now

/-! ## Local rows -/

/-- `LocalRowFilter`: what it remembers, and the connection it remembers it of. -/
structure LocalRowFilter where
  conn : Option ℕ := none
  hasLocal : Bool := false
  /-- The table had the column at the last look.  A ghost: `clause` goes by `hasLocal`. -/
  found : Bool := false
  deriving DecidableEq, Repr

/-- `LOCAL_CLAUSE`. -/
def localClause : Clause := .column fun r ↦ !r.isLocal

/-- `has_local(conn)`: the answer, and what the filter remembers afterwards. -/
def LocalRowFilter.probe (f : LocalRowFilter) (conn : ℕ) : SqlM μ ρ LocalRowFilter :=
  if f.conn = some conn then pure f
  else do
    let hasLocal ← query fun s ↦ .ok s.hasLocal
    pure ⟨some conn, hasLocal, hasLocal⟩

/-- `clause(conn)`, from what the filter remembers. -/
def LocalRowFilter.clause (f : LocalRowFilter) : List Clause :=
  if f.hasLocal then [localClause] else []

/-! ## Rules -/

section rules

variable {s : Sys (Outside μ) Act ρ} {E : Exn → Sys (Outside μ) Act ρ → Prop}
  {S : Sys (Outside μ) Act ρ → Prop}

theorem wp_statement {f : Outside μ → Except Exn (α × Outside μ)}
    {Q : α → Sys (Outside μ) Act ρ → Prop} :
    wp (statement f) Q E S s =
      if s.choice.stop then S s.next
      else if s.next.here.reachable then
        match f s.next.here with
        | .ok r => Q r.1 { s.next with here := r.2 }
        | .error e => E e s.next
      else E unreachable s.next := by
  rw [statement, wp_bind, Sys.wp_breathe]
  split
  · rfl
  · rw [wp_actE]
    by_cases hr : s.next.here.reachable = true
    · rw [if_pos hr, if_pos hr]
      cases f s.next.here <;> rfl
    · rw [if_neg hr, if_neg hr]

theorem wp_query {f : Sink → Except Exn α} {Q : α → Sys (Outside μ) Act ρ → Prop} :
    wp (query f) Q E S s =
      if s.choice.stop then S s.next
      else if s.next.here.reachable then
        match f s.next.here.sink with
        | .ok a => Q a s.next
        | .error e => E e s.next
      else E unreachable s.next := by
  rw [query, wp_statement]
  cases f s.next.here.sink <;> rfl

@[simp] theorem wp_mem {Q : μ → Sys (Outside μ) Act ρ → Prop} :
    wp mem Q E S s = Q s.here.mem s := rfl

@[simp] theorem wp_setMem {f : μ → μ} {Q : Unit → Sys (Outside μ) Act ρ → Prop} :
    wp (setMem f) Q E S s = Q () { s with here := { s.here with mem := f s.here.mem } } := rfl

theorem wp_clock {Q : ℚ → Sys (Outside μ) Act ρ → Prop} :
    wp clock Q E S s = if s.choice.stop then S s.next else Q s.choice.now s.next := by
  rw [clock, wp_bind, Sys.wp_breathe]
  rfl

end rules

end HsUploader
