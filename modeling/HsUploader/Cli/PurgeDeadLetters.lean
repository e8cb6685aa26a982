import HsUploader.Library.RowTable
import HsUploader.Library.SqlText

/-!
# Purging dead letters

`purge-dead-letters` reads the dead letters, writes the ones its filter picks to a file of
`INSERT`s, and deletes them once the file is written and synced.  The file is read here by
`Sql.statements` and executed statement by statement, so what is saved can be compared with what
is deleted.

What `datetime.fromisoformat` makes of a text is a parameter: whatever it reads and whatever it
refuses, the filter picks some of the rows.
-/

set_option autoImplicit false

namespace HsUploader
namespace Cli

open Sql

/-- One row of `dead_letter`, less its row id. -/
structure DeadRow where
  ts : String
  pipeline : String
  payloadBlob : Bytes
  finalError : String
  deriving DecidableEq

/-- None of the row's texts holds a NUL, at which a script would be over. -/
structure DeadRow.NulFree (r : DeadRow) : Prop where
  ts : '\x00' ∉ r.ts.toList
  pipeline : '\x00' ∉ r.pipeline.toList
  finalError : '\x00' ∉ r.finalError.toList

/-- A `datetime`: its own microseconds, and what its zone is ahead of UTC. -/
structure Datetime where
  clock : ℤ
  offset : Option ℤ

/-- The instant, in UTC where the zone is not told: `t.replace(tzinfo=timezone.utc)`. -/
def Datetime.instant (t : Datetime) : ℤ := t.clock - t.offset.getD 0

/-- `--pipeline` and `--before`. -/
structure Args where
  pipeline : Option String := none
  before : Option String := none

/-- What became of the backup's file: written and synced, an `OSError`, or another exception. -/
inductive Backup where
  | written
  | osError
  | raised (e : Exn)

/-- How the command ended. -/
inductive Purge where
  | nothingToPurge
  | cannotWrite
  | purged (saved : List Char)
  | raised (e : Exn)

section

variable (fromisoformat : String → Option Datetime)

/-- The instant of `--before`; an empty text is none. -/
def Args.cutoff (args : Args) : Except Exn (Option ℤ) :=
  match args.before with
  | none => .ok none
  | some text =>
    if text = "" then .ok none
    else match fromisoformat text with
      | some t => .ok (some t.instant)
      | none => .error (.valueError "Invalid isoformat string")

/-- `_matches(row)`: an unreadable age is never old enough. -/
def Args.matches (args : Args) (before : Option ℤ) (r : DeadRow) : Bool :=
  if args.pipeline.any (r.pipeline ≠ ·) then false
  else match before with
    | none => true
    | some before =>
      match fromisoformat r.ts with
      | none => false
      | some t => t.instant < before

/-- `_sql_text(v)`. -/
def sqlText (v : String) : List Char := '\'' :: doubled '\'' v.toList ++ ['\'']

def insertHead : String :=
  "INSERT INTO dead_letter(ts, pipeline, payload_blob, final_error) VALUES("

/-- The `INSERT` of one row. -/
def insertLine (r : DeadRow) : List Char :=
  insertHead.toList ++ sqlText r.ts ++ [',', ' '] ++ sqlText r.pipeline ++ [',', ' '] ++
    ['X', '\''] ++ hex r.payloadBlob ++ ['\'', ',', ' '] ++ sqlText r.finalError ++ [')', ';']

def backupHead : String := "BEGIN;\n"

def backupTail : String := "\nCOMMIT;\n"

/-- What is written to the backup. -/
def backupText (chosen : List DeadRow) : List Char :=
  backupHead.toList ++ ['\n'].intercalate (chosen.map insertLine) ++ backupTail.toList

/-- `_cmd_purge_dead_letters`.  The store is read, the backup is written, and only then are rows
deleted, by their ids: between the two others may add rows (`arrived`). -/
def purgeDeadLetters (args : Args) (t : RowTable DeadRow) (backup : Backup)
    (arrived : List DeadRow) (delete : Except Exn Unit) : Purge × RowTable DeadRow :=
  let t' := arrived.foldl RowTable.insert t
  match args.cutoff fromisoformat with
  | .error e => (.raised e, t')
  | .ok before =>
    let chosen := t.rows.filter fun r ↦ args.matches fromisoformat before r.2
    if chosen.isEmpty then (.nothingToPurge, t')
    else match backup with
      | .osError => (.cannotWrite, t')
      | .raised e => (.raised e, t')
      | .written =>
        match delete with
        | .error e => (.raised e, t')
        | .ok () =>
          (.purged (backupText (chosen.map Prod.snd)), (chosen.map Prod.fst).foldl RowTable.delete t')

end

/-! ## Executing the backup -/

/-- The table a script works on, and what its open transaction has made of it. -/
structure Db where
  table : RowTable DeadRow
  pending : Option (RowTable DeadRow) := none

/-- The row an `INSERT` stands for, if it gives each column a value of its kind. -/
def DeadRow.ofInsert (columns : List String) (values : List Literal) : Option DeadRow :=
  let given := columns.zip values
  if columns.length = values.length ∧ columns.Nodup ∧ columns.length = 4 then
    match Table.lookup "ts" given, Table.lookup "pipeline" given,
      Table.lookup "payload_blob" given, Table.lookup "final_error" given with
    | some (.text ts), some (.text pipeline), some (.blob payload), some (.text error) =>
      some ⟨String.ofList ts, String.ofList pipeline, payload, String.ofList error⟩
    | _, _, _, _ => none
  else none

/-- One statement. -/
def Db.step (db : Db) : Statement → Option Db
  | .begin => if db.pending.isSome then none else some { db with pending := some db.table }
  | .commit => db.pending.map fun t ↦ ⟨t, none⟩
  | .insert table columns values =>
    if table ≠ "dead_letter" then none
    else (DeadRow.ofInsert columns values).map fun r ↦
      match db.pending with
      | none => { db with table := db.table.insert r }
      | some t => { db with pending := some (t.insert r) }

/-- The table after a script; a transaction left open is rolled back. -/
def execute (script : List Char) (t : RowTable DeadRow) : Option (RowTable DeadRow) := do
  let ss ← statements script
  let db ← ss.foldlM Db.step ⟨t, none⟩
  pure db.table

/-! ## What is saved is what is restored -/

/-- The pieces of an `INSERT` up to its values. -/
def headPieces : List Piece :=
  [.word "INSERT", .blank ' ', .word "INTO", .blank ' ', .word "dead_letter", .mark '(',
    .word "ts", .mark ',', .blank ' ', .word "pipeline", .mark ',', .blank ' ',
    .word "payload_blob", .mark ',', .blank ' ', .word "final_error", .mark ')', .blank ' ',
    .word "VALUES", .mark '(']

/-- Its values, and the line's end. -/
def valuePieces (r : DeadRow) : List Piece :=
  [.text r.ts.toList, .mark ',', .blank ' ', .text r.pipeline.toList, .mark ',', .blank ' ',
    .blob r.payloadBlob, .mark ',', .blank ' ', .text r.finalError.toList, .mark ')', .mark ';',
    .blank '\n']

def linePieces (r : DeadRow) : List Piece := headPieces ++ valuePieces r

def beginPieces : List Piece := [.word "BEGIN", .mark ';', .blank '\n']

def commitPieces : List Piece := [.word "COMMIT", .mark ';', .blank '\n']

def backupPieces (rows : List DeadRow) : List Piece :=
  beginPieces ++ (rows.flatMap linePieces ++ commitPieces)

theorem spell_linePieces (r : DeadRow) : spell (linePieces r) = insertLine r ++ ['\n'] := by
  have hhead : spell headPieces = insertHead.toList := by decide
  rw [linePieces, spell_append, hhead, insertLine]
  simp only [spell, valuePieces, List.flatMap_cons, List.flatMap_nil, Piece.spell, sqlText,
    List.append_assoc, List.cons_append, List.nil_append]

theorem intercalate_newline (lines : List (List Char)) (h : lines ≠ []) :
    ['\n'].intercalate lines ++ ['\n'] = lines.flatMap fun l ↦ l ++ ['\n'] := by
  induction lines with
  | nil => exact absurd rfl h
  | cons l ls ih =>
    cases ls with
    | nil => simp
    | cons l' ls =>
      rw [List.flatMap_cons, ← ih (List.cons_ne_nil _ _)]
      simp [List.intercalate, List.intersperse]

theorem spell_backupPieces {rows : List DeadRow} (h : rows ≠ []) :
    spell (backupPieces rows) = backupText rows := by
  have hlines : spell (rows.flatMap linePieces) =
      ['\n'].intercalate (rows.map insertLine) ++ ['\n'] := by
    rw [intercalate_newline _ (by simpa using h), spell, List.flatMap_assoc, List.flatMap_map]
    exact congrArg (fun f ↦ rows.flatMap f) (funext spell_linePieces)
  have hbegin : spell beginPieces = backupHead.toList := by decide
  have hcommit : '\n' :: spell commitPieces = backupTail.toList := by decide
  rw [backupPieces, spell_append, spell_append, hlines, hbegin, backupText, ← hcommit]
  simp

theorem apart_linePieces (r : DeadRow) (ps : List Piece) :
    apart (linePieces r ++ ps) = apart ps := by
  have hhead : apart headPieces = true := by decide
  have hvalues : apart (valuePieces r ++ ps) = apart ps := rfl
  rw [linePieces, List.append_assoc]
  change apart (headPieces.dropLast ++ .mark '(' :: (valuePieces r ++ ps)) = _
  rw [apart_append_cons rfl fun _ ↦ rfl]
  change (apart headPieces && _) = _
  rw [hhead, hvalues, Bool.true_and]

theorem apart_backupPieces (rows : List DeadRow) : apart (backupPieces rows) = true := by
  have hcommit : apart commitPieces = true := by decide
  have hrows : apart (rows.flatMap linePieces ++ commitPieces) = true := by
    induction rows with
    | nil => exact hcommit
    | cons r rows ih => rwa [List.flatMap_cons, List.append_assoc, apart_linePieces]
  rw [backupPieces]
  change apart (beginPieces.dropLast ++ .blank '\n' :: (rows.flatMap linePieces ++ commitPieces)) = _
  rw [apart_append_cons rfl fun _ ↦ rfl, hrows, Bool.and_true]
  decide

/-! ### The backup, executed -/

/-- The columns of the statement, in its order. -/
def columns : List String := ["ts", "pipeline", "payload_blob", "final_error"]

/-- The values of a row, in that order. -/
def DeadRow.values (r : DeadRow) : List Literal :=
  [.text r.ts.toList, .text r.pipeline.toList, .blob r.payloadBlob, .text r.finalError.toList]

def DeadRow.statement (r : DeadRow) : Statement := .insert "dead_letter" columns r.values

theorem ofInsert_values (r : DeadRow) : DeadRow.ofInsert columns r.values = some r := by
  have hgiven : DeadRow.ofInsert columns r.values =
      some ⟨String.ofList r.ts.toList, String.ofList r.pipeline.toList, r.payloadBlob,
        String.ofList r.finalError.toList⟩ := rfl
  rw [hgiven, String.ofList_toList, String.ofList_toList, String.ofList_toList]

theorem statement_linePieces (r : DeadRow) (ts : List Token) :
    statement ((linePieces r).filterMap Piece.token ++ ts) = some (r.statement, ts) := rfl

theorem statementsLoop_rows (rows : List DeadRow) {n : ℕ}
    (hn : ((rows.flatMap linePieces ++ commitPieces).filterMap Piece.token).length ≤ n) :
    statementsLoop n ((rows.flatMap linePieces ++ commitPieces).filterMap Piece.token) =
      some (rows.map DeadRow.statement ++ [.commit]) := by
  induction rows generalizing n with
  | nil =>
    obtain ⟨m, rfl⟩ : ∃ m, n = m + 1 := ⟨n - 1, by simp [commitPieces, Piece.token] at hn; omega⟩
    have hcommit : statement (commitPieces.filterMap Piece.token) = some (.commit, []) := rfl
    rw [List.flatMap_nil, List.nil_append, statementsLoop_cons hcommit]
    cases m <;> rfl
  | cons r rows ih =>
    have hline : ((linePieces r).filterMap Piece.token).length = 23 := rfl
    rw [List.flatMap_cons, List.append_assoc, List.filterMap_append] at hn ⊢
    rw [List.length_append, hline] at hn
    obtain ⟨m, rfl⟩ : ∃ m, n = m + 1 := ⟨n - 1, by omega⟩
    rw [statementsLoop_cons (statement_linePieces r _), ih (by omega)]
    rfl

/-- **The backup is read as the statements it was written for.** -/
theorem statements_backupText {rows : List DeadRow} (h : rows ≠ [])
    (hnul : ∀ r ∈ rows, r.NulFree) :
    statements (backupText rows) =
      some (.begin :: (rows.map DeadRow.statement ++ [.commit])) := by
  have htext : ∀ s, Piece.text s ∈ backupPieces rows → '\x00' ∉ s := fun s hs ↦ by
    rw [backupPieces, List.mem_append, List.mem_append, List.mem_flatMap] at hs
    rcases hs with hs | ⟨r, hr, hs⟩ | hs
    · simp [beginPieces] at hs
    · have hr := hnul r hr
      simp only [linePieces, headPieces, valuePieces, List.mem_append, List.mem_cons,
        Piece.text.injEq, List.not_mem_nil, reduceCtorEq, or_false, false_or] at hs
      rcases hs with rfl | rfl | rfl
      · exact hr.ts
      · exact hr.pipeline
      · exact hr.finalError
    · simp [commitPieces] at hs
  have hbegin : ∀ ts, statement (beginPieces.filterMap Piece.token ++ ts) = some (.begin, ts) :=
    fun _ ↦ rfl
  have hlen : (beginPieces.filterMap Piece.token).length = 2 := rfl
  rw [statements, ← spell_backupPieces h, lex_spell (apart_backupPieces rows) htext]
  simp only [Option.bind_eq_bind, Option.bind_some]
  rw [backupPieces, List.filterMap_append, List.length_append, hlen, Nat.add_comm,
    statementsLoop_cons (hbegin _), statementsLoop_rows rows (by omega)]
  rfl

theorem step_statement (t t' : RowTable DeadRow) (r : DeadRow) :
    Db.step ⟨t, some t'⟩ r.statement = some ⟨t, some (t'.insert r)⟩ := by
  rw [DeadRow.statement, Db.step, if_neg (by decide), ofInsert_values]
  rfl

theorem foldlM_statements (t t' : RowTable DeadRow) (rows : List DeadRow) :
    (rows.map DeadRow.statement ++ [Statement.commit]).foldlM Db.step ⟨t, some t'⟩ =
      some ⟨rows.foldl RowTable.insert t', none⟩ := by
  induction rows generalizing t' with
  | nil => rfl
  | cons r rows ih =>
    rw [List.map_cons, List.cons_append, List.foldlM_cons, step_statement, Option.bind_eq_bind,
      Option.bind_some, ih]
    rfl

/-- **What the backup restores** to a table is its rows, in their order. -/
theorem execute_backupText {rows : List DeadRow} (h : rows ≠ []) (hnul : ∀ r ∈ rows, r.NulFree)
    (t : RowTable DeadRow) : execute (backupText rows) t = some (rows.foldl RowTable.insert t) := by
  rw [execute, statements_backupText h hnul]
  simp only [Option.bind_eq_bind, Option.bind_some]
  change (do
    let db ← (rows.map DeadRow.statement ++ [Statement.commit]).foldlM Db.step ⟨t, some t⟩
    pure db.table) = _
  rw [foldlM_statements]
  rfl

/-! ## The purge -/

section purge

variable (fromisoformat : String → Option Datetime)

/-- Either no row goes, or the rows that go are those of the table the command read that its filter
picks, and the file it saved restores just these to an empty table, in their order. -/
def Lossless (args : Args) (t : RowTable DeadRow) (backup : Backup) (arrived : List DeadRow)
    (delete : Except Exn Unit) : Prop :=
  (purgeDeadLetters fromisoformat args t backup arrived delete).2.rows =
      (arrived.foldl RowTable.insert t).rows ∨
    ∃ saved before,
      (purgeDeadLetters fromisoformat args t backup arrived delete).1 = .purged saved ∧
      args.cutoff fromisoformat = .ok before ∧
      (purgeDeadLetters fromisoformat args t backup arrived delete).2.rows =
        (arrived.foldl RowTable.insert t).rows.filter
          (fun r ↦ ¬ (r ∈ t.rows ∧ args.matches fromisoformat before r.2 = true)) ∧
      ∀ blank : RowTable DeadRow, blank.rows = [] →
        ∃ restored, execute saved blank = some restored ∧
          restored.contents = t.contents.filter (args.matches fromisoformat before)

/-- **A purge loses nothing**, whatever its filter, whatever becomes of the file it writes, and
whatever is added to the table meanwhile. -/
theorem purge_lossless (args : Args) (t : RowTable DeadRow) (backup : Backup)
    (arrived : List DeadRow) (delete : Except Exn Unit) (hnul : ∀ r ∈ t.contents, r.NulFree) :
    Lossless fromisoformat args t backup arrived delete := by
  rw [Lossless, purgeDeadLetters]
  cases hcutoff : args.cutoff fromisoformat with
  | error e => exact .inl rfl
  | ok before =>
    dsimp only
    split
    · exact .inl rfl
    · rename_i hchosen
      cases backup with
      | osError => exact .inl rfl
      | raised e => exact .inl rfl
      | written =>
        cases delete with
        | error e => exact .inl rfl
        | ok _ =>
          have hcontents : (t.rows.filter fun r ↦ args.matches fromisoformat before r.2).map Prod.snd =
              t.contents.filter (args.matches fromisoformat before) := by
            rw [RowTable.contents, List.filter_map]
            rfl
          refine .inr ⟨_, before, rfl, rfl, ?_, fun blank hblank ↦ ⟨_, execute_backupText ?_ ?_ blank, ?_⟩⟩
          · rw [RowTable.rows_foldl_delete]
            refine List.filter_congr fun r hr ↦ ?_
            rw [decide_eq_decide, not_iff_not, List.mem_map]
            constructor
            · rintro ⟨c, hc, hid⟩
              rw [List.mem_filter] at hc
              have hc' := RowTable.mem_foldl_insert arrived hc.1
              obtain rfl := (arrived.foldl RowTable.insert t).increasing.eq_of_key_eq hc' hr hid
              exact hc
            · exact fun h ↦ ⟨r, List.mem_filter.mpr h, rfl⟩
          · simpa using hchosen
          · rw [hcontents]
            exact fun r hr ↦ hnul r (List.mem_filter.mp hr).1
          · rw [RowTable.contents_foldl_insert, RowTable.contents, hblank, hcontents]
            rfl

end purge

/-- Two rows with quotes, a line's end and bytes of every kind, of two days. -/
def quotedTable : RowTable DeadRow :=
  (RowTable.empty.insert ⟨"2026-10-14T00:00:00+00:00", "it's", [0, 39, 255], "'; DROP\n--"⟩).insert
    ⟨"2026-10-16T00:00:00+00:00", "psk", [], ""⟩

/-- `datetime.fromisoformat`, of the three texts read there. -/
def readDays : String → Option Datetime
  | "2026-10-14T00:00:00+00:00" => some ⟨1791936000000000, some 0⟩
  | "2026-10-15" => some ⟨1792022400000000, none⟩
  | "2026-10-16T00:00:00+00:00" => some ⟨1792108800000000, some 0⟩
  | _ => none

theorem purge_lossless_quoted :
    Lossless readDays ⟨none, some "2026-10-15"⟩ quotedTable .written [] (.ok ()) :=
  purge_lossless readDays ⟨none, some "2026-10-15"⟩ quotedTable .written [] (.ok ())
    (List.forall_mem_cons.mpr ⟨⟨by decide, by decide, by decide⟩,
      List.forall_mem_cons.mpr ⟨⟨by decide, by decide, by decide⟩, fun _ h ↦ nomatch h⟩⟩)

example : (purgeDeadLetters readDays ⟨none, some "2026-10-15"⟩ quotedTable .written []
    (.ok ())).2.contents.map DeadRow.pipeline = ["psk"] := by decide

end Cli
end HsUploader
