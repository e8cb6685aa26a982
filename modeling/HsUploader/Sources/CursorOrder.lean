import HsUploader.Library.ReadingOrder
import HsUploader.Sources.FilePolls
import HsUploader.Sources.WsprGate

/-!
# The order of cursors

Each source answers whether one send record comes after another (`cursor_is_after`), and reads what
lies past a cursor by a filter of its own.  The two agree on every pair of cursors that the source
decodes, whatever way they are written: ids with leading zeros or spaces, times written as seconds,
any ASCII text of a cycle (`cursor_is_after_reads`).

## What is here

* `SqliteSource.ReadsId`, `WsprCycleSource.ReadsText`, `ReadsTime` — the cursors each source
  decodes.
* `SqliteSource.AdmitsRow`, `WsprCycleSource.AdmitsRow`, `AdmitsFile` — its filter, as the statement
  or the method applies it.
* `cursor_is_after_reads` — three instances of `ReadingOrder`, over whatever integers are ids and
  times.
-/

set_option autoImplicit false

namespace HsUploader

open Prog

/-! ## Queue rows -/

/-- A cursor that holds an id. -/
def SqliteSource.ReadsId (Id : ℤ → Prop) (cursor : Bytes) : Prop :=
  cursor ≠ [] ∧ ∃ cur, cursorFromBytes cursor = .ok cur ∧ Id cur

/-- The row passes `id > ?` under the cursor. -/
def SqliteSource.AdmitsRow (Id : ℤ → Prop) (cursor : Bytes) (r : {r : Row // Id r.id}) : Prop :=
  ∃ cur, cursorFromBytes cursor = .ok cur ∧ Passes [afterCursor cur] r.1

/-- A row with a given id. -/
def rowOf (id : ℤ) (payload : Payload) : Row where
  id
  targetDb := "wspr"
  targetTable := "spots"
  schemaVersion := 1
  payloadJson := payload
  queuedAt := ""

theorem SqliteSource.readingOrder (Id : ℤ → Prop) :
    ReadingOrder (ReadsId Id) SqliteSource.cursorIsAfter (AdmitsRow Id) := by
  refine .of_key (fun c ↦ (cursorFromBytes c).toOption.getD 0) (fun r ↦ some r.1.id) ?_ ?_ ?_
  · rintro new stored ⟨-, a, ha, -⟩ ⟨hne, b, hb, -⟩
    rw [SqliteSource.cursorIsAfter, List.isEmpty_eq_false_iff.mpr hne, if_neg Bool.false_ne_true,
      ha, hb]
    rfl
  · rintro c r ⟨-, a, ha, -⟩
    simp [AdmitsRow, ha, afterCursor, passes_column, passes_nil, Except.toOption]
  · rintro c ⟨-, a, ha, hId⟩
    exact ⟨⟨rowOf a .notJson, hId⟩, by rw [ha]; rfl⟩

/-! ## Cycles -/

/-- A cursor that holds a text. -/
def WsprCycleSource.ReadsText (cursor : Bytes) : Prop :=
  cursor ≠ [] ∧ ∃ text, cursor.decodeAscii = some text

/-- The row passes `json_extract(payload_json, '$.time') > ?` under the cursor. -/
def WsprCycleSource.AdmitsRow (cursor : Bytes) (r : Row) : Prop :=
  ∃ text, cursor.decodeAscii = some text ∧
    Passes [timeClause (· == .gt) (String.ofList text)] r

/-- The time of the row, where it is a text. -/
def timeText (r : Row) : Option String :=
  match r.payloadJson.jsonExtract "time" with
  | .ok (.text c) => some c
  | _ => none

theorem timeText_eq_some {r : Row} {c : String} :
    timeText r = some c ↔ r.payloadJson.jsonExtract "time" = .ok (.text c) := by
  rw [timeText]
  split
  · rename_i c' hc'
    rw [hc', Option.some.injEq, Except.ok.injEq, SqlValue.text.injEq]
  · rename_i hno
    constructor
    · intro h
      cases h
    · exact fun h ↦ absurd h (hno c)

theorem WsprCycleSource.readingOrder :
    ReadingOrder ReadsText WsprCycleSource.cursorIsAfter AdmitsRow := by
  refine .of_key (fun c ↦ String.ofList (c.decodeAscii.getD [])) timeText ?_ ?_ ?_
  · rintro new stored ⟨-, a, ha⟩ ⟨hne, b, hb⟩
    rw [WsprCycleSource.cursorIsAfter, List.isEmpty_eq_false_iff.mpr hne, if_neg Bool.false_ne_true,
      ha, hb]
    refine congrArg Except.ok ?_
    rw [Bool.eq_iff_iff, beq_iff_eq, compare_gt_iff_gt, decide_eq_true_eq]
    rfl
  · rintro c r ⟨-, a, ha⟩
    simp only [AdmitsRow, ha, Option.some.injEq, exists_eq_left', passes_cons, passes_nil, and_true,
      timeText_eq_some, Option.getD_some]
    rw [timeClause_true rfl]
    simp only [beq_iff_eq, compare_gt_iff_gt]
  · rintro c ⟨-, a, ha⟩
    refine ⟨rowOf 0 (.ofJson (.obj [("time", .str (String.ofList a))])), ?_⟩
    rw [ha]
    rfl

/-! ## Files -/

namespace Files.FileTreeSource

variable {C : Type}

/-- A cursor that holds a time. -/
def ReadsTime (it : Interpreter C) (Mtime : ℤ → Prop) (cursor : Bytes) : Prop :=
  cursor ≠ [] ∧ keepCursorDecodes it cursor = .ok true ∧
    ∀ c, decodeKeepCursor it cursor = .ok c → Mtime c

/-- The file passes `st_mtime_ns > after` under the cursor. -/
def AdmitsFile (src : FileTreeSource C) (it : Interpreter C) (Mtime : ℤ → Prop) (cursor : Bytes)
    (e : {e : Entry // Mtime e.mtimeNs}) : Prop :=
  ∃ files, src.afterCursor it cursor [e.1] = .ok files ∧ e.1 ∈ files

/-- The check and the decoder are in step. -/
theorem decodeKeepCursor_of_decodes {it : Interpreter C} {cursor : Bytes}
    (h : keepCursorDecodes it cursor = .ok true) : ∃ c, decodeKeepCursor it cursor = .ok c := by
  rw [keepCursorDecodes] at h
  rw [decodeKeepCursor]
  split_ifs
  · exact ⟨0, rfl⟩
  · cases htext : cursor.decodeAscii with
    | none => exact ⟨0, rfl⟩
    | some text =>
      rw [htext] at h
      dsimp only at h ⊢
      cases hint : pyInt text with
      | some n => exact ⟨n, rfl⟩
      | none =>
        rw [hint] at h
        dsimp only at h ⊢
        cases hfloat : it.floatNs text with
        | ok n => exact ⟨n, rfl⟩
        | error e => rw [hfloat] at h; cases e <;> cases h

theorem readingOrder {src : FileTreeSource C} (it : Interpreter C) (Mtime : ℤ → Prop)
    (hkeep : src.keep = true) :
    ReadingOrder (ReadsTime it Mtime) (src.cursorIsAfter it) (AdmitsFile src it Mtime) := by
  refine .of_key (fun c ↦ (decodeKeepCursor it c).toOption.getD 0) (fun e ↦ some e.1.mtimeNs)
    ?_ ?_ ?_
  · rintro new stored ⟨-, hnew, -⟩ ⟨hne, hstored, -⟩
    obtain ⟨a, ha⟩ := decodeKeepCursor_of_decodes hnew
    obtain ⟨b, hb⟩ := decodeKeepCursor_of_decodes hstored
    rw [FileTreeSource.cursorIsAfter, hkeep, List.isEmpty_eq_false_iff.mpr hne, hnew, hstored, ha,
      hb]
    rfl
  · rintro c e ⟨-, hc, -⟩
    obtain ⟨a, ha⟩ := decodeKeepCursor_of_decodes hc
    rw [AdmitsFile, afterCursor, hkeep, if_pos rfl, ha]
    simp [Except.toOption]
  · rintro c ⟨-, hc, hmtime⟩
    obtain ⟨a, ha⟩ := decodeKeepCursor_of_decodes hc
    exact ⟨⟨{ path := [], kind := .file, mtimeNs := a }, hmtime a ha⟩, by rw [ha]; rfl⟩

end Files.FileTreeSource

/-- **`cursor_is_after` is the order each source reads by**, whichever integers are ids and times. -/
theorem cursor_is_after_reads (Id Mtime : ℤ → Prop) {C : Type} (src : Files.FileTreeSource C)
    (it : Files.Interpreter C) (hkeep : src.keep = true) :
    ReadingOrder (SqliteSource.ReadsId Id) SqliteSource.cursorIsAfter (SqliteSource.AdmitsRow Id) ∧
      ReadingOrder WsprCycleSource.ReadsText WsprCycleSource.cursorIsAfter WsprCycleSource.AdmitsRow ∧
      ReadingOrder (Files.FileTreeSource.ReadsTime it Mtime) (src.cursorIsAfter it)
        (Files.FileTreeSource.AdmitsFile src it Mtime) :=
  ⟨SqliteSource.readingOrder Id, WsprCycleSource.readingOrder,
    Files.FileTreeSource.readingOrder it Mtime hkeep⟩

theorem cursor_is_after_reads_archive :
    ReadingOrder (SqliteSource.ReadsId fun _ ↦ True) SqliteSource.cursorIsAfter
        (SqliteSource.AdmitsRow fun _ ↦ True) ∧
      ReadingOrder (Files.FileTreeSource.ReadsTime Files.FileTreeSource.plainInterpreter fun _ ↦ True)
        (Files.FileTreeSource.archive.cursorIsAfter Files.FileTreeSource.plainInterpreter)
        (Files.FileTreeSource.AdmitsFile Files.FileTreeSource.archive
          Files.FileTreeSource.plainInterpreter fun _ ↦ True) := by
  obtain ⟨hsqlite, -, hfiles⟩ := cursor_is_after_reads (fun _ ↦ True) (fun _ ↦ True)
    Files.FileTreeSource.archive Files.FileTreeSource.plainInterpreter rfl
  exact ⟨hsqlite, hfiles⟩

end HsUploader
