import HsUploader.Library.Except
import HsUploader.Library.Table
import HsUploader.PyValue

/-!
# The lines of a wsprnet upload

`WsprNet` collapses the copies of one transmission that several receivers heard, renders each row
that stays as one line and posts the lines in the order of their dates, times and frequencies.

Both steps read the same columns, each under several names, and turn what they find into floats and
integers.  What a float is, how it is rounded and how it is written is the interpreter's
(`Interpreter`), of which nothing is assumed.
-/

set_option autoImplicit false

namespace HsUploader.WsprNet

/-! ## Numbers and texts -/

/-- What the interpreter makes of floats, beside what `Python` has. -/
structure Interpreter extends Python where
  /-- The number that a finite float is. -/
  value : Finite → ℚ
  /-- `0.0`. -/
  zero : Finite
  /-- `float(n)`, `none` where `n` is too large for a float. -/
  ofInt : ℤ → Option Finite
  /-- `float(text)`, `none` where it raises `ValueError`. -/
  ofText : PyText → Option (PyNumber Finite)
  /-- `x / 1_000_000.0`. -/
  perMillion : Finite → Finite
  /-- `round(x, 4)`. -/
  round4 : Finite → Finite
  /-- `x * 60.0`. -/
  times60 : Finite → PyNumber Finite
  /-- `round(x)`. -/
  roundInt : Finite → ℤ
  /-- `"%.*f" % (places, x)`. -/
  fixed : ℕ → PyNumber Finite → String
  /-- `"%d" % n`, `none` where `n` has more digits than the interpreter writes. -/
  decimal : ℤ → Option String
  /-- `text.strip()`. -/
  strip : PyText → PyText
  /-- `text.split()`. -/
  split : PyText → List PyText

/-- A finite float through a function, an infinity and what is no number as they are. -/
def onFinite {F : Type} (f : F → F) : PyNumber F → PyNumber F
  | .finite x => .finite (f x)
  | x => x

/-- `v is None`. -/
def isNone {F : Type} : PyValue F → Bool
  | .none => true
  | _ => false

/-- `except (TypeError, ValueError)`: nothing came of the computation. -/
def caught {α : Type} : Except Exn α → Except Exn (Option α)
  | .ok a => .ok (some a)
  | .error (.typeError _) => .ok none
  | .error (.valueError _) => .ok none
  | .error e => .error e

section

variable (py : Interpreter)

/-- `a > b` for two floats. -/
def gt : PyNumber py.Finite → PyNumber py.Finite → Bool
  | .finite x, .finite y => py.value y < py.value x
  | .finite _, .inf negative => negative
  | .inf negative, .finite _ => !negative
  | .inf negative, .inf negative' => !negative && negative'
  | .nan, _ => false
  | _, .nan => false

/-- `float(v)`. -/
def float : PyValue py.Finite → Except Exn (PyNumber py.Finite)
  | .float x => .ok x
  | .int n => ofInt n
  | .bool b => ofInt (if b then 1 else 0)
  | .str s =>
    match py.ofText s with
    | some x => .ok x
    | none => .error (.valueError "could not convert string to float")
  | .none =>
    .error (.typeError "float() argument must be a string or a real number, not 'NoneType'")
  | .list _ => .error (.typeError "float() argument must be a string or a real number, not 'list'")
  | .dict _ => .error (.typeError "float() argument must be a string or a real number, not 'dict'")
where
  ofInt (n : ℤ) : Except Exn (PyNumber py.Finite) :=
    match py.ofInt n with
    | some x => .ok (.finite x)
    | none => .error (.overflowError "int too large to convert to float")

/-- `_float_or_zero(v)`. -/
def floatOrZero (v : PyValue py.Finite) : Except Exn (PyNumber py.Finite) :=
  if isNone v then .ok (.finite py.zero)
  else do
    let x ← caught (float py v)
    pure (x.getD (.finite py.zero))

/-- `_int_or_zero(v)`. -/
def intOrZero (v : PyValue py.Finite) : Except Exn ℤ :=
  if isNone v then .ok 0
  else do
    match ← caught (py.int v) with
    | some n => pure n
    | none =>
      let n ← caught (do
        let x ← float py v
        py.int (.float x))
      pure (n.getD 0)

/-- `(v or "").strip()`. -/
def stripped (v : PyValue py.Finite) : Except Exn PyText :=
  match py.orElse v (.str []) with
  | .str s => .ok (py.strip s)
  | _ => .error (.attributeError "object has no attribute 'strip'")

end

/-! ## Records -/

/-- A `datetime`, as far as a line shows it. -/
structure DateTime where
  year : ℕ
  month : ℕ
  day : ℕ
  hour : ℕ
  minute : ℕ
  deriving DecidableEq

/-- The last two decimal digits of a number. -/
def twoDigits (n : ℕ) : String :=
  String.ofList [Nat.digitChar (n / 10 % 10), Nat.digitChar (n % 10)]

/-- `t.strftime("%y%m%d")`. -/
def DateTime.ymd (t : DateTime) : String := twoDigits t.year ++ twoDigits t.month ++ twoDigits t.day

/-- `t.strftime("%H%M")`. -/
def DateTime.hm (t : DateTime) : String := twoDigits t.hour ++ twoDigits t.minute

/-- A record: its time, which may be missing, and its columns. -/
structure Record (F : Type) where
  time : Option DateTime
  columns : Columns F

section

variable (py : Interpreter)

/-- The first of three call columns that has something in it. -/
def callColumn (cols : Columns py.Finite) : PyValue py.Finite :=
  py.orElse (py.orElse (cols.get "tx_sign") (cols.get "tx_call")) (cols.get "callsign")

/-- The frequency in hertz. -/
def freqHzColumn (cols : Columns py.Finite) : PyValue py.Finite :=
  py.orElse (cols.get "frequency") (cols.get "frequency_hz")

/-- The first of two columns that is there. -/
def firstOf {F : Type} (cols : Columns F) (name other : String) : PyValue F :=
  if isNone (cols.get name) then cols.get other else cols.get name

/-- The call of a row. -/
def callOf (cols : Columns py.Finite) : Except Exn PyText := stripped py (callColumn py cols)

/-! ## Duplicates -/

/-- A frequency in a key.  What is no number is equal to nothing, so that each such frequency is
one of its own, told apart by its row's position. -/
inductive Quantised where
  | number (q : ℚ)
  | inf (negative : Bool)
  | nan (pos : ℕ)
  deriving DecidableEq

/-- What a row is known by: date, time, call and quantised frequency. -/
structure Key where
  date : String
  time : String
  call : PyText
  freq : Quantised
  deriving DecidableEq

/-- A rounded frequency in a key. -/
def quantised (pos : ℕ) : PyNumber py.Finite → Quantised
  | .finite x => .number (py.value x)
  | .inf negative => .inf negative
  | .nan => .nan pos

/-- The frequency a row is told apart by, in megahertz and rounded; `none` for a row that has
none. -/
def dedupFreq (cols : Columns py.Finite) : Except Exn (Option (PyNumber py.Finite)) :=
  if isNone (cols.get "frequency_mhz") then
    if !py.truthy (freqHzColumn py cols) then pure none
    else do
      let freqMhz ← caught (do
        let x ← float py (freqHzColumn py cols)
        pure (onFinite py.perMillion x))
      pure (freqMhz.map (onFinite py.round4))
  else do
    let freqMhz ← caught (float py (cols.get "frequency_mhz"))
    pure (freqMhz.map (onFinite py.round4))

/-- The key of the row at a position; `none` for a row that is passed through. -/
def dedupKey (pos : ℕ) (rec : Record py.Finite) : Except Exn (Option Key) := do
  let call ← callOf py rec.columns
  if call = [] then pure none
  else
    match ← dedupFreq py rec.columns with
    | none => pure none
    | some freqQ =>
      match rec.time with
      | none => pure none
      | some t =>
        pure (some { date := t.ymd, time := t.hm, call, freq := quantised py pos freqQ })

/-- The SNR of a row. -/
def dedupSnr (cols : Columns py.Finite) : Except Exn (PyNumber py.Finite) :=
  floatOrZero py (firstOf cols "snr" "snr_db")

/-- The best row of each key so far, with its SNR. -/
abbrev Best : Type := List (Key × ((ℕ × Record py.Finite) × PyNumber py.Finite))

/-- The loop of `dedup_records_for_wsprnet`. -/
def dedupLoop : List (ℕ × Record py.Finite) → Best py → List (ℕ × Record py.Finite) →
    Except Exn (Best py × List (ℕ × Record py.Finite))
  | [], best, passThrough => pure (best, passThrough)
  | (pos, rec) :: rest, best, passThrough => do
    match ← dedupKey py pos rec with
    | none => dedupLoop rest best (passThrough ++ [(pos, rec)])
    | some key =>
      let snr ← dedupSnr py rec.columns
      match Table.lookup key best with
      | none => dedupLoop rest (Table.upsert key ((pos, rec), snr) best) passThrough
      | some prev =>
        if gt py snr prev.2 then
          dedupLoop rest (Table.upsert key ((pos, rec), snr) best) passThrough
        else dedupLoop rest best passThrough

/-- `dedup_records_for_wsprnet(records)`. -/
def dedupRecordsForWsprnet (records : List (Record py.Finite)) :
    Except Exn (List (Record py.Finite)) := do
  let (best, passThrough) ← dedupLoop py (records.zipIdx.map Prod.swap) [] []
  let ordered := (best.map (·.2.1) ++ passThrough).mergeSort fun a b ↦ a.1 ≤ b.1
  pure (ordered.map Prod.snd)

/-! ## Lines -/

/-- `_HASH_UNRESOLVED`. -/
def hashUnresolved : PyText := .ofString "<...>"

/-- The frequency of a line, in megahertz; `none` for a row that is left out. -/
def meptFreq (cols : Columns py.Finite) : Except Exn (Option (PyNumber py.Finite)) :=
  if isNone (cols.get "frequency_mhz") then
    if !py.truthy (freqHzColumn py cols) then pure none
    else do
      -- not guarded here, as it is in `dedupFreq`
      let x ← float py (freqHzColumn py cols)
      pure (some (onFinite py.perMillion x))
  else caught (float py (cols.get "frequency_mhz"))

/-- The drift of a line, in hertz a minute. -/
def driftOf (cols : Columns py.Finite) : Except Exn ℤ :=
  if !isNone (cols.get "drift") then intOrZero py (cols.get "drift")
  else if !isNone (cols.get "drift_hz_per_s") then do
    let x ← float py (py.orElse (cols.get "drift_hz_per_s") (.float (.finite py.zero)))
    match x with
    | .finite x =>
      match py.times60 x with
      | .finite y => pure (py.roundInt y)
      | .inf _ => throw (.overflowError "cannot convert float infinity to integer")
      | .nan => throw (.valueError "cannot convert float NaN to integer")
    | .inf _ => throw (.overflowError "cannot convert float infinity to integer")
    | .nan => throw (.valueError "cannot convert float NaN to integer")
  else pure 0

/-- The row is of a W mode, by its mode or by its number. -/
def isWMode (mode : PyText) (ntype : ℤ) : Bool :=
  if mode ≠ [] then mode.head? = some (.scalar 'W') else ntype = 2

/-- A text filled up on the left to a width. -/
def padLeft (width : ℕ) (s : PyText) : PyText :=
  List.replicate (width - s.length) (.scalar ' ') ++ s

/-- A text filled up on the right to a width. -/
def padRight (width : ℕ) (s : PyText) : PyText :=
  s ++ List.replicate (width - s.length) (.scalar ' ')

/-- `"%{width}.{places}f" % x`. -/
def floatField (width places : ℕ) (x : PyNumber py.Finite) : PyText :=
  padLeft width (.ofString (py.fixed places x))

/-- `"%{width}d" % n`. -/
def intField (width : ℕ) (n : ℤ) : Except Exn PyText :=
  match py.decimal n with
  | some s => .ok (padLeft width (.ofString s))
  | none => .error (.valueError "Exceeds the limit for integer string conversion")

/-- The fields of a line with a blank between each two. -/
def blankJoin (fields : List PyText) : PyText := List.intercalate [.scalar ' '] fields

/-- The fields of a row as a line, in one of two formats. -/
def meptLine (t : DateTime) (call grid : PyText) (freqMhz sync snr dt : PyNumber py.Finite)
    (power drift ntype : ℤ) (wMode : Bool) : Except Exn PyText :=
  if wMode then do
    let snrInt ← py.int (.float snr)
    let snrField ← intField py 3 snrInt
    let powerField ← intField py 2 power
    let driftField ← intField py 2 drift
    let ntypeField ← intField py 4 ntype
    pure (blankJoin
      [padRight 6 (.ofString t.ymd), padLeft 4 (.ofString t.hm), floatField py 5 2 sync, snrField,
       floatField py 5 2 dt, floatField py 12 7 freqMhz, padRight 14 call, padRight 6 grid,
       powerField, driftField, ntypeField])
  else do
    let powerField ← intField py 2 power
    let ntypeField ← intField py 4 ntype
    pure (blankJoin
      [padRight 6 (.ofString t.ymd), padLeft 4 (.ofString t.hm), floatField py 5 1 sync,
       floatField py 3 0 snr, floatField py 5 2 dt, floatField py 12 7 freqMhz, padRight 14 call,
       padRight 6 grid, powerField, .ofString " 0", ntypeField])

/-- `_record_to_mept(record)`. -/
def recordToMept (rec : Record py.Finite) : Except Exn (Option PyText) := do
  let cols := rec.columns
  let call ← callOf py cols
  if call = [] || call = hashUnresolved then pure none
  else
    match ← meptFreq py cols with
    | none => pure none
    | some freqMhz =>
      match rec.time with
      | none => throw (.attributeError "'NoneType' object has no attribute 'strftime'")
      | some t =>
        let sync ← floatOrZero py (cols.get "sync_quality")
        let snr ← floatOrZero py (firstOf cols "snr" "snr_db")
        let dt ← floatOrZero py (cols.get "dt")
        let power ← intOrZero py (firstOf cols "power" "pwr_dbm")
        let drift ← driftOf py cols
        let ntype ← intOrZero py (firstOf cols "code" "pkt_mode")
        let grid ← stripped py (py.orElse (cols.get "tx_loc") (cols.get "grid"))
        let modeToken ← stripped py (cols.get "mode")
        let line ← meptLine py t call grid freqMhz sync snr dt power drift ntype
          (isWMode (py.upper modeToken) ntype)
        pure (some line)

/-! ## The body -/

/-- The number of a code point. -/
def code : PyChar → ℕ
  | .scalar c => c.toNat
  | .surrogate n => 0xD800 + n

/-- `a < b` for two texts. -/
def textLt (a b : PyText) : Bool := a.map code < b.map code

/-- What a line is sorted by. -/
abbrev SortKey : Type := PyText × PyText × PyNumber py.Finite

/-- `_mept_sort_key(line)`. -/
def meptSortKey (line : PyText) : SortKey py :=
  let parts := py.split line
  match parts[0]?, parts[1]?, parts[5]?.bind py.ofText with
  | some date, some time, some freq => (date, time, freq)
  | _, _, _ => ([], [], .finite py.zero)

/-- `a < b` for two keys: the first place where they differ decides. -/
def sortKeyLt (a b : SortKey py) : Bool :=
  if a.1 ≠ b.1 then textLt a.1 b.1
  else if a.2.1 ≠ b.2.1 then textLt a.2.1 b.2.1
  else gt py b.2.2 a.2.2

/-- `lines.sort(key=_mept_sort_key)`: in the order of the keys, lines of one key in the order they
had.  Where a frequency is no number its line's place is unspecified. -/
def sortLines (lines : List PyText) : List PyText :=
  lines.mergeSort fun a b ↦ !sortKeyLt py (meptSortKey py b) (meptSortKey py a)

/-- The lines that were rendered, in order and with a newline after each, encoded. -/
def encodeLines (lines : List PyText) : Except Exn Bytes :=
  if lines = [] then pure []
  else PyText.encode (List.intercalate [.scalar '\n'] (sortLines py lines) ++ [.scalar '\n'])

/-- The lines of the rows that are not left out. -/
def renderedLines (lines : List (Option PyText)) : List PyText :=
  lines.reduceOption.filter fun line ↦ line ≠ []

/-- `_build_mept_body(records)`. -/
def buildMeptBody (records : List (Record py.Finite)) : Except Exn Bytes := do
  let records ← dedupRecordsForWsprnet py records
  let lines ← records.mapM (recordToMept py)
  encodeLines py (renderedLines lines)

end

end HsUploader.WsprNet
