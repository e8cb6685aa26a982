import Mathlib.Data.List.ReduceOption
import HsUploader.Transports.WsprDedup

/-!
# Rows that stop an upload

Both `dedup_records_for_wsprnet` and `_record_to_mept` take whatever a row's columns hold.  Most of
what is no text or no number is guarded; what is not guarded, and makes the whole batch raise, is
said here column by column, for the rows the deduplication reads and for those it keeps.

## What is here

* Predicates of one column: `IsText`, `Huge`, `Infinite`, `NotNumber`, and what number a value
  stands for (`FloatIs`, `TruncIs`, `IntIs`).
* One lemma for each thing that is read off a row, saying when it can be read and what it comes to;
  for the drift, `driftOf_eq_ok` says it column by column.
* `meptLine_ok_iff` and `recordToMept_ok_iff` — when a row's line can be written, and when the row
  is left out instead.
* `Harmless` — the rows of a batch none of which stops the upload: the deduplication can read each
  of them, and each row that stays can be written.  `buildMeptBody_ok_iff` shows that it says
  exactly that.

A row without a key is passed through by the deduplication and left out by the rendering; it does
harm only where the rendering raises before it finds that out.
-/

set_option autoImplicit false

namespace HsUploader.WsprNet

open KeepBest (Placed)

section

variable (py : Interpreter)

/-! ## Values -/


/-- A text, or a value that counts as false and is replaced by the empty text. -/
def IsText (v : PyValue py.Finite) : Prop := py.truthy v = false ∨ ∃ s, v = .str s

/-- An integer no float holds. -/
def Huge : PyValue py.Finite → Prop
  | .int n => py.ofInt n = none
  | .bool b => py.ofInt (if b then 1 else 0) = none
  | _ => False

/-- An infinity, or a text that is read as one. -/
def Infinite : PyValue py.Finite → Prop
  | .float (.inf _) => True
  | .str s => py.intOfText s = none ∧ ∃ negative, py.ofText s = some (.inf negative)
  | _ => False

/-- A text that is no number, or a value of a type that is none. -/
def NotNumber : PyValue py.Finite → Prop
  | .str s => py.ofText s = none
  | .none | .list _ | .dict _ => True
  | _ => False

/-- The float a value stands for: what is no number stands for zero. -/
def FloatIs (v : PyValue py.Finite) (x : PyNumber py.Finite) : Prop :=
  match v with
  | .float y => x = y
  | .int n => ∃ y, py.ofInt n = some y ∧ x = .finite y
  | .bool b => ∃ y, py.ofInt (if b then 1 else 0) = some y ∧ x = .finite y
  | .str s => x = (py.ofText s).getD (.finite py.zero)
  | .none | .list _ | .dict _ => x = .finite py.zero

/-- The integer a float stands for: what is not a number stands for zero, and an infinity for
none. -/
def TruncIs (x : PyNumber py.Finite) (n : ℤ) : Prop :=
  match x with
  | .finite y => n = py.trunc y
  | .inf _ => False
  | .nan => n = 0

/-- The integer a value stands for: a text is read as an integer or, failing that, as a float. -/
def IntIs (v : PyValue py.Finite) (n : ℤ) : Prop :=
  match v with
  | .int m => n = m
  | .bool b => n = if b then 1 else 0
  | .float x => TruncIs py x n
  | .str s =>
    match py.intOfText s with
    | some m => n = m
    | none => match py.ofText s with
      | some x => TruncIs py x n
      | none => n = 0
  | .none | .list _ | .dict _ => n = 0

/-- The interpreter writes the integer. -/
def Written (n : ℤ) : Prop := (py.decimal n).isSome

variable {py}

theorem bind_def {α β : Type} (x : Except Exn α) (f : α → Except Exn β) :
    x >>= f = match x with
      | .error e => .error e
      | .ok a => f a := by
  cases x <;> rfl

theorem pure_def {α : Type} (a : α) : (pure a : Except Exn α) = .ok a := rfl

/-- Going on with what came of a computation does not fail. -/
theorem map_ok_iff {α β : Type} {x : Except Exn α} {f : α → β} :
    (∃ b, (do let a ← x; pure (f a)) = Except.ok b) ↔ ∃ a, x = .ok a := by
  cases x with
  | error e => simp [bind_def]
  | ok a => simp [bind_def, pure_def]

theorem caught_map_ok_iff {α β : Type} {x : Except Exn α} {f : α → β} :
    (∃ b, caught (do let a ← x; pure (f a)) = .ok b) ↔ ∃ a, caught x = .ok a := by
  cases x with
  | error e => cases e <;> simp [bind_def, caught]
  | ok a => simp [bind_def, pure_def, caught]

theorem stripped_ok_iff {v : PyValue py.Finite} : (∃ s, stripped py v = .ok s) ↔ IsText py v := by
  rw [stripped, Python.orElse, IsText]
  cases ht : py.truthy v with
  | false => simp
  | true => cases v <;> simp

theorem caught_float_ok_iff {v : PyValue py.Finite} :
    (∃ x, caught (float py v) = .ok x) ↔ ¬ Huge py v := by
  have hint : ∀ n, (∃ x, caught (float.ofInt py n) = .ok x) ↔ py.ofInt n ≠ none := by
    intro n
    rw [float.ofInt]
    cases py.ofInt n <;> simp [caught]
  cases v with
  | int n => exact hint n
  | bool b => exact hint _
  | str s =>
    rw [float]
    cases py.ofText s <;> simp [caught, Huge]
  | _ => simp [float, caught, Huge]

theorem floatOrZero_ok_iff {v : PyValue py.Finite} :
    (∃ x, floatOrZero py v = .ok x) ↔ ¬ Huge py v := by
  rw [floatOrZero]
  split_ifs with hnone
  · refine iff_of_true ⟨_, rfl⟩ ?_
    cases v with
    | none => exact id
    | _ => cases hnone
  · rw [map_ok_iff, caught_float_ok_iff]

theorem intOrZero_ok_iff {v : PyValue py.Finite} :
    (∃ n, intOrZero py v = .ok n) ↔ ¬ Infinite py v := by
  cases v with
  | float x =>
    cases x <;> simp [intOrZero, isNone, Python.int, caught, float, Infinite, bind_def, pure_def]
  | str s =>
    cases hn : py.intOfText s with
    | some n => simp [intOrZero, isNone, Python.int, caught, Infinite, hn, bind_def, pure_def]
    | none =>
      cases hx : py.ofText s with
      | none => simp [intOrZero, isNone, Python.int, caught, float, Infinite, hn, hx, bind_def,
            pure_def]
      | some x =>
        cases x <;>
          simp [intOrZero, isNone, Python.int, caught, float, Infinite, hn, hx, bind_def,
            pure_def]
  | _ => simp [intOrZero, isNone, Python.int, caught, float, Infinite, bind_def, pure_def]

theorem caught_float_eq_none {v : PyValue py.Finite} :
    caught (float py v) = .ok none ↔ NotNumber py v := by
  have hint : ∀ n, caught (float.ofInt py n) ≠ .ok none := by
    intro n
    rw [float.ofInt]
    cases py.ofInt n <;> simp [caught]
  cases v with
  | int n => exact iff_of_false (hint n) id
  | bool b => exact iff_of_false (hint _) id
  | str s =>
    rw [float]
    cases hs : py.ofText s <;> simp [caught, NotNumber, hs]
  | _ => simp [float, caught, NotNumber]

theorem floatOrZero_eq_ok {v : PyValue py.Finite} {x : PyNumber py.Finite} :
    floatOrZero py v = .ok x ↔ FloatIs py v x := by
  have hint : ∀ n, (do
      let x ← caught (float.ofInt py n)
      pure (x.getD (.finite py.zero)) : Except Exn _) = .ok x ↔
        ∃ y, py.ofInt n = some y ∧ x = .finite y := by
    intro n
    rw [float.ofInt]
    cases py.ofInt n <;> simp [caught, bind_def, pure_def, eq_comm]
  cases v with
  | int n => exact hint n
  | bool b => exact hint _
  | str s => cases hs : py.ofText s <;>
      simp [floatOrZero, isNone, float, caught, FloatIs, hs, bind_def, pure_def, eq_comm]
  | _ => simp [floatOrZero, isNone, float, caught, FloatIs, bind_def, pure_def, eq_comm]

theorem intOrZero_eq_ok {v : PyValue py.Finite} {n : ℤ} :
    intOrZero py v = .ok n ↔ IntIs py v n := by
  cases v with
  | float x =>
    cases x <;> simp [intOrZero, isNone, Python.int, caught, float, IntIs, TruncIs, bind_def,
      pure_def, eq_comm]
  | str s =>
    cases hn : py.intOfText s with
    | some m => simp [intOrZero, isNone, Python.int, caught, IntIs, hn, bind_def, pure_def, eq_comm]
    | none =>
      cases hx : py.ofText s with
      | none => simp [intOrZero, isNone, Python.int, caught, float, IntIs, hn, hx, bind_def,
            pure_def, eq_comm]
      | some x =>
        cases x <;>
          simp [intOrZero, isNone, Python.int, caught, float, IntIs, TruncIs, hn, hx, bind_def,
            pure_def, eq_comm]
  | _ => simp [intOrZero, isNone, Python.int, caught, float, IntIs, bind_def, pure_def, eq_comm]

/-! ## What the deduplication reads -/

variable (py) in
/-- Neither of the frequency columns in hertz has something in it, and megahertz are not there. -/
def NoFreq (cols : Columns py.Finite) : Prop :=
  isNone (cols.get "frequency_mhz") = true ∧ py.truthy (freqHzColumn py cols) = false

variable (py) in
/-- The value the frequency is made of. -/
def freqColumn (cols : Columns py.Finite) : PyValue py.Finite :=
  if isNone (cols.get "frequency_mhz") then freqHzColumn py cols else cols.get "frequency_mhz"

variable (py) in
/-- The row has no key: its call is empty, it has no frequency or one that is no number, or it has
no time. -/
def Keyless (rec : Record py.Finite) : Prop :=
  callOf py rec.columns = .ok [] ∨ NoFreq py rec.columns ∨
    NotNumber py (freqColumn py rec.columns) ∨ rec.time = none

variable (py) in
/-- The deduplication reads the row: its call is a text and, where the row has one, its frequency
is no integer beyond the floats, and neither is its SNR where the row has a key. -/
structure Reads (rec : Record py.Finite) : Prop where
  call : IsText py (callColumn py rec.columns)
  freq : callOf py rec.columns = .ok [] ∨ NoFreq py rec.columns ∨
    ¬ Huge py (freqColumn py rec.columns)
  snr : Keyless py rec ∨ ¬ Huge py (firstOf rec.columns "snr" "snr_db")

theorem dedupFreq_eq_none {cols : Columns py.Finite} :
    dedupFreq py cols = .ok none ↔ NoFreq py cols ∨ NotNumber py (freqColumn py cols) := by
  rw [dedupFreq, NoFreq, freqColumn, ← caught_float_eq_none]
  by_cases hmhz : isNone (cols.get "frequency_mhz") = true
  · rw [if_pos hmhz, if_pos hmhz]
    cases ht : py.truthy (freqHzColumn py cols) with
    | false => exact iff_of_true rfl (.inl ⟨hmhz, rfl⟩)
    | true =>
      rw [if_neg (by simp), or_iff_right fun h ↦ Bool.noConfusion h.2]
      cases float py (freqHzColumn py cols) with
      | ok x => simp [bind_def, pure_def, caught]
      | error e => cases e <;> simp [bind_def, pure_def, caught]
  · rw [if_neg hmhz, if_neg hmhz, or_iff_right fun h ↦ hmhz h.1]
    cases float py (cols.get "frequency_mhz") with
    | ok x => simp [bind_def, pure_def, caught]
    | error e => cases e <;> simp [bind_def, pure_def, caught]

/-- A row whose call is a text has no key where something is missing. -/
theorem dedupKey_eq_none_iff {rec : Record py.Finite} {key : Option Key}
    (h : dedupKey py 0 rec = .ok key) : key = none ↔ Keyless py rec := by
  rw [Keyless, ← or_assoc (a := NoFreq py rec.columns), ← dedupFreq_eq_none]
  rw [dedupKey, Except.bind_eq_ok] at h
  obtain ⟨call, hcall, h⟩ := h
  by_cases hempty : call = []
  · rw [if_pos hempty] at h
    cases h
    exact iff_of_true rfl (.inl (hcall.trans (congrArg _ hempty)))
  rw [if_neg hempty, Except.bind_eq_ok] at h
  obtain ⟨freq, hfreq, h⟩ := h
  rw [hcall, hfreq, or_iff_right fun he ↦ hempty (Except.ok.inj he)]
  cases freq with
  | none =>
    cases h
    exact iff_of_true rfl (.inl rfl)
  | some x =>
    cases ht : rec.time with
    | none =>
      rw [ht] at h
      cases h
      exact iff_of_true rfl (.inr rfl)
    | some t =>
      rw [ht] at h
      cases h
      simp

theorem dedupFreq_ok_iff {cols : Columns py.Finite} :
    (∃ x, dedupFreq py cols = .ok x) ↔ NoFreq py cols ∨ ¬ Huge py (freqColumn py cols) := by
  rw [dedupFreq, NoFreq, freqColumn, ← caught_float_ok_iff]
  by_cases hmhz : isNone (cols.get "frequency_mhz") = true
  · rw [if_pos hmhz, if_pos hmhz]
    cases ht : py.truthy (freqHzColumn py cols) with
    | false => exact iff_of_true ⟨none, rfl⟩ (.inl ⟨hmhz, rfl⟩)
    | true =>
      rw [if_neg (by simp), map_ok_iff, caught_map_ok_iff]
      exact (or_iff_right fun h ↦ Bool.noConfusion h.2).symm
  · rw [if_neg hmhz, if_neg hmhz, map_ok_iff]
    exact (or_iff_right fun h ↦ hmhz h.1).symm

theorem dedupKey_ok_iff {pos : ℕ} {rec : Record py.Finite} :
    (∃ key, dedupKey py pos rec = .ok key) ↔ IsText py (callColumn py rec.columns) ∧
      (callOf py rec.columns = .ok [] ∨ NoFreq py rec.columns ∨
        ¬ Huge py (freqColumn py rec.columns)) := by
  rw [← stripped_ok_iff, ← dedupFreq_ok_iff, dedupKey, ← callOf]
  cases callOf py rec.columns with
  | error e => simp [bind_def]
  | ok call =>
    rw [Except.ok_bind]
    by_cases hcall : call = []
    · rw [if_pos hcall, hcall]
      exact iff_of_true ⟨_, rfl⟩ ⟨⟨_, rfl⟩, .inl rfl⟩
    · rw [if_neg hcall]
      have hne : (Except.ok call : Except Exn PyText) ≠ .ok [] := fun h ↦ hcall (Except.ok.inj h)
      simp only [hne, false_or, Except.ok.injEq, exists_eq', true_and]
      cases dedupFreq py rec.columns with
      | error e => simp [bind_def]
      | ok freq =>
        rw [Except.ok_bind]
        refine iff_of_true ?_ ⟨_, rfl⟩
        cases freq with
        | none => exact ⟨_, rfl⟩
        | some x => cases rec.time <;> exact ⟨_, rfl⟩

theorem dedupKey_eq_none {pos : ℕ} {rec : Record py.Finite} :
    dedupKey py pos rec = .ok none ↔ dedupKey py 0 rec = .ok none := by
  rw [dedupKey_eq]
  cases dedupKey py 0 rec with
  | error e => simp [Except.map]
  | ok key => cases key <;> simp [Except.map]

/-- **What the deduplication can read**, column by column. -/
theorem readRow_ok_iff {e : Placed (Record py.Finite)} :
    (∃ v, readRow py e = .ok v) ↔ Reads py e.2 := by
  have hreads : Reads py e.2 ↔ (∃ key, dedupKey py e.1 e.2 = .ok key) ∧
      (dedupKey py e.1 e.2 = .ok none ∨ ∃ snr, dedupSnr py e.2.columns = .ok snr) := by
    have hkeyless : ∀ {key}, dedupKey py 0 e.2 = .ok key →
        (dedupKey py e.1 e.2 = .ok none ↔ Keyless py e.2) := by
      intro key hkey
      rw [dedupKey_eq_none, ← dedupKey_eq_none_iff hkey, hkey, Except.ok.injEq]
    rw [dedupSnr, floatOrZero_ok_iff]
    constructor
    · intro h
      obtain ⟨key, hkey⟩ := dedupKey_ok_iff.mpr ⟨h.call, h.freq⟩
      exact ⟨dedupKey_ok_iff.mpr ⟨h.call, h.freq⟩, h.snr.imp_left (hkeyless hkey).mpr⟩
    · rintro ⟨hok, hsnr⟩
      obtain ⟨hcall, hfreq⟩ := dedupKey_ok_iff.mp hok
      obtain ⟨key, hkey⟩ := dedupKey_ok_iff.mpr ⟨hcall, hfreq⟩
      exact ⟨hcall, hfreq, hsnr.imp_left (hkeyless hkey).mp⟩
  rw [hreads, readRow]
  cases dedupKey py e.1 e.2 with
  | error err => simp [bind_def]
  | ok key =>
    cases key with
    | none => exact iff_of_true ⟨_, rfl⟩ ⟨⟨_, rfl⟩, .inl rfl⟩
    | some key => cases dedupSnr py e.2.columns <;> simp [bind_def, pure_def]

/-! ## What is rendered -/

variable (py) in
/-- The row has no call, or one that was not resolved. -/
def NoCall (cols : Columns py.Finite) : Prop :=
  callOf py cols = .ok [] ∨ callOf py cols = .ok hashUnresolved

variable (py) in
/-- The row is left out for its frequency: it has none, or what stands for megahertz is no
number. -/
def UselessFreq (cols : Columns py.Finite) : Prop :=
  NoFreq py cols ∨
    (isNone (cols.get "frequency_mhz") = false ∧ NotNumber py (cols.get "frequency_mhz"))

variable (py) in
/-- The row has a frequency, and that is a number a float holds. -/
def UsableFreq (cols : Columns py.Finite) : Prop :=
  ¬ NoFreq py cols ∧ ¬ NotNumber py (freqColumn py cols) ∧ ¬ Huge py (freqColumn py cols)

variable (py) in
/-- The row counts as one of a W mode. -/
def WMode (cols : Columns py.Finite) : Prop :=
  ∃ mode ntype, stripped py (cols.get "mode") = .ok mode ∧
    IntIs py (firstOf cols "code" "pkt_mode") ntype ∧ isWMode (py.upper mode) ntype = true

variable (py) in
/-- The rate of drift in hertz a second, where it is finite: zero for a value that counts as
false. -/
def RateIs (v : PyValue py.Finite) (x : py.Finite) : Prop :=
  if py.truthy v then ¬ NotNumber py v ∧ FloatIs py v (.finite x) else x = py.zero

variable (py) in
/-- The drift of the row in hertz a minute: what stands in `drift`, or the rate of drift times
sixty, rounded. -/
def DriftIs (cols : Columns py.Finite) (n : ℤ) : Prop :=
  if isNone (cols.get "drift") then
    if isNone (cols.get "drift_hz_per_s") then n = 0
    else ∃ x y, RateIs py (cols.get "drift_hz_per_s") x ∧ py.times60 x = .finite y ∧
      n = py.roundInt y
  else IntIs py (cols.get "drift") n

variable (py) in
/-- The drift of the row is no infinity, and its rate of drift is a number that is finite, also
times sixty. -/
def FiniteDrift (cols : Columns py.Finite) : Prop :=
  if isNone (cols.get "drift") then
    isNone (cols.get "drift_hz_per_s") = true ∨
      ∃ x y, RateIs py (cols.get "drift_hz_per_s") x ∧ py.times60 x = .finite y
  else ¬ Infinite py (cols.get "drift")

variable (py) in
/-- The columns a line is written from, beside call and frequency, can be written. -/
structure Writable (cols : Columns py.Finite) : Prop where
  sync : ¬ Huge py (cols.get "sync_quality")
  snr : ¬ Huge py (firstOf cols "snr" "snr_db")
  dt : ¬ Huge py (cols.get "dt")
  power : ¬ Infinite py (firstOf cols "power" "pwr_dbm")
  powerWritten : ∀ n, IntIs py (firstOf cols "power" "pwr_dbm") n → Written py n
  drift : FiniteDrift py cols
  ntype : ¬ Infinite py (firstOf cols "code" "pkt_mode")
  ntypeWritten : ∀ n, IntIs py (firstOf cols "code" "pkt_mode") n → Written py n
  grid : IsText py (py.orElse (cols.get "tx_loc") (cols.get "grid"))
  gridText : ∀ s, stripped py (py.orElse (cols.get "tx_loc") (cols.get "grid")) = .ok s →
    s.Encodable
  mode : IsText py (cols.get "mode")
  wSnr : WMode py cols → ∃ x, FloatIs py (firstOf cols "snr" "snr_db") (.finite x) ∧
    Written py (py.trunc x)
  wDrift : WMode py cols → ∀ n, DriftIs py cols n → Written py n
  callText : ∀ s, callOf py cols = .ok s → s.Encodable

variable (py) in
/-- A row that stays is left out or written: its call is a text, and it has no call, no usable
frequency in megahertz or none at all, or it has a frequency and a time and can be written. -/
def Renders (rec : Record py.Finite) : Prop :=
  IsText py (callColumn py rec.columns) ∧ (NoCall py rec.columns ∨ UselessFreq py rec.columns ∨
    (UsableFreq py rec.columns ∧ rec.time.isSome ∧ Writable py rec.columns))

theorem float_ok_iff {v : PyValue py.Finite} :
    (∃ x, float py v = .ok x) ↔ ¬ NotNumber py v ∧ ¬ Huge py v := by
  rw [← caught_float_ok_iff, ← caught_float_eq_none]
  cases float py v with
  | ok x => simp [caught]
  | error e => cases e <;> simp [caught]

theorem meptFreq_eq_none {cols : Columns py.Finite} :
    meptFreq py cols = .ok none ↔ UselessFreq py cols := by
  rw [meptFreq, UselessFreq, NoFreq, ← caught_float_eq_none]
  cases hmhz : isNone (cols.get "frequency_mhz") with
  | false => simp
  | true =>
    cases ht : py.truthy (freqHzColumn py cols) with
    | false => simp [pure_def]
    | true => cases float py (freqHzColumn py cols) <;> simp [bind_def, pure_def]

theorem meptFreq_eq_some {cols : Columns py.Finite} :
    (∃ x, meptFreq py cols = .ok (some x)) ↔ UsableFreq py cols := by
  rw [meptFreq, UsableFreq, ← float_ok_iff, NoFreq, freqColumn]
  cases hmhz : isNone (cols.get "frequency_mhz") with
  | false =>
    cases hf : float py (cols.get "frequency_mhz") with
    | ok x => simp [caught, hf]
    | error e => cases e <;> simp [caught, hf]
  | true =>
    cases ht : py.truthy (freqHzColumn py cols) with
    | false => simp [pure_def]
    | true => cases hf : float py (freqHzColumn py cols) <;> simp [bind_def, pure_def, hf]

/-! ## Drift -/

theorem float_eq_finite {v : PyValue py.Finite} {x : py.Finite} :
    float py v = .ok (.finite x) ↔ ¬ NotNumber py v ∧ FloatIs py v (.finite x) := by
  have hint : ∀ n, float.ofInt py n = .ok (.finite x) ↔
      ∃ y, py.ofInt n = some y ∧ (PyNumber.finite x : PyNumber py.Finite) = .finite y := by
    intro n
    rw [float.ofInt]
    cases py.ofInt n <;> simp [eq_comm]
  cases v with
  | int n => exact (hint n).trans ⟨fun h ↦ ⟨id, h⟩, And.right⟩
  | bool b => exact (hint _).trans ⟨fun h ↦ ⟨id, h⟩, And.right⟩
  | str s => cases hs : py.ofText s <;> simp [float, FloatIs, NotNumber, hs, eq_comm]
  | _ => simp [float, FloatIs, NotNumber, eq_comm]

/-- The rate as the code reads it. -/
theorem rate_eq_ok {v : PyValue py.Finite} {x : py.Finite} :
    float py (py.orElse v (.float (.finite py.zero))) = .ok (.finite x) ↔ RateIs py v x := by
  rw [RateIs, Python.orElse]
  split
  · exact float_eq_finite
  · simp [float, eq_comm]

/-- **What the drift of a line is**, column by column. -/
theorem driftOf_eq_ok {cols : Columns py.Finite} {n : ℤ} :
    driftOf py cols = .ok n ↔ DriftIs py cols n := by
  rw [driftOf, DriftIs]
  cases hdrift : isNone (cols.get "drift") with
  | false => simp [intOrZero_eq_ok]
  | true =>
    cases hrate : isNone (cols.get "drift_hz_per_s") with
    | true => simp [pure_def, eq_comm]
    | false =>
      simp only [← rate_eq_ok, Bool.not_true, Bool.false_eq_true, if_false, Bool.not_false, if_true,
        Except.bind_eq_ok]
      constructor
      · rintro ⟨x, hx, hn⟩
        cases x with
        | finite x =>
          dsimp only at hn
          cases hy : py.times60 x with
          | finite y =>
            rw [hy] at hn
            exact ⟨x, y, hx, hy, (Except.ok.inj hn).symm⟩
          | _ =>
            rw [hy] at hn
            cases hn
        | _ => cases hn
      · rintro ⟨x, y, hx, hy, rfl⟩
        refine ⟨.finite x, hx, ?_⟩
        dsimp only
        rw [hy]
        rfl

/-- A row has a drift when that is finite. -/
theorem exists_driftIs {cols : Columns py.Finite} :
    (∃ n, DriftIs py cols n) ↔ FiniteDrift py cols := by
  simp only [DriftIs, FiniteDrift]
  split
  · split
    · rename_i hrate
      exact iff_of_true ⟨0, rfl⟩ (.inl hrate)
    · rename_i hrate
      rw [or_iff_right hrate]
      exact ⟨fun ⟨_, x, y, hx, hy, _⟩ ↦ ⟨x, y, hx, hy⟩, fun ⟨x, y, hx, hy⟩ ↦ ⟨_, x, y, hx, hy, rfl⟩⟩
  · simp only [← intOrZero_eq_ok, intOrZero_ok_iff]

/-! ## What can be encoded -/

theorem encodable_iff_toString? {s : PyText} : s.Encodable ↔ s.toString?.isSome := by
  rw [PyText.Encodable, PyText.encode]
  cases s.toString? <;> simp

theorem encodable_iff {s : PyText} : s.Encodable ↔ ∀ c ∈ s, ∃ ch, c = .scalar ch := by
  rw [encodable_iff_toString?]
  induction s with
  | nil => simp [PyText.toString?]
  | cons c s ih =>
    cases c with
    | scalar ch => simpa [PyText.toString?] using ih
    | surrogate n => simp [PyText.toString?]

theorem encodable_append {s t : PyText} :
    PyText.Encodable (s ++ t) ↔ s.Encodable ∧ t.Encodable := by
  simp only [encodable_iff, List.mem_append, or_imp, forall_and]

theorem encodable_ofString (s : String) : (PyText.ofString s).Encodable :=
  ⟨_, PyText.encode_ofString s⟩

theorem encodable_replicate (n : ℕ) (c : Char) :
    PyText.Encodable (List.replicate n (.scalar c)) :=
  encodable_iff.mpr fun _ h ↦ ⟨c, List.eq_of_mem_replicate h⟩

theorem encodable_padLeft {n : ℕ} {s : PyText} : (padLeft n s).Encodable ↔ s.Encodable := by
  rw [padLeft, encodable_append, and_iff_right (encodable_replicate _ _)]

theorem encodable_padRight {n : ℕ} {s : PyText} : (padRight n s).Encodable ↔ s.Encodable := by
  rw [padRight, encodable_append, and_iff_left (encodable_replicate _ _)]

theorem encodable_intercalate {sep : PyText} (hsep : sep.Encodable) {l : List PyText} :
    PyText.Encodable (List.intercalate sep l) ↔ ∀ s ∈ l, s.Encodable := by
  induction l with
  | nil => simp [encodable_iff, List.intercalate]
  | cons s l ih =>
    cases l with
    | nil => simp [List.intercalate]
    | cons t l =>
      rw [List.intercalate_cons_cons, encodable_append, encodable_append, ih,
        List.forall_mem_cons (p := PyText.Encodable) (l := t :: l), and_iff_left hsep]

theorem encodable_floatField (width places : ℕ) (x : PyNumber py.Finite) :
    (floatField py width places x).Encodable :=
  encodable_padLeft.mpr (encodable_ofString _)

theorem intField_eq_ok {width : ℕ} {n : ℤ} {s : PyText} :
    intField py width n = .ok s ↔ ∃ d, py.decimal n = some d ∧ padLeft width (.ofString d) = s := by
  rw [intField]
  cases py.decimal n <;> simp

theorem intField_ok_iff (width : ℕ) {n : ℤ} :
    (∃ s, intField py width n = .ok s) ↔ Written py n := by
  rw [Written, Option.isSome_iff_exists]
  simp [intField_eq_ok]

theorem encodable_of_intField {width : ℕ} {n : ℤ} {s : PyText} (h : intField py width n = .ok s) :
    s.Encodable := by
  obtain ⟨d, -, rfl⟩ := intField_eq_ok.mp h
  exact encodable_padLeft.mpr (encodable_ofString _)

theorem encodable_blankJoin {fields : List PyText} :
    (blankJoin fields).Encodable ↔ ∀ s ∈ fields, s.Encodable :=
  encodable_intercalate (encodable_ofString " ")

theorem int_float_eq_ok {x : PyNumber py.Finite} {n : ℤ} :
    py.int (.float x) = .ok n ↔ ∃ y, x = .finite y ∧ py.trunc y = n := by
  cases x <;> simp [Python.int]

/-- When a line is written and can be encoded. -/
theorem meptLine_ok_iff {t : DateTime} {call grid : PyText}
    {freqMhz sync snr dt : PyNumber py.Finite}
    {power drift ntype : ℤ} {wMode : Bool} :
    (∃ line, meptLine py t call grid freqMhz sync snr dt power drift ntype wMode = .ok line ∧
      line.Encodable) ↔
    call.Encodable ∧ grid.Encodable ∧ Written py power ∧ Written py ntype ∧
      (wMode = true → (∃ x, snr = .finite x ∧ Written py (py.trunc x)) ∧ Written py drift) := by
  cases wMode with
  | true =>
    simp only [meptLine, if_true, Except.bind_eq_ok, Except.pure_eq_ok, int_float_eq_ok,
      true_imp_iff]
    constructor
    · rintro ⟨line, ⟨_, ⟨x, rfl, rfl⟩, s₁, h₁, s₂, h₂, s₃, h₃, s₄, h₄, rfl⟩, henc⟩
      rw [encodable_blankJoin] at henc
      simp only [List.forall_mem_cons, encodable_padRight] at henc
      obtain ⟨-, -, -, -, -, -, hcall, hgrid, -⟩ := henc
      exact ⟨hcall, hgrid, (intField_ok_iff _).mp ⟨_, h₂⟩, (intField_ok_iff _).mp ⟨_, h₄⟩,
        ⟨x, rfl, (intField_ok_iff _).mp ⟨_, h₁⟩⟩, (intField_ok_iff _).mp ⟨_, h₃⟩⟩
    · rintro ⟨hcall, hgrid, hpower, hntype, ⟨x, rfl, hsnr⟩, hdrift⟩
      obtain ⟨s₁, h₁⟩ := (intField_ok_iff 3).mpr hsnr
      obtain ⟨s₂, h₂⟩ := (intField_ok_iff 2).mpr hpower
      obtain ⟨s₃, h₃⟩ := (intField_ok_iff 2).mpr hdrift
      obtain ⟨s₄, h₄⟩ := (intField_ok_iff 4).mpr hntype
      refine ⟨_, ⟨_, ⟨x, rfl, rfl⟩, s₁, h₁, s₂, h₂, s₃, h₃, s₄, h₄, rfl⟩, ?_⟩
      rw [encodable_blankJoin]
      simp only [List.forall_mem_cons, encodable_padRight, encodable_padLeft, encodable_ofString,
        encodable_floatField, hcall, hgrid, encodable_of_intField h₁, encodable_of_intField h₂,
        encodable_of_intField h₃, encodable_of_intField h₄, true_and]
      exact fun s hs ↦ absurd hs List.not_mem_nil
  | false =>
    simp only [meptLine, Bool.false_eq_true, if_false, Except.bind_eq_ok, Except.pure_eq_ok,
      false_imp_iff, and_true]
    constructor
    · rintro ⟨line, ⟨s₂, h₂, s₄, h₄, rfl⟩, henc⟩
      rw [encodable_blankJoin] at henc
      simp only [List.forall_mem_cons, encodable_padRight] at henc
      obtain ⟨-, -, -, -, -, -, hcall, hgrid, -⟩ := henc
      exact ⟨hcall, hgrid, (intField_ok_iff _).mp ⟨_, h₂⟩, (intField_ok_iff _).mp ⟨_, h₄⟩⟩
    · rintro ⟨hcall, hgrid, hpower, hntype⟩
      obtain ⟨s₂, h₂⟩ := (intField_ok_iff 2).mpr hpower
      obtain ⟨s₄, h₄⟩ := (intField_ok_iff 4).mpr hntype
      refine ⟨_, ⟨s₂, h₂, s₄, h₄, rfl⟩, ?_⟩
      rw [encodable_blankJoin]
      simp only [List.forall_mem_cons, encodable_padRight, encodable_padLeft, encodable_ofString,
        encodable_floatField, hcall, hgrid, encodable_of_intField h₂, encodable_of_intField h₄,
        true_and]
      exact fun s hs ↦ absurd hs List.not_mem_nil

/-- A row with call, frequency and time is rendered exactly when it can be written. -/
theorem recordToMept_eq_some {rec : Record py.Finite} {call : PyText}
    (hcall : callOf py rec.columns = .ok call) (hne : call ≠ []) (hhash : call ≠ hashUnresolved)
    {freqMhz : PyNumber py.Finite} (hfreq : meptFreq py rec.columns = .ok (some freqMhz))
    {t : DateTime} (ht : rec.time = some t) :
    (∃ line, recordToMept py rec = .ok (some line) ∧ line.Encodable) ↔
      Writable py rec.columns := by
  have hcond : (decide (call = []) || decide (call = hashUnresolved)) = false := by
    simp [hne, hhash]
  simp only [recordToMept, hcall, Except.ok_bind, hcond, Bool.false_eq_true, if_false, hfreq, ht,
    Except.bind_eq_ok, Except.pure_eq_ok, Option.some.injEq]
  constructor
  · rintro ⟨line, ⟨sync, hsync, snr, hsnr, dt, hdt, power, hpower, drift, hdrift, ntype, hntype,
      grid, hgrid, mode, hmode, line, hline, rfl⟩, henc⟩
    obtain ⟨hcallText, hgridText, hpowerW, hntypeW, hw⟩ := meptLine_ok_iff.mp ⟨line, hline, henc⟩
    have hwMode : WMode py rec.columns → isWMode (py.upper mode) ntype = true := by
      rintro ⟨mode', ntype', hmode', hntype', hw⟩
      rw [← intOrZero_eq_ok] at hntype'
      rw [Except.ok.inj (hmode.symm.trans hmode'), Except.ok.inj (hntype.symm.trans hntype')]
      exact hw
    exact {
      sync := floatOrZero_ok_iff.mp ⟨_, hsync⟩
      snr := floatOrZero_ok_iff.mp ⟨_, hsnr⟩
      dt := floatOrZero_ok_iff.mp ⟨_, hdt⟩
      power := intOrZero_ok_iff.mp ⟨_, hpower⟩
      powerWritten := fun n hn ↦
        Except.ok.inj (hpower.symm.trans (intOrZero_eq_ok.mpr hn)) ▸ hpowerW
      drift := exists_driftIs.mp ⟨_, driftOf_eq_ok.mp hdrift⟩
      ntype := intOrZero_ok_iff.mp ⟨_, hntype⟩
      ntypeWritten := fun n hn ↦
        Except.ok.inj (hntype.symm.trans (intOrZero_eq_ok.mpr hn)) ▸ hntypeW
      grid := stripped_ok_iff.mp ⟨_, hgrid⟩
      gridText := fun s hs ↦ Except.ok.inj (hgrid.symm.trans hs) ▸ hgridText
      mode := stripped_ok_iff.mp ⟨_, hmode⟩
      wSnr := fun hm ↦ by
        obtain ⟨⟨x, rfl, hx⟩, -⟩ := hw (hwMode hm)
        exact ⟨x, floatOrZero_eq_ok.mp hsnr, hx⟩
      wDrift := fun hm n hn ↦
        Except.ok.inj (hdrift.symm.trans (driftOf_eq_ok.mpr hn)) ▸ (hw (hwMode hm)).2
      callText := fun s hs ↦ Except.ok.inj (hcall.symm.trans hs) ▸ hcallText }
  · intro h
    obtain ⟨sync, hsync⟩ := floatOrZero_ok_iff.mpr h.sync
    obtain ⟨snr, hsnr⟩ := floatOrZero_ok_iff.mpr h.snr
    obtain ⟨dt, hdt⟩ := floatOrZero_ok_iff.mpr h.dt
    obtain ⟨power, hpower⟩ := intOrZero_ok_iff.mpr h.power
    obtain ⟨drift, hdrift⟩ := exists_driftIs.mpr h.drift
    obtain ⟨ntype, hntype⟩ := intOrZero_ok_iff.mpr h.ntype
    obtain ⟨grid, hgrid⟩ := stripped_ok_iff.mpr h.grid
    obtain ⟨mode, hmode⟩ := stripped_ok_iff.mpr h.mode
    obtain ⟨line, hline, henc⟩ := meptLine_ok_iff.mpr ⟨h.callText _ hcall, h.gridText _ hgrid,
      h.powerWritten _ (intOrZero_eq_ok.mp hpower), h.ntypeWritten _ (intOrZero_eq_ok.mp hntype),
      fun hw ↦ by
        have hm : WMode py rec.columns := ⟨mode, ntype, hmode, intOrZero_eq_ok.mp hntype, hw⟩
        obtain ⟨x, hx, hwritten⟩ := h.wSnr hm
        exact ⟨⟨x, Except.ok.inj (hsnr.symm.trans (floatOrZero_eq_ok.mpr hx)), hwritten⟩,
          h.wDrift hm _ hdrift⟩⟩
    exact ⟨line, ⟨sync, hsync, snr, hsnr, dt, hdt, power, hpower, drift,
      driftOf_eq_ok.mpr hdrift, ntype, hntype,
      grid, hgrid, mode, hmode, line, hline, rfl⟩, henc⟩

theorem recordToMept_of_noCall {rec : Record py.Finite} (h : NoCall py rec.columns) :
    recordToMept py rec = .ok none := by
  rcases h with h | h
  · rw [recordToMept, h, Except.ok_bind, if_pos (by simp)]
    rfl
  · rw [recordToMept, h, Except.ok_bind, if_pos (by simp)]
    rfl

theorem recordToMept_of_uselessFreq {rec : Record py.Finite} {call : PyText}
    (hcall : callOf py rec.columns = .ok call) (h : UselessFreq py rec.columns) :
    recordToMept py rec = .ok none := by
  rw [recordToMept, hcall, Except.ok_bind]
  split_ifs
  · rfl
  · rw [meptFreq_eq_none.mpr h]
    rfl

/-- **When a row is left out or written**, column by column. -/
theorem recordToMept_ok_iff {rec : Record py.Finite} :
    (∃ line, recordToMept py rec = .ok line ∧ ∀ l, line = some l → l.Encodable) ↔
      Renders py rec := by
  have hnone : ∀ {P : Prop}, P → recordToMept py rec = .ok none →
      ((∃ line, recordToMept py rec = .ok line ∧ ∀ l, line = some l → l.Encodable) ↔ P) :=
    fun hp h ↦ iff_of_true ⟨none, h, fun l hl ↦ by cases hl⟩ hp
  rw [Renders, ← stripped_ok_iff, ← callOf]
  cases hcall : callOf py rec.columns with
  | error e => simp [recordToMept, hcall, bind_def]
  | ok call =>
    rw [and_iff_right ⟨call, rfl⟩]
    by_cases hno : NoCall py rec.columns
    · exact hnone (.inl hno) (recordToMept_of_noCall hno)
    by_cases huseless : UselessFreq py rec.columns
    · exact hnone (.inr (.inl huseless)) (recordToMept_of_uselessFreq hcall huseless)
    rw [or_iff_right hno, or_iff_right huseless]
    rw [NoCall, not_or, hcall] at hno
    have hne : call ≠ [] := fun h ↦ hno.1 (by rw [h])
    have hhash : call ≠ hashUnresolved := fun h ↦ hno.2 (by rw [h])
    have hcond : (decide (call = []) || decide (call = hashUnresolved)) = false := by
      simp [hne, hhash]
    cases hfreq : meptFreq py rec.columns with
    | error e =>
      have husable : ¬ UsableFreq py rec.columns := by
        rw [← meptFreq_eq_some, hfreq]
        rintro ⟨x, hx⟩
        cases hx
      simp [recordToMept, hcall, hne, hhash, hfreq, bind_def, husable]
    | ok freq =>
      cases freq with
      | none => exact absurd (meptFreq_eq_none.mp hfreq) huseless
      | some freqMhz =>
        rw [and_iff_right (meptFreq_eq_some.mp ⟨freqMhz, hfreq⟩)]
        cases ht : rec.time with
        | none =>
          simp only [recordToMept, hcall, Except.ok_bind, hcond, Bool.false_eq_true, if_false,
            hfreq, ht, Except.throw_ne_ok, false_and, exists_false, Option.isSome_none]
        | some t =>
          rw [← recordToMept_eq_some hcall hne hhash hfreq ht]
          simp only [Option.isSome_some, true_and]
          constructor
          · rintro ⟨line, hline, henc⟩
            cases line with
            | some l => exact ⟨l, hline, henc l rfl⟩
            | none =>
              simp only [recordToMept, hcall, Except.ok_bind, hcond, Bool.false_eq_true, if_false,
                hfreq, ht, Except.bind_eq_ok, Except.pure_eq_ok, reduceCtorEq, and_false,
                exists_false] at hline
          · rintro ⟨l, hline, henc⟩
            exact ⟨some l, hline, fun l' hl ↦ Option.some.inj hl ▸ henc⟩

theorem dedupFreq_of_usableFreq {cols : Columns py.Finite} (h : UsableFreq py cols) :
    ∃ x, dedupFreq py cols = .ok (some x) := by
  obtain ⟨hno, hnumber⟩ := h
  obtain ⟨x, hx⟩ := float_ok_iff.mpr hnumber
  rw [NoFreq] at hno
  rw [freqColumn] at hx
  rw [dedupFreq]
  cases hmhz : isNone (cols.get "frequency_mhz") with
  | false =>
    rw [hmhz] at hx
    simp only [Bool.false_eq_true, if_false] at hx ⊢
    exact ⟨_, by rw [hx]; rfl⟩
  | true =>
    rw [hmhz] at hx hno
    simp only [if_true, true_and, Bool.not_eq_false] at hx hno ⊢
    exact ⟨_, by rw [hno, hx]; rfl⟩

/-- **A row that is passed through is left out**, unless it makes the rendering raise. -/
theorem recordToMept_of_passed {rec : Record py.Finite} (hpass : dedupKey py 0 rec = .ok none)
    (h : Renders py rec) : recordToMept py rec = .ok none := by
  obtain ⟨htext, hrest⟩ := h
  obtain ⟨call, hcall⟩ := stripped_ok_iff.mpr htext
  rcases hrest with hno | huseless | ⟨husable, htime, -⟩
  · exact recordToMept_of_noCall hno
  · exact recordToMept_of_uselessFreq hcall huseless
  · obtain ⟨x, hx⟩ := dedupFreq_of_usableFreq husable
    obtain ⟨t, ht⟩ := Option.isSome_iff_exists.mp htime
    refine recordToMept_of_noCall (.inl ?_)
    rw [← callOf] at hcall
    rw [dedupKey, hcall, Except.ok_bind, hx, ht] at hpass
    split_ifs at hpass with hempty
    · rw [hcall, hempty]
    · cases hpass

/-! ## A batch -/

variable (py) in
/-- The row has a key: the deduplication does not pass it through. -/
def hasKey (rec : Record py.Finite) : Bool :=
  match dedupKey py 0 rec with
  | .ok (some _) => true
  | _ => false

variable (py) in
/-- Neither the deduplication nor the body raises, and the body is made of lines of rows with a key
alone: the rows that were passed through are left out. -/
def TolerantRows (records : List (Record py.Finite)) : Prop :=
  ∃ out lines body, dedupRecordsForWsprnet py records = .ok out ∧
    (out.filter (hasKey py)).mapM (recordToMept py) = .ok lines ∧
    encodeLines py (renderedLines lines) = .ok body ∧ buildMeptBody py records = .ok body

variable (py) in
/-- The deduplication reads every row, and the rows that stay, the one that stands for its key and
those without a key, can each be rendered. -/
def Harmless (records : List (Record py.Finite)) : Prop :=
  (∀ r ∈ records, Reads py r) ∧ ∀ e ∈ entries py records,
    KeepBest.Wins (gt py) (view py) (entries py records) e → Renders py e.2

theorem mem_renderedLines {lines : List (Option PyText)} {l : PyText} :
    l ∈ renderedLines lines ↔ some l ∈ lines ∧ l ≠ [] := by
  rw [renderedLines, List.mem_filter, decide_eq_true_eq, List.reduceOption_mem_iff]

theorem encodeLines_ok_iff {lines : List PyText} :
    (∃ body, encodeLines py lines = .ok body) ↔ ∀ l ∈ lines, l.Encodable := by
  rw [encodeLines]
  split_ifs with hnil
  · exact iff_of_true ⟨[], rfl⟩ fun l hl ↦ by
      rw [hnil] at hl
      exact absurd hl List.not_mem_nil
  · have hnewline : PyText.Encodable [.scalar '\n'] := encodable_ofString "\n"
    rw [← PyText.Encodable, encodable_append, encodable_intercalate hnewline,
      and_iff_left hnewline]
    exact forall_congr' fun l ↦ imp_congr_left (by rw [sortLines, List.mem_mergeSort])

theorem ne_nil_of_encodeLines {lines : List PyText} {body : Bytes}
    (h : encodeLines py lines = .ok body) (hne : lines ≠ []) : body ≠ [] := by
  rw [encodeLines, if_neg hne] at h
  rintro rfl
  exact List.append_ne_nil_of_right_ne_nil _ (List.cons_ne_nil _ _) (PyText.eq_nil_of_encode h)

theorem readRow_of_dedup {records out : List (Record py.Finite)}
    (h : dedupRecordsForWsprnet py records = .ok out) : ∀ r ∈ records, Reads py r := by
  rw [dedupRecordsForWsprnet, Except.bind_eq_ok] at h
  obtain ⟨st, hst, -⟩ := h
  intro r hr
  obtain ⟨i, hi⟩ := List.mem_iff_getElem?.mp hr
  exact readRow_ok_iff.mp (readRow_of_dedupLoop hst (i, r) (mem_entries.mpr hi))

/-- The rows that come out are those that win. -/
theorem dedup_of_reads {records : List (Record py.Finite)} (h : ∀ r ∈ records, Reads py r) :
    dedupRecordsForWsprnet py records = .ok (((entries py records).filter fun e ↦
      KeepBest.Wins (gt py) (view py) (entries py records) e).map Prod.snd) := by
  rw [← KeepBest.kept_eq_filter (entries_increasing records)]
  exact dedup_eq fun e he ↦ readRow_ok_iff.mpr (h e.2 (mem_of_mem_entries he))

/-- A row alone stays. -/
theorem dedup_singleton {r : Record py.Finite} (h : Reads py r) :
    dedupRecordsForWsprnet py [r] = .ok [r] := by
  have hentries : entries py [r] = [(0, r)] := rfl
  have hwins : KeepBest.Wins (gt py) (view py) [(0, r)] (0, r) := by
    rw [KeepBest.Wins]
    cases hview : view py (0, r) with
    | none => trivial
    | some p => simp [KeepBest.standing, KeepBest.better, hview]
  rw [dedup_of_reads (List.forall_mem_singleton.mpr h), hentries]
  simp [hwins]

/-- The body of a row alone that has a line. -/
theorem buildMeptBody_singleton {r : Record py.Finite} {line : PyText} (hreads : Reads py r)
    (hline : recordToMept py r = .ok (some line)) (hne : line ≠ []) (henc : line.Encodable) :
    ∃ body, buildMeptBody py [r] = .ok body ∧ body ≠ [] := by
  obtain ⟨body, hbody⟩ := encodeLines_ok_iff.mpr (List.forall_mem_singleton.mpr henc)
  have hlines : [r].mapM (recordToMept py) = .ok [some line] :=
    Except.mapM_cons_eq_ok.mpr ⟨some line, [], hline, rfl, rfl⟩
  have hrendered : renderedLines [some line] = [line] := by simp [renderedLines, hne]
  refine ⟨body, ?_, ne_nil_of_encodeLines hbody (List.cons_ne_nil _ _)⟩
  rw [buildMeptBody, dedup_singleton hreads, Except.ok_bind, hlines, Except.ok_bind, hrendered,
    hbody]

/-- **A body comes of the rows exactly when they are harmless.** -/
theorem buildMeptBody_ok_iff {records : List (Record py.Finite)} :
    (∃ body, buildMeptBody py records = .ok body) ↔ Harmless py records := by
  rw [Harmless]
  constructor
  · rintro ⟨body, hbody⟩
    simp only [buildMeptBody, Except.bind_eq_ok] at hbody
    obtain ⟨out, hout, lines, hlines, hencode⟩ := hbody
    have hreads := readRow_of_dedup hout
    refine ⟨hreads, fun e he hwins ↦ ?_⟩
    rw [dedup_of_reads hreads] at hout
    obtain rfl := Except.ok.inj hout
    have hmem : e.2 ∈ ((entries py records).filter fun e ↦
        KeepBest.Wins (gt py) (view py) (entries py records) e).map Prod.snd :=
      List.mem_map_of_mem (List.mem_filter.mpr ⟨he, decide_eq_true hwins⟩)
    obtain ⟨line, hline, hrec⟩ := (Except.exists_of_mapM hlines).1 _ hmem
    refine recordToMept_ok_iff.mp ⟨line, hrec, fun l hl ↦ ?_⟩
    subst hl
    by_cases hnil : l = []
    · rw [hnil]
      exact encodable_ofString ""
    · exact encodeLines_ok_iff.mp ⟨body, hencode⟩ l (mem_renderedLines.mpr ⟨hline, hnil⟩)
  · rintro ⟨hreads, hrenders⟩
    set out := ((entries py records).filter fun e ↦
      KeepBest.Wins (gt py) (view py) (entries py records) e).map Prod.snd with hout
    have hstays : ∀ r ∈ out, Renders py r := by
      intro r hr
      obtain ⟨e, he, rfl⟩ := List.mem_map.mp hr
      obtain ⟨he, hwins⟩ := List.mem_filter.mp he
      exact hrenders e he (of_decide_eq_true hwins)
    obtain ⟨lines, hlines⟩ := Except.mapM_ok_iff.mpr fun r hr ↦
      (recordToMept_ok_iff.mpr (hstays r hr)).imp fun _ ↦ And.left
    have hencode : ∃ body, encodeLines py (renderedLines lines) = .ok body := by
      refine encodeLines_ok_iff.mpr fun l hl ↦ ?_
      obtain ⟨hl, -⟩ := mem_renderedLines.mp hl
      obtain ⟨r, hr, hrec⟩ := (Except.exists_of_mapM hlines).2 _ hl
      obtain ⟨line, hline, henc⟩ := recordToMept_ok_iff.mpr (hstays r hr)
      exact henc l (Except.ok.inj (hline.symm.trans hrec))
    obtain ⟨body, hbody⟩ := hencode
    refine ⟨body, ?_⟩
    rw [buildMeptBody, dedup_of_reads hreads, Except.ok_bind, hlines, Except.ok_bind, hbody]

/-- Rows without a key have no line, where nothing raises. -/
theorem renderedLines_of_hasKey {out : List (Record py.Finite)}
    (hreads : ∀ r ∈ out, Reads py r) (hrenders : ∀ r ∈ out, Renders py r)
    {lines : List (Option PyText)} (hlines : out.mapM (recordToMept py) = .ok lines) :
    ∃ lines', (out.filter (hasKey py)).mapM (recordToMept py) = .ok lines' ∧
      renderedLines lines' = renderedLines lines := by
  induction out generalizing lines with
  | nil => exact ⟨lines, hlines, rfl⟩
  | cons r rs ih =>
    rw [List.forall_mem_cons] at hreads hrenders
    obtain ⟨line, rest, hline, hrest, rfl⟩ := Except.mapM_cons_eq_ok.mp hlines
    obtain ⟨lines', hlines', heq⟩ := ih hreads.2 hrenders.2 hrest
    cases hkey : hasKey py r with
    | true =>
      rw [List.filter_cons_of_pos hkey]
      refine ⟨line :: lines', Except.mapM_cons_eq_ok.mpr ⟨line, lines', hline, hlines', rfl⟩, ?_⟩
      cases line with
      | none => exact heq
      | some l =>
        rw [renderedLines, renderedLines] at heq ⊢
        rw [List.reduceOption_cons_of_some, List.reduceOption_cons_of_some, List.filter_cons,
          List.filter_cons, heq]
    | false =>
      rw [List.filter_cons_of_neg (by rw [hkey]; exact Bool.false_ne_true)]
      have hpass : dedupKey py 0 r = .ok none := by
        have hok : ∃ key, dedupKey py 0 r = .ok key :=
          dedupKey_ok_iff.mpr ⟨hreads.1.call, hreads.1.freq⟩
        obtain ⟨key, hk⟩ := hok
        cases key with
        | none => exact hk
        | some key =>
          rw [hasKey, hk] at hkey
          cases hkey
      obtain rfl := Except.ok.inj ((recordToMept_of_passed hpass hrenders.1).symm.trans hline)
      exact ⟨lines', hlines', heq⟩

end

/-- **Every row of a batch is tolerated exactly when none of them is harmful.** -/
theorem tolerantRows_iff (py : Interpreter) (records : List (Record py.Finite)) :
    TolerantRows py records ↔ Harmless py records := by
  constructor
  · rintro ⟨out, lines, body, -, -, -, hbody⟩
    exact buildMeptBody_ok_iff.mp ⟨body, hbody⟩
  · intro h
    obtain ⟨body, hbody⟩ := buildMeptBody_ok_iff.mpr h
    have hdedup := dedup_of_reads h.1
    have hbuild := hbody
    simp only [buildMeptBody, Except.bind_eq_ok] at hbuild
    obtain ⟨out, hout, lines, hlines, hencode⟩ := hbuild
    obtain rfl := Except.ok.inj (hdedup.symm.trans hout)
    have hmem : ∀ r ∈ ((entries py records).filter fun e ↦
        KeepBest.Wins (gt py) (view py) (entries py records) e).map Prod.snd,
        Reads py r ∧ Renders py r := by
      intro r hr
      obtain ⟨e, he, rfl⟩ := List.mem_map.mp hr
      obtain ⟨he, hwins⟩ := List.mem_filter.mp he
      exact ⟨h.1 _ (mem_of_mem_entries he), h.2 e he (of_decide_eq_true hwins)⟩
    obtain ⟨lines', hlines', heq⟩ := renderedLines_of_hasKey (fun r hr ↦ (hmem r hr).1)
      (fun r hr ↦ (hmem r hr).2) hlines
    exact ⟨_, lines', body, hout, hlines', heq ▸ hencode, hbody⟩

/-- A row whose frequency is a text that is no number makes the upload raise. -/
theorem tolerantRows_fails :
    ¬ ∀ (py : Interpreter) (records : List (Record py.Finite)), TolerantRows py records := by
  intro hall
  let row : Record wholeNumbers.Finite :=
    { time := some { year := 2026, month := 5, day := 23, hour := 1, minute := 2 }
      columns := [("callsign", .str (.ofString "K1ABC")), ("frequency", .str (.ofString "high"))] }
  obtain ⟨_, _, body, _, _, _, hbody⟩ := hall wholeNumbers [row]
  have hrenders : Renders wholeNumbers row :=
    (buildMeptBody_ok_iff.mp ⟨body, hbody⟩).2 (0, row) (mem_entries.mpr rfl) trivial
  rcases hrenders.2 with (h | h) | (h | h) | ⟨⟨-, h⟩, -⟩
  · cases h
  · cases h
  · cases h.2
  · cases h.1
  · exact h.1 rfl

end HsUploader.WsprNet
