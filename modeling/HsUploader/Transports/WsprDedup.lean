import Mathlib.Algebra.Order.Ring.Rat
import Mathlib.Order.WithBot
import HsUploader.Library.KeepBest
import HsUploader.Transports.WsprNet

/-!
# The best copy of a spot

`dedup_records_for_wsprnet` keeps for each key the row with the largest SNR, the earliest among
equal ones, and every row without a key.  Its loop is the scan of `KeepBest`; here it is said what
comes of it for rows whose columns are of the types the function reads.

The function's docstring has the first row of a key set the position of what is kept.  The code puts
what is kept at its own position instead, and the two orders differ as soon as a later copy is the
best one and another row stands in between (`bestInPlace_iff`).

## What is here

* `readRow`, `view` and `entries` — a row as the scan sees it: key and SNR, or nothing.
* `dedupLoop_eq` — the loop is the scan, on rows that can be read.
* `WellTyped`, `Ordered` and `rank` — the columns as the function expects them.  An SNR that is
  not a number is not ordered against the others, and what is kept then depends on the order of
  the rows.
* `told` — the rows whose key is told by the row alone; a row with a key of its own has its position
  in the key.
* `StandsFor` and `openers` — what is kept, and the rows that open a place.
-/

set_option autoImplicit false

namespace HsUploader.WsprNet

open KeepBest (Placed)

section

variable (py : Interpreter)

/-! ## The loop as a scan -/

/-- What the loop reads of the row at a position: key and SNR, or nothing for a row it passes
through. -/
def readRow (e : Placed (Record py.Finite)) : Except Exn (Option (Key × PyNumber py.Finite)) := do
  match ← dedupKey py e.1 e.2 with
  | none => pure none
  | some key =>
    let snr ← dedupSnr py e.2.columns
    pure (some (key, snr))

/-- The row's key and SNR, where it has a key. -/
def view (e : Placed (Record py.Finite)) : Option (Key × PyNumber py.Finite) :=
  match readRow py e with
  | .ok v => v
  | .error _ => none

/-- The rows with their positions. -/
def entries (records : List (Record py.Finite)) : List (Placed (Record py.Finite)) :=
  records.zipIdx.map Prod.swap

variable {py}

theorem mem_entries {records : List (Record py.Finite)} {e : Placed (Record py.Finite)} :
    e ∈ entries py records ↔ records[e.1]? = some e.2 := by
  obtain ⟨i, r⟩ := e
  rw [entries, List.mem_map]
  constructor
  · rintro ⟨⟨r', i'⟩, hmem, hswap⟩
    obtain ⟨rfl, rfl⟩ := Prod.mk.inj hswap
    exact List.mk_mem_zipIdx_iff_getElem?.mp hmem
  · intro h
    exact ⟨(r, i), List.mk_mem_zipIdx_iff_getElem?.mpr h, rfl⟩

theorem mem_of_mem_entries {records : List (Record py.Finite)} {e : Placed (Record py.Finite)}
    (h : e ∈ entries py records) : e.2 ∈ records :=
  List.mem_of_getElem? (mem_entries.mp h)

theorem entries_increasing (records : List (Record py.Finite)) :
    Table.Increasing Prod.fst (entries py records) := by
  have hfst : (entries py records).map Prod.fst = List.range records.length := by
    rw [entries, List.map_map, List.range_eq_range']
    exact List.zipIdx_map_snd 0 records
  refine List.pairwise_map.mp ?_
  rw [hfst]
  exact List.pairwise_lt_range

theorem map_snd_entries (records : List (Record py.Finite)) :
    (entries py records).map Prod.snd = records := by
  rw [entries, List.map_map]
  exact List.zipIdx_map_fst 0 records

/-- One row of the loop. -/
theorem dedupLoop_cons (e : Placed (Record py.Finite)) (rest : List (Placed (Record py.Finite)))
    (best : Best py) (pass : List (Placed (Record py.Finite))) :
    dedupLoop py (e :: rest) best pass = (do
      match ← readRow py e with
      | none => dedupLoop py rest best (pass ++ [e])
      | some (key, snr) =>
        let next := KeepBest.better (gt py) (Table.lookup key best) (e, snr)
        dedupLoop py rest (Table.upsert key next best) pass) := by
  obtain ⟨pos, rec⟩ := e
  rw [dedupLoop, readRow]
  cases hkey : dedupKey py pos rec with
  | error err => rfl
  | ok key =>
    cases key with
    | none => rfl
    | some key =>
      simp only [Except.ok_bind]
      cases dedupSnr py rec.columns with
      | error err => rfl
      | ok snr =>
        simp only [Except.ok_bind, pure_bind]
        cases hprev : Table.lookup key best with
        | none => rfl
        | some prev =>
          simp only [KeepBest.better]
          split_ifs with hgt
          · rfl
          · rw [Table.upsert_of_lookup hprev]

theorem view_of_readRow {e : Placed (Record py.Finite)} {v : Option (Key × PyNumber py.Finite)}
    (h : readRow py e = .ok v) : view py e = v := by
  rw [view, h]

/-- **The loop is the scan**, where every row can be read. -/
theorem dedupLoop_eq {l : List (Placed (Record py.Finite))}
    (h : ∀ e ∈ l, ∃ v, readRow py e = .ok v) (best : Best py)
    (pass : List (Placed (Record py.Finite))) :
    dedupLoop py l best pass = .ok (KeepBest.scan (gt py) (view py) l (best, pass)) := by
  induction l generalizing best pass with
  | nil => rfl
  | cons e rest ih =>
    rw [List.forall_mem_cons] at h
    obtain ⟨⟨v, hv⟩, hrest⟩ := h
    rw [dedupLoop_cons, KeepBest.scan, hv, view_of_readRow hv, Except.ok_bind]
    cases v with
    | none => exact ih hrest _ _
    | some ks => exact ih hrest _ _

/-- What the loop comes to the end of can be read. -/
theorem readRow_of_dedupLoop {l : List (Placed (Record py.Finite))} {best : Best py}
    {pass : List (Placed (Record py.Finite))} {st : Best py × List (Placed (Record py.Finite))}
    (h : dedupLoop py l best pass = .ok st) : ∀ e ∈ l, ∃ v, readRow py e = .ok v := by
  induction l generalizing best pass with
  | nil => exact fun e he ↦ absurd he List.not_mem_nil
  | cons e rest ih =>
    rw [dedupLoop_cons, Except.bind_eq_ok] at h
    obtain ⟨v, hv, h⟩ := h
    rw [List.forall_mem_cons]
    refine ⟨⟨v, hv⟩, ?_⟩
    cases v with
    | none => exact ih h
    | some ks => exact ih h

theorem dedup_eq {records : List (Record py.Finite)}
    (h : ∀ e ∈ entries py records, ∃ v, readRow py e = .ok v) :
    dedupRecordsForWsprnet py records =
      .ok ((KeepBest.kept (gt py) (view py) (entries py records)).map Prod.snd) := by
  rw [dedupRecordsForWsprnet, show records.zipIdx.map Prod.swap = entries py records from rfl,
    dedupLoop_eq h]
  rfl

/-! ## Positions in keys -/

/-- The key of the same row at another position. -/
def Key.at (k : Key) (pos : ℕ) : Key :=
  match k.freq with
  | .nan _ => { k with freq := .nan pos }
  | _ => k

/-- The key is that of the row wherever it stands. -/
def Key.Fixed (k : Key) : Bool :=
  match k.freq with
  | .nan _ => false
  | _ => true

theorem Key.at_of_fixed {k : Key} (h : k.Fixed = true) (pos : ℕ) : k.at pos = k := by
  obtain ⟨date, time, call, freq⟩ := k
  cases freq with
  | nan p => cases h
  | _ => rfl

theorem Key.fixed_at {k : Key} {pos : ℕ} : (k.at pos).Fixed = k.Fixed := by
  obtain ⟨date, time, call, freq⟩ := k
  cases freq <;> rfl

theorem Key.freq_at {k : Key} (h : k.Fixed = false) (pos : ℕ) : (k.at pos).freq = .nan pos := by
  obtain ⟨date, time, call, freq⟩ := k
  cases freq with
  | nan p => rfl
  | _ => cases h

theorem quantised_at (pos : ℕ) (date time : String) (call : PyText) (x : PyNumber py.Finite) :
    Key.mk date time call (quantised py pos x) =
      (Key.mk date time call (quantised py 0 x)).at pos := by
  cases x <;> rfl

theorem dedupKey_eq (pos : ℕ) (rec : Record py.Finite) :
    dedupKey py pos rec = (dedupKey py 0 rec).map (Option.map fun k ↦ k.at pos) := by
  rw [dedupKey, dedupKey]
  cases callOf py rec.columns with
  | error e => rfl
  | ok call =>
    simp only [Except.ok_bind]
    split_ifs
    · rfl
    · cases dedupFreq py rec.columns with
      | error e => rfl
      | ok freq =>
        simp only [Except.ok_bind]
        cases freq with
        | none => rfl
        | some x =>
          cases rec.time with
          | none => rfl
          | some t =>
            dsimp only
            rw [quantised_at pos]
            rfl

theorem view_eq (e : Placed (Record py.Finite)) :
    view py e = (view py (0, e.2)).map fun p ↦ (p.1.at e.1, p.2) := by
  rw [view, view, readRow, readRow, dedupKey_eq e.1 e.2]
  cases dedupKey py 0 e.2 with
  | error err => rfl
  | ok key =>
    cases key with
    | none => rfl
    | some key =>
      simp only [Except.map, Except.ok_bind, Option.map_some]
      cases dedupSnr py e.2.columns with
      | error err => rfl
      | ok snr => rfl

variable (py) in
/-- The row's key is told by the row alone. -/
def told (rec : Record py.Finite) : Bool := (view py (0, rec)).any fun p ↦ p.1.Fixed

theorem told_of_view {e : Placed (Record py.Finite)} {k : Key} {s : PyNumber py.Finite}
    (h : view py e = some (k, s)) : told py e.2 = k.Fixed := by
  rw [view_eq] at h
  obtain ⟨⟨k₀, s₀⟩, hv, hk⟩ := Option.map_eq_some_iff.mp h
  obtain ⟨rfl, rfl⟩ := Prod.mk.inj hk
  rw [told, hv, Option.any_some, Key.fixed_at]

/-- Such a row has the same key wherever it stands. -/
theorem view_of_told {e x : Placed (Record py.Finite)} {k : Key} {s : PyNumber py.Finite}
    (h : view py e = some (k, s)) (hk : k.Fixed = true) (hex : e.2 = x.2) :
    view py x = some (k, s) := by
  rw [view_eq] at h
  obtain ⟨⟨k₀, s₀⟩, hv, hk₀⟩ := Option.map_eq_some_iff.mp h
  obtain ⟨rfl, rfl⟩ := Prod.mk.inj hk₀
  rw [Key.fixed_at] at hk
  rw [view_eq, ← hex, hv, Option.map_some, Key.at_of_fixed hk, Key.at_of_fixed hk]

/-- Any other key is its row's own. -/
theorem pos_eq_of_view {e x : Placed (Record py.Finite)} {k : Key} {s t : PyNumber py.Finite}
    (he : view py e = some (k, s)) (hx : view py x = some (k, t)) (hk : k.Fixed = false) :
    x.1 = e.1 := by
  have hfreq : ∀ {y : Placed (Record py.Finite)} {u : PyNumber py.Finite},
      view py y = some (k, u) → k.freq = .nan y.1 := by
    intro y u hy
    rw [view_eq] at hy
    obtain ⟨⟨k₀, s₀⟩, -, hk₀⟩ := Option.map_eq_some_iff.mp hy
    obtain ⟨rfl, rfl⟩ := Prod.mk.inj hk₀
    rw [Key.fixed_at] at hk
    exact Key.freq_at hk _
  exact Quantised.nan.inj ((hfreq hx).symm.trans (hfreq he))

/-! ## Well-typed rows -/

variable (py) in
/-- The value is a number that a float holds. -/
def IsNumber (v : PyValue py.Finite) : Prop :=
  (∃ x, v = .float x) ∨ ∃ n x, v = .int n ∧ py.ofInt n = some x

variable (py) in
/-- The columns that tell a row apart hold, where they are there, texts for calls and numbers for
frequencies and SNR. -/
structure WellTyped (rec : Record py.Finite) : Prop where
  call : ∀ name ∈ ["tx_sign", "tx_call", "callsign"],
    rec.columns.get name = .none ∨ ∃ s, rec.columns.get name = .str s
  freq : ∀ name ∈ ["frequency_mhz", "frequency", "frequency_hz"],
    rec.columns.get name = .none ∨ IsNumber py (rec.columns.get name)
  snr : ∀ name ∈ ["snr", "snr_db"], rec.columns.get name = .none ∨
    (IsNumber py (rec.columns.get name) ∧ rec.columns.get name ≠ .float .nan)

theorem float_of_isNumber {v : PyValue py.Finite} (h : IsNumber py v) :
    ∃ x, float py v = .ok x ∧ (v ≠ .float .nan → x ≠ .nan) := by
  rcases h with ⟨x, rfl⟩ | ⟨n, x, rfl, hx⟩
  · exact ⟨x, rfl, fun hne heq ↦ hne (by rw [heq])⟩
  · refine ⟨.finite x, ?_, fun _ ↦ nofun⟩
    rw [float, float.ofInt, hx]

theorem orElse_of {a b : PyValue py.Finite} {p : PyValue py.Finite → Prop} (ha : p a) (hb : p b) :
    p (py.orElse a b) := by
  rw [Python.orElse]
  split_ifs
  · exact ha
  · exact hb

theorem callOf_of_wellTyped {rec : Record py.Finite} (h : WellTyped py rec) :
    ∃ call, callOf py rec.columns = .ok call := by
  have hcol : callColumn py rec.columns = .none ∨ ∃ s, callColumn py rec.columns = .str s :=
    orElse_of (p := fun v ↦ v = .none ∨ ∃ s, v = .str s)
      (orElse_of (p := fun v ↦ v = .none ∨ ∃ s, v = .str s) (h.call _ (by simp))
        (h.call _ (by simp))) (h.call _ (by simp))
  rw [callOf, stripped, Python.orElse]
  rcases hcol with hc | ⟨s, hs⟩
  · rw [hc]
    exact ⟨_, rfl⟩
  · rw [hs]
    split_ifs
    · exact ⟨_, rfl⟩
    · exact ⟨_, rfl⟩

theorem dedupFreq_of_wellTyped {rec : Record py.Finite} (h : WellTyped py rec) :
    ∃ freq, dedupFreq py rec.columns = .ok freq := by
  have hcaught : ∀ v : PyValue py.Finite, (v = .none ∨ IsNumber py v) →
      (∃ x, float py v = .ok x) ∨ v = .none := fun v hv ↦
    hv.symm.imp (fun hn ↦ (float_of_isNumber hn).imp fun _ ↦ And.left) id
  rw [dedupFreq]
  split_ifs with hnone htruthy
  · exact ⟨none, rfl⟩
  · have hhz : freqHzColumn py rec.columns = .none ∨ IsNumber py (freqHzColumn py rec.columns) :=
      orElse_of (p := fun v ↦ v = .none ∨ IsNumber py v) (h.freq _ (by simp)) (h.freq _ (by simp))
    rcases hcaught _ hhz with ⟨x, hx⟩ | hv
    · rw [hx]
      exact ⟨_, rfl⟩
    · rw [hv] at htruthy
      exact absurd rfl htruthy
  · rcases hcaught _ (h.freq "frequency_mhz" (by simp)) with ⟨x, hx⟩ | hv
    · rw [hx]
      exact ⟨_, rfl⟩
    · rw [hv] at hnone
      exact absurd rfl hnone

variable (py) in
/-- A well-typed SNR is ordered against the others: it is a number or an infinity. -/
def Ordered (snr : PyNumber py.Finite) : Prop := snr ≠ .nan

theorem dedupSnr_of_wellTyped {rec : Record py.Finite} (h : WellTyped py rec) :
    ∃ snr, dedupSnr py rec.columns = .ok snr ∧ Ordered py snr := by
  have hcol : firstOf rec.columns "snr" "snr_db" = .none ∨
      (IsNumber py (firstOf rec.columns "snr" "snr_db") ∧
        firstOf rec.columns "snr" "snr_db" ≠ .float .nan) := by
    rw [firstOf]
    split_ifs
    · exact h.snr _ (by simp)
    · exact h.snr _ (by simp)
  rw [dedupSnr, floatOrZero]
  rcases hcol with hv | ⟨hnum, hnan⟩
  · rw [hv]
    exact ⟨_, rfl, nofun⟩
  · obtain ⟨x, hx, hne⟩ := float_of_isNumber hnum
    rw [hx]
    split_ifs
    · exact ⟨_, rfl, nofun⟩
    · exact ⟨_, rfl, hne hnan⟩

theorem readRow_of_wellTyped {e : Placed (Record py.Finite)} (h : WellTyped py e.2) :
    ∃ v, readRow py e = .ok v ∧ ∀ k s, v = some (k, s) → Ordered py s := by
  obtain ⟨call, hcall⟩ := callOf_of_wellTyped h
  obtain ⟨freq, hfreq⟩ := dedupFreq_of_wellTyped h
  obtain ⟨snr, hsnr, hord⟩ := dedupSnr_of_wellTyped h
  have hkey : ∃ key, dedupKey py e.1 e.2 = .ok key := by
    rw [dedupKey, hcall, Except.ok_bind, hfreq, Except.ok_bind]
    split_ifs
    · exact ⟨_, rfl⟩
    · cases freq with
      | none => exact ⟨_, rfl⟩
      | some x => cases e.2.time <;> exact ⟨_, rfl⟩
  obtain ⟨key, hkey⟩ := hkey
  rw [readRow, hkey, Except.ok_bind]
  cases key with
  | none => exact ⟨none, rfl, fun k s hks ↦ by cases hks⟩
  | some key =>
    simp only [hsnr, Except.ok_bind]
    refine ⟨some (key, snr), rfl, fun k s hks ↦ ?_⟩
    obtain ⟨rfl, rfl⟩ := Prod.mk.inj (Option.some.inj hks)
    exact hord

variable (py) in
/-- The place of a float in the order of the numbers with both infinities. -/
def rank : PyNumber py.Finite → WithBot (WithTop ℚ)
  | .finite x => ((py.value x : WithTop ℚ) : WithBot (WithTop ℚ))
  | .inf negative => if negative then ⊥ else ((⊤ : WithTop ℚ) : WithBot (WithTop ℚ))
  | .nan => ⊥

theorem gt_iff (s t : PyNumber py.Finite) (hs : Ordered py s) (ht : Ordered py t) :
    gt py s t = true ↔ rank py t < rank py s := by
  cases s with
  | nan => exact absurd rfl hs
  | finite x =>
    cases t with
    | nan => exact absurd rfl ht
    | finite y => simp [gt, rank]
    | inf negative => cases negative <;> simp [gt, rank]
  | inf negative =>
    cases t with
    | nan => exact absurd rfl ht
    | finite y =>
      cases negative with
      | true => simp [gt, rank]
      | false =>
        exact iff_of_true rfl (WithBot.coe_lt_coe.mpr (WithTop.coe_lt_top (py.value y)))
    | inf negative' => cases negative <;> cases negative' <;> simp [gt, rank]

/-! ## The best copies in place -/

variable (py) in
/-- The row `w` is what stands for the key of `e`: a row of that key with no larger SNR among the
rows of the key and no equal one before it.  A row without a key stands for itself. -/
def StandsFor (l : List (Placed (Record py.Finite))) (e w : Placed (Record py.Finite)) : Prop :=
  match view py e with
  | none => w = e
  | some (k, _) => w ∈ l ∧ ∃ s, view py w = some (k, s) ∧
    ∀ x ∈ l, ∀ t, view py x = some (k, t) → KeepBest.Beats (rank py) (w, s) (x, t)

variable (py) in
/-- The rows that open a place of the list: the first of each key and those without a key. -/
def openers (records : List (Record py.Finite)) : List (Placed (Record py.Finite)) :=
  (entries py records).filter fun e ↦ KeepBest.Opens (view py) (entries py records) e

variable (py) in
/-- The rows come out with the best copy of each key where its first copy stood, the rows without
a key where they stood, and come out the same from another pass. -/
def BestInPlace (records : List (Record py.Finite)) : Prop :=
  ∃ out, List.Forall₂ (StandsFor py (entries py records)) (openers py records) out ∧
    dedupRecordsForWsprnet py records = .ok (out.map Prod.snd) ∧
    dedupRecordsForWsprnet py (out.map Prod.snd) = .ok (out.map Prod.snd)

variable (py) in
/-- Of two keys, each row without a key counting as one of its own, the one whose first copy comes
first has its best copy first. -/
def InOrder (records : List (Record py.Finite)) : Prop :=
  (openers py records).Pairwise fun e x ↦ ∀ v w,
    StandsFor py (entries py records) e v → StandsFor py (entries py records) x w → v.1 < w.1

theorem standsFor_iff {l : List (Placed (Record py.Finite))} (hl : Table.Increasing Prod.fst l)
    (hord : ∀ e ∈ l, ∀ k s, view py e = some (k, s) → Ordered py s)
    {e : Placed (Record py.Finite)} (he : e ∈ l) {w : Placed (Record py.Finite)} :
    StandsFor py l e w ↔ w = KeepBest.champion (gt py) (view py) l e := by
  rw [StandsFor, KeepBest.champion]
  cases hv : view py e with
  | none => rfl
  | some ks =>
    obtain ⟨k, s⟩ := ks
    obtain ⟨c, hc⟩ := Option.isSome_iff_exists.mp
      ((KeepBest.standing_isSome (k := k)).mpr (.inr ⟨e, he, s, hv⟩) :
        (KeepBest.standing (gt py) (view py) k l none).isSome)
    obtain ⟨hmem, hcv⟩ := KeepBest.view_of_standing hc
    have hbeats := (KeepBest.standing_beats gt_iff hl (fun x hx t hxt ↦ hord x hx k t hxt)
      (fun p hp ↦ by cases hp) hc).2
    simp only [hc, Option.map_some, Option.getD_some]
    constructor
    · rintro ⟨hw, t, hwv, hall⟩
      -- each of the two beats the other
      have h₁ := hall c.1 hmem c.2 hcv
      have h₂ := hbeats w hw t hwv
      refine hl.eq_of_key_eq hw hmem ?_
      rcases h₁ with h₁ | ⟨h₁, hpos₁⟩ <;> rcases h₂ with h₂ | ⟨h₂, hpos₂⟩
      · exact absurd h₁ (lt_asymm h₂)
      · exact absurd h₂.symm h₁.ne
      · exact absurd h₁.symm h₂.ne
      · exact le_antisymm hpos₁ hpos₂
    · rintro rfl
      exact ⟨hmem, c.2, hcv, hbeats⟩

/-- What is kept is kept again. -/
theorem dedup_kept {records : List (Record py.Finite)}
    (h : ∀ r ∈ records, ∀ pos, ∃ v, readRow py (pos, r) = .ok v)
    {out : List (Record py.Finite)} (hout : dedupRecordsForWsprnet py records = .ok out) :
    dedupRecordsForWsprnet py out = .ok out := by
  have hl := entries_increasing records
  rw [dedup_eq fun e he ↦ h e.2 (mem_of_mem_entries he) e.1] at hout
  obtain rfl := Except.ok.inj hout
  set kept := KeepBest.kept (gt py) (view py) (entries py records) with hkept
  have hmem : ∀ e ∈ entries py (kept.map Prod.snd), ∃ e₀ ∈ kept, kept[e.1]? = some e₀ ∧
      e₀.2 = e.2 := by
    intro e he
    obtain ⟨e₀, he₀, hsnd⟩ := Option.map_eq_some_iff.mp (List.getElem?_map ▸ mem_entries.mp he)
    exact ⟨e₀, List.mem_of_getElem? he₀, he₀, hsnd⟩
  have hread : ∀ e ∈ entries py (kept.map Prod.snd), ∃ v, readRow py e = .ok v := by
    intro e he
    obtain ⟨e₀, he₀, -, hsnd⟩ := hmem e he
    rw [← Prod.mk.eta (p := e), ← hsnd]
    exact h e₀.2 (mem_of_mem_entries (KeepBest.mem_of_mem_kept he₀)) e.1
  rw [dedup_eq hread, KeepBest.kept_eq_self (entries_increasing _), map_snd_entries]
  intro e he x hx k s t hev hxv
  refine (entries_increasing _).eq_of_key_eq hx he ?_
  cases hk : k.Fixed with
  | false => exact pos_eq_of_view hev hxv hk
  | true =>
    obtain ⟨e₀, he₀, hei, he₂⟩ := hmem e he
    obtain ⟨x₀, hx₀, hxi, hx₂⟩ := hmem x hx
    have hsame : e₀ = x₀ := KeepBest.eq_of_mem_kept he₀ hx₀
      (view_of_told hev hk he₂.symm) (view_of_told hxv hk hx₂.symm)
    have hnodup : kept.Nodup := KeepBest.nodup_kept hl
    rw [← hsame] at hxi
    exact (List.getElem?_inj (List.getElem?_eq_some_iff.mp hxi).1 hnodup).mp (hxi.trans hei.symm)

theorem mem_openers {records : List (Record py.Finite)} {e : Placed (Record py.Finite)}
    (h : e ∈ openers py records) : e ∈ entries py records :=
  (List.mem_filter.mp h).1

/-- What stands for the openers is what `KeepBest` puts in place. -/
theorem forall₂_standsFor {records : List (Record py.Finite)}
    (hord : ∀ e ∈ entries py records, ∀ k s, view py e = some (k, s) → Ordered py s)
    {out : List (Placed (Record py.Finite))} :
    List.Forall₂ (StandsFor py (entries py records)) (openers py records) out ↔
      out = KeepBest.inPlace (gt py) (view py) (entries py records) := by
  have hstands := @standsFor_iff py _ (entries_increasing records) hord
  rw [KeepBest.inPlace, ← openers]
  constructor
  · intro h
    generalize hop : openers py records = op at h ⊢
    have hmem : ∀ e ∈ op, e ∈ entries py records := fun e he ↦ mem_openers (hop ▸ he)
    clear hop
    induction h with
    | nil => rfl
    | cons hew _ ih =>
      rw [List.forall_mem_cons] at hmem
      rw [List.map_cons, ih hmem.2, (hstands hmem.1).mp hew]
  · rintro rfl
    rw [List.forall₂_map_right_iff, List.forall₂_same]
    exact fun e he ↦ (hstands (mem_openers he)).mpr rfl

theorem inOrder_iff {records : List (Record py.Finite)}
    (hord : ∀ e ∈ entries py records, ∀ k s, view py e = some (k, s) → Ordered py s) :
    InOrder py records ↔ Table.Increasing Prod.fst
      (KeepBest.inPlace (gt py) (view py) (entries py records)) := by
  have hstands := @standsFor_iff py _ (entries_increasing records) hord
  rw [KeepBest.inPlace, ← openers, Table.Increasing, List.pairwise_map, InOrder]
  constructor
  · intro h
    refine List.Pairwise.imp_of_mem (fun he hx hex ↦ ?_) h
    exact hex _ _ ((hstands (mem_openers he)).mpr rfl) ((hstands (mem_openers hx)).mpr rfl)
  · intro h
    refine List.Pairwise.imp_of_mem (fun he hx hex v w hv hw ↦ ?_) h
    rw [(hstands (mem_openers he)).mp hv, (hstands (mem_openers hx)).mp hw]
    exact hex

theorem wellTyped_entries {records : List (Record py.Finite)}
    (h : ∀ r ∈ records, WellTyped py r) :
    (∀ r ∈ records, ∀ pos, ∃ v, readRow py (pos, r) = .ok v) ∧
      ∀ e ∈ entries py records, ∀ k s, view py e = some (k, s) → Ordered py s := by
  constructor
  · intro r hr pos
    obtain ⟨v, hv, -⟩ := readRow_of_wellTyped (e := (pos, r)) (h r hr)
    exact ⟨v, hv⟩
  · intro e he k s hks
    obtain ⟨v, hv, hord⟩ := readRow_of_wellTyped (h e.2 (mem_of_mem_entries he))
    rw [view_of_readRow hv] at hks
    exact hord k s hks

theorem inOrder_of_bestInPlace {records : List (Record py.Finite)}
    (h : ∀ r ∈ records, WellTyped py r) (hbest : BestInPlace py records) : InOrder py records := by
  obtain ⟨hread, hord⟩ := wellTyped_entries h
  have hl := entries_increasing records
  obtain ⟨out, hout, hout', -⟩ := hbest
  rw [forall₂_standsFor hord] at hout
  subst hout
  rw [dedup_eq fun e he ↦ hread e.2 (mem_of_mem_entries he) e.1] at hout'
  rw [inOrder_iff hord, ← KeepBest.kept_eq_inPlace_iff hl]
  refine KeepBest.kept_eq_inPlace_of_values hl (told py) ?_ ?_ (Except.ok.inj hout')
  · intro a ha b hb hab ht
    obtain ⟨⟨k, s⟩, hv, hk⟩ := (Option.any_eq_true _ _).mp ht
    have hva : view py a = some (k, s) := by
      rw [view_eq, hv, Option.map_some, Key.at_of_fixed hk]
    refine ⟨k, ?_, ?_⟩
    · rw [hva, Option.map_some]
    · rw [view_of_told hva hk hab, Option.map_some]
  · intro e he ht x hx k s t hev hxv
    rw [told_of_view hev] at ht
    exact hl.eq_of_key_eq hx he (pos_eq_of_view hev hxv ht)

end

/-- **The best copies stand in place exactly when they come in the order of the first copies.**
Which rows are kept, the rule for equal SNRs and that a second pass changes nothing hold for all
well-typed rows. -/
theorem bestInPlace_iff (py : Interpreter) (records : List (Record py.Finite))
    (h : ∀ r ∈ records, WellTyped py r) : BestInPlace py records ↔ InOrder py records := by
  refine ⟨inOrder_of_bestInPlace h, fun hin ↦ ?_⟩
  obtain ⟨hread, hord⟩ := wellTyped_entries h
  have hdedup := dedup_eq fun e he ↦ hread e.2 (mem_of_mem_entries he) e.1
  rw [inOrder_iff hord, ← KeepBest.kept_eq_inPlace_iff (entries_increasing records)] at hin
  refine ⟨_, (forall₂_standsFor hord).mpr rfl, ?_, ?_⟩
  · rw [hdedup, hin]
  · rw [← hin]
    exact dedup_kept hread hdedup

/-! ## Two receivers -/

/-- The number a text begins with, up to its point. -/
def wholePart (s : PyText) : Option ℤ :=
  let digits := s.takeWhile fun ch ↦ ch ≠ .scalar '.'
  if digits ≠ [] ∧ ∀ ch ∈ digits, 48 ≤ code ch ∧ code ch ≤ 57 then
    some (digits.foldl (fun n ch ↦ 10 * n + (code ch - 48)) 0)
  else none

/-- `str` of a value that is no container, where finite floats are whole numbers. -/
def wholeText : PyValue ℤ → PyText
  | .none => .ofString "None"
  | .bool b => .ofString (if b then "True" else "False")
  | .int n => .ofString (toString n)
  | .float (.finite n) => .ofString (toString n ++ ".0")
  | .float (.inf negative) => .ofString (if negative then "-inf" else "inf")
  | .float .nan => .ofString "nan"
  | .str s => s
  | .list _ | .dict _ => []

/-- An interpreter whose finite floats are whole numbers. -/
def wholeNumbers : Interpreter where
  Finite := ℤ
  isZero x := x = 0
  trunc := id
  intOfText _ := none
  strOf := wholeText
  lower := id
  upper := id
  value x := x
  zero := 0
  ofInt := some
  ofText s := (wholePart s).map .finite
  perMillion x := x / 1000000
  round4 := id
  times60 x := .finite (x * 60)
  roundInt := id
  fixed places x :=
    match x with
    | .finite n => toString n ++ (if places = 0 then "" else ".") ++
      String.ofList (List.replicate places '0')
    | .inf negative => if negative then "-inf" else "inf"
    | .nan => "nan"
  decimal n := some (toString n)
  strip := id
  split s := (s.splitOn (.scalar ' ')).filter fun part ↦ part ≠ []

/-- A row of the minute 01:02, by its call and its SNR. -/
def heard (call : String) (snr : ℤ) : Record wholeNumbers.Finite where
  time := some { year := 2026, month := 5, day := 23, hour := 1, minute := 2 }
  columns := [("callsign", .str (.ofString call)), ("frequency_hz", .int 14000000),
    ("snr_db", .int snr)]

theorem wellTyped_heard (call : String) (snr : ℤ) : WellTyped wholeNumbers (heard call snr) := by
  have hcols : ∀ name, (heard call snr).columns.get name =
      (if name = "callsign" then .str (.ofString call)
      else if name = "frequency_hz" then .int 14000000
      else if name = "snr_db" then .int snr else .none) := by
    intro name
    simp only [heard, Columns.get, List.lookup_cons, List.lookup_nil, beq_eq_decide]
    split_ifs <;> simp_all
  refine ⟨?_, ?_, ?_⟩ <;> intro name hname <;> rw [hcols] <;>
    simp only [List.mem_cons, List.not_mem_nil, or_false] at hname
  · rcases hname with rfl | rfl | rfl <;> simp
  · rcases hname with rfl | rfl | rfl <;> simp [IsNumber, wholeNumbers]
  · rcases hname with rfl | rfl <;> simp [IsNumber, wholeNumbers]

/-- A second receiver heard the first call better than the first one did. -/
def twoReceivers : List (Record wholeNumbers.Finite) :=
  [heard "K1ABC" (-25), heard "W2XYZ" (-20), heard "K1ABC" (-10)]

theorem wellTyped_twoReceivers : ∀ r ∈ twoReceivers, WellTyped wholeNumbers r := by
  intro r hr
  simp only [twoReceivers, List.mem_cons, List.not_mem_nil, or_false] at hr
  rcases hr with rfl | rfl | rfl
  all_goals exact wellTyped_heard _ _

/-- The same with the better copy first. -/
def betterFirst : List (Record wholeNumbers.Finite) :=
  [heard "K1ABC" (-10), heard "W2XYZ" (-20), heard "K1ABC" (-25)]

theorem wellTyped_betterFirst : ∀ r ∈ betterFirst, WellTyped wholeNumbers r := by
  intro r hr
  simp only [betterFirst, List.mem_cons, List.not_mem_nil, or_false] at hr
  rcases hr with rfl | rfl | rfl
  all_goals exact wellTyped_heard _ _

/-- The better copy of the first call stands in its place when it comes first. -/
theorem bestInPlace_iff_twoReceivers :
    BestInPlace wholeNumbers betterFirst ∧
    (BestInPlace wholeNumbers twoReceivers ↔ InOrder wholeNumbers twoReceivers) := by
  refine ⟨(bestInPlace_iff wholeNumbers betterFirst wellTyped_betterFirst).mpr ?_,
    bestInPlace_iff wholeNumbers twoReceivers wellTyped_twoReceivers⟩
  rw [inOrder_iff (wellTyped_entries wellTyped_betterFirst).2, Table.Increasing,
    ← List.pairwise_map]
  have hpos : (KeepBest.inPlace (gt wholeNumbers) (view wholeNumbers)
      (entries wholeNumbers betterFirst)).map Prod.fst = [0, 1] := by
    decide
  rw [hpos]
  decide

/-- The better copy of the first call comes out behind the second call. -/
theorem bestInPlace_fails :
    ¬ ∀ (py : Interpreter) (records : List (Record py.Finite)),
      (∀ r ∈ records, WellTyped py r) → BestInPlace py records := by
  intro hall
  have hin := inOrder_of_bestInPlace wellTyped_twoReceivers
    (hall wholeNumbers twoReceivers wellTyped_twoReceivers)
  rw [inOrder_iff (wellTyped_entries wellTyped_twoReceivers).2, Table.Increasing,
    ← List.pairwise_map] at hin
  have hpos : (KeepBest.inPlace (gt wholeNumbers) (view wholeNumbers)
      (entries wholeNumbers twoReceivers)).map Prod.fst = [2, 1] := by
    decide
  rw [hpos] at hin
  exact absurd hin (by decide)

end HsUploader.WsprNet
