import HsUploader.Sources.WsprTime

/-!
# The two minutes of a psk row

A psk row rides with the cycle whose text is at most the row's and whose next cycle's text is above
it.  Texts of one spelling compare as their times do, and texts that differ before the seconds do
anyhow.  At the first second of a cycle the spelling decides: `+00:00` and a fraction sort before
`Z`, the spelling of the bound.
-/

set_option autoImplicit false

namespace HsUploader

/-! ## The spellings of an instant -/

/-- An instant of a year of four digits, the next two minutes included, as producers spell it:
whole seconds or a fraction, and `Z` or `+00:00`. -/
structure IsoText where
  second : ℤ
  fraction : List Char := []
  offset : Bool := false
  isDigit : ∀ c ∈ fraction, c.isDigit = true
  dated : Dated (second * 1000000)
  dated_next : Dated (second * 1000000 + wsprCycle)

/-- The text up to the whole seconds. -/
def secondsText (second : ℤ) : List Char := (isoZ (second * 1000000)).toList.dropLast

namespace IsoText

variable (t : IsoText)

/-- The text after the whole seconds. -/
def tail : List Char :=
  (if t.fraction.isEmpty then [] else '.' :: t.fraction) ++
    if t.offset then "+00:00".toList else "Z".toList

/-- The text. -/
def text : String := String.ofList (secondsText t.second ++ t.tail)

/-- The microseconds of the fraction, what is below them cut off. -/
def micros : ℕ := Nat.ofDigitChars 10 ((t.fraction ++ List.replicate 6 '0').take 6) 0

/-- The instant the text names. -/
def instant : Instant := t.second * 1000000 + t.micros

end IsoText

/-- `datetime.fromisoformat` reads these spellings. -/
def WsprCycleSource.ReadsIso (src : WsprCycleSource) : Prop :=
  ∀ t : IsoText, src.parseIso t.text = some t.instant

/-- The number some digits write is below the power of ten of their number. -/
theorem ofDigitChars_lt {l : List Char} (hl : ∀ c ∈ l, c.isDigit = true) (init : ℕ) :
    Nat.ofDigitChars 10 l init < 10 ^ l.length * (init + 1) := by
  induction l generalizing init with
  | nil => simp
  | cons c l ih =>
    rw [List.forall_mem_cons] at hl
    have hc : c.toNat - '0'.toNat ≤ 9 := by
      have hle := (Char.isDigit_iff_toNat.mp hl.1).2
      change c.toNat ≤ 57 at hle
      change c.toNat - 48 ≤ 9
      omega
    rw [Nat.ofDigitChars_cons, List.length_cons, Nat.pow_succ]
    calc Nat.ofDigitChars 10 l (10 * init + (c.toNat - '0'.toNat))
        < 10 ^ l.length * (10 * init + (c.toNat - '0'.toNat) + 1) := ih hl.2 _
      _ ≤ 10 ^ l.length * (10 * (init + 1)) := Nat.mul_le_mul_left _ (by omega)
      _ = 10 ^ l.length * 10 * (init + 1) := by rw [Nat.mul_assoc]

/-! ## The order of the texts -/

/-- Two lists of one length that are in order before a common end are so before any ends. -/
theorem append_lt_append {u v : List Char} (hlen : u.length = v.length) {s : List Char}
    (h : u ++ s < v ++ s) (x y : List Char) : u ++ x < v ++ y := by
  induction u generalizing v with
  | nil =>
    rw [List.length_nil, eq_comm, List.length_eq_zero_iff] at hlen
    rw [hlen] at h
    exact absurd h (lt_irrefl _)
  | cons a u ih =>
    cases v with
    | nil => cases hlen
    | cons b v =>
      rw [List.cons_append, List.cons_append, List.cons_lt_cons_iff] at h ⊢
      exact h.imp_right fun ⟨hab, hlt⟩ ↦ ⟨hab, ih (Nat.succ.inj hlen) hlt⟩

theorem append_lt_append_left {u x y : List Char} : u ++ x < u ++ y ↔ x < y := by
  induction u with
  | nil => rfl
  | cons a u ih => rw [List.cons_append, List.cons_append, List.cons_lt_cons_self, ih]

theorem toList_isoZ_eq (second : ℤ) :
    (isoZ (second * 1000000)).toList = secondsText second ++ "Z".toList := by
  have hlast : ∃ u, (isoZ (second * 1000000)).toList = u ++ ['Z'] := by
    rw [isoZ]
    dsimp only
    rw [String.toList_append]
    exact ⟨_, rfl⟩
  obtain ⟨u, hu⟩ := hlast
  rw [secondsText, hu, List.dropLast_concat]
  rfl

theorem length_secondsText {second : ℤ} (hd : Dated (second * 1000000)) :
    (secondsText second).length = 19 := by
  obtain ⟨y, m, d, hh, mi, s, htext, -⟩ := toList_isoZ hd
  rw [secondsText, htext]
  rfl

/-- Texts of different seconds are in the order of the seconds. -/
theorem secondsText_lt {a b : ℤ} (ha : Dated (a * 1000000)) (hb : Dated (b * 1000000)) (h : a < b)
    (x y : List Char) : secondsText a ++ x < secondsText b ++ y := by
  have hlt := isoZ_lt_isoZ ha hb (by omega)
  rw [String.lt_iff_toList_lt, toList_isoZ_eq, toList_isoZ_eq] at hlt
  exact append_lt_append ((length_secondsText ha).trans (length_secondsText hb).symm) hlt x y

namespace IsoText

variable (t : IsoText)

/-- Of all spellings of a second the plain `Z` is the last. -/
theorem tail_lt_iff : t.tail < "Z".toList ↔ t.tail ≠ "Z".toList := by
  refine ⟨ne_of_lt, fun hne ↦ ?_⟩
  rw [tail] at hne ⊢
  cases hf : t.fraction with
  | cons c cs =>
    rw [List.isEmpty_cons]
    exact List.cons_lt_cons_iff.mpr (.inl (by decide))
  | nil =>
    rw [hf] at hne
    cases ho : t.offset with
    | true => exact List.cons_lt_cons_iff.mpr (.inl (by decide))
    | false =>
      rw [ho] at hne
      exact absurd rfl hne

theorem not_Z_lt_tail : ¬ "Z".toList < t.tail := by
  intro h
  rcases eq_or_ne t.tail "Z".toList with heq | hne
  · rw [heq] at h
    exact lt_irrefl _ h
  · exact lt_asymm h (t.tail_lt_iff.mpr hne)

theorem micros_lt : t.micros < 1000000 := by
  have hdigits : ∀ c ∈ (t.fraction ++ List.replicate 6 '0').take 6, c.isDigit = true := by
    intro c hc
    rcases List.mem_append.mp (List.mem_of_mem_take hc) with hc | hc
    · exact t.isDigit c hc
    · rw [List.eq_of_mem_replicate hc]
      rfl
  have hlen : ((t.fraction ++ List.replicate 6 '0').take 6).length = 6 := by
    rw [List.length_take, List.length_append, List.length_replicate]
    omega
  have h := ofDigitChars_lt hdigits 0
  rw [hlen] at h
  exact h

/-- An instant that begins a cycle is spelled without a part of a second. -/
theorem instant_of_aligned (h : t.instant % wsprCycle = 0) :
    t.instant = t.second * 1000000 ∧ t.second % 120 = 0 := by
  have hlt := t.micros_lt
  have h' : (t.second * 1000000 + (t.micros : ℤ)) % 120000000 = 0 := h
  refine ⟨?_, by omega⟩
  change t.second * 1000000 + (t.micros : ℤ) = t.second * 1000000
  omega

/-- The texts of two instants compare by the seconds, and within one second by the spelling. -/
theorem text_le_iff {c t : IsoText} :
    c.text ≤ t.text ↔ c.second < t.second ∨ c.second = t.second ∧ ¬ t.tail < c.tail := by
  rw [← not_lt, String.lt_iff_toList_lt, text, text, String.toList_ofList, String.toList_ofList]
  rcases lt_trichotomy c.second t.second with h | h | h
  · have hlt := secondsText_lt c.dated t.dated h c.tail t.tail
    exact iff_of_true (lt_asymm hlt) (.inl h)
  · rw [h, append_lt_append_left]
    simp
  · have hlt := secondsText_lt t.dated c.dated h t.tail c.tail
    exact iff_of_false (not_not_intro hlt) (by omega)

/-- A text lies below a bound spelled with `Z` when its second does, or when it is spelled
otherwise. -/
theorem text_lt_bound_iff {second : ℤ} (hd : Dated (second * 1000000)) :
    t.text.toList < secondsText second ++ "Z".toList ↔
      t.second < second ∨ t.second = second ∧ t.tail ≠ "Z".toList := by
  rw [text, String.toList_ofList]
  rcases lt_trichotomy t.second second with h | h | h
  · exact iff_of_true (secondsText_lt t.dated hd h _ _) (.inl h)
  · rw [h, append_lt_append_left, t.tail_lt_iff]
    simp
  · exact iff_of_false (lt_asymm (secondsText_lt hd t.dated h _ _)) (by omega)

theorem tail_eq_iff : t.tail = "Z".toList ↔ t.fraction = [] ∧ t.offset = false := by
  rw [tail]
  cases hf : t.fraction with
  | cons c cs => exact iff_of_false (fun h ↦ absurd (List.cons.inj h).1 (by decide)) (by simp)
  | nil =>
    cases ho : t.offset with
    | true => exact iff_of_false (by decide) (by simp)
    | false => exact iff_of_true rfl ⟨rfl, rfl⟩

/-- The second alone, as the bounds spell it. -/
def plain : IsoText where
  second := t.second
  isDigit := by simp
  dated := t.dated
  dated_next := t.dated_next

theorem plain_instant : t.plain.instant = t.second * 1000000 := by
  have hmicros : t.plain.micros = 0 := rfl
  rw [instant, hmicros]
  exact add_zero _

end IsoText

/-! ## The window -/

section rider

variable {src : WsprCycleSource} {r : Row} {t c : IsoText}

/-- The bound above: the next cycle, with `Z`. -/
theorem nextCycle_eq (hread : src.ReadsIso) (hc : c.instant % wsprCycle = 0) :
    (src.nextCycle c.text).toList = secondsText (c.second + 120) ++ "Z".toList := by
  rw [WsprCycleSource.nextCycle, hread c]
  dsimp only
  rw [(c.instant_of_aligned hc).1, ← toList_isoZ_eq]
  congr 2
  rw [wsprCycle]
  ring

/-- A psk row that may leave the sink. -/
structure Rider (r : Row) (t : IsoText) : Prop where
  db : r.targetDb = "psk"
  table : r.targetTable = "spots"
  leaves : r.isLocal = false
  time : r.payloadJson.jsonExtract "time" = .ok (.text t.text)

/-- The statement compares the row's text with two others. -/
theorem Rider.passes_iff (hr : Rider r t) (hasLocal : Bool) (cycle next : String) :
    Passes (riderClauses hasLocal cycle next) r ↔ cycle ≤ t.text ∧ t.text < next := by
  have htime : ∀ (op : Ordering → Bool) (bound : String),
      timeClause op bound r = .ok (some (op (Ord.compare t.text bound))) := by
    intro op bound
    rw [timeClause, Clause.json, hr.time]
    rfl
  have hge : (Ord.compare t.text cycle != .lt) = true ↔ cycle ≤ t.text := by
    rw [bne_iff_ne, ne_eq, compare_lt_iff_lt, not_lt]
  have hlt : (Ord.compare t.text next == .lt) = true ↔ t.text < next := by
    rw [beq_iff_eq, compare_lt_iff_lt]
  have hlocal : Passes (if hasLocal then [localClause] else []) r := by
    cases hasLocal with
    | false => exact passes_nil r
    | true =>
      refine passes_cons.mpr ⟨?_, passes_nil r⟩
      rw [localClause, Clause.column, hr.leaves]
      rfl
  rw [riderClauses, passes_append, passes_append, passes_cons, passes_cons, passes_cons,
    passes_cons, htime, htime, Clause.column, Clause.column, hr.db, hr.table, ← hge, ← hlt]
  simp [hlocal, passes_nil]

end rider

/-- The row rides with the cycles whose two minutes hold its instant, and with no other. -/
def RidesInWindow (src : WsprCycleSource) (hasLocal : Bool) (r : Row) (t : IsoText) : Prop :=
  ∀ c : IsoText, c.instant % wsprCycle = 0 →
    (Passes (riderClauses hasLocal c.text (src.nextCycle c.text)) r ↔
      c.instant ≤ t.instant ∧ t.instant < c.instant + wsprCycle)

/-- **A psk row rides in its own two minutes** exactly when its instant is not in the first second
of a cycle, or is spelled in whole seconds with `Z`. -/
theorem rides_in_window_iff (src : WsprCycleSource) (hread : src.ReadsIso) (hasLocal : Bool)
    (r : Row) (t : IsoText) (hr : Rider r t) :
    RidesInWindow src hasLocal r t ↔
      (t.second % 120 = 0 → t.fraction = [] ∧ t.offset = false) := by
  have hselects : ∀ c : IsoText, c.instant % wsprCycle = 0 →
      (Passes (riderClauses hasLocal c.text (src.nextCycle c.text)) r ↔
        (c.second < t.second ∨ c.second = t.second ∧ ¬ t.tail < c.tail) ∧
          (t.second < c.second + 120 ∨ t.second = c.second + 120 ∧ t.tail ≠ "Z".toList)) := by
    intro c hc
    have hdated : Dated ((c.second + 120) * 1000000) := by
      have h := c.dated_next
      have heq : c.second * 1000000 + wsprCycle = (c.second + 120) * 1000000 := by
        rw [wsprCycle]
        ring
      rwa [heq] at h
    rw [hr.passes_iff, IsoText.text_le_iff, String.lt_iff_toList_lt, nextCycle_eq hread hc,
      t.text_lt_bound_iff hdated]
  have hinside : ∀ c : IsoText, c.instant % wsprCycle = 0 →
      ((c.instant ≤ t.instant ∧ t.instant < c.instant + wsprCycle) ↔
        c.second ≤ t.second ∧ t.second < c.second + 120) := by
    intro c hc
    have ht := t.micros_lt
    rw [(c.instant_of_aligned hc).1]
    change c.second * 1000000 ≤ t.second * 1000000 + (t.micros : ℤ) ∧
      t.second * 1000000 + (t.micros : ℤ) < c.second * 1000000 + 120000000 ↔ _
    omega
  constructor
  · intro hrides hfirst
    -- The cycle that begins with this second, spelled as the bounds are.
    have hc : (t.plain).instant % wsprCycle = 0 := by
      rw [t.plain_instant]
      change t.second * 1000000 % 120000000 = 0
      omega
    have hown := (hrides t.plain hc).mpr ((hinside t.plain hc).mpr ⟨le_rfl, by simp [IsoText.plain]⟩)
    rw [hselects t.plain hc] at hown
    refine t.tail_eq_iff.mp ?_
    by_contra hne
    rcases hown.1 with hlt | ⟨-, hge⟩
    · exact lt_irrefl _ hlt
    · exact hge (t.tail_lt_iff.mpr hne)
  · intro hplain c hc
    rw [hselects c hc, hinside c hc]
    have hcycle := (c.instant_of_aligned hc).2
    have htail : t.second % 120 = 0 → t.tail = "Z".toList := fun h ↦ t.tail_eq_iff.mpr (hplain h)
    constructor
    · rintro ⟨hlow, hlt | ⟨heq, hne⟩⟩
      · exact ⟨by omega, hlt⟩
      · exact absurd (htail (by omega)) hne
    · rintro ⟨hle, hlt⟩
      refine ⟨?_, .inl hlt⟩
      rcases lt_or_eq_of_le hle with hless | heq
      · exact .inl hless
      · refine .inr ⟨heq, ?_⟩
        rw [htail (by omega)]
        exact c.not_Z_lt_tail

/-! ## A reader of these spellings -/

namespace IsoText

/-- The spelling tells the fraction. -/
theorem fraction_of_tail {t u : IsoText} (h : t.tail = u.tail) : t.fraction = u.fraction := by
  have hend : ∀ t : IsoText, t.tail.getLast? = some (if t.offset then '0' else 'Z') := fun t ↦ by
    rw [tail]
    cases t.offset <;> simp
  have hoffset : t.offset = u.offset := by
    have hlast := congrArg List.getLast? h
    rw [hend, hend] at hlast
    cases ht : t.offset <;> cases hu : u.offset <;> simp [ht, hu] at hlast ⊢
  rw [tail, tail, hoffset] at h
  have hhead := List.append_cancel_right h
  cases ht : t.fraction <;> cases hu : u.fraction <;> simp [ht, hu] at hhead ⊢
  exact hhead

/-- The text tells the instant. -/
theorem instant_of_text {t u : IsoText} (h : t.text = u.text) : t.instant = u.instant := by
  have hsecond : t.second = u.second := by
    have hle := text_le_iff.mp h.le
    have hge := text_le_iff.mp h.ge
    omega
  have htail : t.tail = u.tail := by
    have hlist := congrArg String.toList h
    rw [text, text, String.toList_ofList, String.toList_ofList, hsecond] at hlist
    exact List.append_cancel_left hlist
  rw [instant, instant, micros, micros, hsecond, fraction_of_tail htail]

end IsoText

open Classical in
/-- A reader that knows these spellings and no other. -/
noncomputable def readIso (text : String) : Option Instant :=
  if h : ∃ t : IsoText, t.text = text then some h.choose.instant else none

/-- A source that rides psk rows along and reads times with it. -/
noncomputable def riderSource : WsprCycleSource where
  includePsk := true
  parseIso := readIso
  strptime := readIso

theorem riderSource_readsIso : riderSource.ReadsIso := by
  intro t
  have h : ∃ u : IsoText, u.text = t.text := ⟨t, rfl⟩
  change readIso t.text = some t.instant
  rw [readIso, dif_pos h]
  exact congrArg some (IsoText.instant_of_text h.choose_spec)

/-- Two minutes past midnight of 2026-07-01. -/
def firstSecond (fraction : List Char) (offset : Bool) (h : ∀ c ∈ fraction, c.isDigit = true) :
    IsoText where
  second := 1782864120
  fraction
  offset
  isDigit := h
  dated := by decide
  dated_next := by decide

/-- A psk row of this time. -/
def riderRow (t : IsoText) : Row where
  id := 1
  targetDb := "psk"
  targetTable := "spots"
  schemaVersion := 1
  payloadJson := .ofJson (.obj [("time", .str t.text), ("mode", .str "ft8")])
  queuedAt := "2026-07-01 00:02:15.000"

theorem riderRow_rider (t : IsoText) : Rider (riderRow t) t := ⟨rfl, rfl, rfl, rfl⟩

theorem rides_in_window_iff_firstSecond :
    RidesInWindow riderSource true (riderRow (firstSecond [] false (by simp)))
        (firstSecond [] false (by simp)) ↔
      ((firstSecond [] false (by simp)).second % 120 = 0 →
        (firstSecond [] false (by simp)).fraction = [] ∧
          (firstSecond [] false (by simp)).offset = false) :=
  rides_in_window_iff riderSource riderSource_readsIso true _ _ (riderRow_rider _)

/-- An FT8 row of the cycle's first second, spelled as `isoformat()` does, rides with the cycle
before it. -/
theorem offset_rides_early :
    ¬ ∀ (src : WsprCycleSource) (r : Row) (t : IsoText), src.ReadsIso → Rider r t →
      RidesInWindow src true r t := by
  intro hevery
  have hrides := hevery riderSource (riderRow (firstSecond [] true (by simp))) _
    riderSource_readsIso (riderRow_rider _)
  let c : IsoText :=
    { second := 1782864000, isDigit := by simp, dated := by decide
      dated_next := by decide }
  have hiff := hrides c (by decide)
  have hnext : riderSource.nextCycle c.text = isoZ (c.instant + wsprCycle) := by
    rw [WsprCycleSource.nextCycle, riderSource_readsIso c]
  rw [hnext] at hiff
  have hwindow := hiff.mp (by decide)
  revert hwindow
  decide

end HsUploader
