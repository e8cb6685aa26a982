import HsUploader.Sources.WsprCycle

/-!
# Times in one spelling

The source of WSPR cycles compares times as texts.  For times that are spelled
`YYYY-MM-DDTHH:MM:SSZ`, with a year of four digits, that is the order of the instants
(`isoZ_lt_isoZ`): the text is made of fields of fixed width, the most significant one first.
-/

set_option autoImplicit false

namespace HsUploader

/-! ## The calendar -/

/-- The days before year `y` of an era of 400 years that begin in March. -/
def yearStart (y : ℤ) : ℤ := 365 * y + y / 4 - y / 100

/-- The year of an era a day falls in, as `civilFromDays` computes it. -/
def yearOfEra (doe : ℤ) : ℤ := (doe - doe / 1460 + doe / 36524 - doe / 146096) / 365

theorem yearOfEra_mono {a b : ℤ} (h : a ≤ b) : yearOfEra a ≤ yearOfEra b := by
  have hstep : ∀ n : ℤ, yearOfEra n ≤ yearOfEra (n + 1) := fun n ↦ by
    have hquarter : ∀ k : ℤ, k / 146096 = k / 36524 / 4 := fun k ↦ by omega
    rw [yearOfEra, yearOfEra, hquarter, hquarter]
    refine Int.ediv_le_ediv (by decide) ?_
    have hm : (n + 1) / 1460 ≤ n / 1460 + 1 := by omega
    have hc : n / 36524 ≤ (n + 1) / 36524 := by omega
    generalize (n + 1) / 1460 = m' at *
    generalize (n + 1) / 36524 = c' at *
    omega
  obtain ⟨k, rfl⟩ := Int.le.dest h
  induction k with
  | zero => simp
  | succ k ih =>
    have hk := hstep (a + k)
    rw [Nat.cast_succ, ← add_assoc]
    exact (ih (by omega)).trans hk

/-- The first and the last day of each year of the era. -/
theorem yearOfEra_yearStart : ∀ y : ℕ, y < 400 →
    yearOfEra (yearStart y) = y ∧ (y < 399 → yearOfEra (yearStart (y + 1) - 1) = y) := by
  decide +kernel

/-- A day of an era falls in its year. -/
theorem yearStart_yearOfEra {doe : ℤ} (h₀ : 0 ≤ doe) (h₁ : doe < 146097) :
    yearStart (yearOfEra doe) ≤ doe ∧ doe ≤ yearStart (yearOfEra doe) + 365 := by
  have hy₀ : 0 ≤ yearOfEra doe := by
    rw [yearOfEra]
    omega
  have hy₁ : yearOfEra doe ≤ 399 := by
    rw [yearOfEra]
    omega
  obtain ⟨y, hy⟩ := Int.eq_ofNat_of_zero_le hy₀
  have hyear := yearOfEra_yearStart y (by omega)
  constructor
  · by_contra! hlt
    -- the day would lie at the end of the year before at the latest
    have hpos : 0 < y := by
      by_contra! hzero
      obtain rfl : y = 0 := by omega
      rw [hy, yearStart] at hlt
      omega
    have hbefore := yearOfEra_yearStart (y - 1) (by omega)
    have hle := yearOfEra_mono (a := doe) (b := yearStart ((y - 1 : ℕ) + 1) - 1) (by
      rw [hy] at hlt
      rw [show ((y - 1 : ℕ) + 1 : ℤ) = y by omega]
      exact Int.le_sub_one_of_lt hlt)
    rw [hbefore.2 (by omega)] at hle
    omega
  · by_contra! hlt
    by_cases hlast : y < 399
    · have hafter := (yearOfEra_yearStart (y + 1) (by omega)).1
      have hle := yearOfEra_mono (a := yearStart (y + 1 : ℕ)) (b := doe) (by
        rw [hy] at hlt
        rw [yearStart] at hlt ⊢
        push_cast
        omega)
      rw [hafter] at hle
      push_cast at hle
      omega
    · obtain rfl : y = 399 := by omega
      rw [hy, yearStart] at hlt
      omega

/-- A date's place: its month counted through, and its day. -/
def monthIndex (date : ℤ × ℤ × ℤ) : ℤ := date.1 * 12 + date.2.1

/-- The year counted from March, and the day in it. -/
theorem civilFromDays_fields (days : ℤ) :
    ∃ year doy : ℤ, 0 ≤ doy ∧ doy ≤ 365 ∧
      days + 719468 = year / 400 * 146097 + yearStart (year % 400) + doy ∧
      monthIndex (civilFromDays days) = year * 12 + (5 * doy + 2) / 153 + 3 ∧
      (civilFromDays days).2.2 = doy - (153 * ((5 * doy + 2) / 153) + 2) / 5 + 1 ∧
      1 ≤ (civilFromDays days).2.1 ∧ (civilFromDays days).2.1 ≤ 12 := by
  have h₀ : 0 ≤ (days + 719468) % 146097 := Int.emod_nonneg _ (by decide)
  have h₁ : (days + 719468) % 146097 < 146097 := Int.emod_lt_of_pos _ (by decide)
  obtain ⟨hstart, hend⟩ := yearStart_yearOfEra h₀ h₁
  have hy₀ : 0 ≤ yearOfEra ((days + 719468) % 146097) := by
    rw [yearOfEra]
    omega
  have hy₁ : yearOfEra ((days + 719468) % 146097) ≤ 399 := by
    rw [yearOfEra]
    omega
  have hdays := Int.emod_add_mul_ediv (days + 719468) 146097
  refine ⟨(days + 719468) / 146097 * 400 + yearOfEra ((days + 719468) % 146097),
    (days + 719468) % 146097 - yearStart (yearOfEra ((days + 719468) % 146097)),
    by omega, by omega, ?_, ?_⟩
  · have hdiv : ((days + 719468) / 146097 * 400 + yearOfEra ((days + 719468) % 146097)) / 400 =
        (days + 719468) / 146097 := by omega
    have hmod : ((days + 719468) / 146097 * 400 + yearOfEra ((days + 719468) % 146097)) % 400 =
        yearOfEra ((days + 719468) % 146097) := by omega
    rw [hdiv, hmod]
    omega
  · have hcivil : civilFromDays days =
        (let doy := (days + 719468) % 146097 - yearStart (yearOfEra ((days + 719468) % 146097))
        let mp := (5 * doy + 2) / 153
        let month := if mp < 10 then mp + 3 else mp - 9
        (yearOfEra ((days + 719468) % 146097) + (days + 719468) / 146097 * 400 +
          (if month ≤ 2 then 1 else 0), month, doy - (153 * mp + 2) / 5 + 1)) := rfl
    have hdoy₀ : 0 ≤ (days + 719468) % 146097 -
        yearStart (yearOfEra ((days + 719468) % 146097)) := by omega
    have hdoy₁ : (days + 719468) % 146097 -
        yearStart (yearOfEra ((days + 719468) % 146097)) ≤ 365 := by omega
    rw [hcivil]
    generalize (days + 719468) % 146097 - yearStart _ = doy at *
    have hmp₀ : 0 ≤ (5 * doy + 2) / 153 := by omega
    have hmp₁ : (5 * doy + 2) / 153 ≤ 11 := by omega
    dsimp only [monthIndex]
    refine ⟨?_, rfl, ?_, ?_⟩
    · split <;> split <;> omega
    · split <;> omega
    · split <;> omega

/-- The days before a year that begins in March, years counted through. -/
theorem yearStart_add (y : ℤ) :
    y / 400 * 146097 + yearStart (y % 400) = 365 * y + (y / 4 - y / 100 + y / 400) := by
  rw [yearStart]
  omega

/-- A later year begins 365 days later at least. -/
theorem leapDays_mono {y y' : ℤ} (h : y ≤ y') :
    y / 4 - y / 100 + y / 400 ≤ y' / 4 - y' / 100 + y' / 400 := by
  have hcentury : ∀ k : ℤ, k / 100 = k / 4 / 25 := fun k ↦ by omega
  have hera : ∀ k : ℤ, k / 400 = k / 4 / 100 := fun k ↦ by omega
  have hquad : y / 4 ≤ y' / 4 := by omega
  rw [hcentury, hcentury, hera, hera]
  generalize y / 4 = q at *
  generalize y' / 4 = q' at *
  omega

/-- Later days have later dates. -/
theorem civilFromDays_lt {a b : ℤ} (h : a < b) :
    monthIndex (civilFromDays a) < monthIndex (civilFromDays b) ∨
      monthIndex (civilFromDays a) = monthIndex (civilFromDays b) ∧
        (civilFromDays a).2.2 < (civilFromDays b).2.2 := by
  obtain ⟨y, d, hd₀, hd₁, ha, hia, hda, -⟩ := civilFromDays_fields a
  obtain ⟨y', d', hd₀', hd₁', hb, hib, hdb, -⟩ := civilFromDays_fields b
  rw [yearStart_add] at ha hb
  have hy : y < y' ∨ y = y' ∧ d < d' := by
    rcases lt_trichotomy y y' with hlt | rfl | hgt
    · exact .inl hlt
    · exact .inr ⟨rfl, by omega⟩
    · have hleap := leapDays_mono hgt.le
      omega
  rw [hia, hib, hda, hdb]
  rcases hy with hy | ⟨rfl, hlt⟩
  · left
    omega
  · rcases lt_or_eq_of_le (show (5 * d + 2) / 153 ≤ (5 * d' + 2) / 153 by omega) with hm | hm
    · left
      omega
    · right
      rw [hm]
      omega

/-! ## The text -/

/-- The two digits of a number below 100. -/
def twoDigits (n : ℕ) : List Char := [Nat.digitChar (n / 10), Nat.digitChar (n % 10)]

theorem toList_pad2 : ∀ n : ℕ, n < 100 → (pad2 n).toList = twoDigits n := by decide

/-- Two digits decide before whatever comes after them. -/
theorem twoDigits_append_lt {m n : ℕ} (hm : m < 100) (hn : n < 100) (l l' : List Char) :
    twoDigits m ++ l < twoDigits n ++ l' ↔ m < n ∨ m = n ∧ l < l' := by
  have hdigit : ∀ a : ℕ, a < 10 → ∀ b : ℕ, b < 10 →
      (Nat.digitChar a < Nat.digitChar b ↔ a < b) ∧ (Nat.digitChar a = Nat.digitChar b ↔ a = b) := by
    decide
  have htens := hdigit (m / 10) (by omega) (n / 10) (by omega)
  have hones := hdigit (m % 10) (by omega) (n % 10) (by omega)
  simp only [twoDigits, List.cons_append, List.nil_append, List.cons_lt_cons_iff, htens.1, htens.2,
    hones.1, hones.2]
  constructor
  · rintro (h | ⟨h, h' | ⟨h', hl⟩⟩)
    · left
      omega
    · left
      omega
    · exact .inr ⟨by omega, hl⟩
  · rintro (h | ⟨rfl, hl⟩)
    · rcases Nat.lt_or_ge (m / 10) (n / 10) with hlt | hge
      · exact .inl hlt
      · exact .inr ⟨by omega, .inl (by omega)⟩
    · exact .inr ⟨rfl, .inr ⟨rfl, hl⟩⟩

/-- A year of four digits is two pairs of digits. -/
theorem toList_year {y : ℕ} (h₀ : 1000 ≤ y) (h₁ : y < 10000) :
    (toString (y : ℤ)).toList = twoDigits (y / 100) ++ twoDigits (y % 100) := by
  have hstep : ∀ n : ℕ, 10 ≤ n →
      Nat.toDigits 10 n = Nat.toDigits 10 (n / 10) ++ [Nat.digitChar (n % 10)] := fun n hn ↦
    Nat.toDigits_of_base_le (by decide) hn
  have hdigits : Nat.toDigits 10 y = twoDigits (y / 100) ++ twoDigits (y % 100) := by
    rw [hstep y (by omega), hstep (y / 10) (by omega), hstep (y / 10 / 10) (by omega),
      Nat.toDigits_of_lt_base (by omega)]
    rw [twoDigits, twoDigits, show y / 10 / 10 / 10 = y / 100 / 10 by omega,
      show y / 10 / 10 % 10 = y / 100 % 10 by omega, show y / 10 % 10 = y % 100 / 10 by omega,
      show y % 10 = y % 100 % 10 by omega]
    rfl
  have hrepr : toString (y : ℤ) = String.ofList (Nat.toDigits 10 y) := Nat.repr_eq_ofList_toDigits
  rw [hrepr, String.toList_ofList, hdigits]

/-- The time's year has four digits. -/
def Dated (t : ℤ) : Prop :=
  1000 ≤ (civilFromDays (t / 1000000 / 86400)).1 ∧ (civilFromDays (t / 1000000 / 86400)).1 < 10000

instance (t : ℤ) : Decidable (Dated t) :=
  inferInstanceAs (Decidable (1000 ≤ (civilFromDays (t / 1000000 / 86400)).1 ∧
    (civilFromDays (t / 1000000 / 86400)).1 < 10000))

/-- The fields of a text, the most significant one first. -/
def fieldsText (year month day hour minute second : ℕ) : List Char :=
  twoDigits (year / 100) ++ (twoDigits (year % 100) ++ ('-' :: (twoDigits month ++ ('-' ::
    (twoDigits day ++ ('T' :: (twoDigits hour ++ (':' :: (twoDigits minute ++ (':' ::
      (twoDigits second ++ ['Z'])))))))))))

/-- The fields of a time. -/
theorem toList_isoZ {t : ℤ} (ht : Dated t) :
    ∃ year month day hour minute second : ℕ,
      (isoZ t).toList = fieldsText year month day hour minute second ∧
      (civilFromDays (t / 1000000 / 86400)) = ((year : ℤ), (month : ℤ), (day : ℤ)) ∧
      year < 10000 ∧ month < 100 ∧ 1 ≤ month ∧ month ≤ 12 ∧ day < 100 ∧
      hour < 100 ∧ minute < 60 ∧ second < 60 ∧
      t / 1000000 % 86400 = hour * 3600 + minute * 60 + second := by
  obtain ⟨_, doy, hd₀, hd₁, -, -, hday, hm₁, hm₂⟩ := civilFromDays_fields (t / 1000000 / 86400)
  have hday₀ : 0 ≤ (civilFromDays (t / 1000000 / 86400)).2.2 := by omega
  have hday₁ : (civilFromDays (t / 1000000 / 86400)).2.2 < 100 := by omega
  clear hday hd₀ hd₁ doy
  obtain ⟨hy₀, hy₁⟩ := ht
  rcases hcivil : civilFromDays (t / 1000000 / 86400) with ⟨y, m, d⟩
  rw [hcivil] at hday₀ hday₁ hm₁ hm₂ hy₀ hy₁
  dsimp only at hday₀ hday₁ hm₁ hm₂ hy₀ hy₁
  obtain ⟨year, rfl⟩ := Int.eq_ofNat_of_zero_le (show 0 ≤ y by omega)
  obtain ⟨month, rfl⟩ := Int.eq_ofNat_of_zero_le (show 0 ≤ m by omega)
  obtain ⟨day, rfl⟩ := Int.eq_ofNat_of_zero_le hday₀
  obtain ⟨hour, hh⟩ := Int.eq_ofNat_of_zero_le (show 0 ≤ t / 1000000 % 86400 / 3600 by omega)
  obtain ⟨minute, hm⟩ :=
    Int.eq_ofNat_of_zero_le (show 0 ≤ t / 1000000 % 86400 / 60 % 60 by omega)
  obtain ⟨second, hs⟩ := Int.eq_ofNat_of_zero_le (show 0 ≤ t / 1000000 % 86400 % 60 by omega)
  have hiso : isoZ t = toString (year : ℤ) ++ "-" ++ pad2 month ++ "-" ++ pad2 day ++ "T" ++
      pad2 hour ++ ":" ++ pad2 minute ++ ":" ++ pad2 second ++ "Z" := by
    rw [isoZ]
    dsimp only
    rw [hcivil, hh, hm, hs]
  refine ⟨year, month, day, hour, minute, second, ?_, rfl, by omega, by omega, by omega, by omega,
    by omega, by omega, by omega, by omega, by omega⟩
  rw [hiso]
  simp only [String.toList_append]
  rw [toList_year (by omega) (by omega), toList_pad2 month (by omega), toList_pad2 day (by omega),
    toList_pad2 hour (by omega), toList_pad2 minute (by omega), toList_pad2 second (by omega)]
  simp [fieldsText, twoDigits]

/-- **In one spelling the order of the texts is the order of the times**, to the second. -/
theorem isoZ_lt_isoZ {a b : ℤ} (ha : Dated a) (hb : Dated b) (h : a / 1000000 < b / 1000000) :
    isoZ a < isoZ b := by
  have hdays : a / 1000000 / 86400 ≤ b / 1000000 / 86400 := Int.ediv_le_ediv (by decide) h.le
  obtain ⟨y, m, d, hh, mi, s, hta, hca, hy, hm, hm₁, hm₂, hd, hhh, hmi, hs, hsum⟩ := toList_isoZ ha
  obtain ⟨y', m', d', hh', mi', s', htb, hcb, hy', hm', hm₁', hm₂', hd', hhh', hmi', hs', hsum'⟩ :=
    toList_isoZ hb
  rw [String.lt_iff_toList_lt, hta, htb, fieldsText, fieldsText,
    twoDigits_append_lt (by omega) (by omega), twoDigits_append_lt (by omega) (by omega),
    List.cons_lt_cons_self, twoDigits_append_lt (by omega) (by omega), List.cons_lt_cons_self,
    twoDigits_append_lt (by omega) (by omega), List.cons_lt_cons_self,
    twoDigits_append_lt (by omega) (by omega), List.cons_lt_cons_self,
    twoDigits_append_lt (by omega) (by omega), List.cons_lt_cons_self,
    twoDigits_append_lt (by omega) (by omega)]
  have hdate : a / 1000000 / 86400 < b / 1000000 / 86400 →
      y * 12 + m < y' * 12 + m' ∨ y * 12 + m = y' * 12 + m' ∧ d < d' := fun hlt ↦ by
    have hdates := civilFromDays_lt hlt
    rw [hca, hcb] at hdates
    dsimp only [monthIndex] at hdates
    omega
  rcases lt_or_eq_of_le hdays with hlt | heq
  · have hdates := hdate hlt
    rcases Nat.lt_or_ge (y / 100) (y' / 100) with hcentury | hcentury
    · exact .inl hcentury
    refine .inr ⟨by omega, ?_⟩
    rcases Nat.lt_or_ge (y % 100) (y' % 100) with hyear | hyear
    · exact .inl hyear
    refine .inr ⟨by omega, ?_⟩
    rcases Nat.lt_or_ge m m' with hmonth | hmonth
    · exact .inl hmonth
    exact .inr ⟨by omega, .inl (by omega)⟩
  · have hsame : (y, m, d) = (y', m', d') := by
      rw [heq, hcb] at hca
      simp only [Prod.mk.injEq, Nat.cast_inj] at hca ⊢
      omega
    cases hsame
    refine .inr ⟨rfl, .inr ⟨rfl, .inr ⟨rfl, .inr ⟨rfl, ?_⟩⟩⟩⟩
    rcases Nat.lt_or_ge hh hh' with hhour | hhour
    · exact .inl hhour
    refine .inr ⟨by omega, ?_⟩
    rcases Nat.lt_or_ge mi mi' with hminute | hminute
    · exact .inl hminute
    exact .inr ⟨by omega, .inl (by omega)⟩

end HsUploader
