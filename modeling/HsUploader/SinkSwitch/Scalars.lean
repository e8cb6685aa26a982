import HsUploader.SinkSwitch.Keys

/-!
# What the parser makes of a scalar
-/

set_option autoImplicit false

namespace HsUploader.SinkSwitch

/-! ## Digits -/

/-- The text can follow a run of digits. -/
def EndsDigits (rest : Text) : Prop := ∀ c ∈ rest.head?, c.isDigit = false ∧ c ≠ '_'

theorem endsDigits_cons {c : Char} (h : c.isDigit = false ∧ c ≠ '_') (rest : Text) :
    EndsDigits (c :: rest) := fun d hd ↦ by
  cases hd
  exact h

theorem digits_end {rest : Text} (h : EndsDigits rest) : digits rest = ([], rest) := by
  cases rest with
  | nil => rfl
  | cons c rest =>
    obtain ⟨hd, hu⟩ := h c rfl
    rw [digits.eq_def]
    simp [hd, hu]

theorem digits_append {ds rest : Text} (hds : ∀ c ∈ ds, c.isDigit) (h : EndsDigits rest) :
    digits (ds ++ rest) = (ds, rest) := by
  induction ds with
  | nil => exact digits_end h
  | cons c ds ih =>
    rw [List.cons_append, digits.eq_def]
    simp [hds c List.mem_cons_self, ih fun c hc ↦ hds c (List.mem_cons_of_mem _ hc), prepend]

theorem isDigit_of_mem_toDigits {n : ℕ} : ∀ c ∈ Nat.toDigits 10 n, c.isDigit := fun _ hc ↦
  Nat.isDigit_of_mem_toDigits (by omega) (by omega) hc

/-- Decimal notation has no leading zero. -/
theorem toDigits_head {n : ℕ} {cs : Text} (h : Nat.toDigits 10 n = '0' :: cs) : cs = [] := by
  induction n using Nat.strong_induction_on generalizing cs with
  | h n ih =>
    rw [Nat.toDigits_eq_if (by omega)] at h
    split_ifs at h with hn
    · exact (List.cons.inj h).2.symm
    · cases hq : Nat.toDigits 10 (n / 10) with
      | nil => exact absurd hq Nat.toDigits_ne_nil
      | cons c ds =>
        rw [hq, List.cons_append] at h
        obtain ⟨rfl, h⟩ := List.cons.inj h
        obtain rfl := ih (n / 10) (by omega) hq
        have hv := congrArg (Nat.ofDigitChars 10 · 0) hq
        rw [Nat.ofDigitChars_ten_toDigits] at hv
        have : n / 10 = 0 := hv
        omega

theorem wholePart_toDigits (n : ℕ) {rest : Text} (h : EndsDigits rest) :
    wholePart (Nat.toDigits 10 n ++ rest) = some (Nat.toDigits 10 n, rest) := by
  obtain ⟨c, cs, hcs⟩ := List.exists_cons_of_ne_nil (Nat.toDigits_ne_nil : Nat.toDigits 10 n ≠ [])
  have hd : ∀ d ∈ c :: cs, d.isDigit := hcs ▸ isDigit_of_mem_toDigits
  rw [hcs, List.cons_append, wholePart]
  split_ifs with hc hdc
  · subst hc
    rw [toDigits_head hcs, List.nil_append]
  · rw [digits_append (fun d hd' ↦ hd d (List.mem_cons_of_mem _ hd')) h]
    rfl
  · exact absurd (hd c List.mem_cons_self) hdc

theorem optSign_digit {c : Char} (h : c.isDigit) (rest : Text) :
    optSign (c :: rest) = ([], c :: rest) := by
  unfold optSign
  split
  · rename_i heq
    cases heq
    exact absurd h (by decide)
  · rename_i heq
    cases heq
    exact absurd h (by decide)
  · rfl

/-- The sign of a number, as it is written. -/
def signText (negative : Bool) : Text := if negative then ['-'] else []

theorem optSign_toDigits (negative : Bool) (n : ℕ) (rest : Text) :
    optSign (signText negative ++ Nat.toDigits 10 n ++ rest) =
      (signText negative, Nat.toDigits 10 n ++ rest) := by
  cases negative with
  | true => rfl
  | false =>
    obtain ⟨c, cs, hcs⟩ := List.exists_cons_of_ne_nil (Nat.toDigits_ne_nil : Nat.toDigits 10 n ≠ [])
    rw [hcs]
    exact optSign_digit (isDigit_of_mem_toDigits c (hcs ▸ List.mem_cons_self)) _

/-! ## Numbers -/

/-- The text can follow the whole part of a number that is written: it is no date and no time. -/
def EndsWhole (rest : Text) : Prop :=
  ∀ c ∈ rest.head?, c.isDigit = false ∧ c ≠ '_' ∧ c ≠ '-' ∧ c ≠ ':'

theorem EndsWhole.endsDigits {rest : Text} (h : EndsWhole rest) : EndsDigits rest :=
  fun c hc ↦ ⟨(h c hc).1, (h c hc).2.1⟩

theorem startsTime_number (negative : Bool) (n : ℕ) {rest : Text} (h : EndsWhole rest) :
    startsTime (signText negative ++ Nat.toDigits 10 n ++ rest) = false := by
  cases negative with
  | true => simp [startsTime, signText, Char.isDigit]
  | false =>
    have hd : (Nat.toDigits 10 n ++ rest).dropWhile Char.isDigit = rest := by
      rw [List.dropWhile_append_of_pos isDigit_of_mem_toDigits]
      cases rest with
      | nil => rfl
      | cons c rest => simp [(h c rfl).1]
    simp only [signText, Bool.false_eq_true, if_false, List.nil_append, startsTime, hd]
    cases rest with
    | nil => rfl
    | cons c rest => simp [(h c rfl).2.2.1, (h c rfl).2.2.2]

variable (fl : Floats)

/-- A text that starts as a number does goes to the number's rule. -/
theorem parseValue_number (negative : Bool) (n : ℕ) {rest : Text} (h : EndsWhole rest) :
    parseValue fl (signText negative ++ Nat.toDigits 10 n ++ rest) =
      (parseNumber fl (signText negative ++ Nat.toDigits 10 n ++ rest) <|>
        parseSpecial (signText negative ++ Nat.toDigits 10 n ++ rest)) := by
  have ht := startsTime_number negative n h
  obtain ⟨c, cs, hcs, hc⟩ : ∃ c cs,
      signText negative ++ Nat.toDigits 10 n ++ rest = c :: cs ∧ (c.isDigit ∨ c = '-') := by
    cases negative with
    | true => exact ⟨'-', _, rfl, .inr rfl⟩
    | false =>
      obtain ⟨c, cs, hcs⟩ :=
        List.exists_cons_of_ne_nil (Nat.toDigits_ne_nil : Nat.toDigits 10 n ≠ [])
      exact ⟨c, cs ++ rest, by simp [signText, hcs],
        .inl (isDigit_of_mem_toDigits c (hcs ▸ List.mem_cons_self))⟩
  rw [hcs] at ht ⊢
  have hne : ∀ d : Char, d.isDigit = false → d ≠ '-' → c ≠ d := by
    rintro d h₁ h₂ rfl
    rcases hc with hc | hc
    · exact absurd hc (by simp [h₁])
    · exact h₂ hc
  simp only [parseValue]
  simp [hne '"' (by decide) (by decide), hne '\'' (by decide) (by decide),
    hne '[' (by decide) (by decide), hne '{' (by decide) (by decide), List.isPrefixOf,
    (hne 't' (by decide) (by decide)).symm, (hne 'f' (by decide) (by decide)).symm, ht]

theorem parseNumber_eq {text sign whole fraction exponent t₁ t₂ t₃ t₄ : Text}
    (h₁ : optSign text = (sign, t₁)) (h₂ : wholePart t₁ = some (whole, t₂))
    (h₃ : optFraction t₂ = (fraction, t₃)) (h₄ : optExponent t₃ = (exponent, t₄)) :
    parseNumber fl text =
      if fraction ++ exponent = [] then (pyInt (sign ++ whole)).map fun n ↦ (.int n, t₄)
      else some (.float (fl.ofText (sign ++ whole ++ fraction ++ exponent)), t₄) := by
  simp only [parseNumber, h₁, h₂, h₃, h₄, Option.bind_eq_bind, Option.bind_some]
  split_ifs
  · cases pyInt (sign ++ whole) <;> rfl
  · rfl

theorem parseValue_int (z : ℤ) (rest : Text) :
    parseValue fl (pyStr z ++ '\n' :: rest) = some (.int z, '\n' :: rest) := by
  have hends : EndsWhole ('\n' :: rest) := fun c hc ↦ by cases hc; decide
  obtain ⟨negative, n, hz⟩ : ∃ negative n, pyStr z = signText negative ++ Nat.toDigits 10 n := by
    cases z with
    | ofNat n => exact ⟨false, n, rfl⟩
    | negSucc n => exact ⟨true, n + 1, rfl⟩
  have hint := pyInt_pyStr z
  rw [hz] at hint ⊢
  rw [parseValue_number fl negative n hends, parseNumber_eq fl (optSign_toDigits negative n _)
    (wholePart_toDigits n hends.endsDigits) rfl rfl, if_pos (List.append_nil []), hint]
  rfl

/-! ## Floats -/

theorem optFraction_end {text : Text} (h : text.head? ≠ some '.') :
    optFraction text = ([], text) := by
  unfold optFraction
  split
  · exact absurd rfl h
  · rfl

theorem optFraction_text (f : FloatForm) {rest : Text} (h : EndsDigits rest)
    (hpoint : rest.head? ≠ some '.') :
    optFraction (f.fractionText ++ rest) = (f.fractionText, rest) := by
  rw [FloatForm.fractionText]
  split_ifs with hf
  · exact optFraction_end hpoint
  · obtain ⟨c, cs, hcs⟩ := List.exists_cons_of_ne_nil hf
    have hd : ∀ d ∈ c :: cs, d.isDigit := hcs ▸ f.fraction_digits
    rw [hcs, List.cons_append, List.cons_append, optFraction, if_pos (hd c List.mem_cons_self),
      digits_append (fun d hd' ↦ hd d (List.mem_cons_of_mem _ hd')) h]
    rfl

theorem optExponent_text (f : FloatForm) (rest : Text) :
    optExponent (f.exponentText ++ '\n' :: rest) = (f.exponentText, '\n' :: rest) := by
  rw [FloatForm.exponentText]
  split
  · rfl
  · rename_i sign ds he
    obtain ⟨hsign, hne, hds⟩ := f.exponent_digits (sign, ds) he
    obtain ⟨c, cs, rfl⟩ := List.exists_cons_of_ne_nil hne
    have hcs := digits_append (fun d hd ↦ hds d (List.mem_cons_of_mem _ hd))
      (endsDigits_cons (by decide : '\n'.isDigit = false ∧ '\n' ≠ '_') rest)
    have hc : c.isDigit := hds c List.mem_cons_self
    rcases hsign with rfl | rfl <;> simp [optExponent, optSign, hc, hcs]

theorem exponentText_ends (f : FloatForm) (rest : Text) :
    ∃ c cs, f.exponentText ++ '\n' :: rest = c :: cs ∧ (c = 'e' ∨ c = '\n') := by
  rw [FloatForm.exponentText]
  split
  · exact ⟨'\n', rest, rfl, .inr rfl⟩
  · exact ⟨'e', _, rfl, .inl rfl⟩

theorem fractionText_ends (f : FloatForm) (rest : Text) :
    ∃ c cs, f.fractionText ++ (f.exponentText ++ '\n' :: rest) = c :: cs ∧
      (c = '.' ∨ c = 'e' ∨ c = '\n') := by
  rw [FloatForm.fractionText]
  split_ifs
  · obtain ⟨c, cs, h, hc⟩ := exponentText_ends f rest
    exact ⟨c, cs, h, .inr hc⟩
  · exact ⟨'.', _, rfl, .inl rfl⟩

theorem fractionText_append_ne_nil (f : FloatForm) : f.fractionText ++ f.exponentText ≠ [] := by
  intro h
  obtain ⟨hf, he⟩ := List.append_eq_nil_iff.mp h
  rcases f.written with hw | hw
  · rw [FloatForm.fractionText, if_neg hw] at hf
    exact List.cons_ne_nil _ _ hf
  · obtain ⟨e, hexp⟩ := Option.ne_none_iff_exists'.mp hw
    rw [FloatForm.exponentText, hexp] at he
    exact List.cons_ne_nil _ _ he

theorem parseValue_float (x : fl.Finite) (rest : Text) :
    parseValue fl (fl.repr x ++ '\n' :: rest) = some (.float (.finite x), '\n' :: rest) := by
  obtain ⟨f, hf⟩ := fl.form x
  have htext : fl.repr x ++ '\n' :: rest = signText f.negative ++ Nat.toDigits 10 f.whole ++
      (f.fractionText ++ (f.exponentText ++ '\n' :: rest)) := by
    rw [hf]
    simp [FloatForm.text, signText]
  have hends : EndsWhole (f.fractionText ++ (f.exponentText ++ '\n' :: rest)) := by
    obtain ⟨c, cs, h, hc⟩ := fractionText_ends f rest
    rw [h]
    rintro d hd
    cases hd
    rcases hc with rfl | rfl | rfl <;> decide
  have hexp : EndsDigits (f.exponentText ++ '\n' :: rest) ∧
      (f.exponentText ++ '\n' :: rest).head? ≠ some '.' := by
    obtain ⟨c, cs, h, hc⟩ := exponentText_ends f rest
    rw [h]
    rcases hc with rfl | rfl
    · exact ⟨endsDigits_cons (by decide) cs, by simp⟩
    · exact ⟨endsDigits_cons (by decide) cs, by simp⟩
  have hread : signText f.negative ++ Nat.toDigits 10 f.whole ++ f.fractionText ++
      f.exponentText = fl.repr x := by
    rw [hf]
    simp [FloatForm.text, signText]
  rw [htext, parseValue_number fl f.negative f.whole hends,
    parseNumber_eq fl (optSign_toDigits f.negative f.whole _)
      (wholePart_toDigits f.whole hends.endsDigits) (optFraction_text f hexp.1 hexp.2)
      (optExponent_text f rest),
    if_neg (fractionText_append_ne_nil f), hread, fl.ofText_repr]
  rfl

/-! ## Strings and the rest -/

theorem parseValue_str (s rest : Text) :
    parseValue fl (str s ++ '\n' :: rest) = some (.str s, '\n' :: rest) := by
  have hlong : ['"', '"', '"'].isPrefixOf (str s ++ '\n' :: rest) = false := by
    cases s with
    | nil => simp [str, List.isPrefixOf]
    | cons c s =>
      have hc : ∃ d ds, escape c = d :: ds ∧ d ≠ '"' := by
        rw [escape]
        split_ifs with h₁ h₂
        all_goals first | exact ⟨_, _, rfl, by decide⟩ | exact ⟨_, _, rfl, h₂⟩
      obtain ⟨d, ds, hd, hne⟩ := hc
      simp [str, List.isPrefixOf, hd, hne.symm]
  have hread := parseBasicStr_str s ('\n' :: rest)
  have htext : str s ++ '\n' :: rest = '"' :: (s.flatMap escape ++ '"' :: '\n' :: rest) := by
    simp [str]
  rw [htext] at hlong ⊢
  simp [parseValue, hlong, hread]

/-- The text of a scalar reads back as the scalar. -/
theorem parseValue_scalar {v : Value fl.Finite} {t : Text} (h : scalar fl v = .ok t) (rest : Text) :
    parseValue fl (t ++ '\n' :: rest) = some (v, '\n' :: rest) := by
  cases v with
  | str s => cases h; exact parseValue_str fl s rest
  | bool b => cases b <;> cases h <;> rfl
  | int n => cases h; exact parseValue_int fl n rest
  | float x =>
    rcases x with x | negative | _
    · cases h; exact parseValue_float fl x rest
    · cases negative <;> cases h <;> rfl
    · cases h; rfl
  | arr => cases h
  | table => cases h
  | other => cases h

end HsUploader.SinkSwitch
