import Mathlib.Data.List.DropRight
import HsUploader.Json

/-!
# Byte strings and decimal cursors

A cursor and a commit token are opaque bytes to everything but the source that made them.  The
sources of the queue write them as ASCII decimal integers and read them back with Python's `int`,
which accepts more than was written: surrounding white space, a sign, leading zeros and single
underscores between digits.
-/

set_option autoImplicit false

namespace HsUploader

/-- A Python `bytes` value. -/
abbrev Bytes := List UInt8

namespace Bytes

/-- The bytes of an ASCII text. -/
def ofAscii (cs : List Char) : Bytes := cs.map fun c ↦ UInt8.ofNat c.toNat

/-- `blob.decode("ascii")`, `none` at a byte above 127. -/
def decodeAscii (b : Bytes) : Option (List Char) :=
  if b.all (· < 128) then some (b.map fun x ↦ Char.ofNat x.toNat) else none

/-- Two hexadecimal digits. -/
def hex2 (x : UInt8) : String :=
  String.ofList [(Nat.digitChar (x.toNat / 16)), (Nat.digitChar (x.toNat % 16))]

/-- `repr(blob)`. -/
def repr (b : Bytes) : String :=
  let quote : Char := if b.contains 39 && !b.contains 34 then '"' else '\''
  let esc (x : UInt8) : String :=
    let c := Char.ofNat x.toNat
    if c = '\\' || c = quote then String.ofList ['\\', c]
    else if c = '\t' then "\\t" else if c = '\n' then "\\n" else if c = '\r' then "\\r"
    else if 32 ≤ x && x < 127 then String.ofList [c]
    else "\\x" ++ hex2 x
  "b" ++ String.ofList [quote] ++ String.join (b.map esc) ++ String.ofList [quote]

end Bytes

/-- The ASCII characters `int()` strips from both ends of its argument. -/
def isPySpace (c : Char) : Bool :=
  c = ' ' || (9 ≤ c.toNat && c.toNat ≤ 13) || (28 ≤ c.toNat && c.toNat ≤ 31)

/-- The digits of an integer literal: `prev` says that the last character was a digit, `acc` is the
value so far. -/
def readDigits : ℕ → Bool → List Char → Option ℕ
  | acc, prev, [] => if prev then some acc else none
  | acc, prev, c :: cs =>
    if c.isDigit then readDigits (acc * 10 + (c.toNat - 48)) true cs
    else if c = '_' && prev then readDigits acc false cs
    else none

/-- `int(text)`, `none` where it raises `ValueError`. -/
def pyInt (text : List Char) : Option ℤ :=
  match (text.dropWhile isPySpace).rdropWhile isPySpace with
  | '-' :: cs => (readDigits 0 false cs).map fun n ↦ -(n : ℤ)
  | '+' :: cs => (readDigits 0 false cs).map fun n ↦ (n : ℤ)
  | cs => (readDigits 0 false cs).map fun n ↦ (n : ℤ)

/-- `int(blob.decode("ascii"))`. -/
def Bytes.toInt (b : Bytes) : Option ℤ := b.decodeAscii.bind pyInt

/-- `str(n)`. -/
def pyStr : ℤ → List Char
  | .ofNat n => Nat.toDigits 10 n
  | .negSucc n => '-' :: Nat.toDigits 10 (n + 1)

/-- `str(n).encode("ascii")`. -/
def Bytes.ofInt (n : ℤ) : Bytes := .ofAscii (pyStr n)

/-! ## Reading back what was written -/

theorem readDigits_of_isDigit {cs : List Char} (h : ∀ c ∈ cs, c.isDigit) (acc : ℕ) :
    readDigits acc true cs = some (Nat.ofDigitChars 10 cs acc) := by
  induction cs generalizing acc with
  | nil => rfl
  | cons c cs ih =>
    have hc : c.isDigit := h c List.mem_cons_self
    rw [readDigits, if_pos hc, ih fun d hd ↦ h d (List.mem_cons_of_mem c hd)]
    rw [Nat.ofDigitChars_cons, Nat.mul_comm]
    rfl

theorem readDigits_toDigits (n : ℕ) : readDigits 0 false (Nat.toDigits 10 n) = some n := by
  have hd : ∀ c ∈ Nat.toDigits 10 n, c.isDigit := fun c hc ↦
    Nat.isDigit_of_mem_toDigits (by omega) (by omega) hc
  obtain ⟨c, cs, hcs⟩ := List.exists_cons_of_ne_nil (Nat.toDigits_ne_nil : Nat.toDigits 10 n ≠ [])
  have h := readDigits_of_isDigit hd 0
  rw [Nat.ofDigitChars_ten_toDigits] at h
  rw [hcs] at h hd ⊢
  rw [readDigits, if_pos (hd c List.mem_cons_self)] at h ⊢
  exact h

/-- The characters `str` writes an integer with. -/
theorem isDigit_or_eq_of_mem_pyStr {n : ℤ} {c : Char} (h : c ∈ pyStr n) :
    c.isDigit ∨ c = '-' := by
  cases n with
  | ofNat n => exact .inl (Nat.isDigit_of_mem_toDigits (by omega) (by omega) h)
  | negSucc n =>
    rcases List.mem_cons.mp h with rfl | h
    · exact .inr rfl
    · exact .inl (Nat.isDigit_of_mem_toDigits (by omega) (by omega) h)

theorem toNat_of_isDigit {c : Char} (h : c.isDigit) : 48 ≤ c.toNat ∧ c.toNat ≤ 57 := by
  simp only [Char.isDigit, Bool.and_eq_true, decide_eq_true_eq] at h
  exact ⟨UInt32.le_iff_toNat_le.mp h.1, UInt32.le_iff_toNat_le.mp h.2⟩

theorem not_isPySpace_of_mem_pyStr {n : ℤ} {c : Char} (h : c ∈ pyStr n) : isPySpace c = false := by
  rcases isDigit_or_eq_of_mem_pyStr h with h | rfl
  · have := toNat_of_isDigit h
    have hne : c ≠ ' ' := fun hc ↦ by subst hc; simp at this
    simp [isPySpace, hne]
    omega
  · decide

theorem toNat_lt_of_mem_pyStr {n : ℤ} {c : Char} (h : c ∈ pyStr n) : c.toNat < 128 := by
  rcases isDigit_or_eq_of_mem_pyStr h with h | rfl
  · have := toNat_of_isDigit h
    omega
  · decide

theorem pyInt_pyStr (n : ℤ) : pyInt (pyStr n) = some n := by
  have hl : (pyStr n).dropWhile isPySpace = pyStr n := by
    rw [List.dropWhile_eq_self_iff]
    intro hl
    simpa using not_isPySpace_of_mem_pyStr (List.getElem_mem hl)
  have hr : (pyStr n).rdropWhile isPySpace = pyStr n := by
    rw [List.rdropWhile_eq_self_iff]
    intro hl
    simpa using not_isPySpace_of_mem_pyStr (List.getLast_mem hl)
  rw [pyInt, hl, hr]
  cases n with
  | ofNat n =>
    have hd : ∀ c ∈ Nat.toDigits 10 n, c.isDigit := fun c hc ↦
      Nat.isDigit_of_mem_toDigits (by omega) (by omega) hc
    have h := readDigits_toDigits n
    rw [pyStr]
    split
    · rename_i cs hcs
      rw [hcs] at hd
      exact absurd (hd '-' List.mem_cons_self) (by decide)
    · rename_i cs hcs
      rw [hcs] at hd
      exact absurd (hd '+' List.mem_cons_self) (by decide)
    · rw [h]
      rfl
  | negSucc n =>
    rw [pyStr]
    simp only [readDigits_toDigits]
    rfl

theorem Bytes.decodeAscii_ofAscii {cs : List Char} (h : ∀ c ∈ cs, c.toNat < 128) :
    (Bytes.ofAscii cs).decodeAscii = some cs := by
  have hlt : (Bytes.ofAscii cs).all (· < 128) = true := by
    rw [List.all_eq_true]
    intro x hx
    obtain ⟨c, hc, rfl⟩ := List.mem_map.mp hx
    have := h c hc
    rw [decide_eq_true_eq, UInt8.lt_iff_toNat_lt, UInt8.toNat_ofNat']
    simp
    omega
  rw [decodeAscii, if_pos hlt, ofAscii, List.map_map]
  congr 1
  refine (List.map_congr_left fun c hc ↦ ?_).trans (List.map_id cs)
  have := h c hc
  simp only [Function.comp_apply, UInt8.toNat_ofNat', id_eq]
  rw [Nat.mod_eq_of_lt (by omega), Char.ofNat_toNat]

/-- **A written cursor reads back.** -/
@[simp] theorem Bytes.toInt_ofInt (n : ℤ) : (Bytes.ofInt n).toInt = some n := by
  rw [toInt, ofInt, decodeAscii_ofAscii fun c hc ↦ toNat_lt_of_mem_pyStr hc, Option.bind_some,
    pyInt_pyStr]

@[simp] theorem Bytes.ofInt_ne_nil (n : ℤ) : Bytes.ofInt n ≠ [] := by
  intro h
  have := Bytes.toInt_ofInt n
  rw [h, show Bytes.toInt [] = none from rfl] at this
  exact absurd this (by simp)

end HsUploader
