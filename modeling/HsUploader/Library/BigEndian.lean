import Mathlib.Algebra.Group.Nat.Defs
import Mathlib.Data.Nat.Notation
import Mathlib.Logic.Basic

/-!
# Numbers in big-endian bytes

`bigEndian w n` is the number `n` in `w` bytes, the most significant one first, and `ofBigEndian`
reads such bytes back.  A number below `256 ^ w` is what its bytes read as.
-/

set_option autoImplicit false

/-- `n` in `w` bytes, the most significant first. -/
def bigEndian : ℕ → ℕ → List UInt8
  | 0, _ => []
  | w + 1, n => bigEndian w (n / 256) ++ [UInt8.ofNat n]

/-- The number the bytes stand for. -/
def ofBigEndian (b : List UInt8) : ℕ := b.foldl (fun n x ↦ 256 * n + x.toNat) 0

@[simp] theorem length_bigEndian (w n : ℕ) : (bigEndian w n).length = w := by
  induction w generalizing n with
  | zero => rfl
  | succ w ih => simp [bigEndian, ih]

@[simp] theorem ofBigEndian_nil : ofBigEndian [] = 0 := rfl

theorem ofBigEndian_concat (b : List UInt8) (x : UInt8) :
    ofBigEndian (b ++ [x]) = 256 * ofBigEndian b + x.toNat := by
  simp [ofBigEndian]

@[simp] theorem ofBigEndian_singleton (x : UInt8) : ofBigEndian [x] = x.toNat := by
  simp [ofBigEndian]

/-- The bytes of a number read back as its remainder. -/
theorem ofBigEndian_bigEndian_mod (w n : ℕ) : ofBigEndian (bigEndian w n) = n % 256 ^ w := by
  induction w generalizing n with
  | zero => simp [bigEndian, Nat.mod_one]
  | succ w ih =>
    have hbyte : (UInt8.ofNat n).toNat = n % 256 := UInt8.toNat_ofNat'
    rw [bigEndian, ofBigEndian_concat, ih, hbyte, Nat.pow_succ', Nat.mod_mul, Nat.add_comm]

theorem ofBigEndian_bigEndian {w n : ℕ} (h : n < 256 ^ w) : ofBigEndian (bigEndian w n) = n := by
  rw [ofBigEndian_bigEndian_mod, Nat.mod_eq_of_lt h]
