import Mathlib.Algebra.Group.Nat.Defs
import Mathlib.Data.List.Basic
import Mathlib.Tactic.Common

/-!
# Integers as little-endian bytes

`encode k n` are the `k` low bytes of `n`, lowest first.  Anything that fits
into them is read back.
-/

namespace LittleEndian

def encode : ℕ → ℕ → List UInt8
  | 0, _ => []
  | k + 1, n => UInt8.ofNat (n % 256) :: encode k (n / 256)

def decode : List UInt8 → ℕ
  | [] => 0
  | b :: rest => b.toNat + 256 * decode rest

@[simp]
theorem length_encode (k n : ℕ) : (encode k n).length = k := by
  induction k generalizing n with
  | zero => rfl
  | succ k ih => simp [encode, ih]

theorem decode_encode {k n : ℕ} (h : n < 256 ^ k) :
    decode (encode k n) = n := by
  induction k generalizing n with
  | zero =>
      have hzero : n = 0 := by simpa using h
      simp [hzero, encode, decode]
  | succ k ih =>
      have hdiv : n / 256 < 256 ^ k := by
        rw [Nat.div_lt_iff_lt_mul (by decide), ← Nat.pow_succ]
        exact h
      have hbyte : (UInt8.ofNat (n % 256)).toNat = n % 256 := by
        simp
      rw [encode, decode, ih hdiv, hbyte]
      omega

theorem encode_decode (bytes : List UInt8) :
    encode bytes.length (decode bytes) = bytes := by
  induction bytes with
  | nil => rfl
  | cons b rest ih =>
      have hlt : b.toNat < 256 := b.toNat_lt
      have hbyte : (b.toNat + 256 * decode rest) % 256 = b.toNat := by omega
      have hrest : (b.toNat + 256 * decode rest) / 256 = decode rest := by omega
      rw [List.length_cons, decode, encode, hbyte, hrest, ih, UInt8.ofNat_toNat]

theorem decode_lt (bytes : List UInt8) : decode bytes < 256 ^ bytes.length := by
  induction bytes with
  | nil => exact Nat.one_pos
  | cons b rest ih =>
      have hlt : b.toNat < 256 := b.toNat_lt
      rw [List.length_cons, decode, Nat.pow_succ]
      omega

/-- A machine integer of `w` bits in `k` bytes. -/
theorem ofNat_decode_encode {w k : ℕ} (value : BitVec w) (h : w ≤ 8 * k) :
    BitVec.ofNat w (decode (encode k value.toNat)) = value := by
  have hlt : value.toNat < 256 ^ k := by
    calc
      value.toNat < 2 ^ w := value.isLt
      _ ≤ 2 ^ (8 * k) := Nat.pow_le_pow_right (by decide) h
      _ = 256 ^ k := by rw [Nat.pow_mul]
  rw [decode_encode hlt, BitVec.ofNat_toNat, BitVec.setWidth_eq]

theorem encode_toNat_ofNat {w : ℕ} {bytes : List UInt8}
    (h : 8 * bytes.length ≤ w) :
    encode bytes.length (BitVec.ofNat w (decode bytes)).toNat = bytes := by
  have hlt : decode bytes < 2 ^ w := by
    calc
      decode bytes < 256 ^ bytes.length := decode_lt bytes
      _ = 2 ^ (8 * bytes.length) := by rw [Nat.pow_mul]
      _ ≤ 2 ^ w := Nat.pow_le_pow_right (by decide) h
  rw [BitVec.toNat_ofNat, Nat.mod_eq_of_lt hlt, encode_decode]

end LittleEndian
