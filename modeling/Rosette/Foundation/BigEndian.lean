import Mathlib.Data.Nat.Size
import Mathlib.Tactic

/-! # Bytes as a number

The number that a list of bytes spells, the first byte first, and how many bits it takes.
-/
namespace Rosette.Foundation

def bigEndian : List UInt8 → ℕ
  | [] => 0
  | b :: bytes => b.toNat * 2 ^ (8 * bytes.length) + bigEndian bytes

theorem bigEndian_lt (bytes : List UInt8) : bigEndian bytes < 2 ^ (8 * bytes.length) := by
  induction bytes with
  | nil => simp [bigEndian]
  | cons b bytes ih =>
    have hb : b.toNat + 1 ≤ 2 ^ 8 := b.toNat_lt
    calc b.toNat * 2 ^ (8 * bytes.length) + bigEndian bytes
        < b.toNat * 2 ^ (8 * bytes.length) + 2 ^ (8 * bytes.length) := Nat.add_lt_add_left ih _
      _ = (b.toNat + 1) * 2 ^ (8 * bytes.length) := (Nat.add_one_mul _ _).symm
      _ ≤ 2 ^ 8 * 2 ^ (8 * bytes.length) := Nat.mul_le_mul_right _ hb
      _ = 2 ^ (8 * (b :: bytes).length) := by
          rw [← Nat.pow_add, List.length_cons, Nat.mul_succ, Nat.add_comm]

theorem size_bigEndian_le (bytes : List UInt8) : (bigEndian bytes).size ≤ 8 * bytes.length :=
  Nat.size_le.mpr (bigEndian_lt bytes)

theorem bigEndian_cons_zero (bytes : List UInt8) : bigEndian (0 :: bytes) = bigEndian bytes := by
  simp [bigEndian]

theorem size_mul_pow_add {m r n : ℕ} (hm : m ≠ 0) (hr : r < 2 ^ n) :
    (m * 2 ^ n + r).size = m.size + n := by
  apply Nat.le_antisymm
  · rw [Nat.size_le]
    have hlt : m + 1 ≤ 2 ^ m.size := Nat.lt_size_self m
    calc m * 2 ^ n + r < m * 2 ^ n + 2 ^ n := Nat.add_lt_add_left hr _
      _ = (m + 1) * 2 ^ n := (Nat.add_one_mul _ _).symm
      _ ≤ 2 ^ m.size * 2 ^ n := Nat.mul_le_mul_right _ hlt
      _ = 2 ^ (m.size + n) := (Nat.pow_add _ _ _).symm
  · rw [← Nat.size_shiftLeft hm, Nat.shiftLeft_eq]
    exact Nat.size_le_size (Nat.le_add_right _ _)

theorem size_bigEndian_cons {b : UInt8} (hb : b ≠ 0) (bytes : List UInt8) :
    (bigEndian (b :: bytes)).size = b.toNat.size + 8 * bytes.length := by
  have hne : b.toNat ≠ 0 := fun h => hb (UInt8.toNat_inj.mp h)
  exact size_mul_pow_add hne (bigEndian_lt bytes)

end Rosette.Foundation
