import Rosette.Foundation.BigEndian
import Rosette.Proto.Wire

/-! # The proof of work as a threshold

The count of leading zero bits is compared with the size of the number that the digest spells. The
counter is one byte wide: where overflow is checked the count fails, where it is not it wraps.
-/
namespace Rosette.Proto
open Foundation

/-- The count where overflow is not checked. -/
def leadingZeroBitsWrapping (count : UInt8) : List UInt8 → UInt8
  | [] => count
  | b :: bytes =>
    if b = 0 then leadingZeroBitsWrapping (count + 8) bytes
    else count + UInt8.ofNat (byteLeadingZeros b)

theorem byteLeadingZeros_eq {b : UInt8} (hb : b ≠ 0) : byteLeadingZeros b = 8 - b.toNat.size := by
  have hbyte : ∀ n : Fin 256, n.val ≠ 0 → 7 - n.val.log2 = 8 - n.val.size := by decide +kernel
  exact hbyte ⟨b.toNat, b.toNat_lt⟩ fun h => hb (UInt8.toNat_inj.mp h)

/-- The bits that are left of the number, whatever its bytes. -/
theorem leadingZeroBitsFrom_eq {count : ℕ} (hcount : count < 256) (bytes : List UInt8) :
    leadingZeroBitsFrom count bytes =
      if count + (8 * bytes.length - (bigEndian bytes).size) < 256 then
        some (count + (8 * bytes.length - (bigEndian bytes).size))
      else none := by
  induction bytes generalizing count with
  | nil => simp [leadingZeroBitsFrom, hcount]
  | cons b bytes ih =>
    rw [leadingZeroBitsFrom, List.length_cons]
    by_cases hb : b = 0
    · have hsize := size_bigEndian_le bytes
      rw [if_pos hb, hb, bigEndian_cons_zero,
        show count + (8 * (bytes.length + 1) - (bigEndian bytes).size) =
          count + 8 + (8 * bytes.length - (bigEndian bytes).size) by omega]
      split_ifs with hroom hfits
      · rw [ih hroom, if_pos hfits]
      · rw [ih hroom, if_neg hfits]
      · omega
      · rfl
    · rw [if_neg hb, byteLeadingZeros_eq hb, size_bigEndian_cons hb,
        show 8 * (bytes.length + 1) - (b.toNat.size + 8 * bytes.length) = 8 - b.toNat.size by
          omega]

theorem leadingZeroBitsWrapping_eq (count : UInt8) (bytes : List UInt8) :
    leadingZeroBitsWrapping count bytes =
      count + UInt8.ofNat (8 * bytes.length - (bigEndian bytes).size) := by
  induction bytes generalizing count with
  | nil => simp [leadingZeroBitsWrapping]
  | cons b bytes ih =>
    rw [leadingZeroBitsWrapping, List.length_cons]
    by_cases hb : b = 0
    · have hsize := size_bigEndian_le bytes
      rw [if_pos hb, ih, hb, bigEndian_cons_zero,
        show 8 * (bytes.length + 1) - (bigEndian bytes).size =
          8 + (8 * bytes.length - (bigEndian bytes).size) by omega, UInt8.ofNat_add,
            UInt8.add_assoc]
      rfl
    · rw [if_neg hb, byteLeadingZeros_eq hb, size_bigEndian_cons hb,
        show 8 * (bytes.length + 1) - (b.toNat.size + 8 * bytes.length) = 8 - b.toNat.size by
          omega]

theorem leadingZeroBits_digest {digest : Bytes 32} (hne : bigEndian digest.toList ≠ 0) :
    leadingZeroBits digest.toList = some (256 - (bigEndian digest.toList).size) := by
  have hpos := Nat.size_pos.mpr (Nat.pos_of_ne_zero hne)
  rw [leadingZeroBits, leadingZeroBitsFrom_eq (by norm_num), digest.toList_length,
    if_pos (by omega), Nat.zero_add]

theorem le_zeros_iff (digest : Bytes 32) {k : ℕ} (hk : k ≤ 255) :
    k ≤ 256 - (bigEndian digest.toList).size ↔ bigEndian digest.toList < 2 ^ (256 - k) := by
  have hle := size_bigEndian_le digest.toList
  rw [digest.toList_length] at hle
  rw [← Nat.size_le]
  omega

/-- What the relay hashes to check a solution. -/
def PowChallenge.digest (c : Crypto) (p : PowChallenge) (nonce : UInt64) : Bytes 32 :=
  c.sha256 (p.challenge.toList ++ Codec.leBytes 8 nonce.toNat)

theorem verify_eq_true_iff (c : Crypto) {p : PowChallenge} (hp : p.difficulty ≤ 255)
    {solution : PowSolution} (hne : bigEndian (p.digest c solution.nonce).toList ≠ 0) :
    p.verify c solution = some true ↔ solution.challenge = p.challenge ∧
      bigEndian (p.digest c solution.nonce).toList < 2 ^ (256 - p.difficulty) := by
  rw [← le_zeros_iff _ hp, PowChallenge.verify]
  split_ifs with hother
  · simp [hother]
  · rw [← PowChallenge.digest, leadingZeroBits_digest hne]
    simp [not_not.mp hother]

theorem leadingZeroBits_eq_none (digest : Bytes 32) :
    leadingZeroBits digest.toList = none ↔ bigEndian digest.toList = 0 := by
  rw [leadingZeroBits, leadingZeroBitsFrom_eq (by norm_num), digest.toList_length,
    ite_eq_right_iff, ← Nat.size_eq_zero]
  simp only [reduceCtorEq, imp_false]
  omega

/-- The counter overflows at the zero digest and at no other. Any other has at least as many leading
zero bits as are asked for exactly when it is below the threshold, and the counter holds the number,
overflow checked or not. -/
theorem leading_zero_bits_is_threshold (digest : Bytes 32) (k : ℕ) (hk : k ≤ 255) :
    (leadingZeroBits digest.toList = none ↔ bigEndian digest.toList = 0) ∧
    (bigEndian digest.toList ≠ 0 → ∃ zeros, leadingZeroBits digest.toList = some zeros ∧
      (leadingZeroBitsWrapping 0 digest.toList).toNat = zeros ∧
      (k ≤ zeros ↔ bigEndian digest.toList < 2 ^ (256 - k))) := by
  refine ⟨leadingZeroBits_eq_none digest, fun hne => ?_⟩
  have hpos := Nat.size_pos.mpr (Nat.pos_of_ne_zero hne)
  refine ⟨_, leadingZeroBits_digest hne, ?_, le_zeros_iff digest hk⟩
  rw [leadingZeroBitsWrapping_eq, digest.toList_length, UInt8.zero_add]
  exact UInt8.toNat_ofNat_of_lt (show 8 * 32 - _ < 256 by omega)

theorem leading_zero_bits_is_threshold_one :
    bigEndian (.fill 1 : Bytes 32).toList ≠ 0 ∧
      bigEndian (.fill 1 : Bytes 32).toList < 2 ^ (256 - 7) := by
  have hne : bigEndian (.fill 1 : Bytes 32).toList ≠ 0 := by decide +kernel
  obtain ⟨zeros, hzeros, -, hiff⟩ :=
    (leading_zero_bits_is_threshold (.fill 1) 7 (by norm_num)).2 hne
  refine ⟨hne, hiff.mp ?_⟩
  exact (Option.some.inj hzeros).le

/-- The smallest digest: the counter overflows, or wraps and the test fails. -/
theorem zero_digest_overflows : ∃ digest : Bytes 32,
    leadingZeroBits digest.toList = none ∧ bigEndian digest.toList < 2 ^ (256 - 1) ∧
      ¬ 1 ≤ (leadingZeroBitsWrapping 0 digest.toList).toNat :=
  ⟨.fill 0, by decide +kernel, by decide +kernel, by decide +kernel⟩

end Rosette.Proto
