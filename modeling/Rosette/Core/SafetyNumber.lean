import Rosette.Core.Session

/-! # The safety number

Two people who compare the digits on their phones compare the signature keys of all members.
The keys are sorted, each is preceded by its length, and the hash of the whole is shown as
groups of digits.
-/
namespace Rosette.Core
open Foundation Proto List

def lengthBytes (n : ℕ) : List UInt8 := (Codec.leBytes 4 n).reverse

def lengthed (key : List UInt8) : List UInt8 := lengthBytes key.length ++ key

def hashedKeys (keys : List (List UInt8)) : List UInt8 :=
  (keys.mergeSort (fun a b => decide (a ≤ b))).flatMap lengthed

def chunks : List UInt8 → List (List UInt8)
  | a :: b :: c :: d :: rest => [a, b, c, d] :: chunks rest
  | [] => []
  | rest => [rest]

/-- A number with zeros in front, up to five digits. -/
def fiveDigits (n : ℕ) : String :=
  String.ofList (replicate (5 - (Nat.toDigits 10 n).length) '0' ++ Nat.toDigits 10 n)

def digitGroup (chunk : List UInt8) : String :=
  let n : UInt32 := chunk.foldl (fun (acc : UInt32) b => (acc <<< 8) ||| b.toUInt32) 0
  fiveDigits (n % 100000).toNat

def renderDigest (digest : Bytes 32) : String :=
  " ".intercalate ((chunks digest.toList).map digitGroup)

/-- The safety number of a session, by the signature keys of the group's members in the order in
which they are listed. -/
def ChatSession.safetyNumber {mls : OpenMls} (c : Crypto)
    (signatureKeys : mls.Group → List (List UInt8)) (s : ChatSession mls) :
    Except SessionError String :=
  match s.group with
  | none => .error .noGroup
  | some g => .ok (renderDigest (c.sha256 (hashedKeys (signatureKeys g))))

/-! ## The keys -/

theorem lengthBytes_length (n : ℕ) : (lengthBytes n).length = 4 := by
  rw [lengthBytes, length_reverse, Codec.leBytes_length]

variable {n : ℕ} {keys keys' : List (List UInt8)}

theorem lengthBytes_inj {m : ℕ} (hm : m < 2 ^ 32) (hn : n < 2 ^ 32)
    (h : lengthBytes m = lengthBytes n) : m = n := by
  have hle := reverse_injective h
  rw [← Codec.leValue_leBytes 4 m hm, hle, Codec.leValue_leBytes 4 n hn]

theorem lengthed_ne_nil (key : List UInt8) : lengthed key ≠ [] := by
  intro h
  have hlen := congrArg length h
  rw [lengthed, length_append, lengthBytes_length] at hlen
  simp only [length_nil] at hlen
  omega

theorem lengthed_append_inj (a b r s : List UInt8) (ha : a.length < 2 ^ 32) (hb : b.length < 2 ^ 32)
    (h : lengthed a ++ r = lengthed b ++ s) : a = b ∧ r = s := by
  rw [lengthed, lengthed, append_assoc, append_assoc] at h
  obtain ⟨hlen, hrest⟩ := append_inj h ((lengthBytes_length _).trans (lengthBytes_length _).symm)
  exact append_inj hrest (lengthBytes_inj ha hb hlen)

theorem mergeSort_eq_of_perm (h : keys.Perm keys') :
    keys.mergeSort (fun a b => decide (a ≤ b)) = keys'.mergeSort (fun a b => decide (a ≤ b)) := by
  have htrans : ∀ a b c : List UInt8, decide (a ≤ b) = true → decide (b ≤ c) = true →
      decide (a ≤ c) = true := by
    intro a b c hab hbc
    exact decide_eq_true (List.le_trans (of_decide_eq_true hab) (of_decide_eq_true hbc))
  have htotal : ∀ a b : List UInt8, (decide (a ≤ b) || decide (b ≤ a)) = true := by
    intro a b
    rw [Bool.or_eq_true, decide_eq_true_iff, decide_eq_true_iff]
    exact List.le_total a b
  refine Perm.eq_of_pairwise (fun a b _ _ hab hba => ?_)
    (pairwise_mergeSort htrans htotal keys) (pairwise_mergeSort htrans htotal keys') ?_
  · exact List.le_antisymm (of_decide_eq_true hab) (of_decide_eq_true hba)
  · exact (mergeSort_perm _ _).trans (h.trans (mergeSort_perm _ _).symm)

theorem hashedKeys_eq_of_perm (h : keys.Perm keys') : hashedKeys keys = hashedKeys keys' := by
  rw [hashedKeys, hashedKeys, mergeSort_eq_of_perm h]

theorem perm_of_hashedKeys_eq (hk : ∀ key ∈ keys, key.length < 2 ^ 32)
    (hk' : ∀ key ∈ keys', key.length < 2 ^ 32) (h : hashedKeys keys = hashedKeys keys') :
    keys.Perm keys' := by
  have hsorted := flatMap_inj lengthed_ne_nil lengthed_append_inj
    (fun key hkey => hk key ((mergeSort_perm _ _).mem_iff.mp hkey))
    (fun key hkey => hk' key ((mergeSort_perm _ _).mem_iff.mp hkey)) h
  exact (mergeSort_perm keys _).symm.trans (hsorted ▸ mergeSort_perm keys' _)

/-! ## The digits -/

theorem length_chunks (n : ℕ) {bytes : List UInt8} (h : bytes.length = 4 * n) :
    (chunks bytes).length = n := by
  induction n generalizing bytes with
  | zero =>
    obtain rfl := length_eq_zero_iff.mp h
    rfl
  | succ n ih =>
    match bytes, h with
    | a :: b :: c :: d :: rest, h =>
      rw [chunks, length_cons, ih (by simp only [length_cons] at h; omega)]

theorem fiveDigits_digits (h : n < 100000) :
    (fiveDigits n).toList.length = 5 ∧ ∀ c ∈ (fiveDigits n).toList, c.isDigit = true := by
  have hlen : (Nat.toDigits 10 n).length ≤ 5 := Nat.toDigits_length 10 n 5 (by omega) h
  rw [fiveDigits, String.toList_ofList]
  refine ⟨?_, fun c hc => ?_⟩
  · rw [length_append, length_replicate]
    omega
  · rcases mem_append.mp hc with hc | hc
    · rw [eq_of_mem_replicate hc]
      rfl
    · exact Nat.isDigit_of_mem_toDigits (by omega) (by omega) hc

theorem digitGroup_digits (chunk : List UInt8) : (digitGroup chunk).toList.length = 5 ∧
    ∀ c ∈ (digitGroup chunk).toList, c.isDigit = true := by
  refine fiveDigits_digits ?_
  exact Nat.mod_lt _ (by decide)

theorem ChatSession.safetyNumber_eq {mls : OpenMls} {c : Crypto} {s : ChatSession mls}
    {signatureKeys : mls.Group → List (List UInt8)} {g : mls.Group} (hg : s.group = some g) :
    s.safetyNumber c signatureKeys =
      .ok (renderDigest (c.sha256 (hashedKeys (signatureKeys g)))) := by
  rw [safetyNumber, hg]

/-- What is hashed depends on the keys, not on their order, and tells different keys apart as
long as their lengths fit. The digits shown are eight groups of five. A session in a group shows
the digits of its members' keys, as does any other whose group has the same keys. -/
theorem safety_number_depends_on_keys :
    (∀ keys keys' : List (List UInt8), keys.Perm keys' → hashedKeys keys = hashedKeys keys') ∧
    (∀ keys keys' : List (List UInt8), (∀ key ∈ keys, key.length < 2 ^ 32) →
      (∀ key ∈ keys', key.length < 2 ^ 32) → hashedKeys keys = hashedKeys keys' →
      keys.Perm keys') ∧
    (∀ digest : Bytes 32, ∃ groups : List String, renderDigest digest = " ".intercalate groups ∧
      groups.length = 8 ∧ ∀ group ∈ groups, group.toList.length = 5 ∧
        ∀ c ∈ group.toList, c.isDigit = true) ∧
    ∀ (mls : OpenMls) (c : Crypto) (signatureKeys : mls.Group → List (List UInt8))
      (s s' : ChatSession mls) (g g' : mls.Group), s.group = some g → s'.group = some g' →
      s.safetyNumber c signatureKeys =
        .ok (renderDigest (c.sha256 (hashedKeys (signatureKeys g)))) ∧
      ((signatureKeys g).Perm (signatureKeys g') →
        s.safetyNumber c signatureKeys = s'.safetyNumber c signatureKeys) := by
  refine ⟨fun _ _ => hashedKeys_eq_of_perm, fun _ _ => perm_of_hashedKeys_eq, fun digest => ?_,
    fun mls c signatureKeys s s' g g' hg hg' =>
      ⟨ChatSession.safetyNumber_eq hg, fun hperm => ?_⟩⟩
  rotate_left
  · rw [ChatSession.safetyNumber_eq hg, ChatSession.safetyNumber_eq hg',
      hashedKeys_eq_of_perm hperm]
  refine ⟨(chunks digest.toList).map digitGroup, rfl, ?_, ?_⟩
  · rw [length_map]
    exact length_chunks 8 digest.toList_length
  · intro group hgroup
    obtain ⟨chunk, -, rfl⟩ := mem_map.mp hgroup
    exact digitGroup_digits chunk

/-- Bytes cannot be moved from one key to the next. -/
theorem safety_number_depends_on_keys_moved :
    hashedKeys [[1], [2, 3]] = hashedKeys [[2, 3], [1]] ∧
    hashedKeys [[1], [2, 3]] ≠ hashedKeys [[1, 2], [3]] := by
  obtain ⟨hperm, htells, -⟩ := safety_number_depends_on_keys
  refine ⟨hperm _ _ (Perm.swap _ _ _), fun h => ?_⟩
  exact absurd (htells _ _ (by decide) (by decide) h) (by decide)

end Rosette.Core
