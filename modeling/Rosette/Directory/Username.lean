import Mathlib.Tactic

/-! # Nicknames and discriminators

A handle is a nickname, a hash sign and a discriminator written with the number of
digits that the nickname has come to need.
-/
namespace Rosette.Directory
open List

abbrev Text := List Char

def byteLen (s : Text) : ℕ := (s.map Char.utf8Size).sum

def minNicknameLen : ℕ := 2
def maxNicknameLen : ℕ := 32
def minDiscriminatorWidth : ℕ := 2
def maxDiscriminatorWidth : ℕ := 9

inductive UsernameError where
  | badLength
  | badChar (c : Char)
  | discriminatorSpaceExhausted
deriving DecidableEq

def isAllowedChar (c : Char) : Bool := c.isAlphanum || c == '_' || c == '-' || c == '.'

def validateNickname (nickname : Text) : Except UsernameError Unit :=
  if byteLen nickname < minNicknameLen || maxNicknameLen < byteLen nickname then .error .badLength
  else
    match nickname.find? (fun c => !isAllowedChar c) with
    | some bad => .error (.badChar bad)
    | none => .ok ()

/-- Decimal, padded with zeros on the left. -/
def renderDiscriminator (value width : ℕ) : Text :=
  replicate (width - (Nat.toDigits 10 value).length) '0' ++ Nat.toDigits 10 value

def formatHandle (nickname : Text) (discriminator width : ℕ) : Text :=
  nickname ++ '#' :: renderDiscriminator discriminator width

def slotCount (width : ℕ) : ℕ := min (10 ^ width) (2 ^ 32 - 1) - 1

def firstFreeSlot (taken : List ℕ) (width : ℕ) : Except UsernameError ℕ :=
  match (range' 1 (slotCount width)).find? (fun v => v ∉ taken) with
  | some slot => .ok slot
  | none => .error .discriminatorSpaceExhausted

variable {width a b slot value : ℕ} {taken : List ℕ} {nickname : Text}

theorem slotCount_eq (h : width ≤ maxDiscriminatorWidth) : slotCount width = 10 ^ width - 1 := by
  have hpow : 10 ^ width ≤ 10 ^ 9 := Nat.pow_le_pow_right (by norm_num) h
  unfold slotCount
  omega

theorem slotCount_mono (h : a ≤ b) : slotCount a ≤ slotCount b := by
  have hpow : 10 ^ a ≤ 10 ^ b := Nat.pow_le_pow_right (by norm_num) h
  unfold slotCount
  omega

theorem firstFreeSlot_ok (h : firstFreeSlot taken width = .ok slot) :
    1 ≤ slot ∧ slot ≤ slotCount width ∧ slot ∉ taken := by
  unfold firstFreeSlot at h
  split at h
  · rename_i s hs
    cases h
    have hmem := mem_of_find?_eq_some hs
    have hfree := find?_some hs
    rw [mem_range'_1] at hmem
    exact ⟨hmem.1, by omega, by simpa using hfree⟩
  · cases h

theorem firstFreeSlot_error {e : UsernameError} (h : firstFreeSlot taken width = .error e)
    (hpos : 1 ≤ slot) (hle : slot ≤ slotCount width) : slot ∈ taken := by
  unfold firstFreeSlot at h
  split at h
  · cases h
  · rename_i hnone
    have := find?_eq_none.mp hnone slot (mem_range'_1.mpr ⟨hpos, by omega⟩)
    simpa using this

theorem validateNickname_ok (h : validateNickname nickname = .ok ()) :
    ∀ c ∈ nickname, isAllowedChar c = true := by
  unfold validateNickname at h
  split at h
  · cases h
  · split at h
    · cases h
    · rename_i hnone
      simpa using hnone

theorem hash_notMem (h : validateNickname nickname = .ok ()) : '#' ∉ nickname := by
  intro hmem
  have := validateNickname_ok h '#' hmem
  revert this
  decide

theorem renderDiscriminator_length (hpos : 1 ≤ width) (h : value < 10 ^ width) :
    (renderDiscriminator value width).length = width := by
  have hlen : (Nat.toDigits 10 value).length ≤ width := Nat.toDigits_length 10 value width hpos h
  simp only [renderDiscriminator, length_append, length_replicate]
  omega

theorem isDigit_of_mem_render {c : Char} (h : c ∈ renderDiscriminator value width) :
    c.isDigit = true := by
  rcases mem_append.mp h with h | h
  · rw [eq_of_mem_replicate h]
    decide
  · exact Nat.isDigit_of_mem_toDigits (by norm_num) le_rfl h

theorem ofDigitChars_render (value width : ℕ) :
    Nat.ofDigitChars 10 (renderDiscriminator value width) 0 = value := by
  rw [renderDiscriminator, Nat.ofDigitChars_append, Nat.ofDigitChars_replicate_zero, Nat.mul_zero,
    Nat.ofDigitChars_ten_toDigits]

theorem renderDiscriminator_injective
    (h : renderDiscriminator a width = renderDiscriminator b width) : a = b := by
  rw [← ofDigitChars_render a width, h, ofDigitChars_render]

/-- Two handles are the same text only for the same nickname and the same digits. -/
theorem formatHandle_injective {m n : Text} {v w : ℕ} (hm : '#' ∉ m) (hn : '#' ∉ n)
    (h : formatHandle m a v = formatHandle n b w) :
    m = n ∧ renderDiscriminator a v = renderDiscriminator b w := by
  induction m generalizing n with
  | nil =>
    cases n with
    | nil =>
      simp only [formatHandle, nil_append, cons.injEq, true_and] at h
      exact ⟨rfl, h⟩
    | cons =>
      simp only [formatHandle, nil_append, cons_append, cons.injEq] at h
      exact absurd h.1 (fun he => hn (he ▸ mem_cons_self))
  | cons c m ih =>
    cases n with
    | nil =>
      simp only [formatHandle, nil_append, cons_append, cons.injEq] at h
      exact absurd h.1 (fun he => hm (he ▸ mem_cons_self))
    | cons =>
      simp only [formatHandle, cons_append, cons.injEq] at h
      obtain ⟨hmn, hr⟩ := ih (fun hc => hm (mem_cons_of_mem _ hc))
        (fun hc => hn (mem_cons_of_mem _ hc)) h.2
      exact ⟨by rw [h.1, hmn], hr⟩

end Rosette.Directory
