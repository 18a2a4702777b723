import Rosette.Directory.Api
import Rosette.Foundation.Text

/-! # A phone number on both sides

The app strips what a user types down to a sign and digits, and hashes the rest for search. The
directory takes a plus sign and ASCII digits. A character of the app is a UTF-16 unit, and a digit
is any decimal digit of Unicode; the directory counts bytes.
-/
namespace Rosette.App
open Foundation Directory List

/-- The zeros of the decimal digits that are one unit; nine digits follow each. -/
def decimalZeros : List ℕ :=
  [0x30, 0x660, 0x6F0, 0x7C0, 0x966, 0x9E6, 0xA66, 0xAE6, 0xB66, 0xBE6, 0xC66, 0xCE6, 0xD66, 0xDE6,
    0xE50, 0xED0, 0xF20, 0x1040, 0x1090, 0x17E0, 0x1810, 0x1946, 0x19D0, 0x1A80, 0x1A90, 0x1B50,
    0x1BB0, 0x1C40, 0x1C50, 0xA620, 0xA8D0, 0xA900, 0xA9D0, 0xA9F0, 0xAA50, 0xABF0, 0xFF10]

def isDigit (u : UInt16) : Bool := decimalZeros.any fun z => z ≤ u.toNat && u.toNat ≤ z + 9

def isWhitespace (u : UInt16) : Bool :=
  (9 ≤ u.toNat && u.toNat ≤ 13) || (0x1C ≤ u.toNat && u.toNat ≤ 0x20) || u.toNat = 0xA0 ||
    u.toNat = 0x1680 || (0x2000 ≤ u.toNat && u.toNat ≤ 0x200A) || u.toNat = 0x2028 ||
    u.toNat = 0x2029 || u.toNat = 0x202F || u.toNat = 0x205F || u.toNat = 0x3000

def plus : UInt16 := 43

def normalizePhoneInput (raw : List UInt16) : List UInt16 :=
  (if (trim isWhitespace raw).head? = some plus then [plus] else []) ++
    (trim isWhitespace raw).filter isDigit

/-- Unkeyed, over the normalised number. -/
def phoneSearchHash (sha256Hex : List UInt16 → Text) (rawPhone : List UInt16) : Text :=
  sha256Hex (normalizePhoneInput rawPhone)

def sent (s : List UInt16) : Text := s.map fun u => Char.ofNat u.toNat

def isAsciiDigit (u : UInt16) : Bool := 48 ≤ u.toNat && u.toNat ≤ 57

variable {u : UInt16} {digits : List UInt16}

theorem not_isWhitespace_of_isDigit (h : isDigit u = true) : isWhitespace u = false := by
  have htable : (decimalZeros.all fun z => (range 10).all fun k =>
      !isWhitespace (UInt16.ofNat (z + k))) = true := by decide +kernel
  obtain ⟨z, hz, hu⟩ := any_eq_true.mp h
  simp only [Bool.and_eq_true, decide_eq_true_eq] at hu
  have hk := all_eq_true.mp (all_eq_true.mp htable z hz) (u.toNat - z)
    (mem_range.mpr (by omega))
  rwa [Nat.add_sub_of_le hu.1, UInt16.ofNat_toNat, Bool.not_eq_true'] at hk

theorem not_isDigit_of_isWhitespace (h : isWhitespace u = true) : isDigit u = false := by
  by_contra hd
  cases h.symm.trans (not_isWhitespace_of_isDigit ((Bool.not_eq_false _).mp hd))

section Normalize
variable {raw ws x y : List UInt16}

theorem filter_normalized : (trim isWhitespace raw).filter isDigit = raw.filter isDigit :=
  filter_trim fun _ h => not_isDigit_of_isWhitespace h

theorem normalizePhoneInput_cases (raw : List UInt16) :
    normalizePhoneInput raw = plus :: raw.filter isDigit ∨
      normalizePhoneInput raw = raw.filter isDigit := by
  rw [normalizePhoneInput, filter_normalized]
  split_ifs with hsign
  · exact .inl rfl
  · exact .inr rfl

theorem normalizePhoneInput_plus (hws : ∀ u ∈ ws, isWhitespace u = true) (x : List UInt16) :
    normalizePhoneInput (ws ++ plus :: x) = plus :: x.filter isDigit := by
  have hplus : isWhitespace plus = false := by decide
  have hdigit : isDigit plus = false := by decide
  rw [normalizePhoneInput, trim_append_left hws, head?_trim_cons hplus, if_pos rfl,
    filter_normalized, filter_cons_of_neg (by rw [hdigit]; decide)]
  rfl

theorem normalizePhoneInput_digits (hd : ∀ u ∈ digits, isDigit u = true) :
    normalizePhoneInput digits = digits := by
  have hself : trim isWhitespace digits = digits :=
    trim_eq_self fun u hu => not_isWhitespace_of_isDigit (hd u hu)
  have hsign : digits.head? ≠ some plus := by
    intro hhead
    cases (hd plus (mem_of_mem_head? hhead)).symm.trans (show isDigit plus = false by decide)
  rw [normalizePhoneInput, hself, if_neg hsign, nil_append, filter_eq_self.mpr hd]

theorem normalizePhoneInput_idem (raw : List UInt16) :
    normalizePhoneInput (normalizePhoneInput raw) = normalizePhoneInput raw := by
  have hdigits : ∀ u ∈ raw.filter isDigit, isDigit u = true := fun u hu => (mem_filter.mp hu).2
  rcases normalizePhoneInput_cases raw with hraw | hraw
  · rw [hraw, ← nil_append (plus :: _), normalizePhoneInput_plus (fun u hu => by cases hu),
      filter_eq_self.mpr hdigits]
    rfl
  · rw [hraw, normalizePhoneInput_digits hdigits]

theorem normalizePhoneInput_trim (raw : List UInt16) (hws : ∀ u ∈ ws, isWhitespace u = true)
    {ws' : List UInt16} (hws' : ∀ u ∈ ws', isWhitespace u = true) :
    normalizePhoneInput (ws ++ raw ++ ws') = normalizePhoneInput raw := by
  rw [normalizePhoneInput, trim_append_right hws', trim_append_left hws, normalizePhoneInput]

end Normalize

/-! ## What the directory makes of it -/

section Sent

theorem sent_digits (hd : ∀ u ∈ digits, isAsciiDigit u = true) :
    byteLen (sent digits) = digits.length ∧ (sent digits).all Char.isDigit = true := by
  have hchar : ∀ n : Fin 58, 48 ≤ n.val →
      (Char.ofNat n).utf8Size = 1 ∧ (Char.ofNat n).isDigit = true := by decide
  induction digits with
  | nil => exact ⟨rfl, rfl⟩
  | cons u digits ih =>
    obtain ⟨hlen, hall⟩ := ih fun v hv => hd v (mem_cons_of_mem _ hv)
    have hu := hd u mem_cons_self
    simp only [isAsciiDigit, Bool.and_eq_true, decide_eq_true_eq] at hu
    obtain ⟨hsize, hdigit⟩ := hchar ⟨u.toNat, by omega⟩ hu.1
    constructor
    · change (Char.ofNat u.toNat).utf8Size + byteLen (sent digits) = _
      rw [hsize, hlen, length_cons, Nat.add_comm]
    · change ((Char.ofNat u.toNat).isDigit && (sent digits).all Char.isDigit) = true
      rw [hdigit, hall]
      rfl

theorem isAsciiDigit_of_char (h : (Char.ofNat u.toNat).isDigit = true) : isAsciiDigit u = true := by
  have hnat : (Char.ofNat u.toNat).toNat = u.toNat ∨ Char.ofNat u.toNat = Char.ofNat 0 := by
    by_cases hvalid : u.toNat.isValidChar
    · exact .inl (by rw [Char.ofNat, dif_pos hvalid]; rfl)
    · exact .inr (by rw [Char.ofNat, dif_neg hvalid]; rfl)
  rcases hnat with hnat | hzero
  · rw [Char.isDigit_iff_toNat, hnat] at h
    simpa [isAsciiDigit] using h
  · rw [hzero] at h
    cases h

/-- A number of fitting length is taken as it is exactly if its digits are ASCII. -/
theorem normalizeE164_sent (hmin : 8 ≤ digits.length) (hmax : digits.length ≤ 15) :
    normalizeE164 (sent (plus :: digits)) = some (sent (plus :: digits)) ↔
      ∀ u ∈ digits, isAsciiDigit u = true := by
  change normalizeE164 ('+' :: sent digits) = some ('+' :: sent digits) ↔ _
  rw [normalizeE164]
  constructor
  · intro h u hu
    split_ifs at h with hdigits
    exact isAsciiDigit_of_char (all_eq_true.mp hdigits.2.2 _ (mem_map_of_mem hu))
  · intro hd
    obtain ⟨hlen, hall⟩ := sent_digits hd
    rw [hlen, if_pos ⟨hmin, hmax, hall⟩]

end Sent

/-- Normalising twice changes nothing more; white space around a number and characters that are no
digits after its sign do not matter; the same digits, with a sign or without, have one hash and are
one number; and the directory takes a result of fitting length as it is exactly if the digits that
were typed are ASCII. -/
theorem phone_number_agreed (sha256Hex : List UInt16 → Text) :
    (∀ s, normalizePhoneInput (normalizePhoneInput s) = normalizePhoneInput s) ∧
    (∀ ws s ws', (∀ u ∈ ws ++ ws', isWhitespace u = true) →
      normalizePhoneInput (ws ++ s ++ ws') = normalizePhoneInput s) ∧
    (∀ ws x junk y, (∀ u ∈ ws, isWhitespace u = true) → (∀ u ∈ junk, isDigit u = false) →
      normalizePhoneInput (ws ++ plus :: (x ++ junk ++ y)) =
        normalizePhoneInput (ws ++ plus :: (x ++ y))) ∧
    (∀ s t, s.filter isDigit = t.filter isDigit →
      ((trim isWhitespace s).head? = some plus ↔ (trim isWhitespace t).head? = some plus) →
      phoneSearchHash sha256Hex s = phoneSearchHash sha256Hex t ∧
        normalizeE164 (sent (normalizePhoneInput s)) =
          normalizeE164 (sent (normalizePhoneInput t))) ∧
    ∀ s digits, normalizePhoneInput s = plus :: digits → 8 ≤ digits.length →
      digits.length ≤ 15 →
      (normalizeE164 (sent (normalizePhoneInput s)) = some (sent (normalizePhoneInput s)) ↔
        ∀ u ∈ s, isDigit u = true → isAsciiDigit u = true) := by
  refine ⟨normalizePhoneInput_idem, ?_, ?_, ?_, ?_⟩
  · intro ws s ws' hws
    exact normalizePhoneInput_trim s (fun u hu => hws u (mem_append_left _ hu))
      (fun u hu => hws u (mem_append_right _ hu))
  · intro ws x junk y hws hjunk
    have hnone : junk.filter isDigit = [] := filter_eq_nil_iff.mpr (by simpa using hjunk)
    simp only [normalizePhoneInput_plus hws, filter_append, hnone, append_nil]
  · intro s t hsame hsign
    have heq : normalizePhoneInput s = normalizePhoneInput t := by
      simp only [normalizePhoneInput, filter_normalized, hsame, hsign]
    rw [phoneSearchHash, heq]
    exact ⟨rfl, rfl⟩
  · intro s digits hs hmin hmax
    have hdigits : digits = s.filter isDigit := by
      rcases normalizePhoneInput_cases s with hcase | hcase
      · exact (cons.inj (hs.symm.trans hcase)).2
      · have hplus : plus ∈ s.filter isDigit := by rw [← hcase, hs]; exact mem_cons_self
        cases (mem_filter.mp hplus).2
    rw [hs, normalizeE164_sent hmin hmax, hdigits]
    simp only [mem_filter, and_imp]

theorem phone_number_agreed_spaced :
    normalizeE164 (sent (normalizePhoneInput
      [32, 43, 49, 32, 50, 51, 45, 52, 53, 54, 55, 56, 32])) =
      some ['+', '1', '2', '3', '4', '5', '6', '7', '8'] := by
  obtain ⟨-, -, -, -, hsent⟩ := phone_number_agreed (fun _ => [])
  have hascii : ∀ u ∈ ([32, 43, 49, 32, 50, 51, 45, 52, 53, 54, 55, 56, 32] : List UInt16),
      (!isDigit u || isAsciiDigit u) = true := all_eq_true.mp (by decide)
  exact (hsent _ [49, 50, 51, 52, 53, 54, 55, 56] (by decide) (by decide) (by decide)).mpr
    fun u hu hd => by simpa [hd] using hascii u hu

/-- Eight Arabic-Indic digits after a plus sign pass the app and are refused. -/
theorem other_digits_refused : ∃ s digits : List UInt16,
    normalizePhoneInput s = plus :: digits ∧ 8 ≤ digits.length ∧ digits.length ≤ 15 ∧
      normalizeE164 (sent (normalizePhoneInput s)) = none :=
  ⟨plus :: [0x660, 0x661, 0x662, 0x663, 0x664, 0x665, 0x666, 0x667],
    [0x660, 0x661, 0x662, 0x663, 0x664, 0x665, 0x666, 0x667], by decide, by decide, by decide,
    by decide⟩

end Rosette.App
