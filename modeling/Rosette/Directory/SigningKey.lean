import Rosette.Directory.Username
import Rosette.Foundation.Text
import Rosette.Proto.Envelope

/-! # A key written in hexadecimal

The loop slices the text two bytes at a time and gives each slice to the standard parser of
integers, which takes a sign. A slice that ends inside a character panics.
-/
namespace Rosette.Directory
open Foundation Proto List Option

variable {c : Char} {x n : ℕ} {t s : Text} {bytes : List UInt8}

inductive Panic where
  | charBoundary
deriving DecidableEq

def toDigit (c : Char) : Option ℕ :=
  if 48 ≤ c.toNat ∧ c.toNat ≤ 57 then some (c.toNat - 48)
  else if 97 ≤ c.toNat ∧ c.toNat ≤ 102 then some (c.toNat - 87)
  else if 65 ≤ c.toNat ∧ c.toNat ≤ 70 then some (c.toNat - 55)
  else none

/-- Digits read after a number; `none` as well when the byte overflows. -/
def readDigits (acc : ℕ) : Text → Option ℕ
  | [] => some acc
  | c :: rest => do
    let d ← toDigit c
    if acc * 16 + d < 256 then readDigits (acc * 16 + d) rest else none

/-- The standard parser of a byte in base 16: a plus sign may precede the digits. -/
def fromStrRadix : Text → Option ℕ
  | [] | ['+'] | ['-'] => none
  | '+' :: digits => readDigits 0 digits
  | digits => readDigits 0 digits

def hexBytes (s : Text) (i : ℕ) : ℕ → Except Panic (Option (List UInt8))
  | 0 => .ok (some [])
  | n + 1 =>
    match slice Char.utf8Size (i * 2) (i * 2 + 2) s with
    | none => .error .charBoundary
    | some pair =>
      match fromStrRadix pair with
      | none => .ok none
      | some byte => (hexBytes s (i + 1) n).map (Option.map (UInt8.ofNat byte :: ·))

def decodeHex32 (s : Text) : Except Panic (Option (List UInt8)) :=
  if byteLen s ≠ 64 then .ok none else hexBytes s 0 32

/-! ## What the loop takes for a key -/

def isHexDigit (c : Char) : Bool := (toDigit c).isSome

def hexText (bytes : List UInt8) : Text :=
  bytes.flatMap fun b => [Nat.digitChar (b.toNat / 16), Nat.digitChar (b.toNat % 16)]

/-- What the first of two characters counts for: a sign counts for nothing. -/
def leadDigit (c : Char) : Option ℕ := if c = '+' then some 0 else toDigit c

/-- Two characters for each byte, a digit or a sign and a digit. -/
inductive HexPairs : Text → List UInt8 → Prop where
  | nil : HexPairs [] []
  | cons {c d x y t bytes} (hc : leadDigit c = some x) (hd : toDigit d = some y)
      (h : HexPairs t bytes) :
    HexPairs (c :: d :: t) (UInt8.ofNat (x * 16 + y) :: bytes)

/-- After pairs that are read comes one that ends inside a character. -/
inductive Cut : Text → Prop where
  | wide {c : Char} {t} (hc : 2 < c.utf8Size) : Cut (c :: t)
  | inside {c d t} (hc : c.utf8Size = 1) (hd : 1 < d.utf8Size) : Cut (c :: d :: t)
  | later {c d x y t} (hc : leadDigit c = some x) (hd : toDigit d = some y) (h : Cut t) :
    Cut (c :: d :: t)

theorem toDigit_spec (h : toDigit c = some x) :
    x < 16 ∧ c.utf8Size = 1 ∧ c ≠ '+' ∧ Nat.digitChar x = c.toLower := by
  have hlt : c.toNat < 128 := by
    unfold toDigit at h
    split_ifs at h <;> omega
  have hall : ∀ n : Fin 128, ∀ x, toDigit (Char.ofNat n) = some x →
      x < 16 ∧ (Char.ofNat n).utf8Size = 1 ∧ Char.ofNat n ≠ '+' ∧
        Nat.digitChar x = (Char.ofNat n).toLower := by
    have htable : ∀ n : Fin 128, (toDigit (Char.ofNat n)).all (fun x =>
        x < 16 ∧ (Char.ofNat n).utf8Size = 1 ∧ Char.ofNat n ≠ '+' ∧
          Nat.digitChar x = (Char.ofNat n).toLower) = true := by decide +kernel
    intro n x hx
    have hn := htable n
    rw [hx] at hn
    exact of_decide_eq_true hn
  have hc : Char.ofNat c.toNat = c := Char.ofNat_toNat c
  rw [← hc] at h
  simpa only [hc] using hall ⟨c.toNat, hlt⟩ x h

theorem leadDigit_of_toDigit (h : toDigit c = some x) : leadDigit c = some x := by
  rw [leadDigit, if_neg (toDigit_spec h).2.2.1, h]

theorem toDigit_of_leadDigit (h : leadDigit c = some x) (hc : c ≠ '+') : toDigit c = some x := by
  rwa [leadDigit, if_neg hc] at h

theorem leadDigit_spec (h : leadDigit c = some x) : x < 16 ∧ c.utf8Size = 1 := by
  by_cases hc : c = '+'
  · subst hc
    cases h
    decide
  · obtain ⟨hx, hsize, -⟩ := toDigit_spec (toDigit_of_leadDigit h hc)
    exact ⟨hx, hsize⟩

namespace HexPairs

theorem length (h : HexPairs t bytes) : t.length = 2 * bytes.length := by
  induction h with
  | nil => rfl
  | cons hc hd h ih =>
    simp only [length_cons, ih]
    omega

theorem byteLen_eq (h : HexPairs t bytes) : byteLen t = t.length := by
  refine total_eq_length fun a ha => ?_
  induction h with
  | nil => cases ha
  | cons hc hd h ih =>
    rcases mem_cons.mp ha with rfl | ha
    · exact (leadDigit_spec hc).2
    · rcases mem_cons.mp ha with rfl | ha
      · exact (toDigit_spec hd).2.1
      · exact ih ha

/-- Without a sign the text is digits, and spells the bytes. -/
theorem spells (h : HexPairs t bytes) (hplus : '+' ∉ t) :
    t.all isHexDigit = true ∧ hexText bytes = t.map Char.toLower := by
  induction h with
  | nil => exact ⟨rfl, rfl⟩
  | @cons c d x y t bytes hc hd h ih =>
    have hc := toDigit_of_leadDigit hc fun he => hplus (he ▸ mem_cons_self)
    obtain ⟨hx, -, -, hcx⟩ := toDigit_spec hc
    obtain ⟨hy, -, -, hdy⟩ := toDigit_spec hd
    obtain ⟨hall, htext⟩ := ih fun hmem => hplus (mem_cons_of_mem _ (mem_cons_of_mem _ hmem))
    have hbyte : (UInt8.ofNat (x * 16 + y)).toNat = x * 16 + y :=
      UInt8.toNat_ofNat_of_lt (show _ < 256 by omega)
    refine ⟨by simp [isHexDigit, hc, hd, hall], ?_⟩
    rw [hexText, flatMap_cons, hbyte, show (x * 16 + y) / 16 = x by omega,
      show (x * 16 + y) % 16 = y by omega, hcx, hdy, ← hexText, htext]
    rfl

theorem of_digits (hlen : t.length = 2 * n) (hall : t.all isHexDigit = true) :
    ∃ bytes, HexPairs t bytes := by
  induction n generalizing t with
  | zero =>
    obtain rfl := length_eq_zero_iff.mp hlen
    exact ⟨[], .nil⟩
  | succ n ih =>
    match t, hlen with
    | c :: d :: t, hlen =>
      simp only [all_cons, Bool.and_eq_true] at hall
      obtain ⟨hc, hd, ht⟩ := hall
      obtain ⟨x, hx⟩ := isSome_iff_exists.mp hc
      obtain ⟨y, hy⟩ := isSome_iff_exists.mp hd
      obtain ⟨bytes, h⟩ := ih (by simp only [length_cons] at hlen; omega) ht
      exact ⟨_, .cons (leadDigit_of_toDigit hx) hy h⟩

end HexPairs

/-! ## The loop -/

section Loop
variable {before : Text} {i : ℕ}

theorem fromStrRadix_digits {d : Char} {y : ℕ} (hc : leadDigit c = some x)
    (hd : toDigit d = some y) : fromStrRadix [c, d] = some (x * 16 + y) := by
  obtain ⟨hx, -⟩ := leadDigit_spec hc
  obtain ⟨hy, -⟩ := toDigit_spec hd
  by_cases hplus : c = '+'
  · subst hplus
    cases hc
    change readDigits 0 [d] = _
    simp only [readDigits, hd, bind_eq_bind, bind_some]
    rw [if_pos (by omega)]
  · have hread : fromStrRadix [c, d] = readDigits 0 [c, d] := by
      unfold fromStrRadix
      split <;> simp_all
    rw [hread, readDigits, toDigit_of_leadDigit hc hplus]
    simp only [bind_eq_bind, bind_some, readDigits, hd, Nat.zero_mul, Nat.zero_add]
    rw [if_pos (by omega), if_pos (by omega)]

theorem fromStrRadix_pair {pair : Text} {byte : ℕ} (hsize : total Char.utf8Size pair = 2)
    (h : fromStrRadix pair = some byte) :
    ∃ c d x y, pair = [c, d] ∧ leadDigit c = some x ∧ toDigit d = some y ∧ byte = x * 16 + y := by
  rcases pair with _ | ⟨c, _ | ⟨d, _ | ⟨e, rest⟩⟩⟩
  · simp at hsize
  · have hread : readDigits 0 [c] = some byte := by
      unfold fromStrRadix at h
      split at h <;> simp_all
    obtain ⟨x, hx, -⟩ := bind_eq_some_iff.mp hread
    have hone := (toDigit_spec hx).2.1
    simp only [total_cons, total_nil] at hsize
    omega
  · by_cases hplus : c = '+'
    · subst hplus
      obtain ⟨y, hy, hread⟩ := bind_eq_some_iff.mp (show readDigits 0 [d] = some byte from h)
      split_ifs at hread
      exact ⟨_, d, 0, y, rfl, rfl, hy, (some.inj hread).symm⟩
    · have hread : readDigits 0 [c, d] = some byte := by
        unfold fromStrRadix at h
        split at h <;> simp_all
      obtain ⟨x, hx, hread⟩ := bind_eq_some_iff.mp hread
      split_ifs at hread
      obtain ⟨y, hy, hread⟩ := bind_eq_some_iff.mp hread
      split_ifs at hread
      rw [Nat.zero_add] at hread
      exact ⟨c, d, x, y, rfl, leadDigit_of_toDigit hx, hy, (some.inj hread).symm⟩
  · have hc := c.utf8Size_pos
    have hd := d.utf8Size_pos
    have he := e.utf8Size_pos
    simp only [total_cons] at hsize
    omega

theorem map_cons_eq_ok {b : UInt8} {x : Except Panic (Option (List UInt8))} :
    x.map (Option.map (b :: ·)) = .ok (some bytes) ↔
      ∃ rest, x = .ok (some rest) ∧ b :: rest = bytes := by
  rcases x with e | (_ | rest) <;> simp [Except.map]

theorem slice_left (hs : s = before ++ t) (hbefore : total Char.utf8Size before = i * 2) :
    slice Char.utf8Size (i * 2) (i * 2 + 2) s = takeSize Char.utf8Size 2 t := by
  rw [hs]
  exact slice_append Char.utf8Size_pos hbefore

section Pair
variable {d : Char} {y : ℕ} (hc : leadDigit c = some x) (hd : toDigit d = some y)
include hc hd

theorem takeSize_pair : takeSize Char.utf8Size 2 (c :: d :: t) = some [c, d] := by
  have htake := takeSize_append Char.utf8Size_pos [c, d] t
  rwa [total_cons, total_cons, (leadDigit_spec hc).2, (toDigit_spec hd).2.1] at htake

theorem after_pair (hs : s = before ++ c :: d :: t) (hbefore : total Char.utf8Size before = i * 2)
    (ht : total Char.utf8Size (c :: d :: t) = 2 * (n + 1)) :
    s = (before ++ [c, d]) ++ t ∧ total Char.utf8Size (before ++ [c, d]) = (i + 1) * 2 ∧
      total Char.utf8Size t = 2 * n := by
  simp only [total_append, total_cons, total_nil, (leadDigit_spec hc).2, (toDigit_spec hd).2.1,
    hbefore] at ht ⊢
  exact ⟨by simp [hs], by omega, by omega⟩

end Pair

theorem takeSize_eq_none (ht : 2 ≤ total Char.utf8Size t) :
    takeSize Char.utf8Size 2 t = none ↔ (∃ c u, t = c :: u ∧ 2 < c.utf8Size) ∨
      ∃ c d u, t = c :: d :: u ∧ c.utf8Size = 1 ∧ 1 < d.utf8Size := by
  rcases t with _ | ⟨c, _ | ⟨d, u⟩⟩
  · simp at ht
  · simp only [total_cons, total_nil] at ht
    by_cases hc : c.utf8Size = 2
    · simp [takeSize, hc]
    · simp [takeSize, show ¬ c.utf8Size ≤ 2 by omega, show 2 < c.utf8Size by omega]
  · have hpos := c.utf8Size_pos
    have hd := d.utf8Size_pos
    rcases Nat.lt_trichotomy c.utf8Size 2 with hlt | hc | hgt
    · obtain hc : c.utf8Size = 1 := by omega
      by_cases hd' : d.utf8Size = 1
      · simp [takeSize, hc, hd']
      · simp [takeSize, hc, show ¬ d.utf8Size ≤ 1 by omega, show 1 < d.utf8Size by omega]
    · simp [takeSize, hc]
    · simp [takeSize, hgt]

section Rest
variable (hs : s = before ++ t) (hbefore : total Char.utf8Size before = i * 2)
  (ht : total Char.utf8Size t = 2 * n)
include hs hbefore ht

theorem hexBytes_eq_some : hexBytes s i n = .ok (some bytes) ↔ HexPairs t bytes := by
  induction n generalizing i before t bytes with
  | zero =>
    obtain rfl := (total_eq_zero Char.utf8Size_pos).mp ht
    constructor
    · intro h
      cases h
      exact .nil
    · intro h
      cases h
      rfl
  | succ n ih =>
    rw [hexBytes, slice_left hs hbefore]
    constructor
    · intro h
      split at h
      case h_1 => cases h
      case h_2 pair hpair =>
        obtain ⟨rest, rfl, hsize⟩ := takeSize_eq_some hpair
        split at h
        case h_1 => cases h
        case h_2 byte hbyte =>
          obtain ⟨c, d, x, y, rfl, hx, hy, rfl⟩ := fromStrRadix_pair hsize hbyte
          obtain ⟨out, hout, rfl⟩ := map_cons_eq_ok.mp h
          obtain ⟨hs, hbefore, ht⟩ := after_pair hx hy hs hbefore ht
          exact .cons hx hy ((ih hs hbefore ht).mp hout)
    · intro h
      cases h with
      | nil => simp at ht
      | @cons c d x y rest out hx hy h =>
        obtain ⟨hs, hbefore, ht⟩ := after_pair hx hy hs hbefore ht
        rw [takeSize_pair hx hy]
        simp only [fromStrRadix_digits hx hy]
        exact map_cons_eq_ok.mpr ⟨out, (ih hs hbefore ht).mpr h, rfl⟩

theorem hexBytes_eq_error {e : Panic} : hexBytes s i n = .error e ↔ Cut t := by
  induction n generalizing i before t with
  | zero =>
    obtain rfl := (total_eq_zero Char.utf8Size_pos).mp ht
    exact iff_of_false (by rintro ⟨⟩) (by rintro ⟨⟩)
  | succ n ih =>
    have hcut := takeSize_eq_none (t := t) (by omega)
    rw [hexBytes, slice_left hs hbefore]
    constructor
    · intro h
      split at h
      case h_1 hnone =>
        rcases hcut.mp hnone with ⟨c, u, rfl, hc⟩ | ⟨c, d, u, rfl, hc, hd⟩
        · exact .wide hc
        · exact .inside hc hd
      case h_2 pair hpair =>
        obtain ⟨rest, rfl, hsize⟩ := takeSize_eq_some hpair
        split at h
        case h_1 => cases h
        case h_2 byte hbyte =>
          obtain ⟨c, d, x, y, rfl, hx, hy, rfl⟩ := fromStrRadix_pair hsize hbyte
          obtain ⟨hs, hbefore, ht⟩ := after_pair hx hy hs hbefore ht
          refine .later hx hy ((ih hs hbefore ht).mp ?_)
          cases hr : hexBytes s (i + 1) n with
          | error => rfl
          | ok => simp [hr, Except.map] at h
    · intro h
      cases h with
      | wide hc => rw [hcut.mpr (.inl ⟨_, _, rfl, hc⟩)]
      | inside hc hd => rw [hcut.mpr (.inr ⟨_, _, _, rfl, hc, hd⟩)]
      | later hx hy h =>
        obtain ⟨hs, hbefore, ht⟩ := after_pair hx hy hs hbefore ht
        rw [takeSize_pair hx hy]
        simp only [fromStrRadix_digits hx hy, (ih hs hbefore ht).mpr h]
        rfl

end Rest
end Loop

/-- The text is accepted exactly when it is 64 hexadecimal digits, and spells what is returned. -/
structure ReadsExactly (s : Text) (result : Except Panic (Option (List UInt8))) : Prop where
  accepts : (∃ bytes, result = .ok (some bytes)) ↔ s.length = 64 ∧ s.all isHexDigit = true
  encodes : ∀ bytes, result = .ok (some bytes) →
    bytes.length = 32 ∧ hexText bytes = s.map Char.toLower

/-- Pairs for 32 bytes, with a sign among them. -/
def Signed (s : Text) : Prop := '+' ∈ s ∧ s.length = 64 ∧ ∃ bytes, HexPairs s bytes

section Decode

theorem decodeHex32_eq_some :
    decodeHex32 s = .ok (some bytes) ↔ s.length = 64 ∧ HexPairs s bytes := by
  rw [decodeHex32]
  split_ifs with hlen
  · exact iff_of_false (by rintro ⟨⟩) fun h => hlen (h.2.byteLen_eq.trans h.1)
  · have hsize : total Char.utf8Size s = 2 * 32 := not_not.mp hlen
    rw [hexBytes_eq_some (nil_append s).symm rfl hsize]
    exact (and_iff_right_of_imp fun h => h.byteLen_eq.symm.trans hsize).symm

theorem decodeHex32_eq_error :
    (∃ panic, decodeHex32 s = .error panic) ↔ byteLen s = 64 ∧ Cut s := by
  rw [decodeHex32]
  split_ifs with hlen
  · simp [hlen]
  · have hsize : total Char.utf8Size s = 2 * 32 := not_not.mp hlen
    have hcut : ∀ e, hexBytes s 0 32 = .error e ↔ Cut s := fun _ =>
      hexBytes_eq_error (nil_append s).symm rfl hsize
    simp only [hcut, not_not.mp hlen, true_and]
    exact ⟨fun ⟨_, h⟩ => h, fun h => ⟨.charBoundary, h⟩⟩

theorem decodeHex32_reads_iff : ReadsExactly s (decodeHex32 s) ↔ ¬ Signed s := by
  have hdigit : '+' ∈ s → ¬ s.all isHexDigit = true := fun hplus hall => by
    cases all_eq_true.mp hall _ hplus
  constructor
  · rintro ⟨haccepts, -⟩ ⟨hplus, hlen, bytes, h⟩
    exact hdigit hplus (haccepts.mp ⟨bytes, decodeHex32_eq_some.mpr ⟨hlen, h⟩⟩).2
  · intro hsigned
    have hread : ∀ bytes, decodeHex32 s = .ok (some bytes) →
        s.length = 64 ∧ HexPairs s bytes ∧ '+' ∉ s := fun bytes h =>
      let ⟨hlen, hpairs⟩ := decodeHex32_eq_some.mp h
      ⟨hlen, hpairs, fun hplus => hsigned ⟨hplus, hlen, bytes, hpairs⟩⟩
    refine ⟨⟨?_, ?_⟩, fun bytes h => ?_⟩
    · rintro ⟨bytes, h⟩
      obtain ⟨hlen, hpairs, hplus⟩ := hread bytes h
      exact ⟨hlen, (hpairs.spells hplus).1⟩
    · rintro ⟨hlen, hall⟩
      obtain ⟨bytes, hpairs⟩ := HexPairs.of_digits (n := 32) hlen hall
      exact ⟨bytes, decodeHex32_eq_some.mpr ⟨hlen, hpairs⟩⟩
    · obtain ⟨hlen, hpairs, hplus⟩ := hread bytes h
      have hlength := hpairs.length
      exact ⟨by omega, (hpairs.spells hplus).2⟩

end Decode
end Rosette.Directory
