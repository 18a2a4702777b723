import Mathlib.Data.Vector.Basic
import Mathlib.Tactic

/-! # Prefix codecs over byte strings

A codec encodes a value as a byte string and decodes a value from the front of
one, returning the unread rest. It carries both halves of its contract: what
was encoded is read back whatever follows it, and what was read is exactly the
encoding of the value returned. Values outside `valid` have no promised
encoding (a length that does not fit its prefix).
-/
namespace Rosette.Foundation
open List Option

/-- A self-delimiting, canonical byte format for `α`. -/
structure Codec (α : Type*) where
  valid : α → Prop
  encode : α → List UInt8
  decode : List UInt8 → Option (α × List UInt8)
  decode_encode : ∀ a rest, valid a → decode (encode a ++ rest) = some (a, rest)
  encode_decode : ∀ bs a rest, decode bs = some (a, rest) → valid a ∧ bs = encode a ++ rest

/-- Parts that can be told apart whatever follows them, and are never empty, can be read off
their concatenation. -/
theorem flatMap_inj {α β : Type*} {f : α → List β} {valid : α → Prop} (hne : ∀ a, f a ≠ [])
    (hinj : ∀ a b r s, valid a → valid b → f a ++ r = f b ++ s → a = b ∧ r = s) {as bs : List α}
    (ha : ∀ a ∈ as, valid a) (hb : ∀ b ∈ bs, valid b) (h : as.flatMap f = bs.flatMap f) :
    as = bs := by
  induction as generalizing bs with
  | nil =>
    cases bs with
    | nil => rfl
    | cons b bs =>
      have hnil : f b ++ bs.flatMap f = [] := h.symm
      exact absurd (append_eq_nil_iff.mp hnil).1 (hne b)
  | cons a as ih =>
    cases bs with
    | nil =>
      have hnil : f a ++ as.flatMap f = [] := h
      exact absurd (append_eq_nil_iff.mp hnil).1 (hne a)
    | cons b =>
      rw [forall_mem_cons] at ha hb
      obtain ⟨rfl, hrest⟩ := hinj a b _ _ ha.1 hb.1 h
      rw [ih ha.2 hb.2 hrest]

namespace Codec
variable {α β γ : Type*} {a : α} {c : Codec α}

/-- Distinct valid values have distinct encodings, even when followed by other bytes. -/
theorem encode_append_inj (c : Codec α) {b : α} {r s : List UInt8} (ha : c.valid a) (hb : c.valid b)
    (h : c.encode a ++ r = c.encode b ++ s) : a = b ∧ r = s := by
  have hd := c.decode_encode a r ha
  rw [h, c.decode_encode b s hb, some.injEq, Prod.mk.injEq] at hd
  exact ⟨hd.1.symm, hd.2.symm⟩

/-- Transport a codec along a bijection given by its two maps. -/
def map (c : Codec α) (f : α → β) (g : β → α) (hfg : ∀ b, f (g b) = b)
    (hgf : ∀ a, c.valid a → g (f a) = a) : Codec β where
  valid b := c.valid (g b)
  encode b := c.encode (g b)
  decode bs := (c.decode bs).map (fun p => (f p.1, p.2))
  decode_encode b rest hb := by rw [c.decode_encode _ _ hb, map_some, hfg]
  encode_decode bs b rest h := by
    obtain ⟨⟨a, r⟩, ha, hr⟩ := map_eq_some_iff.mp h
    obtain ⟨rfl, rfl⟩ := Prod.mk.inj hr
    have hd := c.encode_decode _ _ _ ha
    rw [hgf a hd.1]
    exact hd

def pair (c : Codec α) (d : Codec β) : Codec (α × β) where
  valid p := c.valid p.1 ∧ d.valid p.2
  encode p := c.encode p.1 ++ d.encode p.2
  decode bs := (c.decode bs).bind (fun p => (d.decode p.2).map (fun q => ((p.1, q.1), q.2)))
  decode_encode p rest hp := by
    rw [append_assoc, c.decode_encode _ _ hp.1, bind_some,
      d.decode_encode _ _ hp.2, map_some]
  encode_decode bs p rest h := by
    obtain ⟨⟨a, r⟩, ha, h⟩ := bind_eq_some_iff.mp h
    obtain ⟨⟨b, s⟩, hb, h⟩ := map_eq_some_iff.mp h
    obtain ⟨rfl, rfl⟩ := Prod.mk.inj h
    obtain ⟨hva, rfl⟩ := c.encode_decode _ _ _ ha
    obtain ⟨hvb, hr⟩ := d.encode_decode _ _ _ hb
    exact ⟨⟨hva, hvb⟩, by rw [append_assoc, ← hr]⟩

def byte : Codec UInt8 where
  valid _ := True
  encode b := [b]
  decode
    | [] => none
    | b :: bs => some (b, bs)
  decode_encode _ _ _ := rfl
  encode_decode bs a rest h := by
    cases bs with
    | nil => simp at h
    | cons =>
      obtain ⟨rfl, rfl⟩ := Prod.mk.inj (some.inj h)
      exact ⟨trivial, rfl⟩

/-- Exactly `n` values, with no length in front. -/
def decodeTimes (c : Codec α) : ℕ → List UInt8 → Option (List α × List UInt8)
  | 0, bs => some ([], bs)
  | n + 1, bs => (c.decode bs).bind (fun p =>
      (decodeTimes c n p.2).map (fun q => (p.1 :: q.1, q.2)))

def encodeAll (c : Codec α) : List α → List UInt8
  | [] => []
  | a :: as => c.encode a ++ encodeAll c as

theorem decodeTimes_encodeAll (c : Codec α) (as : List α) (rest : List UInt8)
    (h : ∀ a ∈ as, c.valid a) :
    c.decodeTimes as.length (c.encodeAll as ++ rest) = some (as, rest) := by
  induction as with
  | nil => rfl
  | cons a as ih =>
    rw [length_cons, decodeTimes, encodeAll, append_assoc,
      c.decode_encode _ _ (h a mem_cons_self), bind_some,
      ih (fun b hb => h b (mem_cons_of_mem _ hb)), map_some]

theorem encodeAll_decodeTimes (c : Codec α) (n : ℕ) (bs : List UInt8) (as : List α)
    (rest : List UInt8) (h : c.decodeTimes n bs = some (as, rest)) :
    as.length = n ∧ (∀ a ∈ as, c.valid a) ∧ bs = c.encodeAll as ++ rest := by
  induction n generalizing bs as with
  | zero =>
    obtain ⟨rfl, rfl⟩ := Prod.mk.inj (some.inj h)
    exact ⟨rfl, by simp, rfl⟩
  | succ n ih =>
    obtain ⟨⟨a, r⟩, ha, h⟩ := bind_eq_some_iff.mp h
    obtain ⟨⟨as', s⟩, hs, h⟩ := map_eq_some_iff.mp h
    obtain ⟨rfl, rfl⟩ := Prod.mk.inj h
    obtain ⟨hva, rfl⟩ := c.encode_decode _ _ _ ha
    obtain ⟨hl, hv, hr⟩ := ih _ _ hs
    refine ⟨by simp [hl], ?_, ?_⟩
    · simpa using ⟨hva, hv⟩
    · rw [encodeAll, append_assoc, ← hr]

/-- A fixed-size array. -/
def array (c : Codec α) (n : ℕ) : Codec (List.Vector α n) where
  valid v := ∀ a ∈ v.toList, c.valid a
  encode v := c.encodeAll v.toList
  decode bs := (c.decodeTimes n bs).bind (fun p =>
    if h : p.1.length = n then some (⟨p.1, h⟩, p.2) else none)
  decode_encode v rest hv := by
    have h := c.decodeTimes_encodeAll v.toList rest hv
    rw [List.Vector.toList_length] at h
    simp [h]
  encode_decode bs v rest h := by
    obtain ⟨⟨as, r⟩, ha, h⟩ := bind_eq_some_iff.mp h
    obtain ⟨hl, hv, hr⟩ := c.encodeAll_decodeTimes _ _ _ _ ha
    rw [dif_pos hl] at h
    obtain ⟨rfl, rfl⟩ := Prod.mk.inj (some.inj h)
    exact ⟨hv, hr⟩

/-- Little-endian bytes of the low `w` base-256 digits. -/
def leBytes : ℕ → ℕ → List UInt8
  | 0, _ => []
  | w + 1, n => UInt8.ofNat n :: leBytes w (n / 256)

def leValue : List UInt8 → ℕ
  | [] => 0
  | b :: bs => b.toNat + 256 * leValue bs

@[simp] theorem leBytes_length (w n : ℕ) : (leBytes w n).length = w := by
  induction w generalizing n with
  | zero => rfl
  | succ w ih => simp [leBytes, ih]

theorem leValue_leBytes (w n : ℕ) (h : n < 256 ^ w) : leValue (leBytes w n) = n := by
  induction w generalizing n with
  | zero =>
    simp [leBytes, leValue]
    omega
  | succ w ih =>
    have hq : n / 256 < 256 ^ w := by exact Nat.div_lt_of_lt_mul (by omega)
    rw [leBytes, leValue, ih _ hq]
    simp
    omega

theorem leValue_lt (bs : List UInt8) : leValue bs < 256 ^ bs.length := by
  induction bs with
  | nil => simp [leValue]
  | cons b =>
    have hb := b.toNat_lt
    simp only [leValue, length_cons, pow_succ]
    omega

theorem leBytes_leValue (bs : List UInt8) : leBytes bs.length (leValue bs) = bs := by
  induction bs with
  | nil => rfl
  | cons b bs ih =>
    have hb := b.toNat_lt
    have hd : (b.toNat + 256 * leValue bs) / 256 = leValue bs := by omega
    have hm : UInt8.ofNat (b.toNat + 256 * leValue bs) = b := by
      apply UInt8.toNat.inj
      simp
    rw [length_cons, leValue, leBytes, hd, hm, ih]

/-- An unsigned integer of `w` bytes, least significant byte first. -/
def le (w : ℕ) : Codec ℕ where
  valid n := n < 256 ^ w
  encode n := leBytes w n
  decode bs := if bs.length < w then none else some (leValue (bs.take w), bs.drop w)
  decode_encode n rest hn := by
    have hl : ¬ (leBytes w n ++ rest).length < w := by simp
    rw [if_neg hl, take_left' (leBytes_length w n), drop_left' (leBytes_length w n),
      leValue_leBytes w n hn]
  encode_decode bs n rest h := by
    split_ifs at h with hl
    obtain ⟨rfl, rfl⟩ := Prod.mk.inj (some.inj h)
    have ht : (bs.take w).length = w := by rw [length_take]; omega
    refine ⟨?_, ?_⟩
    · have hv := leValue_lt (bs.take w)
      rwa [ht] at hv
    · have hb := leBytes_leValue (bs.take w)
      rw [ht] at hb
      rw [hb, take_append_drop]

/-- A sequence preceded by its length in `w` little-endian bytes. -/
def list (w : ℕ) (c : Codec α) : Codec (List α) where
  valid as := as.length < 256 ^ w ∧ ∀ a ∈ as, c.valid a
  encode as := (le w).encode as.length ++ c.encodeAll as
  decode bs := ((le w).decode bs).bind (fun p => c.decodeTimes p.1 p.2)
  decode_encode as rest h := by
    rw [append_assoc, (le w).decode_encode _ _ h.1, bind_some,
      c.decodeTimes_encodeAll _ _ h.2]
  encode_decode bs as rest h := by
    obtain ⟨⟨n, r⟩, hn, ht⟩ := bind_eq_some_iff.mp h
    obtain ⟨hv, rfl⟩ := (le w).encode_decode _ _ _ hn
    obtain ⟨rfl, hc, hr⟩ := c.encodeAll_decodeTimes _ _ _ _ ht
    exact ⟨⟨hv, hc⟩, by rw [append_assoc, ← hr]⟩

/-- Values written as some of the values of another format; the rest do not decode. -/
def restrict (c : Codec α) (f : α → Option β) (g : β → α) (hfg : ∀ b, f (g b) = some b)
    (hgf : ∀ a b, f a = some b → g b = a) : Codec β where
  valid b := c.valid (g b)
  encode b := c.encode (g b)
  decode bs := (c.decode bs).bind (fun p => (f p.1).map (fun b => (b, p.2)))
  decode_encode b rest hb := by rw [c.decode_encode _ _ hb, bind_some, hfg, map_some]
  encode_decode bs b rest h := by
    obtain ⟨⟨a, r⟩, ha, h⟩ := bind_eq_some_iff.mp h
    obtain ⟨b', hb, h⟩ := map_eq_some_iff.mp h
    obtain ⟨rfl, rfl⟩ := Prod.mk.inj h
    rw [hgf a b' hb]
    exact c.encode_decode _ _ _ ha

/-- A closed set of tags, each written as its index. -/
def enum (w : ℕ) (index : α → ℕ) (ofIndex : ℕ → Option α) (hi : ∀ a, ofIndex (index a) = some a)
    (ho : ∀ n a, ofIndex n = some a → index a = n) (hw : ∀ a, index a < 256 ^ w) : Codec α where
  valid _ := True
  encode a := (le w).encode (index a)
  decode bs := ((le w).decode bs).bind (fun p => (ofIndex p.1).map (fun a => (a, p.2)))
  decode_encode a rest _ := by
    rw [(le w).decode_encode _ _ (hw a), bind_some, hi, map_some]
  encode_decode bs a rest h := by
    obtain ⟨⟨n, r⟩, hn, h⟩ := bind_eq_some_iff.mp h
    obtain ⟨b, hb, h⟩ := map_eq_some_iff.mp h
    obtain ⟨rfl, rfl⟩ := Prod.mk.inj h
    obtain ⟨hv, hr⟩ := (le w).encode_decode _ _ _ hn
    rw [ho n b hb]
    exact ⟨trivial, hr⟩

/-- The number of a variant, among `n` of them. -/
def index (w n : ℕ) : Codec (Fin n) :=
  (le w).restrict (fun k => if h : k < n then some ⟨k, h⟩ else none) Fin.val
    (fun i => dif_pos i.isLt)
    (by
      intro k i h
      split_ifs at h
      cases h
      rfl)

/-- A tag, then the fields that go with it. -/
def sigma {β : α → Type*} (c : Codec α) (d : ∀ a, Codec (β a)) : Codec (Sigma β) where
  valid p := c.valid p.1 ∧ (d p.1).valid p.2
  encode p := c.encode p.1 ++ (d p.1).encode p.2
  decode bs := (c.decode bs).bind (fun p => ((d p.1).decode p.2).map (fun q => (⟨p.1, q.1⟩, q.2)))
  decode_encode p rest hp := by
    rw [append_assoc, c.decode_encode _ _ hp.1, bind_some,
      (d p.1).decode_encode _ _ hp.2, map_some]
  encode_decode bs p rest h := by
    obtain ⟨⟨a, r⟩, ha, h⟩ := bind_eq_some_iff.mp h
    obtain ⟨⟨b, s⟩, hb, h⟩ := map_eq_some_iff.mp h
    obtain ⟨rfl, rfl⟩ := Prod.mk.inj h
    obtain ⟨hva, rfl⟩ := c.encode_decode _ _ _ ha
    obtain ⟨hvb, hr⟩ := (d a).encode_decode _ _ _ hb
    exact ⟨⟨hva, hvb⟩, by rw [append_assoc, ← hr]⟩

/-- A byte says whether a value follows. -/
def option (c : Codec α) : Codec (Option α) where
  valid o := ∀ a ∈ o, c.valid a
  encode
    | none => [0]
    | some a => 1 :: c.encode a
  decode
    | 0 :: bs => some (none, bs)
    | 1 :: bs => (c.decode bs).map (fun p => (some p.1, p.2))
    | _ => none
  decode_encode o rest ho := by
    cases o with
    | none => rfl
    | some a =>
      change (c.decode (c.encode a ++ rest)).map _ = _
      rw [c.decode_encode _ _ (ho a rfl), map_some]
  encode_decode bs o rest h := by
    split at h
    · obtain ⟨rfl, rfl⟩ := Prod.mk.inj (some.inj h)
      exact ⟨by simp, rfl⟩
    · obtain ⟨⟨a, r⟩, ha, h⟩ := map_eq_some_iff.mp h
      obtain ⟨rfl, rfl⟩ := Prod.mk.inj h
      obtain ⟨hv, rfl⟩ := c.encode_decode _ _ _ ha
      exact ⟨by simpa using hv, rfl⟩
    · cases h

def unit : Codec Unit where
  valid _ := True
  encode _ := []
  decode bs := some ((), bs)
  decode_encode _ _ _ := rfl
  encode_decode bs a rest h := by
    obtain ⟨rfl, rfl⟩ := Prod.mk.inj (some.inj h)
    exact ⟨trivial, rfl⟩

def uint64 : Codec UInt64 :=
  (le 8).map UInt64.ofNat UInt64.toNat (fun n => UInt64.ofNat_toNat)
    (fun n hn => UInt64.toNat_ofNat_of_lt' (by simpa [le] using hn))

/-- The signed reading of a 64-bit word. -/
def signed (n : ℕ) : ℤ := if n < 2 ^ 63 then n else n - 2 ^ 64

def int64 : Codec ℤ where
  valid z := -2 ^ 63 ≤ z ∧ z < 2 ^ 63
  encode z := (le 8).encode (z % 2 ^ 64).toNat
  decode bs := ((le 8).decode bs).map (fun p => (signed p.1, p.2))
  decode_encode z rest hz := by
    have hv : (le 8).valid (z % 2 ^ 64).toNat := by
      change (z % 2 ^ 64).toNat < 256 ^ 8
      omega
    rw [(le 8).decode_encode _ _ hv, map_some]
    congr 2
    unfold signed
    split_ifs <;> omega
  encode_decode bs z rest h := by
    obtain ⟨⟨n, r⟩, hn, h⟩ := map_eq_some_iff.mp h
    obtain ⟨rfl, rfl⟩ := Prod.mk.inj h
    obtain ⟨hv, rfl⟩ := (le 8).encode_decode _ _ _ hn
    change n < 256 ^ 8 at hv
    have hs : -2 ^ 63 ≤ signed n ∧ signed n < 2 ^ 63 ∧ (signed n % 2 ^ 64).toNat = n := by
      unfold signed
      split_ifs <;> omega
    exact ⟨⟨hs.1, hs.2.1⟩, by rw [hs.2.2]⟩

theorem length_encode_le (c : Codec α) {bs rest : List UInt8} (h : c.decode bs = some (a, rest)) :
    (c.encode a).length ≤ bs.length := by
  rw [(c.encode_decode _ _ _ h).2, length_append]
  omega

theorem length_encodeAll (c : Codec α) {n : ℕ} (hn : ∀ a, (c.encode a).length = n) (as : List α) :
    (c.encodeAll as).length = n * as.length := by
  induction as with
  | nil => rfl
  | cons a as ih => rw [encodeAll, length_append, hn, ih, length_cons, Nat.mul_succ, Nat.add_comm]

/-- No value is written as nothing, and every value whose bytes can be counted in eight bytes
is read back. -/
structure Sized (c : Codec α) : Prop where
  pos : ∀ a, 1 ≤ (c.encode a).length
  fits : ∀ a, (c.encode a).length < 256 ^ 8 → c.valid a

theorem sized_byte : byte.Sized := ⟨fun _ => le_rfl, fun _ _ => trivial⟩

theorem Sized.map (h : c.Sized) (f : α → β) (g : β → α) (hfg : ∀ b, f (g b) = b)
    (hgf : ∀ a, c.valid a → g (f a) = a) : (c.map f g hfg hgf).Sized :=
  ⟨fun b => h.pos (g b), fun b => h.fits (g b)⟩

theorem Sized.restrict (h : c.Sized) (f : α → Option β) (g : β → α) (hfg : ∀ b, f (g b) = some b)
    (hgf : ∀ a b, f a = some b → g b = a) : (c.restrict f g hfg hgf).Sized :=
  ⟨fun b => h.pos (g b), fun b => h.fits (g b)⟩

theorem Sized.pair {d : Codec β} (hc : c.Sized) (hd : d.Sized) : (c.pair d).Sized := by
  have hlen : ∀ p, ((c.pair d).encode p).length = (c.encode p.1).length + (d.encode p.2).length :=
    fun p => length_append
  refine ⟨fun p => ?_, fun p hp => ⟨hc.fits p.1 ?_, hd.fits p.2 ?_⟩⟩
  · rw [hlen]
    have := hc.pos p.1
    omega
  all_goals
    rw [hlen] at hp
    omega

theorem Sized.option (h : c.Sized) : c.option.Sized := by
  refine ⟨fun o => ?_, fun o ho a ha => h.fits a ?_⟩
  · cases o with
    | none => exact le_rfl
    | some => exact Nat.succ_le_succ (Nat.zero_le _)
  · obtain rfl : o = some a := ha
    exact Nat.lt_of_succ_lt ho

theorem length_encode_le_encodeAll (c : Codec α) {as : List α} (h : a ∈ as) :
    (c.encode a).length ≤ (c.encodeAll as).length := by
  induction as with
  | nil => cases h
  | cons b as ih =>
    rw [encodeAll, length_append]
    rcases mem_cons.mp h with rfl | h
    · exact Nat.le_add_right _ _
    · exact (ih h).trans (Nat.le_add_left _ _)

theorem Sized.length_le_encodeAll (h : c.Sized) (as : List α) :
    as.length ≤ (c.encodeAll as).length := by
  induction as with
  | nil => exact le_rfl
  | cons a =>
    rw [encodeAll, length_append, length_cons]
    have := h.pos a
    omega

theorem Sized.list (h : c.Sized) : (c.list 8).Sized := by
  have hlen : ∀ as, ((c.list 8).encode as).length = 8 + (c.encodeAll as).length := by
    intro as
    change (leBytes 8 as.length ++ c.encodeAll as).length = _
    rw [length_append]
    rfl
  refine ⟨fun as => ?_, fun as has => ?_⟩
  · rw [hlen]
    omega
  · rw [hlen] at has
    refine ⟨?_, fun a ha => h.fits a ?_⟩
    · have := h.length_le_encodeAll as
      omega
    · have := c.length_encode_le_encodeAll ha
      omega

end Codec
end Rosette.Foundation
