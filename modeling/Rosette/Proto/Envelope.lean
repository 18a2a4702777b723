import Rosette.Foundation.Codec

/-! # Envelopes, padding buckets and their stored bytes

The unit the relay stores and forwards, the size buckets a client pads its
ciphertext to, and the byte format under which an envelope is authenticated and
written to disk.
-/
namespace Rosette.Proto
open Foundation List

abbrev Bytes (n : ℕ) := List.Vector UInt8 n

def Bytes.fill {n : ℕ} (b : UInt8) : Bytes n := List.Vector.replicate n b

abbrev QueueId := Bytes 32
abbrev MessageId := Bytes 16
abbrev SendKey := Bytes 32
abbrev AuthTag := Bytes 32

def maxMessageSize : ℕ := 65536

def paddingBuckets : List ℕ := [1024, 4096, 16384, 32768, 65536]

def paddedBucketFor (len : ℕ) : Option ℕ := paddingBuckets.find? (fun b => len ≤ b)

/-- Zero-extend to the smallest bucket that holds the bytes. -/
def pad (wireBytes : List UInt8) : Option (List UInt8) :=
  (paddedBucketFor wireBytes.length).map
    (fun bucket => wireBytes ++ replicate (bucket - wireBytes.length) 0)

theorem paddedBucketFor_le {n b : ℕ} (h : paddedBucketFor n = some b) :
    n ≤ b ∧ b ≤ maxMessageSize := by
  have hm := mem_of_find?_eq_some h
  have hp := find?_some h
  refine ⟨by simpa using hp, ?_⟩
  simp only [paddingBuckets, mem_cons, not_mem_nil, or_false] at hm
  unfold maxMessageSize
  omega

theorem pad_eq_append {w p : List UInt8} (h : pad w = some p) :
    ∃ k, p = w ++ replicate k 0 ∧ p.length ≤ maxMessageSize := by
  obtain ⟨b, hb, rfl⟩ := Option.map_eq_some_iff.mp h
  obtain ⟨hle, hmax⟩ := paddedBucketFor_le hb
  refine ⟨b - w.length, rfl, ?_⟩
  simp only [length_append, length_replicate]
  omega

inductive DeliveryMode where
  | relayFanout
  | pairwise
  | signaling
deriving DecidableEq, Repr

structure Envelope where
  messageId : MessageId
  deliveryMode : DeliveryMode
  paddedCiphertext : List UInt8
deriving DecidableEq

def DeliveryMode.index : DeliveryMode → ℕ
  | relayFanout => 0
  | pairwise => 1
  | signaling => 2

def DeliveryMode.ofIndex : ℕ → Option DeliveryMode
  | 0 => some relayFanout
  | 1 => some pairwise
  | 2 => some signaling
  | _ => none

def DeliveryMode.codec : Codec DeliveryMode :=
  Codec.enum 4 index ofIndex (by intro a; cases a <;> rfl)
    (by
      intro n a h
      match n with
      | 0 => cases h; rfl
      | 1 => cases h; rfl
      | 2 => cases h; rfl
      | n + 3 => cases h)
    (by intro a; cases a <;> decide)

def Bytes.codec (n : ℕ) : Codec (Bytes n) := Codec.byte.array n

def vecCodec : Codec (List UInt8) := Codec.byte.list 8

/-- Field order and integer widths of the shared fixed-width configuration. -/
def Envelope.codec : Codec Envelope :=
  ((Bytes.codec 16).pair (DeliveryMode.codec.pair vecCodec)).map
    (fun p => ⟨p.1, p.2.1, p.2.2⟩)
    (fun e => (e.messageId, e.deliveryMode, e.paddedCiphertext))
    (fun _ => rfl) (fun _ _ => rfl)

/-- The whole-input decoder of the shared configuration: bytes after the value are ignored. -/
def decodeFrom {α : Type*} (c : Codec α) (bytes : List UInt8) : Option α :=
  (c.decode bytes).map Prod.fst

theorem decodeFrom_encode {α : Type*} (c : Codec α) (a : α) (rest : List UInt8) (h : c.valid a) :
    decodeFrom c (c.encode a ++ rest) = some a := by
  rw [decodeFrom, c.decode_encode a rest h, Option.map_some]

variable {e : Envelope}

theorem Envelope.codec_valid (h : e.paddedCiphertext.length ≤ maxMessageSize) :
    Envelope.codec.valid e := by
  refine ⟨fun _ _ => trivial, trivial, ?_, fun _ _ => trivial⟩
  unfold maxMessageSize at h
  change e.paddedCiphertext.length < 256 ^ 8
  omega

theorem Envelope.decodeFrom_encode (h : e.paddedCiphertext.length ≤ maxMessageSize) :
    decodeFrom Envelope.codec (Envelope.codec.encode e) = some e := by
  simpa using Proto.decodeFrom_encode Envelope.codec e [] (codec_valid h)

end Rosette.Proto
