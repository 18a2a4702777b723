import Rosette.Proto.Frame
import Rosette.Proto.Link

/-! # The byte format is canonical

A value is read back from its bytes whatever follows them, and whatever is read was
written that way. The model's lists and integers are wider than the types they stand
for, so each type says which of its values are representable: a vector is shorter than
its eight-byte length can say, a signed integer fits 64 bits, a difficulty one byte.
-/
namespace Rosette.Proto
open Foundation

/-- The values in question are read back, and exactly those, and only from their own bytes. -/
structure Canonical {α : Type*} (c : Codec α) (representable : α → Prop) : Prop where
  reads : ∀ v r, representable v → decodeFrom c (c.encode v ++ r) = some v
  writes : ∀ b v, decodeFrom c b = some v → representable v ∧ c.encode v <+: b
  injective : ∀ v w, representable v → representable w → c.encode v = c.encode w → v = w

theorem Canonical.of_valid {α : Type*} {c : Codec α} {representable : α → Prop}
    (h : ∀ v, c.valid v ↔ representable v) : Canonical c representable where
  reads v r hv := decodeFrom_encode c v r ((h v).mpr hv)
  writes b v hb := by
    obtain ⟨⟨w, r⟩, hd, rfl⟩ := Option.map_eq_some_iff.mp hb
    obtain ⟨hv, rfl⟩ := c.encode_decode b w r hd
    exact ⟨(h w).mp hv, List.prefix_append ..⟩
  injective v w hv hw he :=
    (c.encode_append_inj (s := []) ((h v).mpr hv) ((h w).mpr hw) (by rw [he])).1

section Valid

theorem vecCodec_valid (bytes : List UInt8) : vecCodec.valid bytes ↔ bytes.length < 2 ^ 64 := by
  change (bytes.length < 256 ^ 8 ∧ ∀ a ∈ bytes, True) ↔ _
  simp

theorem bytesCodec_valid {n : ℕ} (v : Bytes n) : (Bytes.codec n).valid v := fun _ _ => trivial

theorem uint64_valid (n : UInt64) : Codec.uint64.valid n := by exact n.toNat_lt

theorem index_valid {w n : ℕ} (hn : n ≤ 256 ^ w) (i : Fin n) : (Codec.index w n).valid i :=
  i.isLt.trans_le hn

end Valid

def Envelope.Representable (e : Envelope) : Prop := e.paddedCiphertext.length < 2 ^ 64

theorem Envelope.valid_iff (e : Envelope) : Envelope.codec.valid e ↔ e.Representable := by
  change ((Bytes.codec 16).valid _ ∧ True ∧ vecCodec.valid _) ↔ _
  rw [vecCodec_valid]
  simp [bytesCodec_valid, Representable]

def AttestationToken.Representable (t : AttestationToken) : Prop :=
  (-2 ^ 63 ≤ t.expiresAt ∧ t.expiresAt < 2 ^ 63) ∧ t.signature.length < 2 ^ 64

theorem AttestationToken.valid_iff (t : AttestationToken) :
    AttestationToken.codec.valid t ↔ t.Representable := by
  change ((Bytes.codec 16).valid _ ∧ Codec.int64.valid _ ∧ vecCodec.valid _) ↔ _
  rw [vecCodec_valid]
  exact and_iff_right (bytesCodec_valid _)

namespace ClientMessage

def Representable : ClientMessage → Prop
  | .sendToMailbox _ _ envelope => envelope.Representable
  | .sendToGroupInbox _ _ _ envelope => envelope.Representable
  | .subscribe queueIds => queueIds.length < 2 ^ 64
  | .ack _ _ => True
  | .requestPowChallenge => True
  | .createMailbox _ attestation => ∀ t ∈ attestation, t.Representable
  | .createGroupInbox _ _ fanOutTo attestation =>
    fanOutTo.length < 2 ^ 64 ∧ ∀ t ∈ attestation, t.Representable

theorem queueIds_valid (ids : List QueueId) :
    ((Bytes.codec 32).list 8).valid ids ↔ ids.length < 2 ^ 64 := by
  change (ids.length < 256 ^ 8 ∧ ∀ a ∈ ids, (Bytes.codec 32).valid a) ↔ _
  simp [bytesCodec_valid]

theorem attestation_valid (attestation : Option AttestationToken) :
    AttestationToken.codec.option.valid attestation ↔ ∀ t ∈ attestation, t.Representable :=
  forall₂_congr fun t _ => t.valid_iff

theorem kind_valid (kind : GroupSendKind) : GroupSendKind.codec.valid kind := by
  cases kind with
  | commit epoch => exact ⟨index_valid (by decide) 0, uint64_valid epoch⟩
  | application => exact ⟨index_valid (by decide) 1, trivial⟩

theorem solution_valid (solution : PowSolution) : PowSolution.codec.valid solution :=
  ⟨bytesCodec_valid _, uint64_valid _⟩

theorem valid_iff (msg : ClientMessage) : codec.valid msg ↔ msg.Representable := by
  have tag : ∀ i : Fin 7, (Codec.index 4 7).valid i := index_valid (by decide)
  have bytes : ∀ {n : ℕ} (v : Bytes n), (Bytes.codec n).valid v := bytesCodec_valid
  cases msg with
  | sendToMailbox queueId authTag envelope =>
    change (_ ∧ (Bytes.codec 32).valid _ ∧ (Bytes.codec 32).valid _ ∧
      Envelope.codec.valid envelope) ↔ _
    simp only [tag, bytes, true_and, envelope.valid_iff, Representable]
  | sendToGroupInbox queueId kind authTag envelope =>
    change (_ ∧ (Bytes.codec 32).valid _ ∧ GroupSendKind.codec.valid _ ∧
      (Bytes.codec 32).valid _ ∧ Envelope.codec.valid envelope) ↔ _
    simp only [tag, bytes, kind_valid, true_and, envelope.valid_iff, Representable]
  | subscribe queueIds =>
    change (_ ∧ ((Bytes.codec 32).list 8).valid queueIds) ↔ _
    simp only [tag, true_and, queueIds_valid, Representable]
  | ack =>
    change (_ ∧ (Bytes.codec 32).valid _ ∧ (Bytes.codec 16).valid _) ↔ _
    simp only [tag, bytes, true_and, Representable]
  | requestPowChallenge =>
    change (_ ∧ True) ↔ _
    simp only [tag, true_and, Representable]
  | createMailbox solution attestation =>
    change (_ ∧ PowSolution.codec.valid _ ∧ AttestationToken.codec.option.valid attestation) ↔ _
    simp only [tag, solution_valid, true_and, attestation_valid, Representable]
  | createGroupInbox solution initialEpoch fanOutTo attestation =>
    change (_ ∧ PowSolution.codec.valid _ ∧ Codec.uint64.valid _ ∧
      ((Bytes.codec 32).list 8).valid fanOutTo ∧
        AttestationToken.codec.option.valid attestation) ↔ _
    simp only [tag, solution_valid, uint64_valid, true_and, queueIds_valid, attestation_valid,
      Representable]

end ClientMessage

def ClientFrame.Representable (f : ClientFrame) : Prop := f.message.Representable

theorem ClientFrame.valid_iff (f : ClientFrame) : ClientFrame.codec.valid f ↔ f.Representable := by
  change (Codec.uint64.valid _ ∧ ClientMessage.codec.valid _) ↔ _
  rw [ClientMessage.valid_iff]
  exact and_iff_right (uint64_valid _)

def ServerMessage.Representable : ServerMessage → Prop
  | .powChallenge challenge => challenge.difficulty < 2 ^ 8
  | _ => True

theorem ServerMessage.valid_iff (m : ServerMessage) :
    ServerMessage.codec.valid m ↔ m.Representable := by
  have tag : ∀ i : Fin 4, (Codec.index 4 4).valid i := index_valid (by decide)
  have bytes : ∀ {n : ℕ} (v : Bytes n), (Bytes.codec n).valid v := bytesCodec_valid
  cases m with
  | ok | error =>
    change (_ ∧ True) ↔ _
    simp only [tag, true_and, Representable]
  | powChallenge challenge =>
    change (_ ∧ (Bytes.codec 32).valid _ ∧ challenge.difficulty < 256 ^ 1) ↔ _
    simp only [tag, bytes, Representable]
    norm_num
  | queueCreated =>
    change (_ ∧ (Bytes.codec 32).valid _ ∧ (Bytes.codec 32).valid _) ↔ _
    simp only [tag, bytes, true_and, Representable]

def ServerFrame.Representable : ServerFrame → Prop
  | .reply _ message => message.Representable
  | .push _ envelope => envelope.Representable

theorem ServerFrame.valid_iff (f : ServerFrame) : ServerFrame.codec.valid f ↔ f.Representable := by
  have tag : ∀ i : Fin 2, (Codec.index 4 2).valid i := index_valid (by decide)
  cases f with
  | reply requestId message =>
    change (_ ∧ Codec.uint64.valid _ ∧ ServerMessage.codec.valid _) ↔ _
    simp only [tag, uint64_valid, true_and, message.valid_iff, Representable]
  | push queueId envelope =>
    change (_ ∧ (Bytes.codec 32).valid _ ∧ Envelope.codec.valid _) ↔ _
    simp only [tag, bytesCodec_valid, true_and, envelope.valid_iff, Representable]

def ContactLink.Representable (link : ContactLink) : Prop :=
  link.keyPackage.length < 2 ^ 64 ∧ link.endpoints.length < 2 ^ 64 ∧
    ∀ e ∈ link.endpoints, e.relayAddr.toByteArray.size < 2 ^ 64

theorem ContactLink.valid_iff (link : ContactLink) :
    ContactLink.codec.valid link ↔ link.Representable := by
  change (True ∧ vecCodec.valid _ ∧ link.endpoints.length < 256 ^ 8 ∧
    ∀ e ∈ link.endpoints, vecCodec.valid e.relayAddr.toByteArray.data.toList ∧
      (Bytes.codec 32).valid _ ∧ (Bytes.codec 32).valid _ ∧ (Bytes.codec 32).valid _) ↔ _
  simp only [vecCodec_valid, bytesCodec_valid, true_and, and_true, Representable,
    Array.length_toList, ByteArray.size]
  norm_num

/-- What the tag of a send is computed over. -/
def authenticatedBytes (queueId : QueueId) (envelope : Envelope) : List UInt8 :=
  queueId.toList ++ Envelope.codec.encode envelope

theorem authenticatedBytes_injective {q q' : QueueId} {e e' : Envelope} (he : e.Representable)
    (he' : e'.Representable) (h : authenticatedBytes q e = authenticatedBytes q' e') :
    q = q' ∧ e = e' := by
  have hlen : q.toList.length = q'.toList.length := by simp
  obtain ⟨hq, hbytes⟩ := List.append_inj h hlen
  exact ⟨List.Vector.toList_injective hq,
    (Canonical.of_valid Envelope.valid_iff).injective e e' he he' hbytes⟩

/-- Frames, envelopes and links are read back from their bytes whatever follows, and only from
their bytes; so no two of them share their bytes, and what a tag is computed over says which
queue and which envelope were meant. -/
theorem wire_encoding_canonical :
    Canonical ClientFrame.codec ClientFrame.Representable ∧
    Canonical ServerFrame.codec ServerFrame.Representable ∧
    Canonical Envelope.codec Envelope.Representable ∧
    Canonical ContactLink.codec ContactLink.Representable ∧
    ∀ (c : Crypto) (sendKey : SendKey) (q : QueueId) (e : Envelope), e.Representable →
      computeTag c sendKey q e = c.hmacSha256 sendKey.toList (authenticatedBytes q e) ∧
      ∀ q' e', e'.Representable → authenticatedBytes q e = authenticatedBytes q' e' →
        q = q' ∧ e = e' :=
  ⟨.of_valid ClientFrame.valid_iff, .of_valid ServerFrame.valid_iff, .of_valid Envelope.valid_iff,
    .of_valid ContactLink.valid_iff,
    fun _ _ _ _ he => ⟨rfl, fun _ _ he' h => authenticatedBytes_injective he he' h⟩⟩

end Rosette.Proto
