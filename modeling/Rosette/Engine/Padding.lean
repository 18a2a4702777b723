import Rosette.Engine.Machine
import Rosette.Relay.Emitted

/-! # Padding

What leaves a device is as long as one of five buckets. Nobody strips the zeros again: the reader
of a payload stops where the payload ends, and the relay's size limit is the largest bucket.
-/
namespace Rosette.Engine
open Foundation Proto Rosette.Core List

theorem pad_isSome (w : List UInt8) : (pad w).isSome = true ↔ w.length ≤ maxMessageSize := by
  rw [pad, Option.isSome_map, paddedBucketFor, find?_isSome]
  constructor
  · rintro ⟨b, hb, hle⟩
    have hmax : ∀ b ∈ paddingBuckets, b ≤ maxMessageSize := by decide
    exact (of_decide_eq_true hle).trans (hmax b hb)
  · exact fun h => ⟨maxMessageSize, by decide, decide_eq_true h⟩

theorem paddedBucketFor_least {n b b' : ℕ} (h : paddedBucketFor n = some b)
    (hb' : b' ∈ paddingBuckets) (hle : n ≤ b') : b ≤ b' := by
  obtain ⟨-, before, after, hsplit, hnot⟩ := find?_eq_some_iff_append.mp h
  have hsorted : paddingBuckets.Pairwise (· ≤ ·) := by decide
  rw [hsplit] at hb' hsorted
  rcases mem_append.mp hb' with hmem | hmem
  · have := hnot b' hmem
    simp only [Bool.not_eq_true', decide_eq_false_iff_not] at this
    exact absurd hle this
  · rcases mem_cons.mp hmem with rfl | hmem
    · exact le_rfl
    · exact (pairwise_cons.mp (pairwise_append.mp hsorted).2.1).1 b' hmem

theorem pad_length {w p : List UInt8} (h : pad w = some p) :
    paddedBucketFor w.length = some p.length := by
  obtain ⟨b, hb, rfl⟩ := Option.map_eq_some_iff.mp h
  rw [hb, length_append, length_replicate, Nat.add_sub_cancel' (paddedBucketFor_le hb).1]

theorem length_encode_payload (payload : BootstrapPayload) :
    (BootstrapPayload.codec.encode payload).length =
      payload.welcomeWire.length + payload.treeWire.length + 80 := by
  change ((Codec.leBytes 8 _ ++ Codec.byte.encodeAll payload.welcomeWire) ++
    ((Codec.leBytes 8 _ ++ Codec.byte.encodeAll payload.treeWire) ++
      ((Bytes.codec 32).encode payload.inboxQid ++
        (Bytes.codec 32).encode payload.inboxKey))).length = _
  simp only [length_append, length_encode_bytes, Codec.leBytes_length,
    Codec.length_encodeAll Codec.byte (fun _ => rfl)]
  omega

theorem payload_valid {payload : BootstrapPayload}
    (h : (BootstrapPayload.codec.encode payload).length ≤ maxMessageSize) :
    BootstrapPayload.codec.valid payload := by
  rw [length_encode_payload] at h
  unfold maxMessageSize at h
  refine ⟨⟨?_, fun _ _ => trivial⟩, ⟨?_, fun _ _ => trivial⟩, fun _ _ => trivial,
    fun _ _ => trivial⟩
  · change payload.welcomeWire.length < 256 ^ 8
    omega
  · change payload.treeWire.length < 256 ^ 8
    omega

theorem length_encode_sends (id : UInt64) (q : QueueId) (kind : GroupSendKind) (tag : AuthTag)
    (e : Envelope) :
    (ClientFrame.codec.encode ⟨id, .sendToMailbox q tag e⟩).length ≤
        116 + e.paddedCiphertext.length ∧
      (ClientFrame.codec.encode ⟨id, .sendToGroupInbox q kind tag e⟩).length ≤
        116 + e.paddedCiphertext.length := by
  have hkind : (GroupSendKind.codec.encode kind).length ≤ 12 := by
    cases kind with
    | commit =>
      change (Codec.leBytes 4 _ ++ Codec.leBytes 8 _).length ≤ _
      simp
    | application =>
      change (Codec.leBytes 4 _ ++ []).length ≤ _
      simp
  constructor
  · change (Codec.leBytes 8 _ ++ (Codec.leBytes 4 _ ++ ((Bytes.codec 32).encode q ++
      ((Bytes.codec 32).encode tag ++ Envelope.codec.encode e)))).length ≤ _
    simp only [length_append, length_encode_bytes, Codec.leBytes_length,
      Relay.length_encode_envelope]
    omega
  · change (Codec.leBytes 8 _ ++ (Codec.leBytes 4 _ ++ ((Bytes.codec 32).encode q ++
      (GroupSendKind.codec.encode kind ++ ((Bytes.codec 32).encode tag ++
        Envelope.codec.encode e))))).length ≤ _
    simp only [length_append, length_encode_bytes, Codec.leBytes_length,
      Relay.length_encode_envelope]
    omega

/-- The relay takes an envelope of this size in a frame, and does not refuse it as too large. -/
def SizeAccepted (c : Crypto) (e : Envelope) : Prop :=
  ∀ id amb s q kind tag,
    (ClientFrame.codec.encode ⟨id, .sendToMailbox q tag e⟩).length ≤ 2 * maxMessageSize ∧
    (ClientFrame.codec.encode ⟨id, .sendToGroupInbox q kind tag e⟩).length ≤ 2 * maxMessageSize ∧
    (Relay.RelayState.sendToMailbox c amb s q tag e).2 ≠ .answer (.error .messageTooLarge) ∧
    (Relay.RelayState.sendToGroupInbox c amb s q kind tag e).2 ≠
      .answer (.error .messageTooLarge)

theorem sizeAccepted (c : Crypto) {e : Envelope} (h : e.paddedCiphertext.length ≤ maxMessageSize) :
    SizeAccepted c e := by
  intro id amb s q kind tag
  obtain ⟨hmailbox, hinbox⟩ := length_encode_sends id q kind tag e
  have hroom : 116 + maxMessageSize ≤ 2 * maxMessageSize := by decide
  refine ⟨by omega, by omega, fun hlarge => ?_, fun hlarge => ?_⟩
  · have hsend := Relay.RelayState.mailboxSend c amb s q tag e
    generalize Relay.RelayState.sendToMailbox c amb s q tag e = out at hsend hlarge
    cases hsend with
    | tooLarge => omega
    | _ => cases hlarge
  · have hsend := Relay.RelayState.inboxSend c amb s q tag e kind
    generalize Relay.RelayState.sendToGroupInbox c amb s q kind tag e = out at hsend hlarge
    cases hsend with
    | tooLarge => omega
    | _ => cases hlarge

/-- Padding succeeds up to the size limit, adds zeros up to the smallest bucket and so shows the
bucket alone. A payload that fits is read back from its padded bytes, and the relay takes them. -/
theorem padding_hides_length (c : Crypto) :
    (∀ w, (pad w).isSome = true ↔ w.length ≤ 65536) ∧
    (∀ w p, pad w = some p → (∃ k, p = w ++ replicate k 0) ∧ p.length ∈ paddingBuckets ∧
      w.length ≤ p.length ∧ ∀ b ∈ paddingBuckets, w.length ≤ b → p.length ≤ b) ∧
    (∀ w w' p p', pad w = some p → pad w' = some p' →
      paddedBucketFor w.length = paddedBucketFor w'.length → p.length = p'.length) ∧
    ∀ payload : BootstrapPayload, (BootstrapPayload.codec.encode payload).length ≤ 65536 →
      ∃ e, wrap c (BootstrapPayload.codec.encode payload) = some e ∧
        decodeFrom BootstrapPayload.codec e.paddedCiphertext = some payload ∧ SizeAccepted c e := by
  refine ⟨pad_isSome, fun w p hp => ?_, fun w w' p p' hp hp' hb => ?_, fun payload hsize => ?_⟩
  · obtain ⟨k, hk, -⟩ := pad_eq_append hp
    have hlen := pad_length hp
    exact ⟨⟨k, hk⟩, mem_of_find?_eq_some hlen, (paddedBucketFor_le hlen).1,
      fun b hb hle => paddedBucketFor_least hlen hb hle⟩
  · rw [pad_length hp, pad_length hp'] at hb
    exact Option.some.inj hb
  · obtain ⟨p, hp⟩ := Option.isSome_iff_exists.mp ((pad_isSome _).mpr hsize)
    obtain ⟨k, hk, hmax⟩ := pad_eq_append hp
    refine ⟨⟨messageIdFor c _, .relayFanout, p⟩, by rw [wrap, hp]; rfl, ?_, sizeAccepted c hmax⟩
    rw [hk]
    exact decodeFrom_encode _ payload _ (payload_valid hsize)

theorem padding_hides_length_welcome :
    (BootstrapPayload.codec.encode ⟨[4, 5, 1, 9], [5], .fill 6, .fill 7⟩).length ≤ 65536 ∧
    ∃ e, wrap .plain (BootstrapPayload.codec.encode ⟨[4, 5, 1, 9], [5], .fill 6, .fill 7⟩) =
      some e ∧
      decodeFrom BootstrapPayload.codec e.paddedCiphertext =
        some ⟨[4, 5, 1, 9], [5], .fill 6, .fill 7⟩ ∧ SizeAccepted .plain e := by
  have hsize : (BootstrapPayload.codec.encode ⟨[4, 5, 1, 9], [5], .fill 6, .fill 7⟩).length ≤
      65536 := by rw [length_encode_payload]; decide
  exact ⟨hsize, (padding_hides_length .plain).2.2.2 _ hsize⟩

end Rosette.Engine
