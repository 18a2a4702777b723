import Rosette.Proto.Wire

/-! # Frames

A client's request on the wire: its id and the message, in the shared byte format,
behind a four-byte length. A reader refuses a frame over the ceiling before it
reads it, so no list in a request is longer than a frame.
-/
namespace Rosette.Proto
open Foundation

def PowSolution.codec : Codec PowSolution :=
  ((Bytes.codec 32).pair Codec.uint64).map (fun p => ⟨p.1, p.2⟩)
    (fun s => (s.challenge, s.nonce)) (fun _ => rfl) (fun _ _ => rfl)

def AttestationToken.codec : Codec AttestationToken :=
  ((Bytes.codec 16).pair (Codec.int64.pair vecCodec)).map (fun p => ⟨p.1, p.2.1, p.2.2⟩)
    (fun t => (t.nonce, t.expiresAt, t.signature)) (fun _ => rfl) (fun _ _ => rfl)

def GroupSendKind.Fields : Fin 2 → Type
  | 0 => UInt64
  | 1 => Unit

def GroupSendKind.fields : (i : Fin 2) → Codec (Fields i)
  | 0 => Codec.uint64
  | 1 => Codec.unit

def GroupSendKind.codec : Codec GroupSendKind :=
  ((Codec.index 4 2).sigma fields).map
    (fun
      | ⟨0, epoch⟩ => .commit epoch
      | ⟨1, _⟩ => .application)
    (fun
      | .commit epoch => ⟨0, epoch⟩
      | .application => ⟨1, ()⟩)
    (by rintro (_ | _) <;> rfl)
    (by
      rintro ⟨i, x⟩ _
      fin_cases i <;> rfl)

namespace ClientMessage

def Fields : Fin 7 → Type
  | 0 => QueueId × AuthTag × Envelope
  | 1 => QueueId × GroupSendKind × AuthTag × Envelope
  | 2 => List QueueId
  | 3 => QueueId × MessageId
  | 4 => Unit
  | 5 => PowSolution × Option AttestationToken
  | 6 => PowSolution × UInt64 × List QueueId × Option AttestationToken

def fields : (i : Fin 7) → Codec (Fields i)
  | 0 => (Bytes.codec 32).pair ((Bytes.codec 32).pair Envelope.codec)
  | 1 => (Bytes.codec 32).pair (GroupSendKind.codec.pair ((Bytes.codec 32).pair Envelope.codec))
  | 2 => (Bytes.codec 32).list 8
  | 3 => (Bytes.codec 32).pair (Bytes.codec 16)
  | 4 => Codec.unit
  | 5 => PowSolution.codec.pair AttestationToken.codec.option
  | 6 => PowSolution.codec.pair (Codec.uint64.pair (((Bytes.codec 32).list 8).pair
      AttestationToken.codec.option))

/-- The variant's number and its fields. -/
def toFields : ClientMessage → Sigma Fields
  | .sendToMailbox queueId authTag envelope => ⟨0, queueId, authTag, envelope⟩
  | .sendToGroupInbox queueId kind authTag envelope => ⟨1, queueId, kind, authTag, envelope⟩
  | .subscribe queueIds => ⟨2, queueIds⟩
  | .ack queueId messageId => ⟨3, queueId, messageId⟩
  | .requestPowChallenge => ⟨4, ()⟩
  | .createMailbox solution attestation => ⟨5, solution, attestation⟩
  | .createGroupInbox solution initialEpoch fanOutTo attestation =>
    ⟨6, solution, initialEpoch, fanOutTo, attestation⟩

def ofFields : Sigma Fields → ClientMessage
  | ⟨0, queueId, authTag, envelope⟩ => .sendToMailbox queueId authTag envelope
  | ⟨1, queueId, kind, authTag, envelope⟩ => .sendToGroupInbox queueId kind authTag envelope
  | ⟨2, queueIds⟩ => .subscribe queueIds
  | ⟨3, queueId, messageId⟩ => .ack queueId messageId
  | ⟨4, _⟩ => .requestPowChallenge
  | ⟨5, solution, attestation⟩ => .createMailbox solution attestation
  | ⟨6, solution, initialEpoch, fanOutTo, attestation⟩ =>
    .createGroupInbox solution initialEpoch fanOutTo attestation

def codec : Codec ClientMessage :=
  ((Codec.index 4 7).sigma fields).map ofFields toFields
    (by rintro (_ | _ | _ | _ | _ | _ | _) <;> rfl)
    (by
      rintro ⟨i, x⟩ _
      fin_cases i <;> rfl)

end ClientMessage

structure ClientFrame where
  requestId : UInt64
  message : ClientMessage
deriving DecidableEq

def ClientFrame.codec : Codec ClientFrame :=
  (Codec.uint64.pair ClientMessage.codec).map (fun p => ⟨p.1, p.2⟩)
    (fun f => (f.requestId, f.message)) (fun _ => rfl) (fun _ _ => rfl)

/-- The variant index is the declaration order. -/
def RejectionCode.index : RejectionCode → ℕ
  | queueFull => 0
  | messageTooLarge => 1
  | rateLimited => 2
  | unauthorized => 3
  | invalidProofOfWork => 4
  | invalidAttestation => 5
  | queueNotFound => 6
  | storageBoundExceeded => 7
  | epochConflict => 8
  | groupInboxNotFound => 9

def RejectionCode.ofIndex : ℕ → Option RejectionCode
  | 0 => some queueFull
  | 1 => some messageTooLarge
  | 2 => some rateLimited
  | 3 => some unauthorized
  | 4 => some invalidProofOfWork
  | 5 => some invalidAttestation
  | 6 => some queueNotFound
  | 7 => some storageBoundExceeded
  | 8 => some epochConflict
  | 9 => some groupInboxNotFound
  | _ => none

def RejectionCode.codec : Codec RejectionCode :=
  Codec.enum 4 index ofIndex (by intro a; cases a <;> rfl)
    (by
      intro n a h
      unfold ofIndex at h
      split at h <;> cases h <;> rfl)
    (by intro a; cases a <;> decide)

/-- The difficulty is a single byte. -/
def PowChallenge.codec : Codec PowChallenge :=
  ((Bytes.codec 32).pair (Codec.le 1)).map (fun p => ⟨p.1, p.2⟩)
    (fun c => (c.challenge, c.difficulty)) (fun _ => rfl) (fun _ _ => rfl)

namespace ServerMessage

def Fields : Fin 4 → Type
  | 0 => Unit
  | 1 => RejectionCode
  | 2 => PowChallenge
  | 3 => QueueId × SendKey

def fields : (i : Fin 4) → Codec (Fields i)
  | 0 => Codec.unit
  | 1 => RejectionCode.codec
  | 2 => PowChallenge.codec
  | 3 => (Bytes.codec 32).pair (Bytes.codec 32)

def toFields : ServerMessage → Sigma Fields
  | .ok => ⟨0, ()⟩
  | .error code => ⟨1, code⟩
  | .powChallenge challenge => ⟨2, challenge⟩
  | .queueCreated queueId sendKey => ⟨3, queueId, sendKey⟩

def ofFields : Sigma Fields → ServerMessage
  | ⟨0, _⟩ => .ok
  | ⟨1, code⟩ => .error code
  | ⟨2, challenge⟩ => .powChallenge challenge
  | ⟨3, queueId, sendKey⟩ => .queueCreated queueId sendKey

def codec : Codec ServerMessage :=
  ((Codec.index 4 4).sigma fields).map ofFields toFields
    (by rintro (_ | _ | _ | _) <;> rfl)
    (by
      rintro ⟨i, x⟩ _
      fin_cases i <;> rfl)

end ServerMessage

inductive ServerFrame where
  | reply (requestId : UInt64) (message : ServerMessage)
  | push (queueId : QueueId) (envelope : Envelope)
deriving DecidableEq

namespace ServerFrame

def Fields : Fin 2 → Type
  | 0 => UInt64 × ServerMessage
  | 1 => QueueId × Envelope

def fields : (i : Fin 2) → Codec (Fields i)
  | 0 => Codec.uint64.pair ServerMessage.codec
  | 1 => (Bytes.codec 32).pair Envelope.codec

def codec : Codec ServerFrame :=
  ((Codec.index 4 2).sigma fields).map
    (fun
      | ⟨0, requestId, message⟩ => .reply requestId message
      | ⟨1, queueId, envelope⟩ => .push queueId envelope)
    (fun
      | .reply requestId message => ⟨0, requestId, message⟩
      | .push queueId envelope => ⟨1, queueId, envelope⟩)
    (by rintro (_ | _) <;> rfl)
    (by
      rintro ⟨i, x⟩ _
      fin_cases i <;> rfl)

end ServerFrame

inductive ReadFrameError where
  | closed
  | tooLarge (len : ℕ)
  | io
  | decode
deriving DecidableEq

/-- Read one frame off the bytes a stream still has before it ends. An end inside the length
counts as a closed stream, an end inside the frame does not. -/
def readFrame {α : Type} (c : Codec α) (stream : List UInt8) :
    Except ReadFrameError (α × List UInt8) :=
  match (Codec.le 4).decode stream with
  | none => .error .closed
  | some (len, rest) =>
    if 2 * maxMessageSize < len then .error (.tooLarge len)
    else if rest.length < len then .error .io
    else
      match decodeFrom c (rest.take len) with
      | none => .error .decode
      | some a => .ok (a, rest.drop len)

/-- The length is cut to four bytes. -/
def writeFrame {α : Type} (c : Codec α) (a : α) : List UInt8 :=
  (Codec.le 4).encode (c.encode a).length ++ c.encode a

/-- Some stream carries the message in a frame that is accepted. -/
def ClientMessage.Framed (msg : ClientMessage) : Prop :=
  ∃ stream requestId rest, readFrame ClientFrame.codec stream = .ok (⟨requestId, msg⟩, rest)

theorem ClientMessage.Framed.of_writeFrame {msg : ClientMessage} (h : readFrame ClientFrame.codec
    (writeFrame ClientFrame.codec ⟨0, msg⟩) = .ok (⟨0, msg⟩, [])) : msg.Framed :=
  ⟨_, _, _, h⟩

theorem readFrame_length {α : Type} {c : Codec α} {stream rest : List UInt8} {a : α}
    (h : readFrame c stream = .ok (a, rest)) : (c.encode a).length ≤ 2 * maxMessageSize := by
  unfold readFrame at h
  split at h
  · cases h
  · rename_i len bytes hlen
    split_ifs at h with hbig hshort
    split at h
    · cases h
    · rename_i a' hread
      obtain ⟨⟨a'', r⟩, hd, rfl⟩ := Option.map_eq_some_iff.mp hread
      have hle := c.length_encode_le hd
      rw [List.length_take] at hle
      cases h
      change (c.encode a'').length ≤ _
      omega

@[simp] theorem length_encode_bytes (n : ℕ) (v : Bytes n) :
    ((Bytes.codec n).encode v).length = n := by
  change (Codec.byte.encodeAll v.toList).length = n
  rw [Codec.length_encodeAll Codec.byte (fun _ => rfl), v.toList_length, Nat.one_mul]

def maxFramedRoster : ℕ := 2 * maxMessageSize / 32

theorem framed_roster {solution : PowSolution} {initialEpoch : UInt64} {fanOutTo : List QueueId}
    {attestation : Option AttestationToken}
    (h : (ClientMessage.createGroupInbox solution initialEpoch fanOutTo attestation).Framed) :
    fanOutTo.length ≤ maxFramedRoster := by
  obtain ⟨stream, requestId, rest, h⟩ := h
  have hl := readFrame_length h
  have hroster : ((Bytes.codec 32).encodeAll fanOutTo).length = 32 * fanOutTo.length :=
    Codec.length_encodeAll _ (length_encode_bytes 32) fanOutTo
  have hpart : ((Bytes.codec 32).encodeAll fanOutTo).length ≤ (ClientFrame.codec.encode
      ⟨requestId, .createGroupInbox solution initialEpoch fanOutTo attestation⟩).length := by
    change _ ≤ (_ ++ (_ ++ (_ ++ (_ ++ ((_ ++ (Bytes.codec 32).encodeAll fanOutTo) ++ _))))).length
    simp only [List.length_append]
    omega
  unfold maxFramedRoster maxMessageSize at *
  omega

end Rosette.Proto
