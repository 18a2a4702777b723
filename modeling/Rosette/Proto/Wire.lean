import Rosette.Proto.Envelope

/-! # Requests, replies and the checks both ends share

The client-relay messages, the relay's resource limits, and the three
cryptographic gates of the protocol: the send tag, the proof of work and the
attestation token. The primitives come from outside the repository and are a
parameter of everything that uses them.
-/
namespace Rosette.Proto
open Foundation

def maxQueueDepth : ℕ := 1000
def maxStorageBytes : ℕ := 10 * 1024 * 1024 * 1024
def rateLimitPerQueuePerMinute : ℕ := 60
def queueCreationPowDifficulty : ℕ := 16
def maxOutstandingPowChallenges : ℕ := 10000

inductive RejectionCode where
  | queueFull
  | messageTooLarge
  | rateLimited
  | unauthorized
  | invalidProofOfWork
  | invalidAttestation
  | queueNotFound
  | storageBoundExceeded
  | epochConflict
  | groupInboxNotFound
deriving DecidableEq, Repr

/-- The hash, the MAC and the signature check the repository takes from other crates. -/
structure Crypto where
  sha256 : List UInt8 → Bytes 32
  hmacSha256 : List UInt8 → List UInt8 → Bytes 32
  ed25519Verify : Bytes 32 → List UInt8 → List UInt8 → Bool

/-- Stand-in primitives to run the model with: the hash keeps the start of its input. -/
def Crypto.plain : Crypto where
  sha256 bytes := ⟨[0, 0] ++ bytes.take 30 ++ List.replicate (30 - (bytes.take 30).length) 0, by
    simp⟩
  hmacSha256 _ _ := List.Vector.replicate 32 0
  ed25519Verify _ _ _ := true

/-- The same, with a MAC that tells keys apart. -/
def Crypto.keyed : Crypto :=
  { Crypto.plain with hmacSha256 := fun key _ => ⟨(key ++ List.replicate 32 0).take 32, by simp⟩ }

section Auth
variable (c : Crypto)

def computeTag (sendKey : SendKey) (queueId : QueueId) (envelope : Envelope) : AuthTag :=
  c.hmacSha256 sendKey.toList (queueId.toList ++ Envelope.codec.encode envelope)

def verifyTag (sendKey : SendKey) (queueId : QueueId) (envelope : Envelope) (tag : AuthTag) :
    Bool :=
  computeTag c sendKey queueId envelope = tag

end Auth

structure PowChallenge where
  challenge : Bytes 32
  difficulty : ℕ
deriving DecidableEq

structure PowSolution where
  challenge : Bytes 32
  nonce : UInt64
deriving DecidableEq

def byteLeadingZeros (b : UInt8) : ℕ := 7 - b.toNat.log2

/-- The running count lives in one byte; `none` is the overflow of that counter. -/
def leadingZeroBitsFrom (count : ℕ) : List UInt8 → Option ℕ
  | [] => some count
  | b :: bs =>
    if b = 0 then if count + 8 < 256 then leadingZeroBitsFrom (count + 8) bs else none
    else if count + byteLeadingZeros b < 256 then some (count + byteLeadingZeros b) else none

def leadingZeroBits (bytes : List UInt8) : Option ℕ := leadingZeroBitsFrom 0 bytes

def PowChallenge.verify (c : Crypto) (p : PowChallenge) (solution : PowSolution) : Option Bool :=
  if solution.challenge ≠ p.challenge then some false
  else
    (leadingZeroBits (c.sha256
      (p.challenge.toList ++ Codec.leBytes 8 solution.nonce.toNat)).toList).map
        (fun zeros => p.difficulty ≤ zeros)

structure AttestationToken where
  nonce : Bytes 16
  expiresAt : ℤ
  signature : List UInt8
deriving DecidableEq

/-- Eight big-endian bytes of a signed 64-bit integer, after the nonce. -/
def signedPayload (nonce : Bytes 16) (expiresAt : ℤ) : List UInt8 :=
  nonce.toList ++ (Codec.leBytes 8 (expiresAt % 2 ^ 64).toNat).reverse

def AttestationToken.signatureValid (c : Crypto) (t : AttestationToken) (key : Bytes 32) : Bool :=
  if t.signature.length = 64 then
    c.ed25519Verify key (signedPayload t.nonce t.expiresAt) t.signature
  else false

def AttestationToken.isExpired (t : AttestationToken) (nowUnix : ℤ) : Bool := t.expiresAt ≤ nowUnix

inductive GroupSendKind where
  | commit (epoch : UInt64)
  | application
deriving DecidableEq

inductive ClientMessage where
  | sendToMailbox (queueId : QueueId) (authTag : AuthTag) (envelope : Envelope)
  | sendToGroupInbox (queueId : QueueId) (kind : GroupSendKind) (authTag : AuthTag)
      (envelope : Envelope)
  | subscribe (queueIds : List QueueId)
  | ack (queueId : QueueId) (messageId : MessageId)
  | requestPowChallenge
  | createMailbox (solution : PowSolution) (attestation : Option AttestationToken)
  | createGroupInbox (solution : PowSolution) (initialEpoch : UInt64) (fanOutTo : List QueueId)
      (attestation : Option AttestationToken)
deriving DecidableEq

inductive ServerMessage where
  | ok
  | error (code : RejectionCode)
  | powChallenge (challenge : PowChallenge)
  | queueCreated (queueId : QueueId) (sendKey : SendKey)
deriving DecidableEq

abbrev Exchange := ClientMessage × ServerMessage

end Rosette.Proto
