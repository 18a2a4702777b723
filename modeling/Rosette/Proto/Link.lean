import Rosette.Proto.Envelope

/-! # Contact links

What one QR code carries: a key package and the mailbox its owner listens on. A
link is validated both when it is built and when it is read.
-/
namespace Rosette.Proto
open Foundation

def linkVersionV1 : UInt8 := 1

structure Endpoint where
  relayAddr : String
  relayFingerprint : Bytes 32
  queueId : QueueId
  sendKey : SendKey
deriving DecidableEq

structure ContactLink where
  version : UInt8
  keyPackage : List UInt8
  endpoints : List Endpoint
deriving DecidableEq

inductive LinkError where
  | unsupportedVersion (version : UInt8)
  | noEndpoints
  | emptyKeyPackage
  | decode
deriving DecidableEq

/-- A string is its UTF-8 bytes behind their count; other bytes do not decode. -/
def stringCodec : Codec String :=
  vecCodec.restrict (fun bytes => String.fromUTF8? ⟨⟨bytes⟩⟩) (fun s => s.toByteArray.data.toList)
    (fun s => dif_pos s.isValidUTF8)
    (by
      intro bytes s h
      unfold String.fromUTF8? at h
      split_ifs at h
      obtain rfl := Option.some.inj h
      rfl)

def Endpoint.codec : Codec Endpoint :=
  (stringCodec.pair ((Bytes.codec 32).pair ((Bytes.codec 32).pair (Bytes.codec 32)))).map
    (fun p => ⟨p.1, p.2.1, p.2.2.1, p.2.2.2⟩)
    (fun e => (e.relayAddr, e.relayFingerprint, e.queueId, e.sendKey))
    (fun _ => rfl) (fun _ _ => rfl)

namespace ContactLink

def codec : Codec ContactLink :=
  (Codec.byte.pair (vecCodec.pair (Endpoint.codec.list 8))).map
    (fun p => ⟨p.1, p.2.1, p.2.2⟩) (fun l => (l.version, l.keyPackage, l.endpoints))
    (fun _ => rfl) (fun _ _ => rfl)

def validate (link : ContactLink) : Except LinkError Unit :=
  if link.version ≠ linkVersionV1 then .error (.unsupportedVersion link.version)
  else if link.endpoints.isEmpty then .error .noEndpoints
  else if link.keyPackage.isEmpty then .error .emptyKeyPackage
  else .ok ()

def new (keyPackage : List UInt8) (endpoints : List Endpoint) : Except LinkError ContactLink :=
  let link : ContactLink := ⟨linkVersionV1, keyPackage, endpoints⟩
  match link.validate with
  | .error e => .error e
  | .ok _ => .ok link

def toBytes (link : ContactLink) : List UInt8 := codec.encode link

def fromBytes (bytes : List UInt8) : Except LinkError ContactLink :=
  match decodeFrom codec bytes with
  | none => .error .decode
  | some link =>
    match link.validate with
    | .error e => .error e
    | .ok _ => .ok link

def primaryEndpoint (link : ContactLink) : Option Endpoint := link.endpoints.head?

theorem new_eq_ok {keyPackage : List UInt8} {endpoints : List Endpoint} {link : ContactLink}
    (h : new keyPackage endpoints = .ok link) :
    link = ⟨linkVersionV1, keyPackage, endpoints⟩ ∧ link.validate = .ok () := by
  simp only [new] at h
  split at h
  · cases h
  · rename_i hv
    cases h
    exact ⟨rfl, hv⟩

end ContactLink
end Rosette.Proto
