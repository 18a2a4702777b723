import Rosette.Relay.Database
import Mathlib.Data.Finmap

/-! # Relay state and the requests it answers

One mutex guards the whole state, so a request is a single transition. A request
that changes durable state does so in two stages: its statement or transaction
runs against the database, then the in-memory state follows. Everything before
that only reads, except for the abuse bookkeeping (challenges, spent tokens, rate
windows).

A failed `expect` unwinds while the mutex is held and poisons it. So does an integer
overflow: the relay is a build that checks for it, the directory a release build, in which
integers wrap.
-/
namespace Rosette.Relay
open Foundation Proto

abbrev ChannelId := ℕ

abbrev Push := QueueId × MessageId × Envelope

/-- The receiving half of a push channel and what was sent but not yet taken from it. -/
structure Channel where
  receiving : Bool
  queue : List Push

inductive QueueKind where
  | mailbox (pending : List (MessageId × Envelope))
  | groupInbox (epoch : UInt64) (fanOutTo : List QueueId)
deriving DecidableEq

structure QueueEntry where
  sendKey : SendKey
  kind : QueueKind
  sentThisMinute : ℕ
  windowStarted : ℕ
deriving DecidableEq

def rateWindow : ℕ := 60 * 10 ^ 9

def QueueEntry.checkAndBumpRateLimit (e : QueueEntry) (now : ℕ) :
    Except RejectionCode Unit × QueueEntry :=
  let e := if rateWindow ≤ now - e.windowStarted then
    { e with windowStarted := now, sentThisMinute := 0 } else e
  if rateLimitPerQueuePerMinute ≤ e.sentThisMinute then (.error .rateLimited, e)
  else (.ok (), { e with sentThisMinute := e.sentThisMinute + 1 })

abbrev Queues := Finmap (fun _ : QueueId => QueueEntry)

/-- The state behind the mutex. An absent subscriber list and an empty one are the same. -/
structure Inner where
  queues : Queues
  subscribers : QueueId → List ChannelId
  outstandingChallenges : Finmap (fun _ : Bytes 32 => ℕ)
  challengeOrder : List (Bytes 32)
  storageBytesUsed : ℕ
  db : Option Database
  attestationKey : Option (Bytes 32)
  spentTokens : Bytes 16 → Option ℤ

structure RelayState where
  inner : Inner
  channels : ChannelId → Channel
  poisoned : Bool

/-- The memory-only relay. -/
def Inner.default : Inner where
  queues := ∅
  subscribers := fun _ => []
  outstandingChallenges := ∅
  challengeOrder := []
  storageBytesUsed := 0
  db := none
  attestationKey := none
  spentTokens := fun _ => none

/-- What one request reads from outside the state: the two clocks and the random draws. -/
structure Ambient where
  now : ℕ
  nowUnix : ℤ
  ids : List QueueId
  sendKey : SendKey
  challenge : Bytes 32

/-- A change the relay makes durable before it answers. -/
inductive Mutation where
  | createMailbox (queueId : QueueId) (sendKey : SendKey)
  | createGroupInbox (queueId : QueueId) (sendKey : SendKey) (initialEpoch : UInt64)
      (fanOutTo : List QueueId)
  | sendToMailbox (queueId : QueueId) (envelope : Envelope)
  | sendToGroupInbox (queueId : QueueId) (kind : GroupSendKind) (envelope : Envelope)
      (fanOutTo : List QueueId)
  | ack (queueId : QueueId) (messageId : MessageId)

/-- How a request goes on once it holds the lock and has made its checks. -/
inductive Plan where
  | answer (reply : ServerMessage)
  | write (mutation : Mutation)
  | panic
  | spin

namespace RelayState
variable (c : Crypto) (amb : Ambient)

def setEntry (s : RelayState) (q : QueueId) (e : QueueEntry) : RelayState :=
  { s with inner := { s.inner with queues := s.inner.queues.insert q e } }

/-- Drop the oldest challenges until there is room for one more. -/
def evictChallenges : List (Bytes 32) → Finmap (fun _ : Bytes 32 => ℕ) →
    List (Bytes 32) × Finmap (fun _ : Bytes 32 => ℕ)
  | [], m => ([], m)
  | o :: os, m =>
    if maxOutstandingPowChallenges ≤ (o :: os).length then evictChallenges os (m.erase o)
    else (o :: os, m)

def issuePowChallenge (s : RelayState) : RelayState × Plan :=
  let challenge : PowChallenge := ⟨amb.challenge, queueCreationPowDifficulty⟩
  let kept := evictChallenges s.inner.challengeOrder s.inner.outstandingChallenges
  ({ s with inner := { s.inner with
      outstandingChallenges := kept.2.insert challenge.challenge challenge.difficulty
      challengeOrder := kept.1 ++ [challenge.challenge] } },
    .answer (.powChallenge challenge))

/-- The gate is off without a configured key. Expired nonces are pruned before the replay check. -/
def consumeAttestation (inner : Inner) (token : Option AttestationToken) :
    Except RejectionCode Unit × Inner :=
  match inner.attestationKey, token with
  | none, _ => (.ok (), inner)
  | some _, none => (.error .invalidAttestation, inner)
  | some key, some token =>
    if token.isExpired amb.nowUnix || !token.signatureValid c key then
      (.error .invalidAttestation, inner)
    else
      let spent := fun nonce => (inner.spentTokens nonce).filter (fun exp => amb.nowUnix < exp)
      if (spent token.nonce).isSome then
        (.error .invalidAttestation, { inner with spentTokens := spent })
      else
        (.ok (), { inner with
          spentTokens := Function.update spent token.nonce (some token.expiresAt) })

/-- A challenge is spent by the attempt, whatever its outcome. `none` is a counter overflow. -/
def consumePow (inner : Inner) (solution : PowSolution) :
    Option (Except RejectionCode Unit) × Inner :=
  match inner.outstandingChallenges.lookup solution.challenge with
  | none => (some (.error .invalidProofOfWork), inner)
  | some difficulty =>
    let inner := { inner with
      outstandingChallenges := inner.outstandingChallenges.erase solution.challenge }
    match PowChallenge.verify c ⟨solution.challenge, difficulty⟩ solution with
    | none => (none, inner)
    | some true => (some (.ok ()), inner)
    | some false => (some (.error .invalidProofOfWork), inner)

/-- The loop leaves with the first draw that names no queue; `none` if it never leaves. -/
def freshQueueId (inner : Inner) : Option QueueId :=
  amb.ids.find? (fun id => (inner.queues.lookup id).isNone)

/-- Both gates, then the fresh id: the common front of the two creation requests. -/
def admitQueue (s : RelayState) (solution : PowSolution) (attestation : Option AttestationToken)
    (mutation : QueueId → Mutation) : RelayState × Plan :=
  if s.poisoned then (s, .panic) else
  match consumeAttestation c amb s.inner attestation with
  | (.error code, inner) => ({ s with inner := inner }, .answer (.error code))
  | (.ok _, inner) =>
    match consumePow c inner solution with
    | (none, inner) => ({ s with inner := inner }, .panic)
    | (some (.error code), inner) => ({ s with inner := inner }, .answer (.error code))
    | (some (.ok _), inner) =>
      match freshQueueId amb inner with
      | none => ({ s with inner := inner }, .spin)
      | some id => ({ s with inner := inner }, .write (mutation id))

def createMailbox (s : RelayState) (solution : PowSolution)
    (attestation : Option AttestationToken) : RelayState × Plan :=
  admitQueue c amb s solution attestation (fun id => .createMailbox id amb.sendKey)

def createGroupInbox (s : RelayState) (solution : PowSolution) (initialEpoch : UInt64)
    (fanOutTo : List QueueId) (attestation : Option AttestationToken) : RelayState × Plan :=
  admitQueue c amb s solution attestation
    (fun id => .createGroupInbox id amb.sendKey initialEpoch fanOutTo)

/-- A send on a channel whose receiver is gone fails and changes nothing. -/
def sendPush (channels : ChannelId → Channel) (tx : ChannelId) (p : Push) : ChannelId → Channel :=
  if (channels tx).receiving then
    Function.update channels tx { channels tx with queue := (channels tx).queue ++ [p] }
  else channels

/-- Register, dropping closed senders and this connection's own earlier one. -/
def registerSubscriber (s : RelayState) (tx : ChannelId) (q : QueueId) : RelayState :=
  { s with inner := { s.inner with
    subscribers := Function.update s.inner.subscribers q
      ((s.inner.subscribers q).filter (fun e => (s.channels e).receiving ∧ e ≠ tx) ++ [tx]) } }

def pendingOf (s : RelayState) (q : QueueId) : List (MessageId × Envelope) :=
  match s.inner.queues.lookup q with
  | some ⟨_, .mailbox pending, _, _⟩ => pending
  | _ => []

def drainBacklog (s : RelayState) (tx : ChannelId) (q : QueueId) : RelayState :=
  { s with
    channels := (s.pendingOf q).foldl
      (fun channels p => sendPush channels tx (q, p.1, p.2)) s.channels }

/-- A failed send ends the drain; every later one would fail too. -/
def subscribe (s : RelayState) (queueIds : List QueueId) (tx : ChannelId) : RelayState :=
  let s := queueIds.foldl (fun s q => s.registerSubscriber tx q) s
  queueIds.foldl (fun s q => s.drainBacklog tx q) s

/-- `none` is the overflow of the 64-bit product. -/
def wouldExceedStorageBound (inner : Inner) (envelopeLen targets : ℕ) : Option Bool :=
  if envelopeLen * targets < 2 ^ 64 then
    some (maxStorageBytes < min (inner.storageBytesUsed + envelopeLen * targets) (2 ^ 64 - 1))
  else none

def sendToMailbox (s : RelayState) (queueId : QueueId) (authTag : AuthTag) (envelope : Envelope) :
    RelayState × Plan :=
  if maxMessageSize < envelope.paddedCiphertext.length then
    (s, .answer (.error .messageTooLarge))
  else if s.poisoned then (s, .panic) else
  match s.inner.queues.lookup queueId with
  | none => (s, .answer (.error .queueNotFound))
  | some entry =>
    match entry.kind with
    | .groupInbox _ _ => (s, .answer (.error .queueNotFound))
    | .mailbox pending =>
      if !verifyTag c entry.sendKey queueId envelope authTag then
        (s, .answer (.error .unauthorized))
      else if maxQueueDepth ≤ pending.length then (s, .answer (.error .queueFull))
      else
        match entry.checkAndBumpRateLimit amb.now with
        | (.error code, entry) => (s.setEntry queueId entry, .answer (.error code))
        | (.ok _, entry) =>
          let s := s.setEntry queueId entry
          match wouldExceedStorageBound s.inner envelope.paddedCiphertext.length 1 with
          | none => (s, .panic)
          | some true => (s, .answer (.error .storageBoundExceeded))
          | some false => (s, .write (.sendToMailbox queueId envelope))

/-- A commit must target the current epoch; an application message never conflicts. -/
def conflicts (kind : GroupSendKind) (currentEpoch : UInt64) : Bool :=
  match kind with
  | .commit targetEpoch => targetEpoch ≠ currentEpoch
  | .application => false

def sendToGroupInbox (s : RelayState) (queueId : QueueId) (kind : GroupSendKind) (authTag : AuthTag)
    (envelope : Envelope) : RelayState × Plan :=
  if maxMessageSize < envelope.paddedCiphertext.length then
    (s, .answer (.error .messageTooLarge))
  else if s.poisoned then (s, .panic) else
  match s.inner.queues.lookup queueId with
  | none => (s, .answer (.error .groupInboxNotFound))
  | some entry =>
    if !verifyTag c entry.sendKey queueId envelope authTag then
      (s, .answer (.error .unauthorized))
    else
      match entry.kind with
      | .mailbox _ => (s, .answer (.error .groupInboxNotFound))
      | .groupInbox currentEpoch roster =>
        if conflicts kind currentEpoch then (s, .answer (.error .epochConflict)) else
        match wouldExceedStorageBound s.inner envelope.paddedCiphertext.length roster.length with
        | none => (s, .panic)
        | some true => (s, .answer (.error .storageBoundExceeded))
        | some false =>
          match entry.checkAndBumpRateLimit amb.now with
          | (.error code, entry) => (s.setEntry queueId entry, .answer (.error code))
          | (.ok _, entry) =>
            (s.setEntry queueId entry, .write (.sendToGroupInbox queueId kind envelope roster))

/-- Everything a request does before its durable write. -/
def plan (s : RelayState) (msg : ClientMessage) (pushTx : Option ChannelId) : RelayState × Plan :=
  match msg with
  | .requestPowChallenge => if s.poisoned then (s, .panic) else issuePowChallenge amb s
  | .createMailbox solution attestation => createMailbox c amb s solution attestation
  | .createGroupInbox solution initialEpoch fanOutTo attestation =>
    createGroupInbox c amb s solution initialEpoch fanOutTo attestation
  | .sendToMailbox queueId authTag envelope => sendToMailbox c amb s queueId authTag envelope
  | .sendToGroupInbox queueId kind authTag envelope =>
    sendToGroupInbox c amb s queueId kind authTag envelope
  | .subscribe queueIds =>
    match pushTx with
    | none => (s, .answer .ok)
    | some tx => if s.poisoned then (s, .panic) else (s.subscribe queueIds tx, .answer .ok)
  | .ack queueId messageId =>
    if s.poisoned then (s, .panic) else (s, .write (.ack queueId messageId))

def isMailbox (queues : Queues) (q : QueueId) : Bool :=
  match queues.lookup q with
  | some ⟨_, .mailbox _, _, _⟩ => true
  | _ => false

end RelayState

open RelayState

/-- The statement or transaction that makes a mutation durable. `none` is a refused one. -/
def Mutation.persist (queues : Queues) (db : Database) : Mutation → Option Database
  | .createMailbox q k => db.insertQueue ⟨q.toList, k.toList, .null⟩
  | .createGroupInbox q k epoch fanOutTo =>
    (bindU64 epoch).bind (fun v => (db.insertQueue ⟨q.toList, k.toList, v⟩).bind
      (fun db => db.insertMembers q 0 fanOutTo))
  | .sendToMailbox q e =>
    some (db.insertPending q.toList e.messageId.toList (Envelope.codec.encode e))
  | .sendToGroupInbox q kind e fanOutTo =>
    let storedTargets := fanOutTo.filter (isMailbox queues)
    let db := match kind with
      | .commit _ => db.advanceEpoch q.toList
      | .application => db
    some (db.insertCopies e.messageId (Envelope.codec.encode e) storedTargets)
  | .ack q id => some (db.deletePending q.toList id.toList)

def Mutation.reply : Mutation → ServerMessage
  | .createMailbox q k => .queueCreated q k
  | .createGroupInbox q k _ _ => .queueCreated q k
  | .sendToMailbox _ _ => .ok
  | .sendToGroupInbox _ _ _ _ => .ok
  | .ack _ _ => .ok

namespace RelayState

/-- Only an existing mailbox stores the envelope, but whoever subscribed to the id is told. -/
def pushAndNotify (s : RelayState) (q : QueueId) (e : Envelope) : RelayState :=
  let s := match s.inner.queues.lookup q with
    | some ⟨k, .mailbox pending, n, w⟩ =>
      let s := s.setEntry q ⟨k, .mailbox (pending ++ [(e.messageId, e)]), n, w⟩
      { s with inner := { s.inner with
        storageBytesUsed := s.inner.storageBytesUsed + e.paddedCiphertext.length } }
    | _ => s
  let subs := s.inner.subscribers q
  { s with
    channels := subs.foldl (fun channels tx => sendPush channels tx (q, e.messageId, e)) s.channels
    inner := { s.inner with
      subscribers := Function.update s.inner.subscribers q
        (subs.filter (fun tx => (s.channels tx).receiving)) } }

def pushAll (s : RelayState) (members : List QueueId) (e : Envelope) : RelayState :=
  members.foldl (fun s member => s.pushAndNotify member e) s

/-- The in-memory advance. `none` is the overflow of the 64-bit epoch. -/
def bumpEpoch (s : RelayState) (q : QueueId) (kind : GroupSendKind) : Option RelayState :=
  match kind, s.inner.queues.lookup q with
  | .commit _, some ⟨k, .groupInbox epoch fanOutTo, n, w⟩ =>
    if epoch.toNat + 1 < 2 ^ 64 then
      some (s.setEntry q ⟨k, .groupInbox (epoch + 1) fanOutTo, n, w⟩)
    else none
  | _, _ => some s

def removeAcked (s : RelayState) (q : QueueId) (id : MessageId) : RelayState :=
  match s.inner.queues.lookup q with
  | some ⟨k, .mailbox pending, n, w⟩ =>
    let freed := ((pending.filter (fun p => p.1 = id)).map
      (fun p => p.2.paddedCiphertext.length)).sum
    let s := s.setEntry q ⟨k, .mailbox (pending.filter (fun p => p.1 ≠ id)), n, w⟩
    { s with inner := { s.inner with storageBytesUsed := s.inner.storageBytesUsed - freed } }
  | _ => s

end RelayState

def Mutation.apply (now : ℕ) (s : RelayState) : Mutation → Option RelayState
  | .createMailbox q k => some (s.setEntry q ⟨k, .mailbox [], 0, now⟩)
  | .createGroupInbox q k epoch fanOutTo =>
    some (s.setEntry q ⟨k, .groupInbox epoch fanOutTo, 0, now⟩)
  | .sendToMailbox q e => some (s.pushAndNotify q e)
  | .sendToGroupInbox q kind e fanOutTo => (s.bumpEpoch q kind).map (fun s => s.pushAll fanOutTo e)
  | .ack q id => some (s.removeAcked q id)

/-- How a request ends for the connection that made it. -/
inductive Handled where
  | answered (reply : ServerMessage)
  | panicked
  | spinning
deriving DecidableEq

namespace RelayState
variable (c : Crypto) (amb : Ambient)

/-- The durable half. A memory-only relay has nothing to write. -/
def persist (s : RelayState) (m : Mutation) : Option RelayState :=
  match s.inner.db with
  | none => some s
  | some db => (m.persist s.inner.queues db).map
      (fun db => { s with inner := { s.inner with db := some db } })

def poison (s : RelayState) : RelayState := { s with poisoned := true }

/-- Carry out what a request planned. -/
def finish (s : RelayState) : Plan → RelayState × Handled
  | .answer reply => (s, .answered reply)
  | .spin => (s, .spinning)
  | .panic => (s.poison, .panicked)
  | .write m =>
    match s.persist m with
    | none => (s.poison, .panicked)
    | some t =>
      match m.apply amb.now t with
      | none => (t.poison, .panicked)
      | some u => (u, .answered m.reply)

def handle (s : RelayState) (msg : ClientMessage) (pushTx : Option ChannelId) :
    RelayState × Handled :=
  finish amb (plan c amb s msg pushTx).1 (plan c amb s msg pushTx).2

/-- The state of a request that has made its durable write and not yet updated memory. -/
def midway (s : RelayState) (msg : ClientMessage) : Option (RelayState × Mutation) :=
  match plan c amb s msg none with
  | (t, .write m) => (t.persist m).map (fun u => (u, m))
  | _ => none

end RelayState
end Rosette.Relay
