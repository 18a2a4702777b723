import Rosette.Core.Session
import Rosette.Proto.Link
import Mathlib.Data.Finset.Insert

/-! # The chat engine between its await points

An engine call runs until it awaits something: a push, a reply, a connection. What
it does in between is a function below, named after the code it covers; what it
waits for is its program counter. Dropping the future of a call leaves the engine
as the last such stretch left it.
-/
namespace Rosette.Engine
open Foundation Proto Rosette.Core

abbrev ConnId := ℕ

/-- An event for the application. Beside a message stands the envelope it came in; nothing
reads it. -/
inductive Event where
  | message (bytes : List UInt8) (source : Envelope)
  | epochAdvanced (epoch : UInt64)
  | connectionChanged (online : Bool)
deriving DecidableEq

inductive EngineError where
  | notPaired
  | messageTooLarge
  | session (e : SessionError)
  | link (e : LinkError)
  | connectionClosed
  | rejected (code : RejectionCode)
  | unexpectedReply
  | unreachable
  | badPayload
  | storeFailed
  | nothingToResume
deriving DecidableEq

/-- What the session has been through: the envelopes it took in, those it built, and the
commits it merged, each oldest first. Nothing reads it. -/
structure Trace where
  consumed : List Envelope
  authored : List Envelope
  merged : List Envelope
deriving DecidableEq

def Trace.empty : Trace := ⟨[], [], []⟩

def Trace.ids (t : Trace) : List MessageId := (t.consumed ++ t.authored).map Envelope.messageId

structure PersistedEngine where
  displayName : String
  relayAddr : String
  relayFingerprint : Bytes 32
  mailboxQid : QueueId
  mailboxKey : SendKey
  inbox : Option (QueueId × SendKey)

/-- The contents of the encrypted database. The trace stands beside the snapshot it
belongs to, and the transactions are counted; nothing reads either. -/
structure Store (mls : OpenMls) where
  engine : Option PersistedEngine
  session : Option (SessionSnapshot mls)
  seen : Finset MessageId
  trace : Trace
  revision : ℕ

def Store.empty (mls : OpenMls) : Store mls := ⟨none, none, ∅, .empty, 0⟩

/-- One transaction: the given rows replace the old ones, the ids are added. -/
def Store.commit {mls : OpenMls} (s : Store mls) (engine : PersistedEngine)
    (session : SessionSnapshot mls) (trace : Trace) (seen : Finset MessageId) : Store mls :=
  ⟨some engine, some session, s.seen ∪ seen, trace, s.revision + 1⟩

/-- The engine. Its last two fields only record: the session's past, and the calls of
`processIncoming` with the past at each call. -/
structure ChatEngine (mls : OpenMls) where
  displayName : String
  session : ChatSession mls
  relay : ConnId
  relayAddr : String
  relayFingerprint : Bytes 32
  mailboxQid : QueueId
  mailboxKey : SendKey
  inbox : Option (QueueId × SendKey)
  seen : Finset MessageId
  pendingEvents : List Event
  store : Option (Store mls)
  attestationTokens : List AttestationToken
  trace : Trace
  calls : List (Trace × Envelope)

inductive Receiver where
  | nextEvent
  | drain (inbox : QueueId × SendKey) (staleEpoch : UInt64)
  | awaitPairing
deriving DecidableEq

inductive Sending where
  | message (inbox : QueueId × SendKey) (plaintext : List UInt8) (envelope : Envelope)
  | commit (inbox : QueueId × SendKey) (epoch : UInt64) (envelope : Envelope)
deriving DecidableEq

/-- Who asked for a reconnect. -/
inductive Caller where
  | receiving (r : Receiver)
  | sending (s : Sending)
deriving DecidableEq

/-- The await point an engine stands at. -/
inductive Pc where
  | idle
  | receiving (r : Receiver)
  | acking (r : Receiver) (rid : ℕ)
  | sending (s : Sending) (rid : ℕ)
  | connecting (k : Caller) (attempt : ℕ)
  | subscribing (k : Caller) (conn : ConnId) (rid : ℕ)
deriving DecidableEq

/-- What a finished call returned. A send names what it was given and the envelope it built. -/
inductive Result where
  | event (r : Except EngineError Event)
  | paired (r : Except EngineError Unit)
  | sent (plaintext : List UInt8) (envelope : Option Envelope) (r : Except EngineError Unit)
  | committed (envelope : Option Envelope) (r : Except EngineError UInt64)
  | link (r : Except EngineError ContactLink)
  | attached (r : Except EngineError Unit)

/-- Whether the connection takes requests, and the number of the next one. -/
structure Link where
  up : Bool
  rid : ℕ

/-- What a stretch draws from outside: randomness, and whether its transaction succeeds. -/
structure Draw where
  rand : ℕ
  diskOk : Bool

/-- One stretch between awaits: the engine and where it stands, with the request it sent or
the result it returned. -/
structure Turn (mls : OpenMls) where
  engine : ChatEngine mls
  pc : Pc
  frame : Option (ConnId × ClientMessage)
  result : Option Result

def Receiver.failed : Receiver → EngineError → Result
  | .nextEvent, err => .event (.error err)
  | .drain _ _, err => .committed none (.error err)
  | .awaitPairing, err => .paired (.error err)

def Sending.failed : Sending → EngineError → Result
  | .message _ p e, err => .sent p (some e) (.error err)
  | .commit _ _ e, err => .committed (some e) (.error err)

def Caller.failed : Caller → EngineError → Result
  | .receiving r, err => r.failed err
  | .sending s, err => s.failed err

def Sending.inbox : Sending → QueueId × SendKey
  | .message inbox _ _ => inbox
  | .commit inbox _ _ => inbox

def Sending.kind : Sending → GroupSendKind
  | .message _ _ _ => .application
  | .commit _ epoch _ => .commit epoch

def Sending.envelope : Sending → Envelope
  | .message _ _ e => e
  | .commit _ _ e => e

/-- What travels through the bootstrap mailbox. -/
structure BootstrapPayload where
  welcomeWire : List UInt8
  treeWire : List UInt8
  inboxQid : QueueId
  inboxKey : SendKey
deriving DecidableEq

def BootstrapPayload.codec : Codec BootstrapPayload :=
  (vecCodec.pair (vecCodec.pair ((Bytes.codec 32).pair (Bytes.codec 32)))).map
    (fun p => ⟨p.1, p.2.1, p.2.2.1, p.2.2.2⟩)
    (fun b => (b.welcomeWire, b.treeWire, b.inboxQid, b.inboxKey))
    (fun _ => rfl) (fun _ _ => rfl)

def attempts : ℕ := 40

def wrap (c : Crypto) (wireBytes : List UInt8) : Option Envelope :=
  (pad wireBytes).map (fun padded => ⟨messageIdFor c wireBytes, .relayFanout, padded⟩)

namespace ChatEngine
variable {mls : OpenMls}

def record (e : ChatEngine mls) : PersistedEngine :=
  ⟨e.displayName, e.relayAddr, e.relayFingerprint, e.mailboxQid, e.mailboxKey, e.inbox⟩

/-- Write through, if a store is attached. `diskOk` is whether its transaction succeeds. -/
def persist (e : ChatEngine mls) (diskOk : Bool) (newSeen : Finset MessageId) :
    ChatEngine mls × Except EngineError Unit :=
  match e.store with
  | none => (e, .ok ())
  | some st =>
    if diskOk then
      ({ e with store := some (st.commit e.record e.session.snapshot e.trace newSeen) }, .ok ())
    else (e, .error .storeFailed)

theorem persist_eq (e : ChatEngine mls) (diskOk : Bool) (newSeen : Finset MessageId) :
    ∃ store, (e.persist diskOk newSeen).1 = { e with store := store } := by
  unfold persist
  split
  · exact ⟨e.store, rfl⟩
  · split_ifs
    · exact ⟨_, rfl⟩
    · exact ⟨e.store, rfl⟩

@[simp] theorem persist_seen (e : ChatEngine mls) (diskOk : Bool) (newSeen : Finset MessageId) :
    (e.persist diskOk newSeen).1.seen = e.seen := by
  obtain ⟨store, h⟩ := e.persist_eq diskOk newSeen
  rw [h]

def attachStore (e : ChatEngine mls) (diskOk : Bool) (store : Store mls) :
    ChatEngine mls × Except EngineError Unit :=
  { e with store := some store }.persist diskOk e.seen

def isPaired (e : ChatEngine mls) : Bool := e.inbox.isSome

def note (e : ChatEngine mls) (id : MessageId) : ChatEngine mls :=
  { e with seen := insert id e.seen }

def queue (e : ChatEngine mls) (event : Event) : ChatEngine mls :=
  { e with pendingEvents := e.pendingEvents ++ [event] }

/-- A push is new: note its id and hand it to the session. -/
def called (e : ChatEngine mls) (envelope : Envelope) : ChatEngine mls :=
  { e.note envelope.messageId with calls := e.calls ++ [(e.trace, envelope)] }

/-- The session has built a message. -/
def author (e : ChatEngine mls) (s : ChatSession mls) (envelope : Envelope) : ChatEngine mls :=
  { e with
    session := s
    trace := { e.trace with authored := e.trace.authored ++ [envelope] } }

/-- The session has taken a message in. -/
def consume (e : ChatEngine mls) (s : ChatSession mls) (envelope : Envelope) : ChatEngine mls :=
  { e with
    session := s
    trace := { e.trace with consumed := e.trace.consumed ++ [envelope] } }

/-- The session has moved on by a commit. -/
def merge (e : ChatEngine mls) (s : ChatSession mls) (envelope : Envelope) : ChatEngine mls :=
  { e with
    session := s
    trace := { e.trace with merged := e.trace.merged ++ [envelope] } }

end ChatEngine

section Stretches
variable {mls : OpenMls} (c : Crypto) (link : Link) (d : Draw)

def finish (e : ChatEngine mls) (r : Result) : Turn mls := ⟨e, .idle, none, some r⟩

def await (e : ChatEngine mls) (pc : Pc) : Turn mls := ⟨e, pc, none, none⟩

def reconnect (e : ChatEngine mls) (k : Caller) : Turn mls := await e (.connecting k 1)

/-- The send of the retry loops: a dead connection leads to a reconnect. -/
def sendToGroupInbox (e : ChatEngine mls) (s : Sending) : Turn mls :=
  if link.up then
    ⟨e, .sending s link.rid, some (e.relay, .sendToGroupInbox s.inbox.1 s.kind
      (computeTag c s.inbox.2 s.inbox.1 s.envelope) s.envelope), none⟩
  else reconnect e (.sending s)

/-- Build a commit against the current epoch and send it. -/
def commitAttempt (e : ChatEngine mls) (inbox : QueueId × SendKey) : Turn mls :=
  match e.session.epoch with
  | .error err => finish e (.committed none (.error (.session err)))
  | .ok epoch =>
    match e.session.selfUpdate d.rand with
    | (s, .error err) => finish { e with session := s } (.committed none (.error (.session err)))
    | (s, .ok wire) =>
      match wrap c wire with
      | none => finish { e with session := s } (.committed none (.error .messageTooLarge))
      | some envelope =>
        sendToGroupInbox c link (e.author s envelope) (.commit inbox epoch envelope)

/-- Pump until the epoch has moved, then rebuild the commit. -/
def drainLoop (e : ChatEngine mls) (inbox : QueueId × SendKey) (staleEpoch : UInt64) :
    Turn mls :=
  match e.session.epoch with
  | .error err => finish e (.committed none (.error (.session err)))
  | .ok epoch =>
    if epoch = staleEpoch then await e (.receiving (.drain inbox staleEpoch))
    else commitAttempt c link d e inbox

def nextEventLoop (e : ChatEngine mls) : Turn mls :=
  match e.pendingEvents with
  | event :: rest => finish { e with pendingEvents := rest } (.event (.ok event))
  | [] => await e (.receiving .nextEvent)

/-- What the caller of a pump, or of the pairing's ack, does next. -/
def afterAck (e : ChatEngine mls) : Receiver → Turn mls
  | .nextEvent => nextEventLoop e
  | .drain inbox staleEpoch => drainLoop c link d e inbox staleEpoch
  | .awaitPairing => finish e (.paired (.ok ()))

/-- A dead connection is no reason to fail. -/
def tryAck (e : ChatEngine mls) (r : Receiver) (qid : QueueId) (id : MessageId) : Turn mls :=
  if link.up then ⟨e, .acking r link.rid, some (e.relay, .ack qid id), none⟩
  else afterAck c link d e r

/-- What a message taken in does to the engine, and the event it becomes. -/
def absorb (e : ChatEngine mls) (envelope : Envelope) :
    ChatEngine mls × Except EngineError Event :=
  match e.session.processIncoming envelope.paddedCiphertext with
  | (s, .error err) => ({ e with session := s }, .error (.session err))
  | (s, .ok (.application bytes)) => (e.consume s envelope, .ok (.message bytes envelope))
  | (s, .ok .commitApplied) =>
    match s.epoch with
    | .error err => ((e.consume s envelope).merge s envelope, .error (.session err))
    | .ok epoch => ((e.consume s envelope).merge s envelope, .ok (.epochAdvanced epoch))

theorem absorb_eq (e : ChatEngine mls) (envelope : Envelope) :
    ∃ session trace, (absorb e envelope).1 = { e with session := session, trace := trace } := by
  unfold absorb
  split
  · exact ⟨_, _, rfl⟩
  · exact ⟨_, _, rfl⟩
  · split <;> exact ⟨_, _, rfl⟩

/-- First sight of a push: apply it, queue its event, persist, ack. -/
def pumpFresh (e : ChatEngine mls) (r : Receiver) (qid : QueueId) (envelope : Envelope) :
    Turn mls :=
  match absorb (e.called envelope) envelope with
  | (e, .error err) => finish e (r.failed err)
  | (e, .ok event) =>
    match (e.queue event).persist d.diskOk {envelope.messageId} with
    | (e, .error err) => finish e (r.failed err)
    | (e, .ok _) => tryAck c link d e r qid envelope.messageId

/-- Duplicates and own echoes are acked again and never reach the session. -/
def pumpPush (e : ChatEngine mls) (r : Receiver) (qid : QueueId) (envelope : Envelope) :
    Turn mls :=
  if envelope.messageId ∈ e.seen then tryAck c link d e r qid envelope.messageId
  else pumpFresh c link d e r qid envelope

/-- The session has joined the group of a bootstrap payload. -/
def ChatEngine.joined (e : ChatEngine mls) (s : ChatSession mls) (envelope : Envelope)
    (payload : BootstrapPayload) : ChatEngine mls :=
  { (e.consume s envelope).note envelope.messageId with
    inbox := some (payload.inboxQid, payload.inboxKey) }

/-- The scanner's payload: join its group and adopt its inbox. -/
def pairPush (e : ChatEngine mls) (qid : QueueId) (envelope : Envelope) : Turn mls :=
  match decodeFrom BootstrapPayload.codec envelope.paddedCiphertext with
  | none => finish e (.paired (.error .badPayload))
  | some payload =>
    match e.session.joinFromWelcome payload.welcomeWire payload.treeWire with
    | (s, .error err) => finish { e with session := s } (.paired (.error (.session err)))
    | (s, .ok _) =>
      match (e.joined s envelope payload).persist d.diskOk {envelope.messageId} with
      | (e, .error err) => finish e (.paired (.error err))
      | (e, .ok _) => tryAck c link d e .awaitPairing qid envelope.messageId

def onPush (e : ChatEngine mls) (r : Receiver) (push : QueueId × Envelope) : Turn mls :=
  match r with
  | .nextEvent => pumpPush c link d e .nextEvent push.1 push.2
  | .drain inbox staleEpoch => pumpPush c link d e (.drain inbox staleEpoch) push.1 push.2
  | .awaitPairing => pairPush c link d e push.1 push.2

/-- The push channel has ended. -/
def onDisconnected (e : ChatEngine mls) : Receiver → Turn mls
  | .nextEvent => reconnect (e.queue (.connectionChanged false)) (.receiving .nextEvent)
  | .drain inbox staleEpoch =>
    reconnect (e.queue (.connectionChanged false)) (.receiving (.drain inbox staleEpoch))
  | .awaitPairing => reconnect e (.receiving .awaitPairing)

def onConnected (e : ChatEngine mls) (k : Caller) (conn : ConnId) : Turn mls :=
  ⟨e, .subscribing k conn link.rid, some (conn, .subscribe [e.mailboxQid]), none⟩

def onConnectFailed (e : ChatEngine mls) (k : Caller) (attempt : ℕ) : Turn mls :=
  if attempt < attempts then await e (.connecting k (attempt + 1))
  else finish e (k.failed .unreachable)

/-- The caller goes on where the connection had failed it. -/
def afterReconnect (e : ChatEngine mls) : Caller → Turn mls
  | .receiving .nextEvent => nextEventLoop (e.queue (.connectionChanged true))
  | .receiving (.drain inbox staleEpoch) =>
    drainLoop c link d (e.queue (.connectionChanged true)) inbox staleEpoch
  | .receiving .awaitPairing => await e (.receiving .awaitPairing)
  | .sending s => sendToGroupInbox c link e s

/-- Only the reply to the subscription makes the new client the engine's own. -/
def onSubscribed (e : ChatEngine mls) (k : Caller) (conn : ConnId) : ServerMessage → Turn mls
  | .ok => afterReconnect c link d { e with relay := conn } k
  | _ => finish e (k.failed .unexpectedReply)

def onAcked (e : ChatEngine mls) (r : Receiver) : ServerMessage → Turn mls
  | .ok => afterAck c link d e r
  | _ => finish e (r.failed .unexpectedReply)

/-- The own commit landed: merge it, persist, report the epoch. -/
def mergeOwn (e : ChatEngine mls) (envelope : Envelope) : Turn mls :=
  let done := Result.committed (some envelope)
  match (e.note envelope.messageId).session.mergePendingCommit with
  | (s, .error err) =>
    finish { e.note envelope.messageId with session := s } (done (.error (.session err)))
  | (s, .ok _) =>
    match ((e.note envelope.messageId).merge s envelope).persist d.diskOk {envelope.messageId} with
    | (e, .error err) => finish e (done (.error err))
    | (e, .ok _) => finish e (done (e.session.epoch.mapError .session))

/-- The epoch race is lost: drop the stale commit and wait for the winner. -/
def yieldEpoch (e : ChatEngine mls) (inbox : QueueId × SendKey) (epoch : UInt64)
    (envelope : Envelope) : Turn mls :=
  match e.session.discardPendingCommit with
  | (s, .error err) =>
    finish { e with session := s } (.committed (some envelope) (.error (.session err)))
  | (s, .ok _) => drainLoop c link d { e with session := s } inbox epoch

def onSent (e : ChatEngine mls) (s : Sending) (reply : ServerMessage) : Turn mls :=
  match s, reply with
  | .message _ plaintext envelope, .ok => finish e (.sent plaintext (some envelope) (.ok ()))
  | .commit _ _ envelope, .ok => mergeOwn d e envelope
  | .commit inbox epoch envelope, .error .epochConflict =>
    yieldEpoch c link d e inbox epoch envelope
  | s, .error code => finish e (s.failed (.rejected code))
  | s, _ => finish e (s.failed .unexpectedReply)

def onReply (e : ChatEngine mls) (reply : ServerMessage) : Pc → Option (Turn mls)
  | .acking r _ => some (onAcked c link d e r reply)
  | .sending s _ => some (onSent c link d e s reply)
  | .subscribing k conn _ => some (onSubscribed c link d e k conn reply)
  | _ => none

/-- The connection died under a request. -/
def onClosed (e : ChatEngine mls) : Pc → Option (Turn mls)
  | .acking r _ => some (afterAck c link d e r)
  | .sending s _ => some (reconnect e (.sending s))
  | .subscribing k _ _ => some (finish e (k.failed .connectionClosed))
  | _ => none

/-- Encrypt, persist, send. -/
def sendMessage (e : ChatEngine mls) (plaintext : List UInt8) : Turn mls :=
  match e.inbox with
  | none => finish e (.sent plaintext none (.error .notPaired))
  | some inbox =>
    match e.session.encryptApplication d.rand plaintext with
    | (s, .error err) => finish { e with session := s }
        (.sent plaintext none (.error (.session err)))
    | (s, .ok wire) =>
      match wrap c wire with
      | none => finish { e with session := s } (.sent plaintext none (.error .messageTooLarge))
      | some envelope =>
        match ((e.author s envelope).note envelope.messageId).persist d.diskOk
            {envelope.messageId} with
        | (e, .error err) => finish e (.sent plaintext (some envelope) (.error err))
        | (e, .ok _) => sendToGroupInbox c link e (.message inbox plaintext envelope)

def commitSelfUpdate (e : ChatEngine mls) : Turn mls :=
  match e.inbox with
  | none => finish e (.committed none (.error .notPaired))
  | some inbox => commitAttempt c link d e inbox

end Stretches

inductive Call where
  | nextEvent
  | awaitPairing
  | sendMessage (plaintext : List UInt8)
  | commitSelfUpdate
deriving DecidableEq

def Call.start {mls : OpenMls} (c : Crypto) (link : Link) (d : Draw) (e : ChatEngine mls) :
    Call → Turn mls
  | .nextEvent => nextEventLoop e
  | .awaitPairing => await e (.receiving .awaitPairing)
  | .sendMessage plaintext => Engine.sendMessage c link d e plaintext
  | .commitSelfUpdate => Engine.commitSelfUpdate c link d e

def Pc.awaits {mls : OpenMls} (e : ChatEngine mls) : Pc → Option (ConnId × ℕ)
  | .acking _ rid => some (e.relay, rid)
  | .sending _ rid => some (e.relay, rid)
  | .subscribing _ conn rid => some (conn, rid)
  | _ => none

/-- The calls whose futures are raced against other work and may be dropped. -/
def Receiver.droppable : Receiver → Bool
  | .nextEvent => true
  | .drain _ _ => false
  | .awaitPairing => true

def Pc.droppable : Pc → Bool
  | .receiving r => r.droppable
  | .acking r _ => r.droppable
  | .connecting (.receiving r) _ => r.droppable
  | .subscribing (.receiving r) _ _ => r.droppable
  | _ => false

inductive Wake where
  | push (p : QueueId × Envelope) (link : Link) (d : Draw)
  | disconnected
  | replied (reply : ServerMessage) (link : Link) (d : Draw)
  | closed (link : Link) (d : Draw)
  | connected (conn : ConnId) (link : Link)
  | connectFailed

def Turn.wake {mls : OpenMls} (c : Crypto) (t : Turn mls) : Wake → Option (Turn mls)
  | .push p link d =>
    match t.pc with
    | .receiving r => some (onPush c link d t.engine r p)
    | _ => none
  | .disconnected =>
    match t.pc with
    | .receiving r => some (onDisconnected t.engine r)
    | _ => none
  | .replied reply link d => onReply c link d t.engine reply t.pc
  | .closed link d => onClosed c link d t.engine t.pc
  | .connected conn link =>
    match t.pc with
    | .connecting k _ => some (onConnected link t.engine k conn)
    | _ => none
  | .connectFailed =>
    match t.pc with
    | .connecting k n => some (onConnectFailed t.engine k n)
    | _ => none

end Rosette.Engine
