import Rosette.Engine.Startup
import Rosette.Relay.Deliveries

/-! # Engines, connections and one relay

Everything that can happen next is an event: an application call, an engine
resumed at one of its await points, a frame served, delivered or lost, a process
killed. A run is a list of events; each event says what it draws from outside.

A connection carries requests one way, replies and pushes the other. The relay's
side of a push stream is the channel of the same number. Once the client's reader
has ended, nothing more reaches the client, but requests already written may still
be served.
-/
namespace Rosette.Network
open Foundation Proto Rosette.Core Relay Engine

/-- One connection, as both ends and the wire between them hold it. -/
structure Conn (ι : Type) where
  /-- Requests written and not yet served. -/
  up : List (ℕ × ClientMessage)
  /-- Replies on their way back. -/
  replies : List (ℕ × ServerMessage)
  /-- Replies the reader has handed to their callers. -/
  answered : List (ℕ × ServerMessage)
  /-- The client's push channel. -/
  received : List (QueueId × Envelope)
  /-- The calls made on it so far. A call goes by its number; its request id, an atomic counter
  that wraps, is the number modulo `2 ^ 64`. -/
  nextCall : ℕ
  /-- The client's reader has ended. -/
  closed : Bool
  /-- The client's writer still runs. -/
  writable : Bool
  /-- The relay still reads requests from it. -/
  serving : Bool
  /-- The device that opened it; none for a client outside this world. -/
  owner : Option ι

def Conn.fresh {ι : Type} (owner : Option ι) : Conn ι :=
  ⟨[], [], [], [], 0, false, true, true, owner⟩

def Conn.link {ι : Type} (k : Conn ι) : Link := ⟨!k.closed && k.writable, k.nextCall⟩

def Conn.write {ι : Type} (k : Conn ι) (msg : ClientMessage) : Conn ι :=
  { k with up := k.up ++ [(k.nextCall, msg)], nextCall := k.nextCall + 1 }

inductive Process (mls : OpenMls) where
  | off
  | starting (stage : Boot mls)
  | running (engine : ChatEngine mls) (pc : Pc)

/-- A client device: its process, what its calls have returned, and the file no engine has
attached. -/
structure Node (mls : OpenMls) where
  process : Process mls
  results : List Result
  file : Store mls

def Node.disk {mls : OpenMls} (n : Node mls) : Store mls :=
  match n.process with
  | .running e _ => e.store.getD n.file
  | _ => n.file

inductive Launch (mls : OpenMls) where
  | connect (displayName relayAddr : String) (relayFingerprint : Bytes 32)
      (session : ChatSession mls) (attestationTokens : List AttestationToken)
  | pair (displayName : String) (linkBytes : List UInt8) (session : ChatSession mls)
      (attestationTokens : List AttestationToken)
  | resume

def Launch.isResume {mls : OpenMls} : Launch mls → Bool
  | .resume => true
  | _ => false

/-- The first await of a constructor, if it gets there. -/
def Launch.boot {mls : OpenMls} (file : Store mls) : Launch mls → Except EngineError (Boot mls)
  | .connect name addr fingerprint session tokens =>
    .ok (.connecting (.connect name addr fingerprint session tokens))
  | .pair name linkBytes session tokens => pairWithLinkUsing name linkBytes session tokens
  | .resume => Engine.resume file

structure World (mls : OpenMls) (ι : Type) where
  service : Service
  conns : ConnId → Conn ι
  nextConn : ConnId
  nodes : ι → Node mls

inductive Happening (mls : OpenMls) (ι : Type) where
  /-- The application calls an idle engine. -/
  | call (i : ι) (call : Call) (d : Draw)
  | contactLink (i : ι) (d : Draw)
  | attachStore (i : ι) (d : Draw)
  /-- The awaited push is there. -/
  | push (i : ι) (d : Draw)
  /-- The push channel has ended. -/
  | disconnected (i : ι)
  /-- The awaited reply is there. -/
  | replied (i : ι) (d : Draw)
  /-- The connection ended before the awaited reply. -/
  | lost (i : ι) (d : Draw)
  | connected (i : ι)
  | connectFailed (i : ι)
  /-- The caller drops the future of its call. -/
  | drop (i : ι)
  | crash (i : ι)
  | start (i : ι) (launch : Launch mls)
  /-- The relay takes the next request of a connection. -/
  | serve (k : ConnId) (amb : Ambient)
  /-- The client's reader takes a reply. -/
  | reply (k : ConnId)
  /-- A push reaches the client's push channel. -/
  | deliver (k : ConnId)
  /-- The client's reader ends. -/
  | sever (k : ConnId)
  /-- The client's writer ends. -/
  | breakWriter (k : ConnId)
  /-- The relay's side of the push stream ends. -/
  | hangUp (k : ConnId)
  /-- Another client connects. -/
  | dial
  /-- Another client writes a request. -/
  | outside (k : ConnId) (msg : ClientMessage)
  /-- The relay process dies and comes back. The request in flight has made its write. -/
  | restart (now : ℕ) (inFlight : Option (ConnId × Ambient))

namespace World
variable {mls : OpenMls} {ι : Type} [DecidableEq ι] (c : Crypto)

def setConn (w : World mls ι) (k : ConnId) (conn : Conn ι) : World mls ι :=
  { w with conns := Function.update w.conns k conn }

def setNode (w : World mls ι) (i : ι) (n : Node mls) : World mls ι :=
  { w with nodes := Function.update w.nodes i n }

def link (w : World mls ι) (k : ConnId) : Link := (w.conns k).link

def send (w : World mls ι) : Option (ConnId × ClientMessage) → World mls ι
  | none => w
  | some (k, msg) => w.setConn k ((w.conns k).write msg)

def install (w : World mls ι) (i : ι) (t : Turn mls) : World mls ι :=
  (w.send t.frame).setNode i { w.nodes i with
    process := .running t.engine t.pc
    results := (w.nodes i).results ++ t.result.toList }

def installBoot (w : World mls ι) (i : ι) : BootTurn mls → World mls ι
  | .await stage frame =>
    (w.send (some frame)).setNode i { w.nodes i with process := .starting stage }
  | .up e => w.setNode i { w.nodes i with process := .running e .idle }
  | .failed _ => w.setNode i { w.nodes i with process := .off }

def answer (w : World mls ι) (waits : Option (ConnId × ℕ)) : Option (ConnId × ServerMessage) :=
  waits.bind (fun p => ((w.conns p.1).answered.lookup p.2).map (fun reply => (p.1, reply)))

/-- The caller's reply will never come. -/
def abandoned (w : World mls ι) (waits : Option (ConnId × ℕ)) : Bool :=
  waits.any (fun p => (w.conns p.1).closed && ((w.conns p.1).answered.lookup p.2).isNone)

def dial (w : World mls ι) (owner : Option ι) : World mls ι :=
  { w.setConn w.nextConn (.fresh owner) with nextConn := w.nextConn + 1 }

/-- The relay answers a request of a connection, or its task dies under it. -/
def serve (w : World mls ι) (k : ConnId) (amb : Ambient) (rid : ℕ) (msg : ClientMessage)
    (rest : List (ℕ × ClientMessage)) : Option (World mls ι) :=
  match w.service.relay.handle c amb msg (some k) with
  | (t, .answered reply) => some { w.setConn k { w.conns k with
      up := rest
      replies := (w.conns k).replies ++ [(rid, reply)] } with
      service := ⟨t, w.service.log ++ [(msg, reply)]⟩ }
  | (t, .panicked) => some { w.setConn k { w.conns k with up := rest, serving := false } with
      service := ⟨t, w.service.log⟩ }
  | (_, .spinning) => none

/-- No connection survives the process that served it. -/
def restart (w : World mls ι) (now : ℕ) (inFlight : Option (Ambient × ClientMessage)) :
    Option (World mls ι) :=
  (w.service.step c (.restart now inFlight)).map (fun service => { w with
    service := service
    conns := fun k => { w.conns k with serving := false } })

/-- An engine resumed at an await point, or called while idle. -/
def stepEngine (w : World mls ι) (i : ι) (e : ChatEngine mls) (pc : Pc) :
    Happening mls ι → Option (World mls ι)
  | .call _ call d => if pc = .idle then some (w.install i (call.start c (w.link e.relay) d e))
    else none
  | .contactLink _ d => if pc = .idle then
      some (w.install i (finish (e.contactLink d.rand).1 (.link (e.contactLink d.rand).2)))
    else none
  | .attachStore _ d => if pc = .idle then
      some (w.install i (finish (e.attachStore d.diskOk (w.nodes i).disk).1
        (.attached (e.attachStore d.diskOk (w.nodes i).disk).2)))
    else none
  | .push _ d =>
    match pc, (w.conns e.relay).received with
    | .receiving r, push :: rest =>
      some ((w.setConn e.relay { w.conns e.relay with received := rest }).install i
        (onPush c (w.link e.relay) d e r push))
    | _, _ => none
  | .disconnected _ =>
    match pc, (w.conns e.relay).received with
    | .receiving r, [] =>
      if (w.conns e.relay).closed then some (w.install i (onDisconnected e r)) else none
    | _, _ => none
  | .replied _ d => (w.answer (pc.awaits e)).bind (fun p =>
      (onReply c (w.link p.1) d e p.2 pc).map (w.install i))
  | .lost _ d => if w.abandoned (pc.awaits e) then
      (onClosed c (w.link e.relay) d e pc).map (w.install i)
    else none
  | .connected _ =>
    match pc with
    | .connecting k _ =>
      some ((w.dial (some i)).install i
        (onConnected ((w.dial (some i)).link w.nextConn) e k w.nextConn))
    | _ => none
  | .connectFailed _ =>
    match pc with
    | .connecting k attempt => some (w.install i (onConnectFailed e k attempt))
    | _ => none
  | .drop _ => if pc.droppable then some (w.install i (await e .idle)) else none
  | .crash _ => some (w.setNode i { w.nodes i with process := .off, file := (w.nodes i).disk })
  | _ => none

/-- A constructor resumed at an await point. -/
def stepBoot (w : World mls ι) (i : ι) (b : Boot mls) : Happening mls ι → Option (World mls ι)
  | .connected _ =>
    match b with
    | .connecting o =>
      some ((w.dial (some i)).installBoot i
        (Boot.onConnected ((w.dial (some i)).link w.nextConn) o w.nextConn))
    | _ => none
  | .connectFailed _ =>
    match b with
    | .connecting _ => some (w.installBoot i (.failed .unreachable))
    | _ => none
  | .replied _ d => (w.answer b.awaits).bind (fun p =>
      (b.onReply c (w.link p.1) d p.2).map (w.installBoot i))
  | .lost _ _ => if w.abandoned b.awaits then some (w.installBoot i (.failed .connectionClosed))
    else none
  | .crash _ => some (w.setNode i { w.nodes i with process := .off })
  | _ => none

def stepOff (w : World mls ι) (i : ι) : Happening mls ι → Option (World mls ι)
  | .start _ launch =>
    match launch.boot (w.nodes i).file with
    | .ok stage => some (w.setNode i { w.nodes i with process := .starting stage })
    | .error _ => some w
  | _ => none

/-- What the network and the relay do on their own. -/
def stepNetwork (w : World mls ι) : Happening mls ι → Option (World mls ι)
  | .serve k amb =>
    match (w.conns k).serving, (w.conns k).up with
    | true, (rid, msg) :: rest => w.serve c k amb rid msg rest
    | _, _ => none
  | .reply k =>
    match (w.conns k).closed, (w.conns k).replies with
    | false, r :: rest => some (w.setConn k { w.conns k with
        replies := rest
        answered := (w.conns k).answered ++ [r] })
    | _, _ => none
  | .deliver k =>
    match (w.conns k).closed, (w.service.relay.channels k).queue with
    | false, (q, _, envelope) :: _ => some { w.setConn k { w.conns k with
        received := (w.conns k).received ++ [(q, envelope)] } with
        service := { w.service with relay := w.service.relay.receivePush k } }
    | _, _ => none
  | .sever k => some (w.setConn k { w.conns k with closed := true })
  | .breakWriter k => some (w.setConn k { w.conns k with writable := false })
  | .hangUp k => some { w with service := { w.service with relay := w.service.relay.hangUp k } }
  | .dial => some (w.dial none)
  | .outside k msg => if k < w.nextConn ∧ (w.conns k).owner.isNone then
      some (w.setConn k ((w.conns k).write msg))
    else none
  | .restart now none => w.restart c now none
  | .restart now (some (k, amb)) =>
    match (w.conns k).serving, (w.conns k).up with
    | true, (_, msg) :: _ => w.restart c now (some (amb, msg))
    | _, _ => none
  | _ => none

end World

def Happening.node {mls : OpenMls} {ι : Type} : Happening mls ι → Option ι
  | .call i _ _ => some i
  | .contactLink i _ => some i
  | .attachStore i _ => some i
  | .push i _ => some i
  | .disconnected i => some i
  | .replied i _ => some i
  | .lost i _ => some i
  | .connected i => some i
  | .connectFailed i => some i
  | .drop i => some i
  | .crash i => some i
  | .start i _ => some i
  | _ => none

def Happening.draw {mls : OpenMls} {ι : Type} : Happening mls ι → Option Draw
  | .call _ _ d => some d
  | .contactLink _ d => some d
  | .attachStore _ d => some d
  | .push _ d => some d
  | .replied _ d => some d
  | .lost _ d => some d
  | _ => none

/-- One event. An event that cannot happen now is refused. -/
def World.step {mls : OpenMls} {ι : Type} [DecidableEq ι] (c : Crypto) (w : World mls ι)
    (h : Happening mls ι) : Option (World mls ι) :=
  match h.node with
  | none => w.stepNetwork c h
  | some i =>
    match (w.nodes i).process with
    | .off => w.stepOff i h
    | .starting stage => w.stepBoot c i stage h
    | .running e pc => w.stepEngine c i e pc h

end Rosette.Network
