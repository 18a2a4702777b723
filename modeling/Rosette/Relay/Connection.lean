import Rosette.Proto.Frame
import Rosette.Relay.Streams

/-! # Connections of the relay process

Each connection is served by three tasks. The handler reads requests and queues the
replies, the writer writes out what is queued, and the forwarder queues what is pushed
to the connection. A receiver yields nothing more exactly when its queue is empty
and every sender is gone; the writer's senders belong to the handler and the
forwarder, the forwarder's to the handler and to the subscriber lists.

The handler keeps its push sender while it waits for the writer. So after a clean end
of the stream the writer waits for the forwarder, the forwarder for the handler and
the handler for the writer, unless a write fails.
-/
namespace Rosette.Relay
open Foundation Proto List Option Function

/-- Where the handler is. It fails on a read error, and when a request panics. -/
inductive MainTask where
  | reading
  | awaitingWriter
  | returned
  | failed
deriving DecidableEq

/-- A spawned task, and how it ended: out of input, at a failed send or write, or aborted. -/
inductive SpawnedTask where
  | running
  | drained
  | broke
  | aborted
deriving DecidableEq

/-- The tasks of one connection, and the frames queued for its writer. `watched` are the queues
its subscriptions have named, the only ones that can hold clones of its push sender. -/
structure Handler where
  main : MainTask
  writer : SpawnedTask
  forwarder : SpawnedTask
  out : List ServerFrame
  watched : List QueueId
deriving DecidableEq

def subscribedIds : ClientMessage → List QueueId
  | .subscribe queueIds => queueIds
  | _ => []

namespace Handler

def start : Handler := ⟨.reading, .running, .running, [], []⟩

def watch (h : Handler) (msg : ClientMessage) : Handler :=
  { h with watched := h.watched ++ subscribedIds msg }

/-- The three tasks of the connection have ended. -/
def Released (h : Handler) : Prop :=
  (h.main = .returned ∨ h.main = .failed) ∧ h.writer ≠ .running ∧ h.forwarder ≠ .running

instance (h : Handler) : Decidable h.Released := by
  unfold Released
  infer_instance

end Handler

/-- The relay and the connections it serves; a connection is named by its push channel. -/
structure Server where
  relay : RelayState
  handlers : ChannelId → Option Handler

inductive ServerEvent where
  | accept (k : ChannelId)
  /-- `read_frame` returns to the handler. -/
  | read (k : ChannelId) (amb : Ambient) (frame : Except ReadFrameError ClientFrame)
  /-- `write_frame` returns to the writer. -/
  | write (k : ChannelId) (ok : Bool)
  /-- The writer's `recv` yields `None`. -/
  | writerDone (k : ChannelId)
  /-- The forwarder's `recv` yields a push. -/
  | forward (k : ChannelId)
  /-- The forwarder's `recv` yields `None`. -/
  | forwarderDone (k : ChannelId)
  /-- The handler learns that the writer has ended. -/
  | joinWriter (k : ChannelId)

def ServerEvent.conn : ServerEvent → ChannelId
  | accept k | read k _ _ | write k _ | writerDone k | forward k | forwarderDone k
  | joinWriter k => k

namespace Server

def boot (persistent : Bool) : Server := ⟨(Service.boot persistent).relay, fun _ => none⟩

def setHandler (s : Server) (k : ChannelId) (h : Handler) : Server :=
  { s with handlers := update s.handlers k (some h) }

def dropReceiver (s : Server) (k : ChannelId) : Server := { s with relay := s.relay.hangUp k }

/-- Some sender of the push channel is still around. -/
def pushSenders (s : Server) (k : ChannelId) (h : Handler) : Bool :=
  h.main = .reading || h.main = .awaitingWriter ||
    h.watched.any (fun q => (s.relay.inner.subscribers q).contains k)

def onFrame (c : Crypto) (s : Server) (k : ChannelId) (h : Handler) (amb : Ambient) :
    Except ReadFrameError ClientFrame → Option Server
  | .error .closed => some (s.setHandler k { h with main := .awaitingWriter })
  | .error _ => some (s.setHandler k { h with main := .failed })
  | .ok frame =>
    let h := h.watch frame.message
    match s.relay.handle c amb frame.message (some k) with
    | (relay, .answered reply) =>
      let s := { s with relay := relay }
      if h.writer = .running then
        some (s.setHandler k { h with out := h.out ++ [.reply frame.requestId reply] })
      else some (s.setHandler k { h with main := .awaitingWriter })
    | (relay, .panicked) => some (setHandler { s with relay := relay } k { h with main := .failed })
    | (_, .spinning) => none

def onPush (s : Server) (k : ChannelId) (h : Handler) : List Push → Option Server
  | [] => none
  | (queueId, _, envelope) :: _ =>
    let s := { s with relay := s.relay.receivePush k }
    if h.writer = .running then
      some (s.setHandler k { h with out := h.out ++ [.push queueId envelope] })
    else some ((s.dropReceiver k).setHandler k { h with forwarder := .broke })

def onWritten (h : Handler) (ok : Bool) : List ServerFrame → Option Handler
  | [] => none
  | _ :: rest => some (if ok then { h with out := rest } else
    { h with writer := .broke, out := [] })

variable (c : Crypto)

def step (s : Server) : ServerEvent → Option Server
  | .accept k =>
    match s.handlers k with
    | some _ => none
    | none => some (s.setHandler k .start)
  | .read k amb frame => (s.handlers k).bind (fun h =>
      if h.main = .reading then onFrame c s k h amb frame else none)
  | .write k ok => (s.handlers k).bind (fun h =>
      if h.writer = .running then (onWritten h ok h.out).map (s.setHandler k) else none)
  | .writerDone k => (s.handlers k).bind (fun h =>
      if h.writer = .running ∧ h.out = [] ∧ h.main ≠ .reading ∧ h.forwarder ≠ .running then
        some (s.setHandler k { h with writer := .drained })
      else none)
  | .forward k => (s.handlers k).bind (fun h =>
      if h.forwarder = .running then onPush s k h (s.relay.channels k).queue else none)
  | .forwarderDone k => (s.handlers k).bind (fun h =>
      if h.forwarder = .running ∧ (s.relay.channels k).queue = [] ∧ s.pushSenders k h = false then
        some ((s.dropReceiver k).setHandler k { h with forwarder := .drained })
      else none)
  | .joinWriter k => (s.handlers k).bind (fun h =>
      if h.main = .awaitingWriter ∧ h.writer ≠ .running then
        some ((s.dropReceiver k).setHandler k { h with
          main := .returned
          forwarder := if h.forwarder = .running then .aborted else h.forwarder })
      else none)

end Server

inductive Transition (c : Crypto) (s : Server) : ServerEvent → Server → Prop where
  | accepted {k} (new : s.handlers k = none) : Transition c s (.accept k) (s.setHandler k .start)
  | closed {k h amb} (known : s.handlers k = some h) (main : h.main = .reading) :
    Transition c s (.read k amb (.error .closed))
      (s.setHandler k { h with main := .awaitingWriter })
  | readFailed {k h amb err} (known : s.handlers k = some h) (main : h.main = .reading) :
    Transition c s (.read k amb (.error err)) (s.setHandler k { h with main := .failed })
  | answered {k h amb frame relay reply} (known : s.handlers k = some h) (main : h.main = .reading)
      (handled : s.relay.handle c amb frame.message (some k) = (relay, .answered reply))
      (writer : h.writer = .running) :
    Transition c s (.read k amb (.ok frame)) (Server.setHandler ⟨relay, s.handlers⟩ k
      { h.watch frame.message with out := h.out ++ [.reply frame.requestId reply] })
  | unanswered {k h amb frame relay reply} (known : s.handlers k = some h)
      (main : h.main = .reading)
      (handled : s.relay.handle c amb frame.message (some k) = (relay, .answered reply))
      (writer : h.writer ≠ .running) :
    Transition c s (.read k amb (.ok frame)) (Server.setHandler ⟨relay, s.handlers⟩ k
      { h.watch frame.message with main := .awaitingWriter })
  | panicked {k h amb frame relay} (known : s.handlers k = some h) (main : h.main = .reading)
      (handled : s.relay.handle c amb frame.message (some k) = (relay, .panicked)) :
    Transition c s (.read k amb (.ok frame)) (Server.setHandler ⟨relay, s.handlers⟩ k
      { h.watch frame.message with main := .failed })
  | wrote {k h f rest} (known : s.handlers k = some h) (writer : h.writer = .running)
      (queued : h.out = f :: rest) :
    Transition c s (.write k true) (s.setHandler k { h with out := rest })
  | writeFailed {k h} (known : s.handlers k = some h) (writer : h.writer = .running) :
    Transition c s (.write k false) (s.setHandler k { h with writer := .broke, out := [] })
  | writerDrained {k h} (known : s.handlers k = some h) (writer : h.writer = .running)
      (main : h.main ≠ .reading) (forwarder : h.forwarder ≠ .running) :
    Transition c s (.writerDone k) (s.setHandler k { h with writer := .drained })
  | forwarded {k h p rest} (known : s.handlers k = some h) (forwarder : h.forwarder = .running)
      (queued : (s.relay.channels k).queue = p :: rest) (writer : h.writer = .running) :
    Transition c s (.forward k) (Server.setHandler ⟨s.relay.receivePush k, s.handlers⟩ k
      { h with out := h.out ++ [.push p.1 p.2.2] })
  | forwardFailed {k h} (known : s.handlers k = some h) (forwarder : h.forwarder = .running)
      (writer : h.writer ≠ .running) :
    Transition c s (.forward k) (Server.setHandler ⟨(s.relay.receivePush k).hangUp k, s.handlers⟩ k
      { h with forwarder := .broke })
  | forwarderDrained {k h} (known : s.handlers k = some h) (forwarder : h.forwarder = .running)
      (senders : s.pushSenders k h = false) :
    Transition c s (.forwarderDone k) (Server.setHandler ⟨s.relay.hangUp k, s.handlers⟩ k
      { h with forwarder := .drained })
  | joined {k h} (known : s.handlers k = some h) (main : h.main = .awaitingWriter)
      (writer : h.writer ≠ .running) :
    Transition c s (.joinWriter k) (Server.setHandler ⟨s.relay.hangUp k, s.handlers⟩ k
      { h with
        main := .returned
        forwarder := if h.forwarder = .running then .aborted else h.forwarder })

variable {c : Crypto} {s t : Server} {ev : ServerEvent} {relay : RelayState} {k : ChannelId}
  {h h' : Handler} {persistent : Bool} {es : List ServerEvent} {amb : Ambient} {msg : ClientMessage}
  {r : Handled}

theorem transition_of_step (h : Server.step c s ev = some t) : Transition c s ev t := by
  cases ev with
  | accept =>
    simp only [Server.step] at h
    split at h
    · cases h
    · cases h
      exact .accepted ‹_›
  | read k amb frame =>
    obtain ⟨hd, hk, h⟩ := bind_eq_some_iff.mp h
    split_ifs at h with hm
    cases frame with
    | error err =>
      cases err with
      | closed =>
        cases h
        exact .closed hk hm
      | tooLarge | io | decode =>
        cases h
        exact .readFailed hk hm
    | ok =>
      simp only [Server.onFrame] at h
      split at h
      · rename_i relay reply handled
        split_ifs at h with hr
        · cases h
          exact .answered hk hm handled hr
        · cases h
          exact .unanswered hk hm handled hr
      · cases h
        exact .panicked hk hm ‹_›
      · cases h
  | write k ok =>
    obtain ⟨hd, hk, h⟩ := bind_eq_some_iff.mp h
    split_ifs at h with hw
    obtain ⟨h', hwritten, rfl⟩ := map_eq_some_iff.mp h
    cases hout : hd.out with
    | nil =>
      rw [hout] at hwritten
      cases hwritten
    | cons =>
      rw [hout] at hwritten
      cases ok with
      | true =>
        cases hwritten
        exact .wrote hk hw hout
      | false =>
        cases hwritten
        exact .writeFailed hk hw
  | writerDone =>
    obtain ⟨hd, hk, h⟩ := bind_eq_some_iff.mp h
    obtain ⟨hg, ⟨⟩⟩ := ite_none_right_eq_some.mp h
    exact .writerDrained hk hg.1 hg.2.2.1 hg.2.2.2
  | forward k =>
    obtain ⟨hd, hk, h⟩ := bind_eq_some_iff.mp h
    split_ifs at h with hf
    cases hq : (s.relay.channels k).queue with
    | nil =>
      rw [hq] at h
      cases h
    | cons =>
      rw [hq] at h
      simp only [Server.onPush] at h
      split_ifs at h with hw
      · cases h
        exact .forwarded hk hf hq hw
      · cases h
        exact .forwardFailed hk hf hw
  | forwarderDone =>
    obtain ⟨hd, hk, h⟩ := bind_eq_some_iff.mp h
    obtain ⟨hg, ⟨⟩⟩ := ite_none_right_eq_some.mp h
    exact .forwarderDrained hk hg.1 hg.2.2
  | joinWriter =>
    obtain ⟨hd, hk, h⟩ := bind_eq_some_iff.mp h
    obtain ⟨hg, ⟨⟩⟩ := ite_none_right_eq_some.mp h
    exact .joined hk hg.1 hg.2

/-! ## What a request does to the channels of others -/

namespace RelayState

/-- A request registers at most its own connection, and only for the queues it names. -/
theorem handle_registers {c : Crypto} {s t : RelayState} {tx : ChannelId}
    (h : handle c amb s msg (some tx) = (t, r)) (hr : r ≠ .spinning) :
    (∀ k, (t.channels k).receiving = (s.channels k).receiving) ∧
    ∀ k p, k ∈ t.inner.subscribers p → k ∈ s.inner.subscribers p ∨
      k = tx ∧ p ∈ subscribedIds msg := by
  by_cases hsub : ∃ ids, msg = .subscribe ids
  · obtain ⟨ids, rfl⟩ := hsub
    rw [handle_subscribe] at h
    split_ifs at h
    · cases h
      exact ⟨fun _ => rfl, fun k p hk => .inl hk⟩
    · cases h
      constructor
      · intro k
        by_cases hk : k = tx
        · subst hk
          rw [subscribe_channel]
        · rw [subscribe_channel_of_ne hk]
      · intro k p hk
        rw [subscribe_subscribers] at hk
        split_ifs at hk with hp
        · rcases mem_append.mp hk with hk | hk
          · exact .inl (mem_filter.mp hk).1
          · exact .inr ⟨mem_singleton.mp hk, hp⟩
        · exact .inl hk
  · have hn : ∀ k, ∃ news, Notified s t k news := by
      intro k
      cases r with
      | answered =>
        obtain ⟨news, hn, -⟩ := notified_answered (fun _ ids hm => hsub ⟨ids, hm⟩) h
        exact ⟨news, hn⟩
      | panicked => exact ⟨_, notified_panicked h⟩
      | spinning => exact absurd rfl hr
    refine ⟨fun k => ?_, fun k p hk => ?_⟩
    · obtain ⟨news, hk⟩ := hn k
      exact hk.receiving
    · obtain ⟨news, hk'⟩ := hn k
      exact .inl (hk'.joins hk)

end RelayState

/-! ## Every connection, at every moment -/

/-- The order in which the tasks of a connection can end. -/
structure Handler.Ordered (h : Handler) : Prop where
  unaborted : h.writer ≠ .aborted
  writerDrained : h.writer = .drained → h.main = .failed ∧ h.forwarder ≠ .running
  forwarderDrained : h.forwarder = .drained → h.main = .failed
  forwarderBroke : h.forwarder = .broke → h.writer = .broke
  forwarderAborted : h.forwarder = .aborted → h.main = .returned
  returned : h.main = .returned → h.writer = .broke ∧ h.forwarder ≠ .running

namespace Handler.Ordered
variable {h : Handler}

theorem start : Handler.start.Ordered := by constructor <;> simp [Handler.start]

variable (ho : h.Ordered)
include ho

theorem congr {h' : Handler} (hm : h'.main = h.main) (hw : h'.writer = h.writer)
    (hf : h'.forwarder = h.forwarder) : h'.Ordered := by
  obtain ⟨main, writer, forwarder, out, watched⟩ := h'
  subst hm hw hf
  exact ⟨ho.unaborted, ho.writerDrained, ho.forwarderDrained, ho.forwarderBroke,
    ho.forwarderAborted, ho.returned⟩

theorem of_reading (hm : h.main = .reading) :
    h.writer ≠ .drained ∧ h.forwarder ≠ .drained ∧ h.forwarder ≠ .aborted := by
  refine ⟨fun hw => ?_, fun hf => ?_, fun hf => ?_⟩
  · simp [(ho.writerDrained hw).1] at hm
  · simp [ho.forwarderDrained hf] at hm
  · simp [ho.forwarderAborted hf] at hm

theorem leave (hm : h.main = .reading) :
    { h with main := .awaitingWriter }.Ordered := by
  obtain ⟨hw, hf, hf'⟩ := ho.of_reading hm
  exact ⟨ho.unaborted, fun h => absurd h hw, fun h => absurd h hf, ho.forwarderBroke,
    fun h => absurd h hf', nofun⟩

theorem fail (hm : h.main = .reading) : { h with main := .failed }.Ordered := by
  obtain ⟨hw, hf, hf'⟩ := ho.of_reading hm
  exact ⟨ho.unaborted, fun h => absurd h hw, fun _ => rfl, ho.forwarderBroke,
    fun h => absurd h hf', nofun⟩

theorem breakWriter : { h with writer := .broke, out := [] }.Ordered :=
  ⟨nofun, nofun, ho.forwarderDrained, fun _ => rfl, ho.forwarderAborted,
    fun hm => ⟨rfl, (ho.returned hm).2⟩⟩

theorem drainWriter (hw : h.writer = .running) (hf : h.forwarder ≠ .running) :
    { h with writer := .drained }.Ordered := by
  have hbroke : h.forwarder ≠ .broke := fun hb => by
    simp [ho.forwarderBroke hb] at hw
  have hreturned : h.main ≠ .returned := fun hm => by
    simp [(ho.returned hm).1] at hw
  refine ⟨nofun, fun _ => ⟨?_, hf⟩, ho.forwarderDrained, fun hb => absurd hb hbroke,
    ho.forwarderAborted, fun hm => absurd hm hreturned⟩
  cases hfw : h.forwarder with
  | running => exact absurd hfw hf
  | drained => exact ho.forwarderDrained hfw
  | broke => exact absurd hfw hbroke
  | aborted => exact absurd (ho.forwarderAborted hfw) hreturned

theorem writer_broke (hw : h.writer ≠ .running) (hd : h.writer ≠ .drained) : h.writer = .broke := by
  cases hwr : h.writer with
  | running => exact absurd hwr hw
  | drained => exact absurd hwr hd
  | broke => rfl
  | aborted => exact absurd hwr ho.unaborted

theorem breakForwarder (hf : h.forwarder = .running) (hw : h.writer ≠ .running) :
    { h with forwarder := .broke }.Ordered := by
  have hbroke := ho.writer_broke hw fun hd => (ho.writerDrained hd).2 hf
  exact ⟨ho.unaborted, fun hd => ⟨(ho.writerDrained hd).1, nofun⟩, nofun, fun _ => hbroke, nofun,
    fun _ => ⟨hbroke, nofun⟩⟩

theorem drainForwarder (hf : h.forwarder = .running) (hm : h.main ≠ .reading)
    (hm' : h.main ≠ .awaitingWriter) : { h with forwarder := .drained }.Ordered := by
  have hfailed : h.main = .failed := by
    cases hmain : h.main with
    | reading => exact absurd hmain hm
    | awaitingWriter => exact absurd hmain hm'
    | returned => exact absurd hf (ho.returned hmain).2
    | failed => rfl
  exact ⟨ho.unaborted, fun hd => ⟨hfailed, nofun⟩, fun _ => hfailed, nofun, nofun, fun hr => by
    rw [hfailed] at hr
    cases hr⟩

theorem join (hm : h.main = .awaitingWriter) (hw : h.writer ≠ .running) :
    Handler.Ordered { h with
      main := .returned
      forwarder := if h.forwarder = .running then .aborted else h.forwarder } := by
  have hbroke := ho.writer_broke hw fun hd => by simp [(ho.writerDrained hd).1] at hm
  have hdrained : h.forwarder ≠ .drained := fun hd => by
    simp [ho.forwarderDrained hd] at hm
  constructor
  · exact ho.unaborted
  · simp [hbroke]
  · intro hd
    split_ifs at hd
    exact absurd hd hdrained
  · exact fun _ => hbroke
  · exact fun _ => rfl
  · refine fun _ => ⟨hbroke, ?_⟩
    split_ifs with hf
    · simp
    · exact hf

end Handler.Ordered

/-- What holds of a connection that was accepted. -/
structure Served (relay : RelayState) (k : ChannelId) (h : Handler) : Prop where
  ordered : h.Ordered
  receiving : (relay.channels k).receiving = true ↔ h.forwarder = .running
  watched : ∀ q, k ∈ relay.inner.subscribers q → q ∈ h.watched
  drained : h.forwarder = .drained → ∀ q, k ∉ relay.inner.subscribers q

/-- Nobody has spoken on the channel yet. -/
structure Unused (relay : RelayState) (k : ChannelId) : Prop where
  channel : relay.channels k = ⟨true, []⟩
  unregistered : ∀ q, k ∉ relay.inner.subscribers q

def Server.Sound (s : Server) : Prop :=
  ∀ k, match s.handlers k with
    | none => Unused s.relay k
    | some h => Served s.relay k h

namespace Server.Sound
variable {s : Server} {k : ChannelId} {h h' : Handler} {relay : RelayState}

variable (hs : s.Sound)
include hs

theorem served (hk : s.handlers k = some h) : Served s.relay k h := by
  have := hs k
  rwa [hk] at this

theorem unused (hk : s.handlers k = none) : Unused s.relay k := by
  have := hs k
  rwa [hk] at this

theorem set (hself : Served relay k h')
    (hreceiving : ∀ j, j ≠ k → (relay.channels j).receiving = (s.relay.channels j).receiving)
    (hjoins : ∀ j q, j ≠ k → j ∈ relay.inner.subscribers q → j ∈ s.relay.inner.subscribers q)
    (hidle : ∀ j, j ≠ k → Unused s.relay j → relay.channels j = s.relay.channels j) :
    (Server.setHandler ⟨relay, s.handlers⟩ k h').Sound := by
  intro j
  by_cases hj : j = k
  · subst hj
    simp only [setHandler, update_self]
    exact hself
  · simp only [setHandler, update_of_ne hj]
    cases hh : s.handlers j with
    | none =>
      have hu := hs.unused hh
      exact ⟨(hidle j hj hu).trans hu.channel, fun q hq => hu.unregistered q (hjoins j q hj hq)⟩
    | some =>
      have hv := hs.served hh
      exact ⟨hv.ordered, by rw [hreceiving j hj]; exact hv.receiving,
        fun q hq => hv.watched q (hjoins j q hj hq),
        fun hdr q hq => hv.drained hdr q (hjoins j q hj hq)⟩

theorem update (hself : Served s.relay k h') : (s.setHandler k h').Sound :=
  hs.set hself (fun _ _ => rfl) (fun _ _ _ hj => hj) (fun _ _ _ => rfl)

theorem reorder (hk : s.handlers k = some h) (ho : h.Ordered → h'.Ordered)
    (hf : h'.forwarder = h.forwarder) (hw : h'.watched = h.watched) :
    (s.setHandler k h').Sound := by
  have hv := hs.served hk
  exact hs.update ⟨ho hv.ordered, hf ▸ hv.receiving, hw ▸ hv.watched, hf ▸ hv.drained⟩

theorem update_channel (hself : Served relay k h') (hinner : relay.inner = s.relay.inner)
    (hothers : ∀ j, j ≠ k → relay.channels j = s.relay.channels j) :
    (Server.setHandler ⟨relay, s.handlers⟩ k h').Sound :=
  hs.set hself (fun j hj => by rw [hothers j hj]) (fun j q _ hq => hinner ▸ hq)
    (fun j hj _ => hothers j hj)

theorem update_handled {c : Crypto} (hh : s.relay.handle c amb msg (some k) = (relay, r))
    (hr : r ≠ .spinning) (hself : Served relay k h') :
    (Server.setHandler ⟨relay, s.handlers⟩ k h').Sound := by
  obtain ⟨hreceiving, hjoins⟩ := RelayState.handle_registers hh hr
  refine hs.set hself (fun j _ => hreceiving j) (fun j q hj hq => ?_) (fun j hj hu => ?_)
  · rcases hjoins j q hq with hq | ⟨rfl, -⟩
    · exact hq
    · exact absurd rfl hj
  · have hqueue : (relay.channels j).queue = (s.relay.channels j).queue := by
      cases r with
      | answered =>
        obtain ⟨news, htold, -⟩ := RelayState.told_answered
          (RelayState.Tuned.of_idle hu.unregistered default) (fun hjk => absurd hjk hj) hh
        exact (htold.idle hu.unregistered).1
      | panicked => exact ((RelayState.told_panicked (q := default) hh).idle hu.unregistered).1
      | spinning => exact absurd rfl hr
    exact congrArg₂ Channel.mk (hreceiving j) hqueue

end Server.Sound

theorem Served.handled {s : RelayState} (hv : Served s k h)
    (hh : s.handle c amb msg (some k) = (relay, r)) (hr : r ≠ .spinning) (hlive : h.main = .reading)
    (ho : h'.Ordered) (hf : h'.forwarder = h.forwarder)
    (hw : h'.watched = h.watched ++ subscribedIds msg) : Served relay k h' := by
  obtain ⟨hreceiving, hjoins⟩ := RelayState.handle_registers hh hr
  refine ⟨ho, ?_, fun q hq => ?_, fun hd => ?_⟩
  · rw [hreceiving, hf]
    exact hv.receiving
  · rw [hw, mem_append]
    rcases hjoins k q hq with hq | ⟨-, hq⟩
    · exact .inl (hv.watched q hq)
    · exact .inr hq
  · rw [hf] at hd
    simp [hv.ordered.forwarderDrained hd] at hlive

theorem Served.dropped {relay' : RelayState} (hv : Served relay k h)
    (hinner : relay'.inner = relay.inner) (hclosed : (relay'.channels k).receiving = false)
    (ho : h'.Ordered) (hf : h'.forwarder ≠ .running) (hw : h'.watched = h.watched)
    (hd : h'.forwarder = .drained → ∀ q, k ∉ relay.inner.subscribers q) : Served relay' k h' where
  ordered := ho
  receiving := by simp [hclosed, hf]
  watched q hq := by
    rw [hw]
    exact hv.watched q (hinner ▸ hq)
  drained hdr q hq := hd hdr q (hinner ▸ hq)

theorem Served.senders (hv : Served s.relay k h) (hnone : s.pushSenders k h = false) :
    h.main ≠ .reading ∧ h.main ≠ .awaitingWriter ∧
      ∀ q, k ∉ s.relay.inner.subscribers q := by
  simp only [Server.pushSenders, Bool.or_eq_false_iff, decide_eq_false_iff_not,
    List.any_eq_false, contains_iff_mem] at hnone
  exact ⟨hnone.1.1, hnone.1.2, fun q hq => hnone.2 q (hv.watched q hq) hq⟩

theorem sound_boot (persistent : Bool) : (Server.boot persistent).Sound := fun _ =>
  ⟨rfl, fun _ hq => nomatch hq⟩

theorem Server.Sound.respond (hs : s.Sound) (hk : s.handlers k = some h) (hm : h.main = .reading)
    (hh : s.relay.handle c amb msg (some k) = (relay, r)) (hr : r ≠ .spinning)
    (ho : h.Ordered → h'.Ordered) (hf : h'.forwarder = h.forwarder)
    (hw : h'.watched = h.watched ++ subscribedIds msg) :
    (Server.setHandler ⟨relay, s.handlers⟩ k h').Sound :=
  have hv := hs.served hk
  hs.update_handled hh hr (hv.handled hh hr hm (ho hv.ordered) hf hw)

theorem Server.Sound.transition (hs : s.Sound) (ht : Transition c s ev t) : t.Sound := by
  cases ht with
  | accepted new =>
    have hu := hs.unused new
    exact hs.update ⟨.start, by simp [Handler.start, hu.channel],
      fun q hq => absurd hq (hu.unregistered q), fun _ => hu.unregistered⟩
  | closed known main => exact hs.reorder known (fun ho => ho.leave main) rfl rfl
  | readFailed known main => exact hs.reorder known (fun ho => ho.fail main) rfl rfl
  | answered known main handled =>
    exact hs.respond known main handled nofun (fun ho => ho.congr rfl rfl rfl) rfl rfl
  | unanswered known main handled =>
    exact hs.respond known main handled nofun (fun ho => (ho.leave main).congr rfl rfl rfl) rfl rfl
  | panicked known main handled =>
    exact hs.respond known main handled nofun (fun ho => (ho.fail main).congr rfl rfl rfl) rfl rfl
  | wrote known => exact hs.reorder known (fun ho => ho.congr rfl rfl rfl) rfl rfl
  | writeFailed known => exact hs.reorder known (fun ho => ho.breakWriter) rfl rfl
  | writerDrained known writer main forwarder =>
    exact hs.reorder known (fun ho => ho.drainWriter writer forwarder) rfl rfl
  | forwarded known =>
    have hv := hs.served known
    refine hs.update_channel ⟨hv.ordered.congr rfl rfl rfl, ?_, hv.watched, hv.drained⟩ rfl
      (fun j hj => update_of_ne hj _ _)
    simpa [RelayState.receivePush] using hv.receiving
  | forwardFailed known forwarder writer =>
    have hv := hs.served known
    refine hs.update_channel (hv.dropped rfl (by simp [RelayState.hangUp])
      (hv.ordered.breakForwarder forwarder writer) (by simp) rfl (by simp)) rfl (fun j hj => ?_)
    simp [RelayState.hangUp, RelayState.receivePush, update_of_ne hj]
  | forwarderDrained known forwarder senders =>
    have hv := hs.served known
    obtain ⟨hm, hm', hnone⟩ := hv.senders senders
    exact hs.update_channel (hv.dropped rfl (by simp [RelayState.hangUp])
      (hv.ordered.drainForwarder forwarder hm hm') (by simp) rfl fun _ => hnone) rfl
      (fun j hj => update_of_ne hj _ _)
  | joined known main writer =>
    have hv := hs.served known
    have ho := hv.ordered.join main writer
    refine hs.update_channel (hv.dropped rfl (by simp [RelayState.hangUp]) ho
      (ho.returned rfl).2 rfl fun hd => ?_) rfl (fun j hj => update_of_ne hj _ _)
    cases ho.forwarderDrained hd

theorem run_sound (h : run (Server.step c) (Server.boot persistent) es = some s) : s.Sound :=
  run_invariant (sound_boot persistent) (fun _ _ _ hs ht => hs.transition (transition_of_step ht)) h

theorem Transition.others (ht : Transition c s ev t) (hk : ev.conn ≠ k) :
    t.handlers k = s.handlers k := by
  cases ht <;> exact update_of_ne (Ne.symm hk) _ _

/-- The writer stops short exactly at a failed write. -/
theorem Transition.broke (ht : Transition c s ev t) (k : ChannelId) :
    (∃ h, t.handlers k = some h ∧ h.writer = .broke) ↔
      (∃ h, s.handlers k = some h ∧ h.writer = .broke) ∨ ev = .write k false := by
  by_cases hk : ev.conn = k
  · subst hk
    cases ht with
    | accepted new => simp [ServerEvent.conn, Server.setHandler, new, Handler.start]
    | writeFailed => simp [ServerEvent.conn, Server.setHandler]
    | writerDrained known writer => simp [ServerEvent.conn, Server.setHandler, known, writer]
    | wrote known | closed known | readFailed known | forwarded known | forwardFailed known
    | forwarderDrained known | joined known => simp [ServerEvent.conn, Server.setHandler, known]
    | answered known | unanswered known | panicked known =>
      simp [ServerEvent.conn, Server.setHandler, known, Handler.watch]
  · rw [ht.others hk]
    have hne : ev ≠ .write k false := by
      rintro rfl
      exact hk rfl
    simp [hne]

theorem run_broke (h : run (Server.step c) (Server.boot persistent) es = some s) (k : ChannelId) :
    (∃ h, s.handlers k = some h ∧ h.writer = .broke) ↔ .write k false ∈ es := by
  refine run_induction (by simp [Server.boot]) (fun es s ev t _ ih ht => ?_) h
  rw [(transition_of_step ht).broke k, ih, mem_append, mem_singleton, eq_comm]

/-- The forwarder stops short exactly when it takes up a push after a failed write. -/
theorem Transition.stopped (hs : s.Sound) (ht : Transition c s ev t) (k : ChannelId) :
    (∃ h, t.handlers k = some h ∧ h.forwarder = .broke) ↔
      (∃ h, s.handlers k = some h ∧ h.forwarder = .broke) ∨
      ev = .forward k ∧ ∃ h, s.handlers k = some h ∧ h.writer = .broke := by
  by_cases hk : ev.conn = k
  · subst hk
    cases ht with
    | accepted new => simp [ServerEvent.conn, Server.setHandler, new, Handler.start]
    | forwarded known running _ writer | forwarderDrained known running =>
      simp_all [ServerEvent.conn, Server.setHandler]
    | forwardFailed known running writer =>
      have ho := (hs.served known).ordered
      have hbroke := ho.writer_broke writer fun hd => (ho.writerDrained hd).2 running
      simp [ServerEvent.conn, Server.setHandler, known, hbroke]
    | @joined k h known =>
      cases hf : h.forwarder <;> simp [ServerEvent.conn, Server.setHandler, known, hf]
    | wrote known | writeFailed known | writerDrained known | closed known | readFailed known
    | answered known | unanswered known | panicked known =>
      simp [ServerEvent.conn, Server.setHandler, known, Handler.watch]
  · rw [ht.others hk]
    have hne : ev ≠ .forward k := by
      rintro rfl
      exact hk rfl
    simp [hne]

theorem run_stopped (h : run (Server.step c) (Server.boot persistent) es = some s) (k : ChannelId) :
    (∃ h, s.handlers k = some h ∧ h.forwarder = .broke) ↔
      Sublist [.write k false, .forward k] es := by
  refine run_induction (by simp [Server.boot]) (fun es s ev t hes ih ht => ?_) h
  rw [(transition_of_step ht).stopped (run_sound hes) k, ih, run_broke hes k]
  -- what comes last comes first in the reverse
  have hrev : Sublist [.write k false, .forward k] (es ++ [ev]) ↔
      Sublist [.forward k, .write k false] (ev :: es.reverse) := by
    rw [← reverse_sublist, reverse_concat']
    rfl
  rw [hrev, cons_sublist_cons', ← reverse_sublist]
  simp [eq_comm]

/-- At every moment of every run, a connection's push channel is open exactly while its forwarder
runs, only queues it has named hold its sender, and its handler has returned only if a write to
it had failed. Its three tasks have then ended. -/
theorem handler_returns_after_failed_write (c : Crypto) (persistent : Bool) (es : List ServerEvent)
    (s : Server) (k : ChannelId) (h : Handler)
    (hrun : run (Server.step c) (Server.boot persistent) es = some s) (hk : s.handlers k = some h) :
    ((s.relay.channels k).receiving = true ↔ h.forwarder = .running) ∧
    (∀ q, k ∈ s.relay.inner.subscribers q → q ∈ h.watched) ∧
    (h.main = .returned → .write k false ∈ es ∧ h.Released) := by
  have hv := (run_sound hrun).served hk
  refine ⟨hv.receiving, hv.watched, fun hm => ?_⟩
  obtain ⟨hbroke, hstopped⟩ := hv.ordered.returned hm
  exact ⟨(run_broke hrun k).mp ⟨h, hk, hbroke⟩, Or.inl hm, by simp [hbroke], hstopped⟩

def brokenVisit : List ServerEvent :=
  [.accept 0, .read 0 (.fill 0) (.ok ⟨0, .subscribe []⟩), .write 0 false,
    .read 0 (.fill 0) (.error .closed), .joinWriter 0]

theorem handler_returns_after_failed_write_once : ∃ s h,
    run (Server.step .plain) (Server.boot false) brokenVisit = some s ∧
    s.handlers 0 = some h ∧ h.main = .returned ∧ h.Released := by
  obtain ⟨s, hs, hk⟩ : ∃ s, run (Server.step .plain) (Server.boot false) brokenVisit = some s ∧
      s.handlers 0 = some ⟨.returned, .broke, .aborted, [], []⟩ := by decide +kernel
  exact ⟨s, _, hs, hk, rfl,
    ((handler_returns_after_failed_write .plain false _ s 0 _ hs hk).2.2 rfl).2⟩

/-! ## After the end of the stream -/

/-- How much the tasks of a connection still have to do. -/
def Handler.work (h : Handler) (queue : List Push) : ℕ :=
  2 * queue.length + h.out.length + (if h.writer = .running then 1 else 0) +
    (if h.forwarder = .running then 1 else 0) + (if h.main = .awaitingWriter then 1 else 0)

/-- Nothing is pushed to the connection. -/
def NoPush (c : Crypto) (k : ChannelId) (s : Server) (ev : ServerEvent) : Prop :=
  ∀ t, Server.step c s ev = some t → ev.conn ≠ k →
    (t.relay.channels k).queue = (s.relay.channels k).queue

/-- No task of the connection can take a step. -/
def Settled (c : Crypto) (k : ChannelId) (s : Server) : Prop :=
  ∀ ev, ev.conn = k → Server.step c s ev = none

/-- Each step of a connection whose stream is over leaves less to do. -/
theorem Transition.work (ht : Transition c s ev t) (hk : s.handlers ev.conn = some h)
    (hm : h.main ≠ .reading) :
    ∃ h', t.handlers ev.conn = some h' ∧ h'.main ≠ .reading ∧
      h'.work (t.relay.channels ev.conn).queue < h.work (s.relay.channels ev.conn).queue := by
  cases ht with
  | accepted new => simp [ServerEvent.conn, new] at hk
  | closed known main | readFailed known main | answered known main | unanswered known main
  | panicked known main =>
    obtain rfl := mem_unique known hk
    exact absurd main hm
  | wrote known writer queued =>
    obtain rfl := mem_unique known hk
    refine ⟨_, update_self .., hm, ?_⟩
    simp only [Handler.work, queued, length_cons, Server.setHandler]
    omega
  | writeFailed known running | writerDrained known running | forwarderDrained known running =>
    obtain rfl := mem_unique known hk
    refine ⟨_, update_self .., hm, ?_⟩
    simp only [Handler.work, Server.setHandler, ServerEvent.conn, RelayState.hangUp,
      update_self, running, length_nil, reduceCtorEq, if_true, if_false]
    omega
  | forwarded known forwarder queued =>
    obtain rfl := mem_unique known hk
    refine ⟨_, update_self .., hm, ?_⟩
    simp only [Handler.work, Server.setHandler, ServerEvent.conn, RelayState.receivePush,
      update_self, queued, tail_cons, length_cons, length_append,
      length_nil]
    omega
  | @forwardFailed k h known forwarder =>
    obtain rfl := mem_unique known hk
    refine ⟨_, update_self .., hm, ?_⟩
    have htail : (s.relay.channels k).queue.tail.length ≤ (s.relay.channels k).queue.length := by
      rw [length_tail]
      omega
    simp only [Handler.work, Server.setHandler, ServerEvent.conn, RelayState.receivePush,
      RelayState.hangUp, update_self, forwarder, reduceCtorEq, if_true, if_false]
    omega
  | @joined k h known main =>
    obtain rfl := mem_unique known hk
    refine ⟨_, update_self .., by simp, ?_⟩
    simp only [Handler.work, Server.setHandler, ServerEvent.conn, RelayState.hangUp,
      update_self, main, reduceCtorEq, if_true, if_false]
    split_ifs <;> omega

/-- A connection whose stream is over takes a bounded number of steps. -/
theorem run_work (hrun : run (Server.step c) s es = some t)
    (hquiet : Along (Server.step c) (NoPush c k) s es) (hk : s.handlers k = some h)
    (hm : h.main ≠ .reading) :
    ∃ h', t.handlers k = some h' ∧ h'.main ≠ .reading ∧
      (es.filter (fun ev => ev.conn = k)).length + h'.work (t.relay.channels k).queue ≤
        h.work (s.relay.channels k).queue := by
  induction es generalizing s h with
  | nil =>
    cases hrun
    exact ⟨h, hk, hm, by simp⟩
  | cons ev es ih =>
    obtain ⟨u, hu, hrest⟩ := bind_eq_some_iff.mp hrun
    by_cases hev : ev.conn = k
    · subst hev
      obtain ⟨h₁, hk₁, hm₁, hlt⟩ := (transition_of_step hu).work hk hm
      obtain ⟨h', hk', hm', hle⟩ := ih hrest (hquiet.2 u hu) hk₁ hm₁
      refine ⟨h', hk', hm', ?_⟩
      simp only [filter_cons, decide_true, if_true, length_cons]
      omega
    · obtain ⟨h', hk', hm', hle⟩ := ih hrest (hquiet.2 u hu)
        (((transition_of_step hu).others hev).trans hk) hm
      rw [hquiet.1 u hu hev] at hle
      refine ⟨h', hk', hm', ?_⟩
      simpa only [filter_cons, hev, decide_false, Bool.false_eq_true, if_false] using hle

/-- The tasks of a settled connection: each waits for another. -/
theorem released_iff_of_settled (hs : s.Sound) (hk : s.handlers k = some h) (hm : h.main ≠ .reading)
    (hsettled : Settled c k s) :
    h.Released ↔ if h.main = .failed then
      h.forwarder = .broke ∨ ∀ q, k ∉ s.relay.inner.subscribers q
    else h.writer = .broke := by
  have hv := hs.served hk
  have ho := hv.ordered
  have hjoin := hsettled (.joinWriter k) rfl
  have hdry := hsettled (.writerDone k) rfl
  have hwrite := hsettled (.write k true) rfl
  have hforward := hsettled (.forward k) rfl
  have hdrain := hsettled (.forwarderDone k) rfl
  simp only [Server.step, hk, bind_some, ite_eq_right_iff, reduceCtorEq, imp_false,
    map_eq_none_iff] at hjoin hdry hwrite hforward hdrain
  have hout : h.writer = .running → h.out = [] := by
    intro hw
    have hnone := hwrite hw
    cases hq : h.out with
    | nil => rfl
    | cons =>
      rw [hq] at hnone
      cases hnone
  have hqueue : h.forwarder = .running → (s.relay.channels k).queue = [] := by
    intro hf
    have hnone := hforward hf
    cases hq : (s.relay.channels k).queue with
    | nil => rfl
    | cons =>
      rw [hq, Server.onPush] at hnone
      split_ifs at hnone
  have hwriter : h.writer = .running → h.forwarder = .running := by
    intro hw
    by_contra hf
    exact hdry ⟨hw, hout hw, hm, hf⟩
  have hsenders : h.forwarder = .running → s.pushSenders k h = true := by
    intro hf
    by_contra hnone
    exact hdrain ⟨hf, hqueue hf, Bool.eq_false_of_not_eq_true hnone⟩
  cases hmain : h.main with
  | reading => exact absurd hmain hm
  | awaitingWriter =>
    -- the handler would join a writer that has ended
    have hw : h.writer = .running := by
      by_contra hw
      exact hjoin ⟨hmain, hw⟩
    simp [Handler.Released, hw]
  | returned =>
    obtain ⟨hw, hf⟩ := ho.returned hmain
    simp [Handler.Released, hmain, hw, hf]
  | failed =>
    constructor
    · rintro ⟨-, -, hf⟩
      cases hfw : h.forwarder with
      | running => exact absurd hfw hf
      | drained => exact .inr (hv.drained hfw)
      | broke => exact .inl rfl
      | aborted =>
        rw [ho.forwarderAborted hfw] at hmain
        cases hmain
    · intro hgone
      have hf : h.forwarder ≠ .running := by
        rcases hgone with hb | hnone
        · simp [hb]
        · intro hf
          have hsend := hsenders hf
          simp only [Server.pushSenders, hmain, reduceCtorEq, decide_false, Bool.false_or,
            List.any_eq_true, contains_iff_mem] at hsend
          obtain ⟨q, -, hq⟩ := hsend
          exact hnone q hq
      exact ⟨.inr hmain, fun hw => hf (hwriter hw), hf⟩

theorem subscribe_prunes (hs : s.Sound) (hk : s.handlers k = some h) (hr : h.Released) :
    (s.relay.channels k).receiving = false ∧ ∀ j ids q, j ≠ k → q ∈ ids →
      k ∉ (s.relay.subscribe ids j).inner.subscribers q := by
  have hclosed : (s.relay.channels k).receiving = false :=
    Bool.eq_false_of_not_eq_true fun h => hr.2.2 ((hs.served hk).receiving.mp h)
  refine ⟨hclosed, fun j ids q hj hq hmem => ?_⟩
  rw [RelayState.subscribe_subscribers, if_pos hq] at hmem
  rcases mem_append.mp hmem with hmem | hmem
  · simp [hclosed] at hmem
  · exact hj (mem_singleton.mp hmem).symm

theorem subscribe_alone (hs : s.Sound) {j : ChannelId}
    (hothers : ∀ k, k ≠ j → ∀ h, s.handlers k = some h → h.Released) {ids : List QueueId}
    {q : QueueId} (hq : q ∈ ids) : (s.relay.subscribe ids j).inner.subscribers q = [j] := by
  rw [RelayState.subscribe_subscribers, if_pos hq]
  have hnil : (s.relay.inner.subscribers q).filter
      (fun e => (s.relay.channels e).receiving ∧ e ≠ j) = [] := by
    refine filter_eq_nil_iff.mpr fun k hk hkeep => ?_
    obtain ⟨hrec, hne⟩ := of_decide_eq_true hkeep
    cases hh : s.handlers k with
    | none => exact (hs.unused hh).unregistered q hk
    | some h => simp [(subscribe_prunes hs hh (hothers k hne h hh)).1] at hrec
  rw [hnil, nil_append]

/-- After the end of a connection's stream, and as long as nothing is pushed to it, its tasks
take a bounded number of steps. When they can take no more, the connection is released if and
only if a write had failed or, after a read error, its sender was registered nowhere or a push
was taken up after a failed write. A released connection's sender is closed and goes with the next
subscription to its queues. -/
theorem connection_released_iff (c : Crypto) (persistent : Bool) (es more : List ServerEvent)
    (s t : Server) (k : ChannelId) (h : Handler)
    (hrun : run (Server.step c) (Server.boot persistent) es = some s)
    (hknown : s.handlers k = some h) (hover : h.main ≠ .reading)
    (hmore : run (Server.step c) s more = some t)
    (hquiet : Along (Server.step c) (NoPush c k) s more) :
    (more.filter (fun ev => ev.conn = k)).length ≤ h.work (s.relay.channels k).queue ∧
    ∃ h', t.handlers k = some h' ∧ h'.main ≠ .reading ∧
      (Settled c k t → (h'.Released ↔ if h'.main = .failed then
          Sublist [.write k false, .forward k] (es ++ more) ∨
            ∀ q, k ∉ t.relay.inner.subscribers q
        else .write k false ∈ es ++ more)) ∧
      (h'.Released → (t.relay.channels k).receiving = false ∧ ∀ j ids q, j ≠ k → q ∈ ids →
        k ∉ (t.relay.subscribe ids j).inner.subscribers q) ∧
      ∀ j, (∀ i, i ≠ j → ∀ hi, t.handlers i = some hi → hi.Released) → ∀ ids, ∀ q ∈ ids,
        (t.relay.subscribe ids j).inner.subscribers q = [j] := by
  obtain ⟨h', hk', hm', hle⟩ := run_work hmore hquiet hknown hover
  have hfull : run (Server.step c) (Server.boot persistent) (es ++ more) = some t := by
    rw [run_append, hrun]
    exact hmore
  have hs := run_sound hfull
  refine ⟨by omega, h', hk', hm', fun hsettled => ?_, fun hr => subscribe_prunes hs hk' hr,
    fun j hothers ids q hq => subscribe_alone hs hothers hq⟩
  rw [released_iff_of_settled hs hk' hm' hsettled, ← run_broke hfull k, ← run_stopped hfull k]
  simp [hk']

theorem settled_of_idle (hk : s.handlers k = some h) (hm : h.main ≠ .reading)
    (hjoin : h.main = .awaitingWriter → h.writer = .running)
    (hwriter : h.writer = .running → h.out = [] ∧ h.forwarder = .running)
    (hforwarder : h.forwarder = .running → (s.relay.channels k).queue = [] ∧
      s.pushSenders k h = true) :
    Settled c k s := by
  rintro ev rfl
  cases ev with dsimp only [ServerEvent.conn] at hk hforwarder
  | accept => simp [Server.step, hk]
  | read => simp [Server.step, hk, hm]
  | write =>
    simp only [Server.step, hk, bind_some, ite_eq_right_iff]
    intro hw
    rw [(hwriter hw).1]
    rfl
  | writerDone =>
    simp only [Server.step, hk, bind_some, ite_eq_right_iff, reduceCtorEq]
    exact fun hg => hg.2.2.2 (hwriter hg.1).2
  | forward =>
    simp only [Server.step, hk, bind_some, ite_eq_right_iff]
    intro hf
    rw [(hforwarder hf).1]
    rfl
  | forwarderDone =>
    simp only [Server.step, hk, bind_some, ite_eq_right_iff]
    intro hg
    have hsend := (hforwarder hg.1).2
    simp [hg.2.2] at hsend
  | joinWriter =>
    simp only [Server.step, hk, bind_some, ite_eq_right_iff, reduceCtorEq]
    exact fun hg => hg.2 (hjoin hg.1)

/-- A client that has subscribed to nothing and whose stream breaks. -/
theorem connection_released_iff_unsubscribed :
    ∃ s t, run (Server.step .plain) (Server.boot false)
        [.accept 0, .read 0 (.fill 0) (.error .io)] = some s ∧
      run (Server.step .plain) s [.forwarderDone 0, .writerDone 0] = some t ∧
      ∃ h, t.handlers 0 = some h ∧ h.Released ∧ (t.relay.channels 0).receiving = false := by
  obtain ⟨s, hs, hk, t, ht, hk'⟩ : ∃ s, run (Server.step .plain) (Server.boot false)
      [.accept 0, .read 0 (.fill 0) (.error .io)] = some s ∧
        s.handlers 0 = some ⟨.failed, .running, .running, [], []⟩ ∧
        ∃ t, run (Server.step .plain) s [.forwarderDone 0, .writerDone 0] = some t ∧
          t.handlers 0 = some ⟨.failed, .drained, .drained, [], []⟩ := by decide +kernel
  have hquiet : Along (Server.step .plain) (NoPush .plain 0) s [.forwarderDone 0, .writerDone 0] :=
    ⟨fun _ _ hne => absurd rfl hne, fun _ _ => ⟨fun _ _ hne => absurd rfl hne, fun _ _ => trivial⟩⟩
  obtain ⟨-, h, hh, -, hiff, hclosed, -⟩ := connection_released_iff .plain false _ _ s t 0 _ hs hk
    (by decide) ht hquiet
  obtain rfl := mem_unique hk' hh
  have hgone : ∀ q, 0 ∉ t.relay.inner.subscribers q := by
    have hfull : run (Server.step .plain) (Server.boot false)
        ([.accept 0, .read 0 (.fill 0) (.error .io)] ++ [.forwarderDone 0, .writerDone 0]) =
        some t := by
      rw [run_append, hs]
      exact ht
    exact ((run_sound hfull).served hk').drained rfl
  have hr := (hiff (settled_of_idle hk' (by decide) nofun nofun nofun)).mpr (Or.inr hgone)
  exact ⟨s, t, hs, ht, _, hk', hr, (hclosed hr).1⟩

/-- Two clients that connect, subscribe to one mailbox and close their stream, one after the
other; their replies are written. -/
def twoVisits : List ServerEvent :=
  [.accept 0, .read 0 (.fill 0) (.ok ⟨0, .subscribe [.fill 1]⟩), .write 0 true,
    .read 0 (.fill 0) (.error .closed),
    .accept 1, .read 1 (.fill 0) (.ok ⟨0, .subscribe [.fill 1]⟩), .write 1 true,
    .read 1 (.fill 0) (.error .closed)]

/-- None of their tasks has ended or can take a step, and both senders are registered. -/
theorem closed_connections_linger :
    ∃ s, run (Server.step .plain) (Server.boot false) twoVisits = some s ∧
      s.relay.inner.subscribers (.fill 1) = [0, 1] ∧
      ∀ k < 2, s.handlers k = some ⟨.awaitingWriter, .running, .running, [], [.fill 1]⟩ ∧
        Settled .plain k s := by
  obtain ⟨s, hs, hsubs, hidle⟩ :
      ∃ s, run (Server.step .plain) (Server.boot false) twoVisits = some s ∧
      s.relay.inner.subscribers (.fill 1) = [0, 1] ∧
      ∀ k < 2, s.handlers k = some ⟨.awaitingWriter, .running, .running, [], [.fill 1]⟩ ∧
        (s.relay.channels k).queue = [] := by decide +kernel
  refine ⟨s, hs, hsubs, fun k hk => ⟨(hidle k hk).1, ?_⟩⟩
  exact settled_of_idle (hidle k hk).1 nofun (fun _ => rfl) (fun _ => ⟨rfl, rfl⟩)
    fun _ => ⟨(hidle k hk).2, rfl⟩

end Rosette.Relay
