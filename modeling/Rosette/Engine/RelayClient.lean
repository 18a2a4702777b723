import Rosette.Foundation.Trace
import Rosette.Proto.Frame

/-! # The relay client

Any number of calls share one connection. A call takes the next request id, files the
sender of its reply under that id, hands the request to the writer and waits. The
reader task routes each reply to the sender filed under its id and each push to the
push channel; when the stream ends it marks the table closed and drops what is filed.
The calls and the reader share the table under a lock, so what one of them does under
the lock is one step, and the steps of all of them interleave freely.
-/
namespace Rosette.Engine
open Foundation Proto List Option Function

abbrev RequestId := UInt64
abbrev CallId := ℕ

inductive Oneshot where
  | empty
  | sent (message : ServerMessage)
  | dropped
deriving DecidableEq

def Oneshot.drop : Oneshot → Oneshot
  | .empty => .dropped
  | o => o

inductive CallError where
  | connectionClosed
deriving DecidableEq

/-- Where a call is. It can only be abandoned where it waits. -/
inductive CallPhase where
  | started
  | registered
  | unregistering
  | waiting
  | finished (result : Except CallError ServerMessage)
  | abandoned
deriving DecidableEq

structure InFlight where
  requestId : RequestId
  message : ClientMessage
  phase : CallPhase
  reply : Oneshot
deriving DecidableEq

def InFlight.drop (call : InFlight) : InFlight := { call with reply := call.reply.drop }

/-- The senders of replies, each known by its call. -/
structure Pending where
  closed : Bool
  map : RequestId → Option CallId

/-- The reader task: reading, past the end of the stream, or gone. -/
inductive ReaderTask where
  | reading
  | leaving
  | exited
deriving DecidableEq

structure RelayClient where
  nextRequestId : RequestId
  pending : Pending
  reader : ReaderTask
  /-- Whether the writer task still takes frames. -/
  writing : Bool
  outgoing : List ClientFrame
  pushRx : List (QueueId × Envelope)
  calls : CallId → Option InFlight

namespace RelayClient

def connect : RelayClient := ⟨0, ⟨false, fun _ => none⟩, .reading, true, [], [], fun _ => none⟩

def setCall (s : RelayClient) (k : CallId) (call : InFlight) : RelayClient :=
  { s with calls := update s.calls k (some call) }

def sendReply (s : RelayClient) (k : CallId) (message : ServerMessage) : RelayClient :=
  { s with
    calls := update s.calls k
      ((s.calls k).map (fun call => { call with reply := .sent message })) }

def dropSender (s : RelayClient) (k : CallId) : RelayClient :=
  { s with calls := update s.calls k ((s.calls k).map InFlight.drop) }

/-- File a sender, or remove the one that is there. The displaced sender is dropped. -/
def file (s : RelayClient) (id : RequestId) (entry : Option CallId) : RelayClient :=
  let s' := match s.pending.map id with
    | none => s
    | some k => s.dropSender k
  { s' with pending := { s.pending with map := update s.pending.map id entry } }

def finish (s : RelayClient) (k : CallId) (call : InFlight)
    (result : Except CallError ServerMessage) :
    RelayClient × Option (Except CallError ServerMessage) :=
  (s.setCall k { call with phase := .finished result }, some result)

/-- The next stretch of a call, up to where another task may run, and what it returns. -/
def turn (s : RelayClient) (k : CallId) (call : InFlight) :
    RelayClient × Option (Except CallError ServerMessage) :=
  match call.phase with
  | .started =>
    if s.pending.closed then
      s.finish k { call with reply := .dropped } (.error .connectionClosed)
    else ((s.file call.requestId (some k)).setCall k { call with phase := .registered }, none)
  | .registered =>
    if s.writing then
      ({ s.setCall k { call with phase := .waiting } with
        outgoing := s.outgoing ++ [⟨call.requestId, call.message⟩] }, none)
    else (s.setCall k { call with phase := .unregistering }, none)
  | .unregistering => (s.file call.requestId none).finish k call.drop (.error .connectionClosed)
  | .waiting =>
    match call.reply with
    | .empty => (s, none)
    | .sent message => s.finish k call (.ok message)
    | .dropped => s.finish k call (.error .connectionClosed)
  | .finished _ | .abandoned => (s, none)

/-- One turn of the reader's loop. A reply nobody has filed a sender for is discarded. -/
def onFrame (s : RelayClient) : ServerFrame → RelayClient
  | .push queueId envelope => { s with pushRx := s.pushRx ++ [(queueId, envelope)] }
  | .reply requestId message =>
    match s.pending.map requestId with
    | none => s
    | some k => { s.sendReply k message with
        pending := { s.pending with map := update s.pending.map requestId none } }

/-- The reader's last critical section: every sender still filed is dropped. -/
def close (s : RelayClient) : RelayClient :=
  { s with
    reader := .exited
    pending := ⟨true, fun _ => none⟩
    calls := fun k => (s.calls k).map (fun call =>
      if s.pending.map call.requestId = some k then call.drop else call) }

end RelayClient

inductive ClientEvent where
  | call (k : CallId) (message : ClientMessage)
  | turn (k : CallId)
  | abandon (k : CallId)
  | read (frame : ServerFrame)
  | endOfStream
  | close
  | writerStops
  | recvPush
deriving DecidableEq

/-- The client, with what its reader has read and what has come out of it. -/
structure ClientRun where
  client : RelayClient
  read : List ServerFrame
  received : List (QueueId × Envelope)
  resolved : List (CallId × Except CallError ServerMessage)

namespace ClientRun

def start : ClientRun := ⟨.connect, [], [], []⟩

def step (s : ClientRun) : ClientEvent → Option ClientRun
  | .call k message =>
    if s.client.calls k = none then
      some { s with client := { s.client.setCall k
          ⟨s.client.nextRequestId, message, .started, .empty⟩ with
        nextRequestId := s.client.nextRequestId + 1 } }
    else none
  | .turn k => (s.client.calls k).map (fun call =>
      { s with
        client := (s.client.turn k call).1
        resolved := s.resolved ++ ((s.client.turn k call).2.map (Prod.mk k)).toList })
  | .abandon k => (s.client.calls k).bind (fun call =>
      if call.phase = .waiting then
        some { s with client := s.client.setCall k { call with phase := .abandoned } }
      else none)
  | .read frame =>
    if s.client.reader = .reading then
      some { s with client := s.client.onFrame frame, read := s.read ++ [frame] }
    else none
  | .endOfStream =>
    if s.client.reader = .reading then
      some { s with client := { s.client with reader := .leaving } }
    else none
  | .close => if s.client.reader = .leaving then some { s with client := s.client.close } else none
  | .writerStops => some { s with client := { s.client with writing := false } }
  | .recvPush =>
    match s.client.pushRx with
    | [] => none
    | p :: rest =>
      some { s with client := { s.client with pushRx := rest }, received := s.received ++ [p] }

end ClientRun

/-! ## The table of senders -/

theorem Oneshot.drop_ne_empty (o : Oneshot) : o.drop ≠ .empty := by cases o <;> simp [Oneshot.drop]

theorem Oneshot.drop_eq_sent {o : Oneshot} {m : ServerMessage} :
    o.drop = .sent m ↔ o = .sent m := by
  cases o <;> simp [Oneshot.drop]

namespace RelayClient
variable {s : RelayClient} {k : CallId} {call : InFlight} {id : RequestId}

theorem file_calls (s : RelayClient) (id : RequestId) (entry : Option CallId) (j : CallId) :
    (s.file id entry).calls j =
      if s.pending.map id = some j then (s.calls j).map InFlight.drop else s.calls j := by
  unfold file
  cases hk : s.pending.map id with
  | none => simp
  | some k =>
    by_cases hj : j = k
    · subst hj
      simp [dropSender]
    · simp [dropSender, hj, Ne.symm hj]

/-- The table holds the senders that are still around: those of calls that have registered and
whose receiver has seen nothing yet. -/
def Tabled (s : RelayClient) : Prop :=
  ∀ id k, s.pending.map id = some k ↔
    ∃ call, s.calls k = some call ∧ call.requestId = id ∧ call.reply = .empty ∧
      call.phase ≠ .started

theorem Tabled.setCall (h : s.Tabled) {call' : InFlight} (hk : s.calls k = some call)
    (hid : call'.requestId = call.requestId)
    (hsame : (call'.reply = .empty ∧ call'.phase ≠ .started) ↔
      (call.reply = .empty ∧ call.phase ≠ .started)) :
    (s.setCall k call').Tabled := by
  intro id j
  change s.pending.map id = some j ↔ _
  rw [h id j]
  by_cases hj : j = k
  · subst hj
    simp only [RelayClient.setCall, update_self, hk, some.injEq, exists_eq_left', hid, hsame]
  · simp only [RelayClient.setCall, update_of_ne hj]

theorem Tabled.register (h : s.Tabled) (hk : s.calls k = some call) (hphase : call.phase = .started)
    (hreply : call.reply = .empty) :
    ((s.file call.requestId (some k)).setCall k { call with phase := .registered }).Tabled := by
  intro id j
  change update s.pending.map call.requestId (some k) id = some j ↔ _
  simp only [RelayClient.setCall]
  by_cases hj : j = k
  · subst hj
    simp only [hreply]
    by_cases hid : id = call.requestId
    · simp [hid]
    · rw [update_of_ne hid, h id j]
      simp [hk, hphase, Ne.symm hid]
  · rw [update_of_ne hj, file_calls]
    by_cases hid : id = call.requestId
    · subst hid
      simp only [update_self, some.injEq, Ne.symm hj, false_iff]
      rintro ⟨other, hother, hoid, hempty, hphase'⟩
      split_ifs at hother with htab
      · obtain ⟨c, -, rfl⟩ := map_eq_some_iff.mp hother
        exact Oneshot.drop_ne_empty _ hempty
      · exact htab ((h _ _).mpr ⟨other, hother, hoid, hempty, hphase'⟩)
    · rw [update_of_ne hid, h id j]
      split_ifs with htab
      · -- the displaced call is filed under the other id only
        obtain ⟨c, hc, hcid, -⟩ := (h _ _).mp htab
        simp [hc, InFlight.drop, hcid, Ne.symm hid]
      · rfl

theorem Tabled.remove (h : s.Tabled) (id : RequestId) : (s.file id none).Tabled := by
  intro id' j
  change update s.pending.map id none id' = some j ↔ _
  rw [file_calls]
  by_cases hid : id' = id
  · subst hid
    simp only [update_self, reduceCtorEq, false_iff]
    rintro ⟨other, hother, hoid, hempty, hphase⟩
    split_ifs at hother with htab
    · obtain ⟨c, -, rfl⟩ := map_eq_some_iff.mp hother
      exact Oneshot.drop_ne_empty _ hempty
    · exact htab ((h _ _).mpr ⟨other, hother, hoid, hempty, hphase⟩)
  · rw [update_of_ne hid, h id' j]
    split_ifs with htab
    · obtain ⟨c, hc, hcid, -⟩ := (h _ _).mp htab
      simp [hc, InFlight.drop, hcid, Ne.symm hid]
    · rfl

theorem onFrame_of_none (h : s.pending.map id = none) (message : ServerMessage) :
    s.onFrame (.reply id message) = s := by
  unfold onFrame
  dsimp only
  rw [h]

theorem onFrame_of_some (h : s.pending.map id = some k) (message : ServerMessage) :
    s.onFrame (.reply id message) = { s.sendReply k message with
      pending := { s.pending with map := update s.pending.map id none } } := by
  unfold onFrame
  dsimp only
  rw [h]

theorem Tabled.onFrame (h : s.Tabled) (frame : ServerFrame) : (s.onFrame frame).Tabled := by
  cases frame with
  | push => exact h
  | reply requestId =>
    cases hk : s.pending.map requestId with
    | none =>
      rw [onFrame_of_none hk]
      exact h
    | some k =>
      rw [onFrame_of_some hk]
      obtain ⟨call, hcall, hcid, -, -⟩ := (h _ _).mp hk
      intro id j
      by_cases hj : j = k
      · subst hj
        simp only [sendReply, update_self, hcall, map_some, some.injEq,
          exists_eq_left', reduceCtorEq, false_and, and_false, iff_false]
        by_cases hid : id = requestId
        · simp [hid]
        · rw [update_of_ne hid, h id j]
          rintro ⟨c, hc, hcid', -⟩
          obtain rfl := mem_unique hcall hc
          exact hid (hcid'.symm.trans hcid)
      · simp only [sendReply, update_of_ne hj]
        by_cases hid : id = requestId
        · subst hid
          rw [← h id j, hk]
          simp [Ne.symm hj]
        · rw [update_of_ne hid, h id j]

theorem Tabled.close (h : s.Tabled) : s.close.Tabled := by
  intro id j
  simp only [RelayClient.close, reduceCtorEq, false_iff]
  rintro ⟨call', hcall', -, hempty, hphase⟩
  obtain ⟨call, hcall, rfl⟩ := map_eq_some_iff.mp hcall'
  split_ifs at hempty hphase with htab
  · exact Oneshot.drop_ne_empty _ hempty
  · exact htab ((h _ _).mpr ⟨call, hcall, rfl, hempty, hphase⟩)

end RelayClient

/-! ## What one step does to one call -/

/-- Everything a turn can do. -/
inductive Turned (s : RelayClient) (k : CallId) (call : InFlight) :
    RelayClient × Option (Except CallError ServerMessage) → Prop where
  | idle (still : (call.phase = .waiting ∧ call.reply = .empty) ∨
      (∃ r, call.phase = .finished r) ∨ call.phase = .abandoned) : Turned s k call (s, none)
  | refused (phase : call.phase = .started) (closed : s.pending.closed = true) :
    Turned s k call (s.finish k { call with reply := .dropped } (.error .connectionClosed))
  | registered (phase : call.phase = .started) (opened : s.pending.closed = false) :
    Turned s k call
      ((s.file call.requestId (some k)).setCall k { call with phase := .registered }, none)
  | wrote (phase : call.phase = .registered) :
    Turned s k call ({ s.setCall k { call with phase := .waiting } with
      outgoing := s.outgoing ++ [⟨call.requestId, call.message⟩] }, none)
  | unwritten (phase : call.phase = .registered) :
    Turned s k call (s.setCall k { call with phase := .unregistering }, none)
  | removed (phase : call.phase = .unregistering) :
    Turned s k call ((s.file call.requestId none).finish k call.drop (.error .connectionClosed))
  | resolved {message} (phase : call.phase = .waiting) (reply : call.reply = .sent message) :
    Turned s k call (s.finish k call (.ok message))
  | failed (phase : call.phase = .waiting) (reply : call.reply = .dropped) :
    Turned s k call (s.finish k call (.error .connectionClosed))

theorem turned (s : RelayClient) (k : CallId) (call : InFlight) :
    Turned s k call (s.turn k call) := by
  unfold RelayClient.turn
  split
  · split_ifs with hclosed
    · exact .refused ‹_› hclosed
    · exact .registered ‹_› (by simpa using hclosed)
  · split_ifs
    · exact .wrote ‹_›
    · exact .unwritten ‹_›
  · exact .removed ‹_›
  · split
    · exact .idle (.inl ⟨‹_›, ‹_›⟩)
    · exact .resolved ‹_› ‹_›
    · exact .failed ‹_› ‹_›
  · exact .idle (.inr (.inl ⟨_, ‹_›⟩))
  · exact .idle (.inr (.inr ‹_›))

/-- What becomes of call `k`. Its sender is dropped or used only if it is filed, and only its own
turn finishes it. -/
inductive Fate (s : RelayClient) (ev : ClientEvent) (k : CallId) : Option InFlight → Prop where
  | kept : Fate s ev k (s.calls k)
  | fresh {id message} (unknown : s.calls k = none) :
    Fate s ev k (some ⟨id, message, .started, .empty⟩)
  | dropped {call} (known : s.calls k = some call) (filed : s.pending.map call.requestId = some k) :
    Fate s ev k (some call.drop)
  | told {call message} (known : s.calls k = some call)
      (filed : s.pending.map call.requestId = some k)
      (frame : ev = .read (.reply call.requestId message)) :
    Fate s ev k (some { call with reply := .sent message })
  | advanced {call} (phase : CallPhase) (known : s.calls k = some call)
      (mover : ev = .turn k ∨ ev = .abandon k) (before : ∀ r, call.phase ≠ .finished r)
      (after : ∀ r, phase ≠ .finished r) (moved : phase ≠ .started) :
    Fate s ev k (some { call with phase := phase })
  | finished (call : InFlight) (reply : Oneshot) {r : Except CallError ServerMessage}
      (known : s.calls k = some call) (before : ∀ r, call.phase ≠ .finished r)
      (turn : ev = .turn k) (faithful : ∀ m, reply = .sent m → call.reply = .sent m)
      (result : ∀ m, r = .ok m → reply = .sent m) :
    Fate s ev k (some { call with phase := .finished r, reply := reply })

namespace Fate
variable {s t : RelayClient} {ev : ClientEvent} {j k : CallId} {call call' : InFlight}

theorem of_setCall_ne (hj : j ≠ k) (h : Fate s ev j (t.calls j)) :
    Fate s ev j ((t.setCall k call').calls j) := by
  simpa only [RelayClient.setCall, update_of_ne hj] using h

theorem of_setCall_self (h : Fate s ev k (some call')) :
    Fate s ev k ((t.setCall k call').calls k) := by
  simpa only [RelayClient.setCall, update_self] using h

theorem of_file (h : s.Tabled) (id : RequestId) (entry : Option CallId) :
    Fate s ev j ((s.file id entry).calls j) := by
  rw [RelayClient.file_calls]
  split_ifs with htab
  · obtain ⟨call, hcall, hid, -⟩ := (h _ _).mp htab
    rw [hcall]
    exact .dropped hcall (hid ▸ htab)
  · exact .kept

theorem of_turn_self (hcall : s.calls k = some call) :
    Fate s (.turn k) k ((s.turn k call).1.calls k) := by
  have ht := turned s k call
  generalize s.turn k call = r at ht
  cases ht with
  | idle => exact .kept
  | refused phase =>
    exact of_setCall_self (.finished call .dropped hcall (by simp [phase]) rfl (by simp) (by simp))
  | registered phase =>
    exact of_setCall_self
      (.advanced .registered hcall (.inl rfl) (by simp [phase]) (by simp) (by simp))
  | wrote phase =>
    exact of_setCall_self
      (.advanced .waiting hcall (.inl rfl) (by simp [phase]) (by simp) (by simp))
  | unwritten phase =>
    exact of_setCall_self
      (.advanced .unregistering hcall (.inl rfl) (by simp [phase]) (by simp) (by simp))
  | removed phase =>
    exact of_setCall_self (.finished call call.reply.drop hcall (by simp [phase]) rfl
      (fun m hm => Oneshot.drop_eq_sent.mp hm) (by simp))
  | resolved phase reply =>
    refine of_setCall_self (.finished call call.reply hcall (by simp [phase]) rfl (fun _ h => h) ?_)
    rintro m ⟨⟩
    exact reply
  | failed phase reply =>
    exact of_setCall_self
      (.finished call call.reply hcall (by simp [phase]) rfl (fun _ h => h) (by simp))

theorem of_turn_ne (h : s.Tabled) (hj : j ≠ k) :
    Fate s (.turn k) j ((s.turn k call).1.calls j) := by
  have ht := turned s k call
  generalize s.turn k call = r at ht
  cases ht with
  | idle => exact .kept
  | registered | removed => exact of_setCall_ne hj (of_file h _ _)
  | wrote => exact of_setCall_ne hj .kept
  | _ => exact of_setCall_ne hj .kept

end Fate

/-- Everything one event can do. -/
inductive ClientStep (s : ClientRun) : ClientEvent → ClientRun → Prop where
  | call {k message} (new : s.client.calls k = none) :
    ClientStep s (.call k message) { s with client := { s.client.setCall k
      ⟨s.client.nextRequestId, message, .started, .empty⟩ with
        nextRequestId := s.client.nextRequestId + 1 } }
  | turn {k call} (known : s.client.calls k = some call) :
    ClientStep s (.turn k) { s with
      client := (s.client.turn k call).1
      resolved := s.resolved ++ ((s.client.turn k call).2.map (Prod.mk k)).toList }
  | abandon {k call} (known : s.client.calls k = some call) (waits : call.phase = .waiting) :
    ClientStep s (.abandon k)
      { s with client := s.client.setCall k { call with phase := .abandoned } }
  | read {frame} (reading : s.client.reader = .reading) :
    ClientStep s (.read frame)
      { s with client := s.client.onFrame frame, read := s.read ++ [frame] }
  | endOfStream (reading : s.client.reader = .reading) :
    ClientStep s .endOfStream { s with client := { s.client with reader := .leaving } }
  | close (leaving : s.client.reader = .leaving) :
    ClientStep s .close { s with client := s.client.close }
  | writerStops : ClientStep s .writerStops { s with client := { s.client with writing := false } }
  | recvPush {p rest} (queued : s.client.pushRx = p :: rest) : ClientStep s .recvPush
      { s with client := { s.client with pushRx := rest }, received := s.received ++ [p] }

variable {s t : ClientRun} {ev : ClientEvent}

theorem clientStep_of_step (h : s.step ev = some t) : ClientStep s ev t := by
  cases ev with
  | call =>
    obtain ⟨hnew, hsome⟩ := ite_none_right_eq_some.mp h
    cases hsome
    exact .call hnew
  | turn =>
    obtain ⟨call, hcall, rfl⟩ := map_eq_some_iff.mp h
    exact .turn hcall
  | abandon =>
    obtain ⟨call, hcall, hif⟩ := bind_eq_some_iff.mp h
    obtain ⟨hwaits, hsome⟩ := ite_none_right_eq_some.mp hif
    cases hsome
    exact .abandon hcall hwaits
  | read =>
    obtain ⟨hreading, hsome⟩ := ite_none_right_eq_some.mp h
    cases hsome
    exact .read hreading
  | endOfStream =>
    obtain ⟨hreading, hsome⟩ := ite_none_right_eq_some.mp h
    cases hsome
    exact .endOfStream hreading
  | close =>
    obtain ⟨hleaving, hsome⟩ := ite_none_right_eq_some.mp h
    cases hsome
    exact .close hleaving
  | writerStops =>
    cases h
    exact .writerStops
  | recvPush =>
    cases hrx : s.client.pushRx with
    | nil => simp [ClientRun.step, hrx] at h
    | cons =>
      simp only [ClientRun.step, hrx, some.injEq] at h
      subst h
      exact .recvPush hrx

theorem fate_of_step (h : s.client.Tabled) (hstep : ClientStep s ev t) (j : CallId) :
    Fate s.client ev j (t.client.calls j) := by
  cases hstep with
  | @call k message new =>
    by_cases hj : j = k
    · subst hj
      exact Fate.of_setCall_self (.fresh new)
    · exact Fate.of_setCall_ne hj .kept
  | @turn k call known =>
    by_cases hj : j = k
    · subst hj
      exact .of_turn_self known
    · exact .of_turn_ne h hj
  | @abandon k call known waits =>
    by_cases hj : j = k
    · subst hj
      exact Fate.of_setCall_self
        (.advanced .abandoned known (.inr rfl) (by simp [waits]) (by simp) (by simp))
    · exact Fate.of_setCall_ne hj .kept
  | @read frame =>
    cases frame with
    | push => exact .kept
    | reply id =>
      cases hk : s.client.pending.map id with
      | none =>
        rw [RelayClient.onFrame_of_none hk]
        exact .kept
      | some k =>
        rw [RelayClient.onFrame_of_some hk]
        obtain ⟨call, hcall, rfl, -⟩ := (h _ _).mp hk
        by_cases hj : j = k
        · subst hj
          simp only [RelayClient.sendReply, update_self, hcall]
          exact .told hcall hk rfl
        · simp only [RelayClient.sendReply, update_of_ne hj]
          exact .kept
  | close =>
    simp only [RelayClient.close]
    cases hcall : s.client.calls j with
    | none =>
      rw [map_none, ← hcall]
      exact .kept
    | some =>
      rw [map_some]
      split_ifs with hfiled
      · exact .dropped hcall hfiled
      · exact hcall ▸ .kept
  | endOfStream | writerStops | recvPush => exact .kept

/-! ## Over a whole run -/

/-- A call has what the frames read so far account for. -/
structure InFlight.Sound (read : List ServerFrame) (call : InFlight) : Prop where
  unregistered : call.phase = .started → call.reply = .empty
  told : ∀ m, call.reply = .sent m → .reply call.requestId m ∈ read
  result : ∀ m, call.phase = .finished (.ok m) → call.reply = .sent m

def pushOf : ServerFrame → Option (QueueId × Envelope)
  | .push queueId envelope => some (queueId, envelope)
  | .reply _ _ => none

structure Routed (s : ClientRun) : Prop where
  table : s.client.Tabled
  sound : ∀ k call, s.client.calls k = some call → call.Sound s.read
  results : ∀ k r, (k, r) ∈ s.resolved ↔ (s.client.calls k).map InFlight.phase = some (.finished r)
  once : (s.resolved.map Prod.fst).Nodup
  pushes : s.received ++ s.client.pushRx = s.read.filterMap pushOf
  closed : s.client.reader = .exited →
    s.client.pending.closed = true ∧ ∀ id, s.client.pending.map id = none

theorem InFlight.Sound.mono {read : List ServerFrame} {call : InFlight} (h : call.Sound read)
    (frame : List ServerFrame) : call.Sound (read ++ frame) :=
  ⟨h.unregistered, fun m hm => mem_append_left _ (h.told m hm), h.result⟩

section Step
variable {s t : ClientRun} {ev : ClientEvent} {c : RelayClient} {k : CallId} {call : InFlight}

theorem Routed.table_step (h : Routed s) (hstep : ClientStep s ev t) : t.client.Tabled := by
  cases hstep with
  | @call k message new =>
    intro id j
    change s.client.pending.map id = some j ↔ _
    rw [h.table id j]
    by_cases hj : j = k
    · subst hj
      simp [RelayClient.setCall, new]
    · simp [RelayClient.setCall, update_of_ne hj]
  | @turn k call known =>
    have ht := turned s.client k call
    generalize s.client.turn k call = r at ht
    cases ht with
    | idle => exact h.table
    | refused phase | wrote phase | unwritten phase =>
      exact h.table.setCall known rfl (by simp [phase])
    | registered phase =>
      exact h.table.register known phase ((h.sound k call known).unregistered phase)
    | removed phase =>
      have hk : ∃ call', (s.client.file call.requestId none).calls k = some call' ∧
          call'.requestId = call.requestId ∧ call'.reply ≠ .empty := by
        rw [RelayClient.file_calls, known]
        split_ifs with hfiled
        · exact ⟨call.drop, rfl, rfl, Oneshot.drop_ne_empty _⟩
        · refine ⟨call, rfl, rfl, fun hempty => hfiled ((h.table _ _).mpr ?_)⟩
          exact ⟨call, known, rfl, hempty, by simp [phase]⟩
      obtain ⟨call', hk', hid, hne⟩ := hk
      exact (h.table.remove call.requestId).setCall hk' hid.symm
        (by simp [hne, InFlight.drop, Oneshot.drop_ne_empty])
    | resolved phase reply | failed phase reply => exact h.table.setCall known rfl (by simp [reply])
  | abandon known waits => exact h.table.setCall known rfl (by simp [waits])
  | read => exact h.table.onFrame _
  | close => exact h.table.close
  | endOfStream | writerStops | recvPush => exact h.table

theorem Routed.sound_step (h : Routed s) (hstep : ClientStep s ev t) (k : CallId) (call : InFlight)
    (hcall : t.client.calls k = some call) : call.Sound t.read := by
  have hread : ∃ new, t.read = s.read ++ new ∧ ∀ frame, ev = .read frame → new = [frame] := by
    cases hstep with
    | read => exact ⟨_, rfl, by rintro _ ⟨⟩; rfl⟩
    | _ => exact ⟨[], by simp, by rintro _ ⟨⟩⟩
  obtain ⟨new, hnew, hframe⟩ := hread
  rw [hnew]
  have hf := fate_of_step h.table hstep k
  rw [hcall] at hf
  generalize ho : some call = o at hf
  cases hf with
  | kept => exact (h.sound k call ho.symm).mono new
  | fresh =>
    cases ho
    exact ⟨fun _ => rfl, by simp, by simp⟩
  | @dropped c known filed =>
    cases ho
    have hc := (h.sound k c known).mono new
    refine ⟨fun hs => ?_, fun m hm => hc.told m (Oneshot.drop_eq_sent.mp hm),
      fun m hm => Oneshot.drop_eq_sent.mpr (hc.result m hm)⟩
    obtain ⟨c', hc', -, -, hphase⟩ := (h.table _ _).mp filed
    cases known.symm.trans hc'
    exact absurd hs hphase
  | @told c message known filed frame =>
    cases ho
    obtain ⟨c', hc', -, hempty, hphase⟩ := (h.table _ _).mp filed
    cases known.symm.trans hc'
    refine ⟨fun hs => absurd hs hphase, ?_, fun m hm => ?_⟩
    · rintro m ⟨⟩
      rw [hframe _ frame]
      simp
    · simp [(h.sound k c known).result m hm] at hempty
  | @advanced c phase known mover before after moved =>
    cases ho
    have hc := (h.sound k c known).mono new
    exact ⟨fun hs => absurd hs moved, hc.told, fun m hm => absurd hm (after _)⟩
  | finished c reply known before turn faithful result =>
    cases ho
    have hc := (h.sound k c known).mono new
    refine ⟨by simp, fun m hm => hc.told m (faithful m hm), ?_⟩
    rintro m ⟨⟩
    exact result m rfl

theorem Fate.finished_iff {o : Option InFlight} (h : Fate c ev k o) (hev : ev ≠ .turn k)
    (r : Except CallError ServerMessage) :
    o.map InFlight.phase = some (.finished r) ↔
      (c.calls k).map InFlight.phase = some (.finished r) := by
  cases h with
  | kept => rfl
  | fresh unknown => simp [unknown]
  | dropped known => simp [known, InFlight.drop]
  | told known => simp [known]
  | advanced phase known mover before after => simp [known, before, after]
  | finished call reply known before turn => exact absurd turn hev

theorem turn_finished_iff (hcall : c.calls k = some call) (r : Except CallError ServerMessage) :
    ((c.turn k call).1.calls k).map InFlight.phase = some (.finished r) ↔
      call.phase = .finished r ∨ (c.turn k call).2 = some r := by
  have ht := turned c k call
  generalize c.turn k call = p at ht
  cases ht with
  | idle => simp [hcall]
  | refused phase | removed phase | resolved phase | failed phase =>
    simp [RelayClient.finish, RelayClient.setCall, phase]
  | registered phase | wrote phase | unwritten phase => simp [RelayClient.setCall, phase]

theorem turn_returns {r : Except CallError ServerMessage} (h : (c.turn k call).2 = some r)
    (r' : Except CallError ServerMessage) : call.phase ≠ .finished r' := by
  have ht := turned c k call
  generalize c.turn k call = p at h ht
  cases ht with
  | idle => cases h
  | refused phase | registered phase | wrote phase | unwritten phase | removed phase
  | resolved phase | failed phase => simp [phase]

theorem Routed.results_step (h : Routed s) (hstep : ClientStep s ev t) :
    (∀ k r, (k, r) ∈ t.resolved ↔ (t.client.calls k).map InFlight.phase = some (.finished r)) ∧
      (t.resolved.map Prod.fst).Nodup := by
  have hfate := fate_of_step h.table hstep
  have quiet : t.resolved = s.resolved → (∀ k, ev ≠ .turn k) →
      (∀ k r, (k, r) ∈ t.resolved ↔ (t.client.calls k).map InFlight.phase = some (.finished r)) ∧
        (t.resolved.map Prod.fst).Nodup := by
    intro hsame hev
    rw [hsame]
    exact ⟨fun k r => (h.results k r).trans ((hfate k).finished_iff (hev k) r).symm, h.once⟩
  cases hstep with
  | @turn k call known =>
    have hturn := turn_finished_iff known
    have hreturns := @turn_returns s.client k call
    generalize s.client.turn k call = p at hfate hturn hreturns
    obtain ⟨client, returned⟩ := p
    constructor
    · intro j r
      rw [mem_append, h.results j r]
      by_cases hj : j = k
      · subst hj
        rw [hturn r, known]
        cases returned <;> simp [eq_comm]
      · rw [(hfate j).finished_iff (by simpa using Ne.symm hj) r]
        cases returned <;> simp [hj]
    · cases returned with
      | none => simpa using h.once
      | some =>
        simp only [map_append]
        refine nodup_append.mpr ⟨h.once, nodup_singleton _, ?_⟩
        rintro j hj k' hk' rfl
        obtain rfl := mem_singleton.mp hk'
        obtain ⟨⟨j', r'⟩, hmem, rfl⟩ := mem_map.mp hj
        have hphase := (h.results _ _).mp hmem
        rw [known, map_some, some.injEq] at hphase
        exact hreturns rfl r' hphase
  | _ => exact quiet rfl (by simp)

theorem file_frame (c : RelayClient) (id : RequestId) (entry : Option CallId) :
    (c.file id entry).pushRx = c.pushRx ∧ (c.file id entry).reader = c.reader ∧
      (c.file id entry).pending = ⟨c.pending.closed, update c.pending.map id entry⟩ := by
  unfold RelayClient.file
  cases c.pending.map id <;> exact ⟨rfl, rfl, rfl⟩

theorem turn_frame (c : RelayClient) (k : CallId) (call : InFlight) :
    (c.turn k call).1.pushRx = c.pushRx ∧ (c.turn k call).1.reader = c.reader ∧
      (c.pending.closed = true ∧ (∀ id, c.pending.map id = none) →
        (c.turn k call).1.pending = c.pending) := by
  have ht := turned c k call
  generalize c.turn k call = p at ht
  cases ht with
  | registered phase opened =>
    obtain ⟨hrx, hreader, -⟩ := file_frame c call.requestId (some k)
    exact ⟨hrx, hreader, fun hclosed => by simp [opened] at hclosed⟩
  | removed =>
    obtain ⟨hrx, hreader, hpending⟩ := file_frame c call.requestId none
    refine ⟨hrx, hreader, fun hclosed => hpending.trans ?_⟩
    rw [update_eq_self_iff.mpr (hclosed.2 _).symm]
  | _ => exact ⟨rfl, rfl, fun _ => rfl⟩

theorem onFrame_pushes (c : RelayClient) (frame : ServerFrame) :
    (c.onFrame frame).pushRx = c.pushRx ++ (pushOf frame).toList ∧
      (c.onFrame frame).reader = c.reader := by
  cases frame with
  | push => exact ⟨rfl, rfl⟩
  | reply id =>
    cases hk : c.pending.map id with
    | none =>
      rw [RelayClient.onFrame_of_none hk]
      exact ⟨(append_nil _).symm, rfl⟩
    | some =>
      rw [RelayClient.onFrame_of_some hk]
      exact ⟨(append_nil _).symm, rfl⟩

theorem Routed.pushes_step (h : Routed s) (hstep : ClientStep s ev t) :
    t.received ++ t.client.pushRx = t.read.filterMap pushOf := by
  cases hstep with
  | @turn k call =>
    rw [(turn_frame s.client k call).1]
    exact h.pushes
  | @read frame =>
    rw [(onFrame_pushes s.client frame).1, ← append_assoc, h.pushes]
    cases hp : pushOf frame <;> simp [hp]
  | @recvPush p rest queued =>
    rw [append_assoc, singleton_append, ← queued]
    exact h.pushes
  | _ => exact h.pushes

theorem Routed.closed_step (h : Routed s) (hstep : ClientStep s ev t)
    (hexited : t.client.reader = .exited) :
    t.client.pending.closed = true ∧ ∀ id, t.client.pending.map id = none := by
  cases hstep with
  | @turn k call =>
    obtain ⟨-, hreader, hpending⟩ := turn_frame s.client k call
    have hclosed := h.closed (hreader.symm.trans hexited)
    rw [hpending hclosed]
    exact hclosed
  | @read frame reading => simp [(onFrame_pushes s.client frame).2, reading] at hexited
  | endOfStream => cases hexited
  | close => exact ⟨rfl, fun _ => rfl⟩
  | _ => exact h.closed hexited

theorem Routed.step (h : Routed s) (hstep : s.step ev = some t) : Routed t := by
  have hs := clientStep_of_step hstep
  obtain ⟨hresults, honce⟩ := h.results_step hs
  exact ⟨h.table_step hs, h.sound_step hs, hresults, honce, h.pushes_step hs, h.closed_step hs⟩

end Step

theorem routed_start : Routed .start where
  table := fun id k => by simp [ClientRun.start, RelayClient.connect]
  sound := fun k call h => by cases h
  results := fun k r => by simp [ClientRun.start, RelayClient.connect]
  once := nodup_nil
  pushes := rfl
  closed := fun h => by cases h

theorem run_routed {es : List ClientEvent} (h : run ClientRun.step .start es = some s) : Routed s :=
  run_invariant routed_start (fun _ _ _ hs hstep => hs.step hstep) h

/-! ## After the reader has exited -/

/-- The turns a call still needs once it can no longer be kept waiting. -/
def CallPhase.left : CallPhase → ℕ
  | .registered => 2
  | .started | .unregistering | .waiting => 1
  | .finished _ | .abandoned => 0

section Exited
variable {s t : ClientRun} {ev : ClientEvent} {k : CallId} {call : InFlight}

theorem Routed.not_waiting (h : Routed s) (hexited : s.client.reader = .exited)
    (hcall : s.client.calls k = some call) (hphase : call.phase ≠ .started) :
    call.reply ≠ .empty := by
  intro hempty
  have hfiled := (h.table call.requestId k).mpr ⟨call, hcall, rfl, hempty, hphase⟩
  simp [(h.closed hexited).2] at hfiled

theorem Routed.exited_turn (h : Routed s) (hexited : s.client.reader = .exited)
    (hcall : s.client.calls k = some call) (hlive : call.phase ≠ .abandoned) :
    ∃ call', (s.client.turn k call).1.calls k = some call' ∧ call'.phase ≠ .abandoned ∧
      call'.phase.left ≤ call.phase.left - 1 ∧
      ∀ m, call'.reply = .sent m → call.reply = .sent m := by
  have hclosed := (h.closed hexited).1
  have ht := turned s.client k call
  generalize s.client.turn k call = p at ht
  cases ht with
  | idle still =>
    rcases still with ⟨hwaiting, hempty⟩ | ⟨r, hr⟩ | habandoned
    · exact absurd hempty (h.not_waiting hexited hcall (by simp [hwaiting]))
    · exact ⟨call, hcall, hlive, by simp [hr, CallPhase.left], fun _ hm => hm⟩
    · exact absurd habandoned hlive
  | registered phase opened => simp [opened] at hclosed
  | refused phase => exact ⟨_, update_self .., by simp, by simp [CallPhase.left], by simp⟩
  | wrote phase | unwritten phase =>
    exact ⟨_, update_self .., by simp, by simp [phase, CallPhase.left], fun _ hm => hm⟩
  | removed =>
    exact ⟨_, update_self .., by simp, by simp [CallPhase.left],
      fun m hm => Oneshot.drop_eq_sent.mp hm⟩
  | resolved | failed =>
    exact ⟨_, update_self .., by simp, by simp [CallPhase.left], fun _ hm => hm⟩

theorem exited_step (hexited : s.client.reader = .exited) (hstep : ClientStep s ev t) :
    t.client.reader = .exited := by
  cases hstep with
  | @turn j call => exact (turn_frame s.client j call).2.1.trans hexited
  | read reading | endOfStream reading => simp [hexited] at reading
  | close => rfl
  | _ => exact hexited

theorem Routed.exited_other (h : Routed s) (hexited : s.client.reader = .exited)
    (hcall : s.client.calls k = some call) (hstep : ClientStep s ev t) (hturn : ev ≠ .turn k)
    (habandon : ev ≠ .abandon k) : t.client.calls k = some call := by
  have hnone := (h.closed hexited).2
  have hfate := fate_of_step h.table hstep k
  generalize t.client.calls k = o at hfate
  cases hfate with
  | kept => exact hcall
  | fresh unknown => simp [hcall] at unknown
  | dropped known filed | told known filed => simp [hnone] at filed
  | advanced phase known mover => exact absurd mover (by simp [hturn, habandon])
  | finished c reply known before turn => exact absurd turn hturn

/-- After the reader's exit a call is done within two turns. -/
theorem Routed.exited_run {later : List ClientEvent} (h : Routed s)
    (hexited : s.client.reader = .exited) (hcall : s.client.calls k = some call)
    (hlive : call.phase ≠ .abandoned) (hkept : .abandon k ∉ later)
    (hrun : run ClientRun.step s later = some t) :
    Routed t ∧ t.client.reader = .exited ∧
      ∃ call', t.client.calls k = some call' ∧ call'.phase ≠ .abandoned ∧
        call'.phase.left ≤ 2 - later.count (.turn k) ∧
        ∀ m, call'.reply = .sent m → call.reply = .sent m := by
  induction later using reverseRecOn generalizing t with
  | nil =>
    cases hrun
    have hleft : call.phase.left ≤ 2 := by cases call.phase <;> simp [CallPhase.left]
    exact ⟨h, hexited, call, hcall, hlive, hleft, fun _ hm => hm⟩
  | append_singleton later ev ih =>
    rw [run_snoc] at hrun
    obtain ⟨u, hu, hstep⟩ := bind_eq_some_iff.mp hrun
    rw [mem_append, mem_singleton, not_or] at hkept
    obtain ⟨hru, heu, c, hc, hclive, hcleft, hcreply⟩ := ih hkept.1 hu
    have hs := clientStep_of_step hstep
    refine ⟨hru.step hstep, exited_step heu hs, ?_⟩
    by_cases hturn : ev = .turn k
    · subst hturn
      obtain ⟨c', hc', hlive', hleft', hreply'⟩ := hru.exited_turn heu hc hclive
      obtain ⟨c'', hc'', rfl⟩ := map_eq_some_iff.mp hstep
      obtain rfl := mem_unique hc hc''
      refine ⟨c', hc', hlive', ?_, fun m hm => hcreply m (hreply' m hm)⟩
      rw [count_append, count_singleton_self]
      omega
    · refine ⟨c, hru.exited_other heu hc hs hturn (Ne.symm hkept.2), hclive, ?_, hcreply⟩
      rw [count_append, count_singleton, if_neg (by simpa using hturn)]
      exact hcleft

end Exited

/-- Over every interleaving: a call resolves only with the message of a reply that carries its
own request id, and at most once; the pushes read come out in order, each once, and resolve
nothing; and once the reader has exited, every call that is not abandoned returns within two
more turns, with `connectionClosed` unless its reply had reached it before. -/
theorem replies_correlate (es : List ClientEvent) (s : ClientRun)
    (hrun : run ClientRun.step .start es = some s) :
    (∀ k m, (k, .ok m) ∈ s.resolved →
      ∃ call, s.client.calls k = some call ∧ .reply call.requestId m ∈ s.read) ∧
    (s.resolved.map Prod.fst).Nodup ∧
    s.received ++ s.client.pushRx = s.read.filterMap pushOf ∧
    (∀ queueId envelope t, s.step (.read (.push queueId envelope)) = some t →
      t.client.calls = s.client.calls ∧ t.resolved = s.resolved) ∧
    (s.client.reader = .exited → ∀ k call, s.client.calls k = some call →
      call.phase ≠ .abandoned → (run ClientRun.step s [.turn k, .turn k]).isSome ∧
      ∀ later t, run ClientRun.step s later = some t → .abandon k ∉ later →
      2 ≤ later.count (.turn k) → ∃ r, (k, r) ∈ t.resolved ∧
        (r = .error .connectionClosed ∨ ∃ m, r = .ok m ∧ call.reply = .sent m)) := by
  have h := run_routed hrun
  refine ⟨fun k m hm => ?_, h.once, h.pushes, fun queueId envelope t ht => ?_,
    fun hexited k call hcall hlive => ⟨?_, fun later t hlater hkept hturns => ?_⟩⟩
  · obtain ⟨call, hcall, hphase⟩ := map_eq_some_iff.mp ((h.results k _).mp hm)
    have hsound := h.sound k call hcall
    exact ⟨call, hcall, hsound.told m (hsound.result m hphase)⟩
  · cases clientStep_of_step ht
    exact ⟨rfl, rfl⟩
  · obtain ⟨call', hcall', -⟩ := h.exited_turn hexited hcall hlive
    simp [run, ClientRun.step, hcall, hcall']
  · obtain ⟨ht, -, c, hc, hclive, hleft, hreply⟩ :=
      h.exited_run hexited hcall hlive hkept hlater
    have hdone : c.phase.left = 0 := by omega
    cases hphase : c.phase with
    | finished r =>
      refine ⟨r, (ht.results k r).mpr (by rw [hc, map_some, hphase]), ?_⟩
      cases r with
      | error err =>
        exact Or.inl rfl
      | ok m => exact Or.inr ⟨m, rfl, hreply m ((ht.sound k c hc).result m hphase)⟩
    | abandoned => exact absurd hphase hclive
    | _ => simp [hphase, CallPhase.left] at hdone

/-- Two calls are registered, the second is answered, and the connection goes. -/
def twoCalls : List ClientEvent :=
  [.call 0 .requestPowChallenge, .turn 0, .call 1 .requestPowChallenge, .turn 1, .turn 1,
    .read (.reply 7 .ok), .read (.reply 1 .ok), .turn 1, .endOfStream, .close]

/-- The second call has its reply, and the first is told that the connection is closed. -/
theorem replies_correlate_twoCalls :
    ∃ s t, run ClientRun.step .start twoCalls = some s ∧
      run ClientRun.step s [.turn 0, .turn 0] = some t ∧
      (∃ call, s.client.calls 1 = some call ∧ .reply call.requestId .ok ∈ s.read) ∧
      (0, .error .connectionClosed) ∈ t.resolved := by
  obtain ⟨s, hs, hok, hexited, hcall⟩ : ∃ s, run ClientRun.step .start
    twoCalls = some s ∧ (1, .ok .ok) ∈ s.resolved ∧ s.client.reader = .exited ∧
      s.client.calls 0 = some ⟨0, .requestPowChallenge, .registered, .dropped⟩ := by decide +kernel
  obtain ⟨hown, -, -, -, hexit⟩ := replies_correlate twoCalls s hs
  obtain ⟨hsome, hlater⟩ := hexit hexited 0 _ hcall (by simp)
  obtain ⟨t, ht⟩ := isSome_iff_exists.mp hsome
  obtain ⟨r, hr, hclosed⟩ := hlater _ t ht (by simp) (by decide)
  refine ⟨s, t, hs, ht, hown 1 _ hok, ?_⟩
  rcases hclosed with rfl | ⟨m, -, hm⟩
  · exact hr
  · cases hm

end Rosette.Engine
