import Rosette.Engine.Startup

/-! # Rules for engine stretches

A regime says what holds of an engine at its await points: while it rests, while a
group send of its own is with the relay, and while that send is between connections.
A regime whose three conditions are closed under the few things a stretch can do to
the engine holds at every await point.
-/
namespace Rosette.Engine
open Foundation Proto Rosette.Core List

variable {c : Crypto} {mls : OpenMls} {envelope : Envelope} {rs : List Result} {pc : Pc}
  {link : Link} {q : QueueId}

theorem wrap_padded {wire : List UInt8} (h : wrap c wire = some envelope) :
    pad wire = some envelope.paddedCiphertext := by
  obtain ⟨padded, hp, rfl⟩ := Option.map_eq_some_iff.mp h
  exact hp

/-- Conditions on an engine and the results of its calls so far. -/
structure Regime (mls : OpenMls) where
  /-- No group send of its own is in progress. -/
  rest : ChatEngine mls → List Result → Prop
  /-- A group send waits for its reply. -/
  out : ChatEngine mls → List Result → Sending → Prop
  /-- A group send waits for a connection. -/
  stalled : ChatEngine mls → List Result → Sending → Prop
  /-- The envelope may be the next unseen push. -/
  next : ChatEngine mls → Envelope → Prop
  /-- The reply may be the answer to the send. -/
  granted : ChatEngine mls → Sending → ServerMessage → Prop
  /-- The application makes such calls. -/
  permits : Call → Prop
  /-- Commits may be sent through this inbox. -/
  commits : QueueId × SendKey → Prop
  /-- The envelope may be handed to the pairing. -/
  invites : ChatEngine mls → Envelope → Prop := fun _ _ => True
  /-- A write to the store may end like this. -/
  writes : Bool → Prop := fun _ => True

namespace Regime
variable {mls : OpenMls} {R : Regime mls} {e : ChatEngine mls}

def receives (R : Regime mls) : Receiver → Prop
  | .nextEvent => True
  | .drain inbox _ => R.commits inbox
  | .awaitPairing => R.permits .awaitPairing

/-- What holds while a caller waits for a connection. -/
def waits (R : Regime mls) (e : ChatEngine mls) (rs : List Result) : Caller → Prop
  | .receiving r => R.rest e rs ∧ R.receives r
  | .sending s => R.stalled e rs s

def holds (R : Regime mls) (e : ChatEngine mls) (rs : List Result) : Pc → Prop
  | .idle => R.rest e rs
  | .receiving r => R.rest e rs ∧ R.receives r
  | .acking r _ => R.rest e rs ∧ R.receives r
  | .sending s _ => R.out e rs s
  | .connecting k _ => R.waits e rs k
  | .subscribing k _ _ => R.waits e rs k

theorem holds_of_all (hrest : R.rest e rs) (hrec : ∀ r, R.receives r) (hout : ∀ s, R.out e rs s)
    (hstalled : ∀ s, R.stalled e rs s) (pc : Pc) : R.holds e rs pc := by
  have hwaits : ∀ k, R.waits e rs k := by
    intro k
    cases k with
    | receiving r => exact ⟨hrest, hrec r⟩
    | sending s => exact hstalled s
  cases pc with
  | idle => exact hrest
  | receiving r | acking r => exact ⟨hrest, hrec r⟩
  | sending s => exact hout s
  | connecting k | subscribing k => exact hwaits k

theorem holds_cases (h : R.holds e rs pc) :
    R.rest e rs ∨ (∃ s, R.out e rs s) ∨ ∃ s, R.stalled e rs s := by
  have hwaits : ∀ k, R.waits e rs k → R.rest e rs ∨ (∃ s, R.out e rs s) ∨
      ∃ s, R.stalled e rs s := by
    intro k hk
    cases k with
    | receiving => exact .inl hk.1
    | sending s => exact .inr (.inr ⟨s, hk⟩)
  cases pc with
  | idle => exact .inl h
  | receiving | acking => exact .inl h.1
  | sending s => exact .inr (.inl ⟨s, h⟩)
  | connecting k | subscribing k => exact hwaits k h

theorem holds_mono {R' : Regime mls} {e' : ChatEngine mls} (hrest : R.rest e rs → R'.rest e' rs)
    (hrec : ∀ r, R.receives r → R'.receives r) (hout : ∀ s, R.out e rs s → R'.out e' rs s)
    (hstalled : ∀ s, R.stalled e rs s → R'.stalled e' rs s) (h : R.holds e rs pc) :
    R'.holds e' rs pc := by
  have hwaits : ∀ k, R.waits e rs k → R'.waits e' rs k := by
    intro k hk
    cases k with
    | receiving r => exact ⟨hrest hk.1, hrec r hk.2⟩
    | sending s => exact hstalled s hk
  cases pc with
  | idle => exact hrest h
  | receiving r | acking r => exact ⟨hrest h.1, hrec r h.2⟩
  | sending s => exact hout s h
  | connecting k | subscribing k => exact hwaits k h

/-- Closed under what receiving does. -/
structure Receives (R : Regime mls) : Prop where
  queue : ∀ {e rs} online, R.rest e rs → R.rest (e.queue (.connectionChanged online)) rs
  pop : ∀ {e rs event events}, R.rest e rs → e.pendingEvents = event :: events →
    R.rest { e with pendingEvents := events } (rs ++ [.event (.ok event)])
  failed : ∀ {e rs r} err, R.rest e rs → R.receives r → R.rest e (rs ++ [r.failed err])
  refused : ∀ {e rs envelope e' err}, R.rest e rs → R.next e envelope →
    envelope.messageId ∉ e.seen → absorb (e.called envelope) envelope = (e', .error err) →
    R.rest e' rs
  taken : ∀ {e rs envelope e' event diskOk}, R.writes diskOk → R.rest e rs → R.next e envelope →
    envelope.messageId ∉ e.seen → absorb (e.called envelope) envelope = (e', .ok event) →
    R.rest ((e'.queue event).persist diskOk {envelope.messageId}).1 rs

structure Pairs (R : Regime mls) : Prop where
  unjoined : ∀ {e rs envelope payload s err}, R.permits .awaitPairing → R.rest e rs →
    R.invites e envelope →
    decodeFrom BootstrapPayload.codec envelope.paddedCiphertext = some payload →
    e.session.joinFromWelcome payload.welcomeWire payload.treeWire = (s, .error err) →
    R.rest { e with session := s } rs
  joined : ∀ {e rs envelope payload s diskOk}, R.writes diskOk → R.permits .awaitPairing →
    R.rest e rs → R.invites e envelope →
    decodeFrom BootstrapPayload.codec envelope.paddedCiphertext = some payload →
    e.session.joinFromWelcome payload.welcomeWire payload.treeWire = (s, .ok ()) →
    R.rest ((e.joined s envelope payload).persist diskOk {envelope.messageId}).1 rs
  paired : ∀ {e rs}, R.permits .awaitPairing → R.rest e rs → R.rest e (rs ++ [.paired (.ok ())])

structure Sends (c : Crypto) (R : Regime mls) : Prop where
  send : ∀ {e rs s}, R.stalled e rs s → R.out e rs s
  gaveUp : ∀ {e rs s} err, R.stalled e rs s → R.rest e (rs ++ [s.failed err])
  rejected : ∀ {e rs s reply} err, R.out e rs s → R.granted e s reply → reply ≠ .ok →
    R.rest e (rs ++ [s.failed err])
  delivered : ∀ {e rs inbox plaintext envelope}, R.out e rs (.message inbox plaintext envelope) →
    R.granted e (.message inbox plaintext envelope) .ok →
    R.rest e (rs ++ [.sent plaintext (some envelope) (.ok ())])
  unsent : ∀ {e rs plaintext} err, R.permits (.sendMessage plaintext) → R.rest e rs →
    R.rest e (rs ++ [.sent plaintext none (.error err)])
  unencrypted : ∀ {e rs plaintext} rand, R.permits (.sendMessage plaintext) → R.rest e rs →
    (∀ wire, (e.session.encryptApplication rand plaintext).2 = .ok wire → wrap c wire = none) →
    R.rest { e with session := (e.session.encryptApplication rand plaintext).1 } rs
  encrypted : ∀ {e rs plaintext rand inbox s wire envelope diskOk p}, R.writes diskOk →
    R.permits (.sendMessage plaintext) → R.rest e rs → e.inbox = some inbox →
    e.session.encryptApplication rand plaintext = (s, .ok wire) → wrap c wire = some envelope →
    ((e.author s envelope).note envelope.messageId).persist diskOk {envelope.messageId} =
      (p, .ok ()) → R.stalled p rs (.message inbox plaintext envelope)
  unwritten : ∀ {e rs plaintext rand inbox s wire envelope diskOk p err}, R.writes diskOk →
    R.permits (.sendMessage plaintext) → R.rest e rs → e.inbox = some inbox →
    e.session.encryptApplication rand plaintext = (s, .ok wire) → wrap c wire = some envelope →
    ((e.author s envelope).note envelope.messageId).persist diskOk {envelope.messageId} =
      (p, .error err) → R.rest p (rs ++ [.sent plaintext (some envelope) (.error err)])

structure Commits (c : Crypto) (R : Regime mls) : Prop where
  inbox : ∀ {e rs ib}, R.permits .commitSelfUpdate → R.rest e rs → e.inbox = some ib →
    R.commits ib
  uncommitted : ∀ {e rs} err, R.permits .commitSelfUpdate → R.rest e rs →
    R.rest e (rs ++ [.committed none (.error err)])
  unbuilt : ∀ {e rs ib} rand, R.commits ib → R.rest e rs →
    (∀ wire, (e.session.selfUpdate rand).2 = .ok wire → wrap c wire = none) →
    R.rest { e with session := (e.session.selfUpdate rand).1 } rs
  built : ∀ {e rs ib rand epoch s wire envelope}, R.commits ib → R.rest e rs →
    e.session.epoch = .ok epoch → e.session.selfUpdate rand = (s, .ok wire) →
    wrap c wire = some envelope → R.stalled (e.author s envelope) rs (.commit ib epoch envelope)
  unmerged : ∀ {e rs ib epoch envelope s err}, R.out e rs (.commit ib epoch envelope) →
    R.granted e (.commit ib epoch envelope) .ok →
    (e.note envelope.messageId).session.mergePendingCommit = (s, .error err) →
    R.rest { e.note envelope.messageId with session := s }
      (rs ++ [.committed (some envelope) (.error (.session err))])
  merged : ∀ {e rs ib epoch envelope s diskOk p}, R.writes diskOk →
    R.out e rs (.commit ib epoch envelope) → R.granted e (.commit ib epoch envelope) .ok →
    (e.note envelope.messageId).session.mergePendingCommit = (s, .ok ()) →
    ((e.note envelope.messageId).merge s envelope).persist diskOk {envelope.messageId} =
      (p, .ok ()) →
    R.rest p (rs ++ [.committed (some envelope) (p.session.epoch.mapError .session)])
  unrecorded : ∀ {e rs ib epoch envelope s diskOk p err}, R.writes diskOk →
    R.out e rs (.commit ib epoch envelope) → R.granted e (.commit ib epoch envelope) .ok →
    (e.note envelope.messageId).session.mergePendingCommit = (s, .ok ()) →
    ((e.note envelope.messageId).merge s envelope).persist diskOk {envelope.messageId} =
      (p, .error err) → R.rest p (rs ++ [.committed (some envelope) (.error err)])
  undiscarded : ∀ {e rs ib epoch envelope s err}, R.out e rs (.commit ib epoch envelope) →
    R.granted e (.commit ib epoch envelope) (.error .epochConflict) →
    e.session.discardPendingCommit = (s, .error err) →
    R.rest { e with session := s } (rs ++ [.committed (some envelope) (.error (.session err))])
  discarded : ∀ {e rs ib epoch envelope s}, R.out e rs (.commit ib epoch envelope) →
    R.granted e (.commit ib epoch envelope) (.error .epochConflict) →
    e.session.discardPendingCommit = (s, .ok ()) →
    R.commits ib ∧ R.rest { e with session := s } rs

structure Closed (c : Crypto) (R : Regime mls) : Prop extends R.Receives, R.Pairs where
  sends : R.Sends c
  commits : R.Commits c

end Regime

def Sending.request (c : Crypto) (s : Sending) : ClientMessage :=
  .sendToGroupInbox s.inbox.1 s.kind (computeTag c s.inbox.2 s.inbox.1 s.envelope) s.envelope

/-- The ways a stretch can end. Acks go to the queue `q`. -/
inductive Meets {mls : OpenMls} (c : Crypto) (R : Regime mls) (link : Link) (q : QueueId)
    (rs : List Result) : Turn mls → Prop where
  | finished {e r} (h : R.rest e (rs ++ [r])) : Meets c R link q rs (finish e r)
  | waiting {e r} (h : R.rest e rs) (hr : R.receives r) :
    Meets c R link q rs (await e (.receiving r))
  | acking {e r id} (h : R.rest e rs) (hr : R.receives r) (up : link.up = true)
    (id_mem : id ∈ e.seen) :
    Meets c R link q rs ⟨e, .acking r link.rid, some (e.relay, .ack q id), none⟩
  | sending {e s} (h : R.stalled e rs s) (hout : R.out e rs s) (up : link.up = true) :
    Meets c R link q rs ⟨e, .sending s link.rid, some (e.relay, s.request c), none⟩
  | reconnecting {e k n} (h : R.waits e rs k) : Meets c R link q rs (await e (.connecting k n))
  | dropped {e} (h : R.rest e rs) : Meets c R link q rs (await e .idle)

section Rules
variable {mls : OpenMls} {c : Crypto} {R : Regime mls} (hR : R.Closed c) {d : Draw}
  {e : ChatEngine mls} {s : Sending} {ib : QueueId × SendKey} {r : Receiver} {k : Caller}
  {epoch : UInt64}
include hR

theorem meets_sendToGroupInbox (h : R.stalled e rs s) :
    Meets c R link q rs (sendToGroupInbox c link e s) := by
  unfold sendToGroupInbox
  split_ifs with hup
  · exact .sending h (hR.sends.send h) hup
  · exact .reconnecting h

theorem meets_commitAttempt (hib : R.commits ib) (h : R.rest e rs) :
    Meets c R link q rs (commitAttempt c link d e ib) := by
  have fail : ∀ {e : ChatEngine mls} err, R.rest e rs →
      Meets c R link q rs (finish e (.committed none (.error err))) := fun err he =>
    .finished (hR.failed (r := .drain ib 0) err he hib)
  unfold commitAttempt
  cases hep : e.session.epoch with
  | error => exact fail _ h
  | ok =>
    have hun := hR.commits.unbuilt d.rand hib h
    rcases hu : e.session.selfUpdate d.rand with ⟨s, err | wire⟩
    · rw [hu] at hun
      exact fail _ (hun (by rintro _ ⟨⟩))
    · dsimp only
      cases hw : wrap c wire with
      | none =>
        rw [hu] at hun
        exact fail _ (hun (by rintro _ ⟨⟩; exact hw))
      | some => exact meets_sendToGroupInbox hR (hR.commits.built hib h hep hu hw)

theorem meets_drainLoop (hib : R.commits ib) (staleEpoch : UInt64) (h : R.rest e rs) :
    Meets c R link q rs (drainLoop c link d e ib staleEpoch) := by
  unfold drainLoop
  cases e.session.epoch with
  | error => exact .finished (hR.failed (r := .drain ib 0) _ h hib)
  | ok =>
    dsimp only
    split_ifs
    · exact .waiting h hib
    · exact meets_commitAttempt hR hib h

theorem meets_nextEventLoop (h : R.rest e rs) : Meets c R link q rs (nextEventLoop e) := by
  unfold nextEventLoop
  split
  · rename_i event rest hp
    exact .finished (hR.pop h hp)
  · exact .waiting h trivial

theorem meets_afterAck (hr : R.receives r) (h : R.rest e rs) :
    Meets c R link q rs (afterAck c link d e r) := by
  cases r with
  | nextEvent => exact meets_nextEventLoop hR h
  | drain ib staleEpoch => exact meets_drainLoop hR hr staleEpoch h
  | awaitPairing => exact .finished (hR.paired hr h)

theorem meets_tryAck (hr : R.receives r) {id : MessageId} (hid : id ∈ e.seen) (h : R.rest e rs) :
    Meets c R link q rs (tryAck c link d e r q id) := by
  unfold tryAck
  split_ifs with hup
  · exact .acking h hr hup hid
  · exact meets_afterAck hR hr h

section
variable (hd : R.writes d.diskOk)
include hd

theorem meets_pumpFresh (hr : R.receives r) (hn : R.next e envelope)
    (hs : envelope.messageId ∉ e.seen) (h : R.rest e rs) :
    Meets c R link q rs (pumpFresh c link d e r q envelope) := by
  obtain ⟨session, trace, ha⟩ := absorb_eq (e.called envelope) envelope
  unfold pumpFresh
  rcases hab : absorb (e.called envelope) envelope with ⟨e', err | event⟩
  · exact .finished (hR.failed err (hR.refused h hn hs hab) hr)
  · have ht := hR.taken hd h hn hs hab
    have hid : envelope.messageId ∈
        ((e'.queue event).persist d.diskOk {envelope.messageId}).1.seen := by
      rw [hab] at ha
      rw [ChatEngine.persist_seen, show e' = _ from ha]
      exact Finset.mem_insert_self _ _
    dsimp only
    rcases hp : (e'.queue event).persist d.diskOk {envelope.messageId} with ⟨e'', err | _⟩
    · rw [hp] at ht
      exact .finished (hR.failed err ht hr)
    · rw [hp] at ht hid
      exact meets_tryAck hR hr hid ht

theorem meets_pumpPush (hr : R.receives r) (hn : envelope.messageId ∉ e.seen → R.next e envelope)
    (h : R.rest e rs) :
    Meets c R link q rs (pumpPush c link d e r q envelope) := by
  unfold pumpPush
  split_ifs with hs
  · exact meets_tryAck hR hr hs h
  · exact meets_pumpFresh hR hd hr (hn hs) hs h

theorem meets_pairPush (hr : R.permits .awaitPairing) (hi : R.invites e envelope)
    (h : R.rest e rs) :
    Meets c R link q rs (pairPush c link d e q envelope) := by
  have fail : ∀ {e : ChatEngine mls} err, R.rest e rs →
      Meets c R link q rs (finish e (.paired (.error err))) := fun err he =>
    .finished (hR.failed (r := .awaitPairing) err he hr)
  unfold pairPush
  cases hdec : decodeFrom BootstrapPayload.codec envelope.paddedCiphertext with
  | none => exact fail _ h
  | some payload =>
    dsimp only
    rcases hj : e.session.joinFromWelcome payload.welcomeWire payload.treeWire with ⟨s, err | _⟩
    · exact fail _ (hR.unjoined hr h hi hdec hj)
    · have ht := hR.joined hd hr h hi hdec hj
      have hid : envelope.messageId ∈
          ((e.joined s envelope payload).persist d.diskOk {envelope.messageId}).1.seen := by
        rw [ChatEngine.persist_seen]
        exact Finset.mem_insert_self _ _
      dsimp only
      rcases hp : (e.joined s envelope payload).persist d.diskOk {envelope.messageId} with
        ⟨e', err | _⟩
      · rw [hp] at ht
        exact fail err ht
      · rw [hp] at ht hid
        exact meets_tryAck hR (r := .awaitPairing) hr hid ht

theorem meets_onPush (hr : R.receives r) (hn : envelope.messageId ∉ e.seen → R.next e envelope)
    (hi : r = .awaitPairing → R.invites e envelope) (h : R.rest e rs) :
    Meets c R link q rs (onPush c link d e r (q, envelope)) := by
  cases r with
  | nextEvent | drain => exact meets_pumpPush hR hd hr hn h
  | awaitPairing => exact meets_pairPush hR hd hr (hi rfl) h

end

theorem meets_onDisconnected (hr : R.receives r) (h : R.rest e rs) :
    Meets c R link q rs (onDisconnected e r) := by
  cases r with
  | nextEvent | drain => exact .reconnecting ⟨hR.queue false h, hr⟩
  | awaitPairing => exact .reconnecting ⟨h, hr⟩

section
variable (h : R.waits e rs k)
include h

theorem meets_gaveUp (err : EngineError) :
    Meets c R link q rs (finish e (k.failed err)) := by
  cases k with
  | receiving => exact .finished (hR.failed err h.1 h.2)
  | sending => exact .finished (hR.sends.gaveUp err h)

theorem meets_onConnectFailed (attempt : ℕ) :
    Meets c R link q rs (onConnectFailed e k attempt) := by
  unfold onConnectFailed
  split_ifs
  · exact .reconnecting h
  · exact meets_gaveUp hR h _

theorem meets_afterReconnect :
    Meets c R link q rs (afterReconnect c link d e k) := by
  cases k with
  | receiving r =>
    cases r with
    | nextEvent => exact meets_nextEventLoop hR (hR.queue true h.1)
    | drain ib staleEpoch => exact meets_drainLoop hR h.2 staleEpoch (hR.queue true h.1)
    | awaitPairing => exact .waiting h.1 h.2
  | sending => exact meets_sendToGroupInbox hR h

theorem meets_onSubscribed {conn : ConnId} (hw : R.waits { e with relay := conn } rs k)
    (reply : ServerMessage) :
    Meets c R link q rs (onSubscribed c link d e k conn reply) := by
  cases reply with
  | ok => exact meets_afterReconnect hR hw
  | error | powChallenge | queueCreated => exact meets_gaveUp hR h _

end

theorem meets_onAcked (hr : R.receives r) (h : R.rest e rs) (reply : ServerMessage) :
    Meets c R link q rs (onAcked c link d e r reply) := by
  cases reply with
  | ok => exact meets_afterAck hR hr h
  | error | powChallenge | queueCreated => exact .finished (hR.failed _ h hr)

theorem meets_mergeOwn (hd : R.writes d.diskOk) (h : R.out e rs (.commit ib epoch envelope))
    (hg : R.granted e (.commit ib epoch envelope) .ok) :
    Meets c R link q rs (mergeOwn d e envelope) := by
  unfold mergeOwn
  rcases hm : (e.note envelope.messageId).session.mergePendingCommit with ⟨s, err | _⟩
  · exact .finished (hR.commits.unmerged h hg hm)
  · dsimp only
    rcases hp : ((e.note envelope.messageId).merge s envelope).persist d.diskOk
      {envelope.messageId} with ⟨p, err | _⟩
    · exact .finished (hR.commits.unrecorded hd h hg hm hp)
    · exact .finished (hR.commits.merged hd h hg hm hp)

theorem meets_yieldEpoch (h : R.out e rs (.commit ib epoch envelope))
    (hg : R.granted e (.commit ib epoch envelope) (.error .epochConflict)) :
    Meets c R link q rs (yieldEpoch c link d e ib epoch envelope) := by
  unfold yieldEpoch
  rcases hm : e.session.discardPendingCommit with ⟨s, err | _⟩
  · exact .finished (hR.commits.undiscarded h hg hm)
  · obtain ⟨hib, hrest⟩ := hR.commits.discarded h hg hm
    exact meets_drainLoop hR hib epoch hrest

variable (hd : R.writes d.diskOk)
include hd

theorem meets_onSent {reply : ServerMessage} (h : R.out e rs s) (hg : R.granted e s reply) :
    Meets c R link q rs (onSent c link d e s reply) := by
  unfold onSent
  split
  · exact .finished (hR.sends.delivered h hg)
  · exact meets_mergeOwn hR hd h hg
  · exact meets_yieldEpoch hR h hg
  · exact .finished (hR.sends.rejected _ h hg (by rintro ⟨⟩))
  · rename_i hok _ _
    refine .finished (hR.sends.rejected _ h hg ?_)
    rintro rfl
    cases s with
    | message ib plaintext envelope => exact absurd rfl (hok ib plaintext envelope rfl)
    | commit => simp_all

theorem meets_sendMessage {plaintext : List UInt8} (hc : R.permits (.sendMessage plaintext))
    (h : R.rest e rs) : Meets c R link q rs (sendMessage c link d e plaintext) := by
  have fail : ∀ {e : ChatEngine mls} err, R.rest e rs →
      Meets c R link q rs (finish e (.sent plaintext none (.error err))) := fun err he =>
    .finished (hR.sends.unsent err hc he)
  have hun := hR.sends.unencrypted d.rand hc h
  unfold sendMessage
  split
  · exact fail _ h
  · rename_i ib hib
    rcases hu : e.session.encryptApplication d.rand plaintext with ⟨s, err | wire⟩
    · rw [hu] at hun
      exact fail _ (hun (by rintro _ ⟨⟩))
    · dsimp only
      cases hw : wrap c wire with
      | none =>
        rw [hu] at hun
        exact fail _ (hun (by rintro _ ⟨⟩; exact hw))
      | some envelope =>
        dsimp only
        rcases hp : ((e.author s envelope).note envelope.messageId).persist d.diskOk
          {envelope.messageId} with ⟨p, err | _⟩
        · exact .finished (hR.sends.unwritten hd hc h hib hu hw hp)
        · exact meets_sendToGroupInbox hR (hR.sends.encrypted hd hc h hib hu hw hp)

theorem meets_start {call : Call} (hc : R.permits call) (h : R.rest e rs) :
    Meets c R link q rs (call.start c link d e) := by
  cases call with
  | nextEvent => exact meets_nextEventLoop hR h
  | awaitPairing => exact .waiting h hc
  | sendMessage => exact meets_sendMessage hR hd hc h
  | commitSelfUpdate =>
    unfold Call.start commitSelfUpdate
    cases hib : e.inbox with
    | none => exact .finished (hR.commits.uncommitted _ hc h)
    | some => exact meets_commitAttempt hR (hR.commits.inbox hc h hib) h

end Rules

section Ends
variable {mls : OpenMls} {c : Crypto} {R : Regime mls} {t : Turn mls}

theorem Meets.holds (h : Meets c R link q rs t) :
    R.holds t.engine (rs ++ t.result.toList) t.pc := by
  cases h with
  | finished h => exact h
  | waiting h hr | acking h hr =>
    change R.rest _ (rs ++ []) ∧ _
    rw [append_nil]
    exact ⟨h, hr⟩
  | sending h hout =>
    change R.out _ (rs ++ []) _
    rw [append_nil]
    exact hout
  | reconnecting h =>
    change R.waits _ (rs ++ []) _
    rw [append_nil]
    exact h
  | dropped h =>
    change R.rest _ (rs ++ [])
    rw [append_nil]
    exact h

theorem Regime.rest_of_droppable {e : ChatEngine mls} (h : R.holds e rs pc)
    (hd : pc.droppable = true) : R.rest e rs := by
  cases pc with
  | receiving | acking => exact h.1
  | connecting k | subscribing k =>
    cases k with
    | receiving => exact h.1
    | sending => cases hd
  | idle | sending => cases hd

end Ends

/-- What no stretch changes, up to the growth of the seen set and of the record of calls. -/
structure ChatEngine.Kept {mls : OpenMls} (e e' : ChatEngine mls) : Prop where
  relay : e'.relay = e.relay
  mailboxQid : e'.mailboxQid = e.mailboxQid
  seen : e.seen ⊆ e'.seen
  calls : e.calls <+: e'.calls

def Regime.kept {mls : OpenMls} (e : ChatEngine mls) : Regime mls where
  rest e' _ := e.Kept e'
  out e' _ _ := e.Kept e'
  stalled e' _ _ := e.Kept e'
  next _ _ := True
  granted _ _ _ := True
  permits _ := True
  commits _ := True

namespace ChatEngine.Kept
variable {mls : OpenMls} {e e' e'' : ChatEngine mls}

theorem refl (e : ChatEngine mls) : e.Kept e := ⟨rfl, rfl, Finset.Subset.refl _, prefix_rfl⟩

variable (h : e.Kept e')
include h

theorem trans (h' : e'.Kept e'') : e.Kept e'' :=
  ⟨h'.relay.trans h.relay, h'.mailboxQid.trans h.mailboxQid, h.seen.trans h'.seen,
    h.calls.trans h'.calls⟩

theorem note (id : MessageId) : e.Kept (e'.note id) :=
  ⟨h.relay, h.mailboxQid, h.seen.trans (Finset.subset_insert _ _), h.calls⟩

theorem queue (event : Event) : e.Kept (e'.queue event) := ⟨h.relay, h.mailboxQid, h.seen, h.calls⟩

theorem author (s : ChatSession mls) (envelope : Envelope) :
    e.Kept (e'.author s envelope) := ⟨h.relay, h.mailboxQid, h.seen, h.calls⟩

theorem merge (s : ChatSession mls) (envelope : Envelope) :
    e.Kept (e'.merge s envelope) := ⟨h.relay, h.mailboxQid, h.seen, h.calls⟩

theorem joined (s : ChatSession mls) (envelope : Envelope) (payload : BootstrapPayload) :
    e.Kept (e'.joined s envelope payload) :=
  ⟨h.relay, h.mailboxQid, (h.note envelope.messageId).seen, h.calls⟩

theorem persist (diskOk : Bool) (ids : Finset MessageId) :
    e.Kept (e'.persist diskOk ids).1 := by
  obtain ⟨store, hs⟩ := e'.persist_eq diskOk ids
  rw [hs]
  exact ⟨h.relay, h.mailboxQid, h.seen, h.calls⟩

theorem persisted {diskOk : Bool} {ids : Finset MessageId} {p : ChatEngine mls}
    {r : Except EngineError Unit} (hp : e'.persist diskOk ids = (p, r)) : e.Kept p := by
  have := h.persist diskOk ids
  rwa [hp] at this

theorem absorbed {r : Except EngineError Event}
    (ha : absorb (e'.called envelope) envelope = (e'', r)) : e.Kept e'' := by
  obtain ⟨session, trace, hs⟩ := absorb_eq (e'.called envelope) envelope
  rw [ha] at hs
  change e'' = _ at hs
  have hn := h.note envelope.messageId
  rw [hs]
  exact ⟨hn.relay, hn.mailboxQid, hn.seen, h.calls.trans (prefix_append _ _)⟩

end ChatEngine.Kept

theorem Regime.kept_closed (c : Crypto) (e : ChatEngine mls) : (Regime.kept e).Closed c where
  queue _ h := h.queue _
  pop h _ := ⟨h.relay, h.mailboxQid, h.seen, h.calls⟩
  failed _ h _ := h
  refused h _ _ ha := h.absorbed ha
  taken _ h _ _ ha := ((h.absorbed ha).queue _).persist _ _
  unjoined _ h _ _ _ := ⟨h.relay, h.mailboxQid, h.seen, h.calls⟩
  joined _ _ h _ _ _ := (h.joined _ _ _).persist _ _
  paired _ h := h
  sends :=
    { send := fun h => h
      gaveUp := fun _ h => h
      rejected := fun _ h _ _ => h
      delivered := fun h _ => h
      unsent := fun _ _ h => h
      unencrypted := fun _ _ h _ => ⟨h.relay, h.mailboxQid, h.seen, h.calls⟩
      encrypted := fun _ _ h _ _ _ hp => ((h.author _ _).note _).persisted hp
      unwritten := fun _ _ h _ _ _ hp => ((h.author _ _).note _).persisted hp }
  commits :=
    { inbox := fun _ _ _ => trivial
      uncommitted := fun _ _ h => h
      unbuilt := fun _ _ h _ => ⟨h.relay, h.mailboxQid, h.seen, h.calls⟩
      built := fun _ h _ _ _ => h.author _ _
      unmerged := fun h _ _ => ⟨h.relay, h.mailboxQid, (h.note _).seen, h.calls⟩
      merged := fun _ h _ _ hp => ((h.note _).merge _ _).persisted hp
      unrecorded := fun _ h _ _ hp => ((h.note _).merge _ _).persisted hp
      undiscarded := fun h _ _ => ⟨h.relay, h.mailboxQid, h.seen, h.calls⟩
      discarded := fun h _ _ => ⟨trivial, h.relay, h.mailboxQid, h.seen, h.calls⟩ }

theorem Meets.kept {e : ChatEngine mls} {t : Turn mls} (h : Meets c (Regime.kept e) link q rs t) :
    e.Kept t.engine := by
  cases h with
  | finished h | waiting h | acking h | sending h | dropped h => exact h
  | @reconnecting e' k n h =>
    cases k with
    | receiving => exact h.1
    | sending => exact h

theorem pumpFresh_kept (c : Crypto) (link : Link) (d : Draw) (e : ChatEngine mls) (r : Receiver)
    (q : QueueId) (envelope : Envelope) :
    (e.called envelope).Kept (pumpFresh c link d e r q envelope).engine := by
  have hack : ∀ e' : ChatEngine mls, envelope.messageId ∈ e'.seen →
      e'.Kept (tryAck c link d e' r q envelope.messageId).engine := by
    intro e' he'
    have hm : Meets c (Regime.kept e') link q [] (tryAck c link d e' r q envelope.messageId) :=
      meets_tryAck (Regime.kept_closed c e') (by cases r <;> trivial) he' (.refl e')
    exact hm.kept
  obtain ⟨session, trace, ha⟩ := absorb_eq (e.called envelope) envelope
  have hcalled : (e.called envelope).Kept (absorb (e.called envelope) envelope).1 := by
    rw [ha]
    exact ⟨rfl, rfl, Finset.Subset.refl _, prefix_rfl⟩
  unfold pumpFresh
  rcases hab : absorb (e.called envelope) envelope with ⟨e', err | event⟩
  · rw [hab] at hcalled
    exact hcalled
  · rw [hab] at hcalled
    dsimp only
    rcases hp : (e'.queue event).persist d.diskOk {envelope.messageId} with ⟨e'', err | _⟩
    · exact (hcalled.queue event).persisted hp
    · have hk := (hcalled.queue event).persisted hp
      exact hk.trans (hack e'' (hk.seen (Finset.mem_insert_self _ _)))

theorem pumpPush_noted (c : Crypto) (link : Link) (d : Draw) (e : ChatEngine mls) (r : Receiver)
    (q : QueueId) (envelope : Envelope) :
    envelope.messageId ∈ (pumpPush c link d e r q envelope).engine.seen := by
  unfold pumpPush
  split_ifs with hs
  · have hm : Meets c (Regime.kept e) link q [] (tryAck c link d e r q envelope.messageId) :=
      meets_tryAck (Regime.kept_closed c e) (by cases r <;> trivial) hs (.refl e)
    exact hm.kept.seen hs
  · exact (pumpFresh_kept c link d e r q envelope).seen (Finset.mem_insert_self _ _)

end Rosette.Engine
