import Rosette.Relay.Push

/-! # Who may acknowledge

An acknowledgement takes the entries with its message id out of the mailbox it names,
whoever sent it. Whether they had been sent to the connection it came in on is a matter
of whether that connection has subscribed to the mailbox: an open channel that is
registered for a queue has been sent everything the queue holds, and one that is not has
been sent nothing of it.
-/
namespace Rosette.Relay
open Foundation Proto RelayState List

variable {c : Crypto} {s : Service} {es : List RelayEvent} {ev : RelayEvent} {k : ChannelId}
  {amb : Ambient} {msg : ClientMessage}

/-- What a request puts on a channel. -/
def Service.pushed (c : Crypto) (k : ChannelId) (s : Service) : RelayEvent → List Push
  | .request amb msg pushTx =>
    ((s.relay.handle c amb msg pushTx).1.channels k).queue.drop (s.relay.channels k).queue.length
  | _ => []

/-- Along the run from `s₀`, and since the process last came up, the channel was sent the
push. -/
def SentOn (c : Crypto) (s₀ : Service) (es : List RelayEvent) (k : ChannelId) (m : Push) : Prop :=
  ∃ pre ev post s, es = pre ++ ev :: post ∧ run (Service.step c) s₀ pre = some s ∧
    m ∈ s.pushed c k ev ∧ ∀ e ∈ post, e.restarts = false

section History
variable {s₀ t : Service} {m : Push}

theorem SentOn.snoc (h : SentOn c s₀ es k m) (hev : ev.restarts = false) :
    SentOn c s₀ (es ++ [ev]) k m := by
  obtain ⟨pre, e, post, s, rfl, hs, hm, hpost⟩ := h
  refine ⟨pre, e, post ++ [ev], s, by simp, hs, hm, fun e' he' => ?_⟩
  rcases mem_append.mp he' with hold | hnew
  · exact hpost e' hold
  · rwa [mem_singleton.mp hnew]

theorem SentOn.last (hrun : run (Service.step c) s₀ es = some s) (hm : m ∈ s.pushed c k ev) :
    SentOn c s₀ (es ++ [ev]) k m :=
  ⟨es, ev, [], s, rfl, hrun, hm, by simp⟩

theorem SentOn.inv (hrun : run (Service.step c) s₀ es = some s) (h : SentOn c s₀ (es ++ [ev]) k m) :
    ev.restarts = false ∧ SentOn c s₀ es k m ∨ m ∈ s.pushed c k ev := by
  obtain ⟨pre, e, post, u, hes, hu, hm, hpost⟩ := h
  rcases eq_nil_or_concat post with rfl | ⟨post, e', rfl⟩
  · obtain ⟨rfl, hev⟩ := append_inj' hes rfl
    obtain rfl := singleton_inj.mp hev
    obtain rfl := Option.mem_unique hrun hu
    exact .inr hm
  · have hsplit : es ++ [ev] = (pre ++ e :: post) ++ [e'] := by simpa using hes
    obtain ⟨rfl, hev⟩ := append_inj' hsplit rfl
    obtain rfl := singleton_inj.mp hev
    exact .inl ⟨hpost ev (by simp), pre, e, post, u, rfl, hu, hm,
      fun x hx => hpost x (by simp [hx])⟩

end History

namespace RelayState

/-- From `s` to `t` the channel was sent `sent`: all that is new to it in the queues it
listens to, and of no other queue. -/
structure Posted (s t : RelayState) (k : ChannelId) (sent : List Push) : Prop where
  channel : t.channels k = { s.channels k with queue := (s.channels k).queue ++ sent }
  stays : ∀ q, s.Listens k q → t.Listens k q
  heard : ∀ q, t.Listens k q → ∀ p ∈ t.pendingOf q,
    s.Listens k q ∧ p ∈ s.pendingOf q ∨ (q, p.1, p.2) ∈ sent
  listed : ∀ m ∈ sent, t.Listens k m.1

section Requests
variable {s t : RelayState} {tx : Option ChannelId}

theorem Notified.posted {news : QueueId → List Envelope} (h : Notified s t k news)
    (hpending : ∀ q, ∀ p ∈ t.pendingOf q,
      p ∈ s.pendingOf q ∨ p.2 ∈ news q ∧ p.1 = p.2.messageId) : ∃ sent, Posted s t k sent := by
  obtain ⟨sent, hsent, -, hmem⟩ := h.sent
  refine ⟨sent, hsent, fun q => h.stays, fun q hl p hp => ?_, fun m hm => ?_⟩
  · have hlistens : s.Listens k q := ⟨h.joins hl.1, h.receiving.symm.trans hl.2⟩
    rcases hpending q p hp with hold | ⟨hnew, hid⟩
    · exact .inl ⟨hlistens, hold⟩
    · exact .inr ((hmem _).mpr ⟨hlistens, p.2, hnew, by rw [hid]⟩)
  · exact h.stays ((hmem m).mp hm).1

theorem posted_subscribe (s : RelayState) (k : ChannelId) (ids : List QueueId) :
    ∃ sent, Posted s (s.subscribe ids k) k sent := by
  have hch := subscribe_channel s ids k
  have hlistens : ∀ q, (s.subscribe ids k).Listens k q ↔
      (s.channels k).receiving = true ∧ (q ∈ ids ∨ k ∈ s.inner.subscribers q) := by
    intro q
    rw [Listens, hch, subscribe_subscribers, and_comm]
    refine and_congr_right fun _ => ?_
    split_ifs with hq
    · simp [hq]
    · simp [hq]
  refine ⟨_, hch, fun q hl => (hlistens q).mpr ⟨hl.2, .inr hl.1⟩, fun q hl p hp => ?_,
    fun m hm => ?_⟩
  · obtain ⟨hr, hq⟩ := (hlistens q).mp hl
    rw [subscribe_pendingOf] at hp
    by_cases hids : q ∈ ids
    · right
      rw [if_pos hr]
      exact mem_flatMap.mpr ⟨q, hids, mem_map.mpr ⟨p, hp, rfl⟩⟩
    · exact .inl ⟨⟨hq.resolve_left hids, hr⟩, hp⟩
  · split_ifs at hm with hr
    · obtain ⟨q, hq, hm⟩ := mem_flatMap.mp hm
      obtain ⟨p, -, rfl⟩ := mem_map.mp hm
      exact (hlistens q).mpr ⟨hr, .inl hq⟩
    · cases hm

/-- Every request posts to every channel what is new to it. -/
theorem posted_handle {r : Handled} (h : s.handle c amb msg tx = (t, r)) (hr : r ≠ .spinning)
    (k : ChannelId) : ∃ sent, Posted s t k sent := by
  by_cases hown : tx = some k ∧ ∃ ids, msg = .subscribe ids
  · obtain ⟨rfl, ids, rfl⟩ := hown
    rw [handle_subscribe] at h
    split_ifs at h
    · cases h
      have hn : Notified s s.poison k (fun _ => []) := .of_eq rfl rfl
      exact hn.posted fun q p hp => .inl hp
    · cases h
      exact posted_subscribe s k ids
  · cases r with
    | answered =>
      obtain ⟨news, hn, hpending, -⟩ := notified_answered (fun htx ids hm => hown ⟨htx, ids, hm⟩) h
      exact hn.posted hpending
    | panicked =>
      refine (notified_panicked h).posted fun q p hp => .inl ?_
      rwa [← ledger_pending, ledger_panicked h, ledger_pending] at hp
    | spinning => exact absurd rfl hr

end Requests
end RelayState

/-- After a run, an open channel has been sent everything the queues it is registered for
hold, and nothing of any other queue. -/
structure Supplied (c : Crypto) (s₀ : Service) (es : List RelayEvent) (s : RelayState) : Prop where
  sent : ∀ k q, s.Listens k q → ∀ p ∈ s.pendingOf q, SentOn c s₀ es k (q, p.1, p.2)
  registered : ∀ k m, SentOn c s₀ es k m → (s.channels k).receiving = true →
    k ∈ s.inner.subscribers m.1

section Runs
variable {s₀ t : Service}

theorem Supplied.request {pushTx : Option ChannelId} (h : Supplied c s₀ es s.relay)
    (hrun : run (Service.step c) s₀ es = some s)
    (hstep : Service.step c s (.request amb msg pushTx) = some t) :
    Supplied c s₀ (es ++ [.request amb msg pushTx]) t.relay := by
  obtain ⟨r, hhandle, hr⟩ := step_request_handled hstep
  have hposted := posted_handle hhandle hr
  have hpushed : ∀ k sent, Posted s.relay t.relay k sent →
      s.pushed c k (.request amb msg pushTx) = sent := by
    intro k sent hp
    rw [Service.pushed, hhandle, hp.channel, drop_left]
  refine ⟨fun k q hl p hp => ?_, fun k m hm hr => ?_⟩
  · obtain ⟨sent, hk⟩ := hposted k
    rcases hk.heard q hl p hp with ⟨hold, hpend⟩ | hnew
    · exact (h.sent k q hold p hpend).snoc rfl
    · exact .last hrun (by rwa [hpushed k sent hk])
  · obtain ⟨sent, hk⟩ := hposted k
    rcases hm.inv hrun with ⟨-, hold⟩ | hnew
    · have hr' : (s.relay.channels k).receiving = true := by rwa [hk.channel] at hr
      exact (hk.stays m.1 ⟨h.registered k m hold hr', hr'⟩).1
    · rw [hpushed k sent hk] at hnew
      exact (hk.listed m hnew).1

theorem Supplied.local (h : Supplied c s₀ es s.relay) (hrun : run (Service.step c) s₀ es = some s)
    (hev : ev.restarts = false) (hnone : ∀ k, s.pushed c k ev = [])
    (hinner : t.relay.inner.subscribers = s.relay.inner.subscribers)
    (hpending : ∀ q, t.relay.pendingOf q = s.relay.pendingOf q)
    (hopen : ∀ k, (t.relay.channels k).receiving = true → (s.relay.channels k).receiving = true) :
    Supplied c s₀ (es ++ [ev]) t.relay := by
  refine ⟨fun k q hl p hp => ?_, fun k m hm hr => ?_⟩
  · rw [hpending] at hp
    exact (h.sent k q ⟨hinner ▸ hl.1, hopen k hl.2⟩ p hp).snoc hev
  · rcases hm.inv hrun with ⟨-, hold⟩ | hnew
    · rw [hinner]
      exact h.registered k m hold (hopen k hr)
    · simp [hnone] at hnew

theorem Supplied.step (h : Supplied c s₀ es s.relay) (hrun : run (Service.step c) s₀ es = some s)
    (hstep : Service.step c s ev = some t) : Supplied c s₀ (es ++ [ev]) t.relay := by
  cases ev with
  | request => exact h.request hrun hstep
  | receivePush tx =>
    cases hstep
    refine h.local hrun rfl (fun _ => rfl) rfl (fun _ => rfl) fun k hr => ?_
    by_cases hk : k = tx
    · subst hk
      simpa [RelayState.receivePush] using hr
    · simpa [RelayState.receivePush, Function.update_of_ne hk] using hr
  | hangUp tx =>
    cases hstep
    refine h.local hrun rfl (fun _ => rfl) rfl (fun _ => rfl) fun k hr => ?_
    by_cases hk : k = tx
    · subst hk
      simp [RelayState.hangUp] at hr
    · simpa [RelayState.hangUp, Function.update_of_ne hk] using hr
  | setAttestationKey =>
    cases hstep
    exact h.local hrun rfl (fun _ => rfl) rfl (fun _ => rfl) fun _ hr => hr
  | restart =>
    obtain ⟨db, ho⟩ := step_restart_reopens hstep
    refine ⟨fun k q hl => ?_, fun k m hm => ?_⟩
    · exact absurd hl.1 ((reopen_fresh ho).2 q)
    · rcases hm.inv hrun with ⟨hgone, -⟩ | hnew
      · cases hgone
      · cases hnew

theorem run_supplied (persistent : Bool)
    (hrun : run (Service.step c) (Service.boot persistent) es = some s) :
    Supplied c (Service.boot persistent) es s.relay := by
  refine run_induction
    ⟨fun k q hl => ?_, fun k m hm => ?_⟩ (fun es s ev t hs h hstep => h.step hs hstep) hrun
  · cases hl.1
  · obtain ⟨pre, ev, post, s, hes, -⟩ := hm
    simp at hes

end Runs

/-- An acknowledgement for a mailbox comes in on a channel. One whose write was made when
the process died may have come in on any. -/
inductive RelayEvent.Acks (q : QueueId) (k : ChannelId) : RelayEvent → Prop where
  | request (amb : Ambient) (id : MessageId) : Acks q k (.request amb (.ack q id) (some k))
  | inFlight (now : ℕ) (amb : Ambient) (id : MessageId) :
    Acks q k (.restart now (some (amb, .ack q id)))

/-- An acknowledgement on channel `k` takes the entry out of the mailbox. -/
def AckRemoves (c : Crypto) (s : Service) (ev : RelayEvent) (k : ChannelId) (q : QueueId)
    (p : MessageId × Envelope) : Prop :=
  ev.Acks q k ∧ p ∈ s.relay.pendingOf q ∧
    ∃ t, Service.step c s ev = some t ∧ p ∉ t.relay.pendingOf q

/-- In every run, an entry that an acknowledgement on an open connection removes had been
sent to that connection exactly when the connection has subscribed to the mailbox. -/
theorem acked_entry_was_sent_iff (c : Crypto) (persistent : Bool) (es : List RelayEvent)
    (s : Service) (hrun : run (Service.step c) (Service.boot persistent) es = some s)
    (ev : RelayEvent) (k : ChannelId) (q : QueueId) (p : MessageId × Envelope)
    (hopen : (s.relay.channels k).receiving = true) (hremoves : AckRemoves c s ev k q p) :
    SentOn c (Service.boot persistent) es k (q, p.1, p.2) ↔ k ∈ s.relay.inner.subscribers q :=
  ⟨fun hsent => (run_supplied persistent hrun).registered k _ hsent hopen,
    fun hk => (run_supplied persistent hrun).sent k q ⟨hk, hopen⟩ p hremoves.2.1⟩

def groupEnvelope : Envelope := ⟨.fill 3, .relayFanout, [3]⟩

/-- A mailbox, a group inbox that fans out to it, and a message for the group. -/
def groupMessage : List RelayEvent :=
  mint 1 (fun solution => .createMailbox solution none) ++
    mint 2 (fun solution => .createGroupInbox solution 1 [.fill 1] none) ++
    [.request (.fill 0) (.sendToGroupInbox (.fill 2) .application (.fill 0)
      groupEnvelope) none]

def subscribeOn (k : ChannelId) : RelayEvent :=
  .request (.fill 0) (.subscribe [.fill 1]) (some k)

def ackOn (k : ChannelId) : RelayEvent :=
  .request (.fill 0) (.ack (.fill 1) (.fill 3)) (some k)

theorem ackRemoves_ackOn (hpending : (Bytes.fill 3, groupEnvelope) ∈ s.relay.pendingOf (.fill 1))
    (hstep : ∃ t, Service.step .plain s (ackOn k) = some t ∧
      t.relay.pendingOf (.fill 1) = []) :
    AckRemoves .plain s (ackOn k) k (.fill 1) (.fill 3, groupEnvelope) := by
  obtain ⟨t, ht, hempty⟩ := hstep
  refine ⟨.request _ _, hpending, t, ht, ?_⟩
  rw [hempty]
  exact not_mem_nil

/-- The mailbox's owner subscribes and acknowledges. -/
theorem acked_entry_was_sent_iff_owner :
    ∃ s, run (Service.step .plain) (Service.boot false) (groupMessage ++ [subscribeOn 7]) = some s ∧
      AckRemoves .plain s (ackOn 7) 7 (.fill 1) (.fill 3, groupEnvelope) ∧
      SentOn .plain (Service.boot false) (groupMessage ++ [subscribeOn 7]) 7
        (.fill 1, .fill 3, groupEnvelope) := by
  obtain ⟨s, hs, hopen, hsub, hpending, hstep⟩ : ∃ s, run (Service.step .plain)
    (Service.boot false) (groupMessage ++ [subscribeOn 7]) = some s ∧
      (s.relay.channels 7).receiving = true ∧ 7 ∈ s.relay.inner.subscribers (.fill 1) ∧
      (Bytes.fill 3, groupEnvelope) ∈ s.relay.pendingOf (.fill 1) ∧
      ∃ t, Service.step .plain s (ackOn 7) = some t ∧
        t.relay.pendingOf (.fill 1) = [] := by decide +kernel
  have hremoves := ackRemoves_ackOn hpending hstep
  exact ⟨s, hs, hremoves, (acked_entry_was_sent_iff .plain false _ s hs (ackOn 7) 7 (.fill 1)
    (.fill 3, groupEnvelope) hopen hremoves).mpr hsub⟩

/-- Another member of the group acknowledges the owner's copy on a connection that was sent
nothing, and the owner finds the mailbox empty. -/
theorem stranger_acks_undelivered :
    ∃ s t, run (Service.step .plain) (Service.boot false) groupMessage = some s ∧
      (s.relay.channels 8).receiving = true ∧
      AckRemoves .plain s (ackOn 8) 8 (.fill 1) (.fill 3, groupEnvelope) ∧
      ¬ SentOn .plain (Service.boot false) groupMessage 8
        (.fill 1, .fill 3, groupEnvelope) ∧
      run (Service.step .plain) s [ackOn 8, subscribeOn 7] = some t ∧
      (t.relay.channels 7).queue = [] := by
  obtain ⟨s, hs, hopen, hsub, hpending, hstep, t, ht, hempty⟩ : ∃ s, run (Service.step .plain)
    (Service.boot false) groupMessage = some s ∧
      (s.relay.channels 8).receiving = true ∧ 8 ∉ s.relay.inner.subscribers (.fill 1) ∧
      (Bytes.fill 3, groupEnvelope) ∈ s.relay.pendingOf (.fill 1) ∧
      (∃ t, Service.step .plain s (ackOn 8) = some t ∧
        t.relay.pendingOf (.fill 1) = []) ∧
      ∃ t, run (Service.step .plain) s [ackOn 8, subscribeOn 7] = some t ∧
        (t.relay.channels 7).queue = [] := by decide +kernel
  refine ⟨s, t, hs, hopen, ackRemoves_ackOn hpending hstep, fun hsent => hsub ?_, ht, hempty⟩
  exact (run_supplied false hs).registered 8 _ hsent hopen

end Rosette.Relay
