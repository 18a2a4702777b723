import Rosette.Relay.Deliveries

/-! # What a connection is told

The effect of requests on push channels and subscriptions. A channel that listens to
one queue is sent exactly that queue's deliveries, in order; every other request
leaves it alone. A subscription starts it off with the unacked entries.
-/
namespace Rosette.Relay
open Foundation Proto List Function Ledger

def BoxEvent.arrived : BoxEvent → Option Envelope
  | .arrive _ e => some e
  | .acked _ => none

def arrivals (q : QueueId) (log : List Exchange) : List Envelope :=
  (boxHistory q log).filterMap BoxEvent.arrived

/-- The envelopes a mutation brings to a mailbox. -/
def Mutation.deliveries (q : QueueId) : Mutation → List Envelope
  | .sendToMailbox p e => if p = q then [e] else []
  | .sendToGroupInbox _ _ e roster => replicate (roster.count q) e
  | _ => []

theorem arrivals_snoc (q : QueueId) (log : List Exchange) (entry : Exchange) :
    arrivals q (log ++ [entry]) =
      arrivals q log ++ (boxEvents q log entry).filterMap BoxEvent.arrived := by
  rw [arrivals, boxHistory_snoc, filterMap_append, ← arrivals]

theorem arrivals_grow (q : QueueId) (log more : List Exchange) :
    arrivals q log <+: arrivals q (log ++ more) := by
  induction more using reverseRecOn with
  | nil => rw [append_nil]
  | append_singleton more entry ih =>
    rw [← append_assoc, arrivals_snoc]
    exact ih.trans (prefix_append _ _)

variable {d : Ledger} {msg : ClientMessage} {m : Mutation} {q : QueueId} {reply : ServerMessage}
  {c : Crypto} {k tx : ChannelId} {s t : RelayState} {news : QueueId → List Envelope}
  {amb : Ambient}

theorem arrivals_answered (h : Answers d msg reply) (q : QueueId) (log : List Exchange) :
    arrivals q (log ++ [(msg, reply)]) = arrivals q log := by
  rw [arrivals_snoc]
  cases h <;> exact append_nil _

/-- An accepted request brings to a mailbox what its mutation delivers there. -/
theorem arrivals_wrote {log : List Exchange} (he : Explains c log d) (h : Admits c d msg m)
    (hq : d.isMailbox q = true) :
    arrivals q (log ++ [(msg, m.reply)]) = arrivals q log ++ m.deliveries q := by
  have ht := explains_boxesTell he
  rw [arrivals_snoc]
  congr 1
  cases h with
  | createMailbox | createGroupInbox => rfl
  | @sendToMailbox p | @ack p =>
    by_cases hp : p = q
    · simp [boxEvents, Mutation.reply, Mutation.deliveries, BoxEvent.arrived, hp]
    · simp [boxEvents, Mutation.reply, Mutation.deliveries, hp]
  | @sendToGroupInbox x kind tag e k epoch roster size entry =>
    have hroster : rosterIn log x = some roster := by
      rw [ht.roster, Ledger.roster, Ledger.inbox, entry]
      rfl
    have hbox : mailboxIn log q = true := (ht.mailbox q).trans hq
    rw [Mutation.reply, boxEvents, if_pos hbox, hroster]
    exact filterMap_replicate_of_some rfl

theorem pending_apply {p : MessageId × Envelope} (hp : p ∈ (d.apply m).pending q) :
    p ∈ d.pending q ∨ p.2 ∈ m.deliveries q ∧ p.1 = p.2.messageId := by
  have created : ∀ x k kind, (∀ pending, kind = QueueKind.mailbox pending → pending = []) →
      p ∈ (d.set x (k, kind)).pending q → p ∈ d.pending q := by
    intro x k kind hkind hp
    by_cases hq : q = x
    · subst hq
      rcases kind with pending | _
      · simp [Ledger.pending, hkind pending rfl] at hp
      · simp [Ledger.pending] at hp
    · simpa only [Ledger.pending, set_queues_of_ne _ hq] using hp
  cases m with
  | createMailbox x k => exact .inl (created x k _ (fun _ h => (QueueKind.mailbox.inj h).symm) hp)
  | createGroupInbox x k => exact .inl (created x k _ (fun _ h => by cases h) hp)
  | sendToMailbox x e =>
    rw [Ledger.apply, pending_deliver, mem_append] at hp
    refine hp.imp_right fun hp => ?_
    split_ifs at hp with hx
    · rw [mem_singleton.mp hp, Mutation.deliveries, if_pos hx.1]
      exact ⟨mem_singleton_self e, rfl⟩
    · cases hp
  | sendToGroupInbox =>
    rw [Ledger.apply, pending_foldl_deliver, pending_advance, mem_append] at hp
    refine hp.imp_right fun hp => ?_
    split_ifs at hp
    · rw [eq_of_mem_replicate hp]
      exact ⟨mem_replicate.mpr ⟨(mem_replicate.mp hp).1, rfl⟩, rfl⟩
    · cases hp
  | ack =>
    rw [Ledger.apply, pending_removeAcked] at hp
    left
    split_ifs at hp
    · exact (mem_filter.mp hp).1
    · exact hp

namespace RelayState

/-- The channel is subscribed to the queue and somebody reads from it. -/
def Listens (s : RelayState) (k : ChannelId) (q : QueueId) : Prop :=
  k ∈ s.inner.subscribers q ∧ (s.channels k).receiving = true

variable {m : Mutation} {now : ℕ}

theorem sendPush_of_ne {channels : ChannelId → Channel} (h : k ≠ tx) (p : Push) :
    sendPush channels tx p k = channels k := by
  unfold sendPush
  split_ifs
  · rw [update_of_ne h]
  · rfl

theorem sendPush_self (channels : ChannelId → Channel) (tx : ChannelId) (p : Push) :
    sendPush channels tx p tx = if (channels tx).receiving then
      { channels tx with queue := (channels tx).queue ++ [p] } else channels tx := by
  unfold sendPush
  split_ifs
  · rw [update_self]
  · rfl

theorem foldl_sendPush (p : Push) (subs : List ChannelId) (channels : ChannelId → Channel)
    (k : ChannelId) :
    subs.foldl (fun channels tx => sendPush channels tx p) channels k =
      if (channels k).receiving then
        { channels k with queue := (channels k).queue ++ replicate (subs.count k) p }
      else channels k := by
  induction subs generalizing channels with
  | nil => simp
  | cons tx subs ih =>
    rw [foldl_cons, ih]
    by_cases hk : k = tx
    · subst hk
      rw [sendPush_self]
      by_cases hr : (channels k).receiving
      · simp [hr, replicate_succ]
      · simp [hr]
    · rw [sendPush_of_ne hk, count_cons_of_ne (Ne.symm hk)]

theorem foldl_sendPush_to (tx : ChannelId) (ps : List Push) (channels : ChannelId → Channel)
    (h : (channels tx).receiving = true) :
    ps.foldl (fun channels p => sendPush channels tx p) channels tx =
      { channels tx with queue := (channels tx).queue ++ ps } := by
  induction ps generalizing channels with
  | nil => simp
  | cons p ps ih =>
    have hs : sendPush channels tx p tx =
        { channels tx with queue := (channels tx).queue ++ [p] } := by
      rw [sendPush_self, if_pos h]
    rw [foldl_cons, ih (sendPush channels tx p) (by rw [hs, h]), hs]
    simp

theorem foldl_sendPush_of_ne (h : k ≠ tx) (ps : List Push) (channels : ChannelId → Channel) :
    ps.foldl (fun channels p => sendPush channels tx p) channels k = channels k := by
  induction ps generalizing channels with
  | nil => rfl
  | cons p ps ih => rw [foldl_cons, ih, sendPush_of_ne h]

theorem pushAndNotify_channels (s : RelayState) (p : QueueId) (e : Envelope) :
    (s.pushAndNotify p e).channels = (s.inner.subscribers p).foldl
      (fun channels tx => sendPush channels tx (p, e.messageId, e)) s.channels := by
  unfold pushAndNotify
  split <;> rfl

theorem pushAndNotify_subscribers (s : RelayState) (p : QueueId) (e : Envelope) :
    (s.pushAndNotify p e).inner.subscribers = update s.inner.subscribers p
      ((s.inner.subscribers p).filter (fun tx => (s.channels tx).receiving)) := by
  unfold pushAndNotify
  split <;> rfl

/-! ## Subscriptions -/

def backlog (s : RelayState) (q : QueueId) : List Push :=
  (s.pendingOf q).map (fun p => (q, p.1, p.2))

theorem foldl_drainBacklog (ids : List QueueId) (tx : ChannelId) (s : RelayState)
    (h : (s.channels tx).receiving = true) :
    (ids.foldl (fun s q => s.drainBacklog tx q) s).channels tx =
      { s.channels tx with queue := (s.channels tx).queue ++ ids.flatMap s.backlog } := by
  induction ids generalizing s with
  | nil => simp
  | cons q ids ih =>
    have hd : (s.drainBacklog tx q).channels tx =
        { s.channels tx with queue := (s.channels tx).queue ++ s.backlog q } := by
      rw [← foldl_sendPush_to tx (s.backlog q) s.channels h, backlog, foldl_map]
      rfl
    rw [foldl_cons, ih (s.drainBacklog tx q) (by rw [hd]; exact h), hd, flatMap_cons, append_assoc]
    rfl

theorem foldl_sendPush_closed (tx : ChannelId) (ps : List Push) (channels : ChannelId → Channel)
    (h : ¬ (channels tx).receiving = true) :
    ps.foldl (fun channels p => sendPush channels tx p) channels = channels := by
  induction ps with
  | nil => rfl
  | cons p ps ih => rw [foldl_cons, sendPush, if_neg h, ih]

section
variable (ids : List QueueId)
include ids

theorem foldl_drainBacklog_closed (tx : ChannelId) (s : RelayState)
    (h : ¬ (s.channels tx).receiving = true) :
    ids.foldl (fun s q => s.drainBacklog tx q) s = s := by
  induction ids with
  | nil => rfl
  | cons q ids ih =>
    have hd : s.drainBacklog tx q = s := by
      have := foldl_sendPush_closed tx (s.backlog q) s.channels h
      rw [backlog, foldl_map] at this
      rw [drainBacklog, this]
    rw [foldl_cons, hd, ih]

theorem foldl_registerSubscriber (tx : ChannelId) (s : RelayState) (p : QueueId) :
    (ids.foldl (fun s q => s.registerSubscriber tx q) s).inner.subscribers p =
      if p ∈ ids then
        (s.inner.subscribers p).filter (fun e => (s.channels e).receiving ∧ e ≠ tx) ++ [tx]
      else s.inner.subscribers p := by
  induction ids generalizing s with
  | nil => simp
  | cons q ids ih =>
    rw [foldl_cons, ih]
    by_cases hp : p = q
    · subst hp
      simp [registerSubscriber]
    · simp [registerSubscriber, hp]

theorem foldl_registerSubscriber_channels (tx : ChannelId) (s : RelayState) :
    (ids.foldl (fun s q => s.registerSubscriber tx q) s).channels = s.channels := by
  induction ids generalizing s with
  | nil => rfl
  | cons q ids ih => exact ih (s.registerSubscriber tx q)

theorem foldl_registerSubscriber_backlog (tx : ChannelId) (s : RelayState) :
    (ids.foldl (fun s q => s.registerSubscriber tx q) s).backlog = s.backlog := by
  induction ids generalizing s with
  | nil => rfl
  | cons q ids ih => exact ih (s.registerSubscriber tx q)

theorem foldl_drainBacklog_subscribers (tx : ChannelId) (s : RelayState) :
    (ids.foldl (fun s q => s.drainBacklog tx q) s).inner.subscribers = s.inner.subscribers := by
  induction ids generalizing s with
  | nil => rfl
  | cons q ids ih => exact ih (s.drainBacklog tx q)

end

theorem subscribe_subscribers (s : RelayState) (ids : List QueueId) (tx : ChannelId) (p : QueueId) :
    (s.subscribe ids tx).inner.subscribers p =
      if p ∈ ids then
        (s.inner.subscribers p).filter (fun e => (s.channels e).receiving ∧ e ≠ tx) ++ [tx]
      else s.inner.subscribers p := by
  rw [subscribe, foldl_drainBacklog_subscribers, foldl_registerSubscriber]

theorem subscribe_channel (s : RelayState) (ids : List QueueId) (tx : ChannelId) :
    (s.subscribe ids tx).channels tx = { s.channels tx with
      queue := (s.channels tx).queue ++
        if (s.channels tx).receiving then ids.flatMap s.backlog else [] } := by
  have hch := congrFun (foldl_registerSubscriber_channels ids tx s) tx
  unfold subscribe
  by_cases hr : (s.channels tx).receiving = true
  · rw [foldl_drainBacklog ids tx _ (by rw [hch]; exact hr), hch, if_pos hr,
      foldl_registerSubscriber_backlog]
  · rw [foldl_drainBacklog_closed ids tx _ (by rw [hch]; exact hr), hch, if_neg hr, append_nil]

theorem subscribe_channel_of_ne (hk : k ≠ tx) (s : RelayState) (ids : List QueueId) :
    (s.subscribe ids tx).channels k = s.channels k := by
  have hdrain : ∀ (l : List QueueId) (t : RelayState),
      (l.foldl (fun t q => t.drainBacklog tx q) t).channels k = t.channels k := by
    intro l
    induction l with
    | nil => exact fun _ => rfl
    | cons p l ih =>
      intro t
      rw [foldl_cons, ih]
      have h := foldl_sendPush_of_ne hk (t.backlog p) t.channels
      rwa [backlog, foldl_map] at h
  rw [subscribe, hdrain, foldl_registerSubscriber_channels]

/-! ## What one channel is sent -/

/-- From `s` to `t`, a channel that is read from was sent the news of each queue as often as
it is registered for it. It was registered nowhere new, and dropped only if it is closed. -/
structure Notified (s t : RelayState) (k : ChannelId) (news : QueueId → List Envelope) : Prop where
  channel : ∃ sent, t.channels k = { s.channels k with queue := (s.channels k).queue ++ sent } ∧
    ∀ q, sent.filter (fun m => m.1 = q) = if (s.channels k).receiving then (news q).flatMap
      (fun e => replicate ((s.inner.subscribers q).count k) (q, e.messageId, e)) else []
  fewer : ∀ q, (t.inner.subscribers q).count k ≤ (s.inner.subscribers q).count k
  kept : (s.channels k).receiving = true →
    ∀ q, (t.inner.subscribers q).count k = (s.inner.subscribers q).count k

namespace Notified
variable {u : RelayState} {more : QueueId → List Envelope} {q : QueueId}

theorem of_eq (hc : t.channels k = s.channels k) (hs : t.inner.subscribers = s.inner.subscribers) :
    Notified s t k (fun _ => []) where
  channel := ⟨[], by simp [hc], by simp⟩
  fewer q := by rw [hs]
  kept _ q := by rw [hs]

section
variable (h : Notified s t k news)
include h

theorem receiving :
    (t.channels k).receiving = (s.channels k).receiving := by
  obtain ⟨sent, hsent, -⟩ := h.channel
  rw [hsent]

theorem joins (hk : k ∈ t.inner.subscribers q) :
    k ∈ s.inner.subscribers q :=
  count_pos_iff.mp ((count_pos_iff.mpr hk).trans_le (h.fewer q))

theorem stays (hl : s.Listens k q) : t.Listens k q :=
  ⟨count_pos_iff.mp (h.kept hl.2 q ▸ count_pos_iff.mpr hl.1), h.receiving.trans hl.2⟩

theorem trans (h' : Notified t u k more) :
    Notified s u k (fun q => news q ++ more q) := by
  obtain ⟨sent, hsent, hnews⟩ := h.channel
  obtain ⟨sent', hsent', hmore⟩ := h'.channel
  refine ⟨⟨sent ++ sent', ?_, fun q => ?_⟩, fun q => (h'.fewer q).trans (h.fewer q),
    fun hr q => (h'.kept (h.receiving.trans hr) q).trans (h.kept hr q)⟩
  · rw [hsent', hsent, append_assoc]
  · rw [filter_append, hnews, hmore, h.receiving]
    split_ifs with hr
    · rw [flatMap_append, h.kept hr q]
    · rfl

theorem sent : ∃ sent,
    t.channels k = { s.channels k with queue := (s.channels k).queue ++ sent } ∧
    (∀ q, sent.filter (fun m => m.1 = q) = if (s.channels k).receiving then (news q).flatMap
      (fun e => replicate ((s.inner.subscribers q).count k) (q, e.messageId, e)) else []) ∧
    ∀ m, m ∈ sent ↔ s.Listens k m.1 ∧ ∃ e ∈ news m.1, m = (m.1, e.messageId, e) := by
  obtain ⟨sent, hsent, hnews⟩ := h.channel
  refine ⟨sent, hsent, hnews, fun m => ?_⟩
  have hfilter : m ∈ sent ↔ m ∈ sent.filter (fun m' => m'.1 = m.1) := by simp
  rw [hfilter, hnews]
  split_ifs with hr
  · rw [mem_flatMap]
    constructor
    · rintro ⟨e, he, hm⟩
      obtain ⟨hcount, hme⟩ := mem_replicate.mp hm
      exact ⟨⟨count_pos_iff.mp (Nat.pos_of_ne_zero hcount), hr⟩, e, he, hme⟩
    · rintro ⟨hl, e, he, hme⟩
      exact ⟨e, he, mem_replicate.mpr ⟨(count_pos_iff.mpr hl.1).ne', hme⟩⟩
  · simp [Listens, hr]

end

theorem same (h : Notified s t k (fun _ => [])) : t.channels k = s.channels k := by
  obtain ⟨sent, hsent, -, hmem⟩ := h.sent
  have hnil : sent = [] := eq_nil_iff_forall_not_mem.mpr fun m hm => by
    simpa using ((hmem m).mp hm).2
  rw [hsent, hnil, append_nil]

end Notified

theorem Silent.notified (h : Silent s t) (k : ChannelId) :
    Notified s t k (fun _ => []) := .of_eq (congrFun h.channels k) h.subscribers

theorem notified_pushAndNotify (s : RelayState) (k : ChannelId) (p : QueueId) (e : Envelope) :
    Notified s (s.pushAndNotify p e) k (fun q => if p = q then [e] else []) := by
  have hsub := pushAndNotify_subscribers s p e
  have hc := congrFun (pushAndNotify_channels s p e) k
  rw [foldl_sendPush] at hc
  refine ⟨?_, fun q => ?_, fun hr q => ?_⟩
  · by_cases hr : (s.channels k).receiving = true
    · rw [if_pos hr] at hc
      refine ⟨_, hc, fun q => ?_⟩
      rw [if_pos hr]
      by_cases hp : p = q
      · subst hp
        simp
      · simp [hp]
    · rw [if_neg hr] at hc
      exact ⟨[], by rw [hc, append_nil], fun q => by rw [if_neg hr]; rfl⟩
  · rw [hsub]
    by_cases hq : q = p
    · subst hq
      rw [update_self]
      exact Sublist.count_le k filter_sublist
    · rw [update_of_ne hq]
  · rw [hsub]
    by_cases hq : q = p
    · subst hq
      rw [update_self, count_filter (by simpa using hr)]
    · rw [update_of_ne hq]

theorem notified_pushAll (members : List QueueId) (e : Envelope) (s : RelayState) (k : ChannelId) :
    Notified s (s.pushAll members e) k (fun q => List.replicate (members.count q) e) := by
  induction members generalizing s with
  | nil => exact .of_eq rfl rfl
  | cons m members ih =>
    have hn : (fun q => (if m = q then [e] else []) ++ replicate (members.count q) e) =
        fun q => replicate ((m :: members).count q) e := by
      funext q
      by_cases hm : m = q
      · simp [hm, replicate_succ]
      · simp [hm]
    rw [← hn]
    exact (notified_pushAndNotify s k m e).trans (ih _)

theorem bumpEpoch_frame {x : QueueId} {kind : GroupSendKind} (h : s.bumpEpoch x kind = some t) :
    t.channels = s.channels ∧ t.inner.subscribers = s.inner.subscribers := by
  unfold bumpEpoch at h
  split at h
  · split_ifs at h
    cases h
    exact ⟨rfl, rfl⟩
  · cases h
    exact ⟨rfl, rfl⟩

theorem notified_apply (h : m.apply now s = some t) (k : ChannelId) :
    Notified s t k (fun q => m.deliveries q) := by
  cases m with
  | createMailbox | createGroupInbox =>
    cases h
    exact .of_eq rfl rfl
  | sendToMailbox p e =>
    cases h
    exact notified_pushAndNotify s k p e
  | sendToGroupInbox x kind e roster =>
    obtain ⟨u, hu, rfl⟩ := Option.map_eq_some_iff.mp h
    obtain ⟨hc, hs⟩ := bumpEpoch_frame hu
    exact (Notified.of_eq (congrFun hc k) hs).trans (notified_pushAll roster e u k)
  | ack =>
    cases h
    unfold removeAcked
    split <;> exact .of_eq rfl rfl

theorem subscribe_pendingOf (s : RelayState) (ids : List QueueId) (tx : ChannelId) (q : QueueId) :
    (s.subscribe ids tx).pendingOf q = s.pendingOf q := by
  rw [← ledger_pending, (quiet_subscribe s ids tx).ledger, ledger_pending]

theorem notified_subscribe (hk : k ≠ tx) (s : RelayState) (ids : List QueueId) :
    Notified s (s.subscribe ids tx) k (fun _ => []) := by
  have hcount : ∀ l : List ChannelId, (l ++ [tx]).count k = l.count k := by
    intro l
    rw [count_append, count_singleton, if_neg (by simpa using hk.symm), Nat.add_zero]
  refine ⟨⟨[], by rw [subscribe_channel_of_ne hk, append_nil], by simp⟩, fun q => ?_,
    fun hr q => ?_⟩
  · rw [subscribe_subscribers]
    split_ifs
    · rw [hcount]
      exact Sublist.count_le k filter_sublist
    · exact le_rfl
  · rw [subscribe_subscribers]
    split_ifs
    · rw [hcount, count_filter (by simp [hr, hk])]
    · rfl

theorem persist_frame (h : s.persist m = some t) :
    t.channels = s.channels ∧ t.inner.subscribers = s.inner.subscribers := by
  unfold persist at h
  split at h
  · cases h
    exact ⟨rfl, rfl⟩
  · obtain ⟨db, -, rfl⟩ := Option.map_eq_some_iff.mp h
    exact ⟨rfl, rfl⟩

theorem handle_subscribe (c : Crypto) (amb : Ambient) (s : RelayState) (ids : List QueueId)
    (tx : ChannelId) : handle c amb s (.subscribe ids) (some tx) =
      if s.poisoned then (s.poison, .panicked) else (s.subscribe ids tx, .answered .ok) := by
  unfold handle
  dsimp only [plan]
  split_ifs <;> rfl

section Requests
variable {msg : ClientMessage} {tx : Option ChannelId}

/-- A channel is told exactly what an answered request brought to each mailbox, unless the
request is its own subscription. -/
theorem notified_answered (hk : tx = some k → ∀ ids, msg ≠ .subscribe ids)
    (h : handle c amb s msg tx = (t, .answered reply)) :
    ∃ news, Notified s t k news ∧
      (∀ q, ∀ p ∈ t.pendingOf q, p ∈ s.pendingOf q ∨ p.2 ∈ news q ∧ p.1 = p.2.messageId) ∧
      ∀ q log, Explains c log s.ledger → s.ledger.isMailbox q = true →
        arrivals q (log ++ [(msg, reply)]) = arrivals q log ++ news q := by
  by_cases hsub : ∃ ids, msg = .subscribe ids
  · obtain ⟨ids, rfl⟩ := hsub
    have hnews : ∀ (q : QueueId) log,
        arrivals q (log ++ [(.subscribe ids, reply)]) = arrivals q log ++ [] := by
      intro q log
      rw [arrivals_snoc]
      rfl
    cases tx with
    | none =>
      cases h
      exact ⟨fun _ => [], .of_eq rfl rfl, fun q p hp => .inl hp, fun q log _ _ => hnews q log⟩
    | some tx =>
      have hne : k ≠ tx := fun hkt => hk (by rw [hkt]) ids rfl
      rw [handle_subscribe] at h
      split_ifs at h
      · cases h
      · cases h
        refine ⟨fun _ => [], notified_subscribe hne s ids, fun q p hp => .inl ?_,
          fun q log _ _ => hnews q log⟩
        rwa [subscribe_pendingOf] at hp
  · have hns : ∀ ids, msg ≠ .subscribe ids := fun ids hm => hsub ⟨ids, hm⟩
    have ho := outcome_handle c amb s msg tx
    rw [h] at ho
    cases ho with
    | answered quiet silent answers =>
      refine ⟨fun _ => [], (silent hns).notified k, fun q p hp => .inl ?_, fun q log _ _ => ?_⟩
      · rwa [← ledger_pending, quiet.ledger, ledger_pending] at hp
      · rw [arrivals_answered answers, append_nil]
    | @wrote m s₁ s₂ t silent awake admits persisted applied =>
      obtain ⟨hc, hs⟩ := persist_frame persisted
      refine ⟨fun q => m.deliveries q, ((silent.notified k).trans (.of_eq (congrFun hc k) hs)).trans
        (notified_apply applied k), fun q p hp => ?_, fun q log he hq =>
          arrivals_wrote he admits hq⟩
      rw [← ledger_pending, ledger_apply applied, (persist_eq_some persisted).1,
        silent.ledger] at hp
      rw [← ledger_pending]
      exact pending_apply hp

variable (h : handle c amb s msg tx = (t, .panicked))
include h

theorem ledger_panicked : t.ledger = s.ledger := by
  have ho := outcome_handle c amb s msg tx
  rw [h] at ho
  cases ho with
  | refused silent => exact silent.ledger
  | overflowed silent awake admits persisted =>
    exact (persist_eq_some persisted).1.trans silent.ledger

theorem notified_panicked :
    Notified s t k (fun _ => []) := by
  have ho := outcome_handle c amb s msg tx
  rw [h] at ho
  cases ho with
  | refused silent => exact .of_eq (congrFun silent.channels k) silent.subscribers
  | overflowed silent awake admits persisted =>
    obtain ⟨hc, hs⟩ := persist_frame persisted
    exact .of_eq (congrFun (hc.trans silent.channels) k) (hs.trans silent.subscribers)

end Requests

/-! ## A channel for one queue -/

/-- The channel is subscribed to no other queue, and not twice to this one. -/
structure Tuned (s : RelayState) (k : ChannelId) (q : QueueId) : Prop where
  only : ∀ p, k ∈ s.inner.subscribers p → p = q
  once : (s.inner.subscribers q).count k ≤ 1

/-- From `s` to `t`, channel `k` was told the news of `q` if it listened, and nothing else. -/
structure Told (s t : RelayState) (k : ChannelId) (q : QueueId) (news : List Envelope) :
    Prop where
  receiving : (t.channels k).receiving = (s.channels k).receiving
  heard : s.Listens k q → (t.channels k).queue =
    (s.channels k).queue ++ news.map (fun e => (q, e.messageId, e))
  deaf : ¬ s.Listens k q → (t.channels k).queue = (s.channels k).queue
  joins : ∀ p, k ∈ t.inner.subscribers p → k ∈ s.inner.subscribers p
  count : (t.inner.subscribers q).count k ≤ (s.inner.subscribers q).count k

namespace Told
variable {u : RelayState} {q : QueueId} {news more : List Envelope}

theorem of_eq (hc : t.channels k = s.channels k) (hs : t.inner.subscribers = s.inner.subscribers) :
    Told s t k q [] where
  receiving := by rw [hc]
  heard _ := by simp [hc]
  deaf _ := by rw [hc]
  joins p h := hs ▸ h
  count := by rw [hs]

theorem listens_of (h : Told s t k q news) (hl : t.Listens k q) : s.Listens k q :=
  ⟨h.joins q hl.1, h.receiving.symm.trans hl.2⟩

end Told

theorem Notified.told {q : QueueId} (h : Notified s t k news) (ht : s.Tuned k q) :
    Told s t k q (news q) := by
  obtain ⟨sent, hsent, hnews, hmem⟩ := h.sent
  have hfrom : ∀ m ∈ sent, s.Listens k m.1 := fun m hm => ((hmem m).mp hm).1
  refine ⟨h.receiving, fun hl => ?_, fun hl => ?_, fun p => h.joins, h.fewer q⟩
  · have hcount : (s.inner.subscribers q).count k = 1 :=
      le_antisymm ht.once (count_pos_iff.mpr hl.1)
    have hall : sent.filter (fun m => m.1 = q) = sent :=
      filter_eq_self.mpr fun m hm => by simpa using ht.only _ (hfrom m hm).1
    rw [hsent, ← hall, hnews, if_pos hl.2, hcount, map_eq_flatMap]
    rfl
  · have hnil : sent = [] := by
      refine eq_nil_iff_forall_not_mem.mpr fun m hm => hl ?_
      exact ht.only _ (hfrom m hm).1 ▸ hfrom m hm
    rw [hsent, hnil, append_nil]

/-- A new subscriber is sent the unacked entries, oldest first. -/
theorem subscribe_self (hnew : ∀ p, k ∉ s.inner.subscribers p) (q : QueueId) :
    (s.subscribe [q] k).Tuned k q ∧
    ((s.subscribe [q] k).channels k).receiving = (s.channels k).receiving ∧
    ((s.channels k).receiving = true → ((s.subscribe [q] k).channels k).queue =
      (s.channels k).queue ++ (s.ledger.pending q).map (fun p => (q, p.1, p.2))) ∧
    (¬ (s.channels k).receiving = true →
      ((s.subscribe [q] k).channels k).queue = (s.channels k).queue) := by
  have hch := subscribe_channel s [q] k
  have hsubs := subscribe_subscribers s [q] k
  refine ⟨⟨fun p hp => ?_, ?_⟩, by rw [hch], fun hr => ?_, fun hr => ?_⟩
  · by_contra hne
    rw [hsubs, if_neg (by simpa using hne)] at hp
    exact hnew p hp
  · rw [hsubs, if_pos (mem_singleton_self q), count_append, count_singleton_self,
      count_eq_zero_of_not_mem (fun h => hnew q (mem_filter.mp h).1)]
  · rw [hch, if_pos hr, ledger_pending, flatMap_singleton]
    rfl
  · rw [hch, if_neg hr, append_nil]

section Requests
variable {msg : ClientMessage} {q : QueueId}

theorem told_answered (ht : s.Tuned k q) (hk : k = tx → ∀ ids, msg ≠ .subscribe ids)
    (h : handle c amb s msg (some tx) = (t, .answered reply)) :
    ∃ news, Told s t k q news ∧ ∀ log, Explains c log s.ledger → s.ledger.isMailbox q = true →
      arrivals q (log ++ [(msg, reply)]) = arrivals q log ++ news := by
  obtain ⟨news, hn, -, harr⟩ := notified_answered (fun htx => hk (Option.some.inj htx).symm) h
  exact ⟨news q, hn.told ht, harr q⟩

theorem told_panicked (h : handle c amb s msg (some tx) = (t, .panicked)) : Told s t k q [] := by
  have hn : Notified s t k (fun _ => []) := notified_panicked h
  exact ⟨hn.receiving, fun _ => by rw [hn.same, map_nil, append_nil],
    fun _ => by rw [hn.same], fun p => hn.joins, hn.fewer q⟩

theorem Told.idle {news : List Envelope} (h : Told s t k q news)
    (hnew : ∀ p, k ∉ s.inner.subscribers p) :
    (t.channels k).queue = (s.channels k).queue ∧ ∀ p, k ∉ t.inner.subscribers p :=
  ⟨h.deaf (fun hl => hnew q hl.1), fun p hp => hnew p (h.joins p hp)⟩

theorem Tuned.of_idle (h : ∀ p, k ∉ s.inner.subscribers p) (q : QueueId) : s.Tuned k q :=
  ⟨fun p hp => absurd hp (h p), by rw [count_eq_zero_of_not_mem (h q)]; omega⟩

end Requests

theorem reopen_fresh {db : Database} (h : reopen now db = some t) :
    (t.channels k).queue = [] ∧ ∀ q, k ∉ t.inner.subscribers q := by
  obtain ⟨queues, used, rfl⟩ := reopen_eq_some h
  exact ⟨rfl, fun _ => not_mem_nil⟩

end RelayState
end Rosette.Relay
