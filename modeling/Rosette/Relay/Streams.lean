import Rosette.Relay.Push

/-! # What a subscription brings

A subscription first registers a channel for every queue it names and then sends
the channel what those queues hold. From then on each mailbox it named is a
stream: what was pending, then whatever arrives, in order and once, however the
other connections move. A subscription adds to the earlier ones, and it drains
a queue as often as it names it.
-/
namespace Rosette.Relay
open Foundation Proto List Function

variable {s t : RelayState} {k : ChannelId} {q : QueueId} {c : Crypto}

namespace RelayState

theorem filter_backlog (s : RelayState) (p q : QueueId) :
    (s.backlog p).filter (fun m => m.1 = q) = if p = q then s.backlog p else [] := by
  unfold backlog
  rw [filter_map]
  split_ifs with h
  · rw [filter_eq_self.mpr]
    simp [h]
  · rw [filter_eq_nil_iff.mpr] <;> simp [h]

theorem filter_flatMap_backlog (s : RelayState) (ids : List QueueId) (q : QueueId) :
    (ids.flatMap s.backlog).filter (fun m => m.1 = q) =
      (replicate (ids.count q) (s.backlog q)).flatten := by
  induction ids with
  | nil => rfl
  | cons p ids ih =>
    rw [flatMap_cons, filter_append, filter_backlog, ih]
    by_cases hp : p = q
    · subst hp
      rw [if_pos rfl, count_cons_self, replicate_succ, flatten_cons]
    · rw [if_neg hp, count_cons_of_ne hp, nil_append]

theorem flatten_replicate_eq_self {α : Type*} {l : List α} {n : ℕ} :
    (replicate n l).flatten = l ↔ l = [] ∨ n = 1 := by
  constructor
  · intro h
    have hlen := congrArg length h
    rw [length_flatten, map_replicate, sum_replicate, smul_eq_mul] at hlen
    rcases Nat.eq_zero_or_pos l.length with h₀ | h₀
    · exact .inl (length_eq_zero_iff.mp h₀)
    · exact .inr (Nat.eq_of_mul_eq_mul_right h₀ (by rw [hlen, Nat.one_mul]))
  · rintro (rfl | rfl)
    · induction n with
      | zero => rfl
      | succ => simp
    · simp

/-! ## A subscription after another -/

/-- A subscription leaves the channel registered for the queues it names, once each, and for no
other, and sends each of their entries once, if and only if the channel was registered for no
other before and every queue that holds something is named once and the channel is open. -/
theorem subscribe_replaces_iff (c : Crypto) (amb : Ambient) (s t : RelayState) (k : ChannelId)
    (ids : List QueueId) (h : handle c amb s (.subscribe ids) (some k) = (t, .answered .ok)) :
    ((∀ q, (t.inner.subscribers q).count k = if q ∈ ids then 1 else 0) ∧
      ∃ sent, (t.channels k).queue = (s.channels k).queue ++ sent ∧
        ∀ q ∈ ids, sent.filter (fun m => m.1 = q) = s.backlog q) ↔
    (∀ q, k ∈ s.inner.subscribers q → q ∈ ids) ∧
      ∀ q ∈ ids, s.pendingOf q ≠ [] → ids.count q = 1 ∧ (s.channels k).receiving = true := by
  rw [handle_subscribe] at h
  split_ifs at h
  · cases h
  obtain ⟨rfl, -⟩ := Prod.mk.inj h
  refine and_congr ?_ ?_
  · refine forall_congr' fun q => ?_
    rw [subscribe_subscribers]
    split_ifs with hq
    · simp [hq, count_eq_zero]
    · simp [hq, count_eq_zero]
  · rw [subscribe_channel]
    simp only [append_cancel_left_eq, exists_eq_left']
    refine forall_congr' fun q => forall_congr' fun hq => ?_
    have hnil : s.backlog q = [] ↔ s.pendingOf q = [] := map_eq_nil_iff
    split_ifs with hr
    · rw [filter_flatMap_backlog, flatten_replicate_eq_self, hnil, or_iff_not_imp_left]
      simp [hr]
    · rw [filter_nil, eq_comm, hnil]
      simp [hr]

end RelayState

def waitingMessage : List RelayEvent :=
  mint 1 (fun solution => .createMailbox solution none) ++
    [.request (.fill 0) (.sendToMailbox (.fill 1) (.fill 0)
        ⟨.fill 3, .relayFanout, [3]⟩) none]

theorem subscribe_replaces_iff_firstSubscription :
    ∃ s t : RelayState, s.pendingOf (.fill 1) ≠ [] ∧
      s.handle .plain (.fill 0) (.subscribe [.fill 1]) (some 7) = (t, .answered .ok) ∧
      (t.inner.subscribers (.fill 1)).count 7 = 1 ∧
      ∃ sent, (t.channels 7).queue = sent ∧
        sent.filter (fun m => m.1 = Bytes.fill 1) = s.backlog (.fill 1) := by
  let s := (Service.boot false).relay.setEntry (.fill 1)
    ⟨.fill 1, .mailbox [(.fill 3, ⟨.fill 3, .relayFanout, [3]⟩)], 0, 0⟩
  have h : s.handle .plain (.fill 0) (.subscribe [.fill 1]) (some 7) =
      (s.subscribe [.fill 1] 7, .answered .ok) := by
    rfl
  have hfirst : ∀ q, 7 ∈ s.inner.subscribers q → q ∈ [.fill 1] := fun q hq => nomatch hq
  have honce : ∀ q ∈ [.fill 1], s.pendingOf q ≠ [] →
      [.fill 1].count q = 1 ∧ (s.channels 7).receiving = true := by
    intro q hq _
    rw [mem_singleton.mp hq]
    exact ⟨count_singleton_self, rfl⟩
  obtain ⟨hcount, sent, hsent, hdrained⟩ :=
    (RelayState.subscribe_replaces_iff .plain (.fill 0) s _ 7 _ h).mpr ⟨hfirst, honce⟩
  exact ⟨s, _, by decide, h, hcount _, sent, hsent, hdrained _ (mem_singleton_self _)⟩

/-- A subscription that leaves out a queue of an earlier one keeps it, and one that names a
queue twice is sent its message twice. -/
theorem subscribe_accumulates_and_repeats :
    (∃ s, run (Service.step .plain) (Service.boot false)
        [.request (.fill 0) (.subscribe [.fill 1]) (some 7),
          .request (.fill 0) (.subscribe [.fill 2]) (some 7)] = some s ∧
      s.relay.inner.subscribers (.fill 1) = [7]) ∧
    ∃ s, run (Service.step .plain) (Service.boot false) (waitingMessage ++
        [.request (.fill 0) (.subscribe [.fill 1, .fill 1]) (some 7)]) = some s ∧
      (s.relay.channels 7).queue.map (fun m => m.2.1) = [.fill 3, Bytes.fill 3] := by decide +kernel

namespace RelayState

/-! ## A new subscription -/

/-- The channel is registered for the queue, once, and somebody reads from it. -/
structure Registered (s : RelayState) (k : ChannelId) (q : QueueId) : Prop where
  once : (s.inner.subscribers q).count k = 1
  receiving : (s.channels k).receiving = true

/-- From `s` to `t`, the channel stayed registered and of `q` was sent just the news. -/
structure Streamed (s t : RelayState) (k : ChannelId) (q : QueueId) (news : List Envelope) :
    Prop where
  registered : t.Registered k q
  sent : ∃ sent, (t.channels k).queue = (s.channels k).queue ++ sent ∧
    sent.filter (fun m => m.1 = q) = news.map (fun e => (q, e.messageId, e))

theorem Notified.streamed {news : QueueId → List Envelope} (h : Notified s t k news)
    (hs : s.Registered k q) : Streamed s t k q (news q) := by
  obtain ⟨sent, hsent, hnews⟩ := h.channel
  refine ⟨⟨(h.kept hs.receiving q).trans hs.once, h.receiving.trans hs.receiving⟩, sent,
    by rw [hsent], ?_⟩
  rw [hnews, if_pos hs.receiving, hs.once, map_eq_flatMap]
  rfl

section Requests
variable {amb : Ambient}

theorem streamed_answered {msg : ClientMessage} {tx : Option ChannelId} {reply : ServerMessage}
    (hs : s.Registered k q) (hk : tx = some k → ∀ ids, msg ≠ .subscribe ids)
    (h : handle c amb s msg tx = (t, .answered reply)) :
    ∃ news, Streamed s t k q news ∧ ∀ log, Explains c log s.ledger → s.ledger.isMailbox q = true →
      arrivals q (log ++ [(msg, reply)]) = arrivals q log ++ news := by
  obtain ⟨news, hn, -, harr⟩ := notified_answered hk h
  exact ⟨news q, hn.streamed hs, harr q⟩

end Requests
end RelayState

/-- The connection stays open and does not subscribe again. -/
def RelayEvent.Keeps (k : ChannelId) : RelayEvent → Prop
  | .request _ msg tx => tx = some k → ∀ ids, msg ≠ .subscribe ids
  | .hangUp tx => tx ≠ k
  | .restart _ _ => False
  | _ => True

/-- What the event takes off the channel. -/
def Service.popped (k : ChannelId) (s : Service) : RelayEvent → List Push
  | .receivePush tx => if tx = k then (s.relay.channels k).queue.head?.toList else []
  | _ => []

/-- What the connection has taken off its channel along a run. -/
def Service.takenBy (c : Crypto) (k : ChannelId) : Service → List RelayEvent → List Push
  | _, [] => []
  | s, e :: es => s.popped k e ++ ((Service.step c s e).elim [] (fun t => takenBy c k t es))

section Runs

theorem step_streamed {s t : Service} {ev : RelayEvent} (he : Explains c s.log s.relay.ledger)
    (hs : s.relay.Registered k q) (hq : s.relay.ledger.isMailbox q = true) (hev : ev.Keeps k)
    (h : Service.step c s ev = some t) :
    t.relay.Registered k q ∧ ∃ sent later,
      s.popped k ev ++ (t.relay.channels k).queue = (s.relay.channels k).queue ++ sent ∧
      sent.filter (fun m => m.1 = q) = later.map (fun e => (q, e.messageId, e)) ∧
      arrivals q t.log = arrivals q s.log ++ later := by
  cases ev with
  | request amb msg tx =>
    simp only [Service.step] at h
    cases hh : s.relay.handle c amb msg tx with
    | mk u handled =>
      rw [hh] at h
      cases handled with
      | answered =>
        cases h
        obtain ⟨news, hst, hnews⟩ := RelayState.streamed_answered hs hev hh
        obtain ⟨sent, hsent, hfil⟩ := hst.sent
        exact ⟨hst.registered, sent, news, hsent, hfil, hnews s.log he hq⟩
      | panicked =>
        cases h
        have hst := (RelayState.notified_panicked hh).streamed hs
        obtain ⟨sent, hsent, hfil⟩ := hst.sent
        exact ⟨hst.registered, sent, [], hsent, hfil, (append_nil _).symm⟩
      | spinning => cases h
  | receivePush tx =>
    cases h
    by_cases hk : tx = k
    · subst hk
      refine ⟨⟨hs.once, ?_⟩, [], [], ?_, rfl, (append_nil _).symm⟩
      · simpa [RelayState.receivePush] using hs.receiving
      · simp only [Service.popped, RelayState.receivePush, update_self, append_nil]
        cases (s.relay.channels tx).queue <;> rfl
    · have hne := update_of_ne (Ne.symm hk) ({ s.relay.channels tx with
        queue := (s.relay.channels tx).queue.tail } : Channel) s.relay.channels
      refine ⟨⟨hs.once, ?_⟩, [], [], ?_, rfl, (append_nil _).symm⟩
      · simpa [RelayState.receivePush, hne] using hs.receiving
      · simp [Service.popped, hk, RelayState.receivePush, hne]
  | hangUp tx =>
    cases h
    have hne := update_of_ne (Ne.symm hev) ({ s.relay.channels tx with
      receiving := false } : Channel) s.relay.channels
    refine ⟨⟨hs.once, ?_⟩, [], [], ?_, rfl, (append_nil _).symm⟩
    · simpa [RelayState.hangUp, hne] using hs.receiving
    · simp [Service.popped, RelayState.hangUp, hne]
  | setAttestationKey =>
    cases h
    exact ⟨⟨hs.once, hs.receiving⟩, [], [], (append_nil _).symm, rfl, (append_nil _).symm⟩
  | restart => exact hev.elim

theorem run_streamed {s u : Service} {es : List RelayEvent} (he : Explains c s.log s.relay.ledger)
    (hc : Consistent s.relay) (hs : s.relay.Registered k q) (hq : s.relay.ledger.isMailbox q = true)
    (hkeeps : ∀ ev ∈ es, ev.Keeps k) (h : run (Service.step c) s es = some u) :
    ∃ sent later, Service.takenBy c k s es ++ (u.relay.channels k).queue =
        (s.relay.channels k).queue ++ sent ∧
      sent.filter (fun m => m.1 = q) = later.map (fun e => (q, e.messageId, e)) ∧
      arrivals q u.log = arrivals q s.log ++ later := by
  induction es generalizing s with
  | nil =>
    cases h
    exact ⟨[], [], (append_nil _).symm, rfl, (append_nil _).symm⟩
  | cons ev es ih =>
    obtain ⟨t, ht, hrest⟩ := Option.bind_eq_some_iff.mp h
    obtain ⟨hs', sent, later, hsent, hfil, harr⟩ :=
      step_streamed he hs hq (hkeeps ev mem_cons_self) ht
    obtain ⟨he', hc'⟩ := step_explains he hc (stepped_of_step ht)
    have hq' : t.relay.ledger.isMailbox q = true := by
      rcases step_log ht with hlog | ⟨entry, hlog⟩
      · rw [hlog, ← append_nil s.log] at he'
        exact isMailbox_append he he' hq
      · rw [hlog] at he'
        exact isMailbox_append he he' hq
    obtain ⟨sent', later', hsent', hfil', harr'⟩ :=
      ih he' hc' hs' hq' (fun ev' hev => hkeeps ev' (mem_cons_of_mem _ hev)) hrest
    refine ⟨sent ++ sent', later ++ later', ?_, ?_, ?_⟩
    · rw [Service.takenBy, ht, Option.elim_some, append_assoc, hsent', ← append_assoc,
        hsent, append_assoc]
    · rw [filter_append, hfil, hfil', map_append]
    · rw [harr', harr, append_assoc]

end Runs

/-- What a connection is sent of a mailbox from the moment it subscribes to it, with other
queues or alone: the entries pending at that moment and then those that arrive, in order and
once, as long as it stays open and does not subscribe again. -/
theorem subscriber_stream (c : Crypto) (persistent : Bool) (es more : List RelayEvent)
    (s t u : Service) (amb : Ambient) (k : ChannelId) (ids : List QueueId)
    (hrun : run (Service.step c) (Service.boot persistent) es = some s)
    (hopen : (s.relay.channels k).receiving = true) (hids : ids.Nodup)
    (hsub : Service.step c s (.request amb (.subscribe ids) (some k)) = some t)
    (hok : t.log = s.log ++ [(.subscribe ids, .ok)]) (hkeeps : ∀ ev ∈ more, ev.Keeps k)
    (hmore : run (Service.step c) t more = some u) :
    ∀ q ∈ ids, s.relay.ledger.isMailbox q = true → ∃ sent later,
      Service.takenBy c k t more ++ (u.relay.channels k).queue =
        (s.relay.channels k).queue ++ sent ∧
      sent.filter (fun m => m.1 = q) = (s.relay.pendingOf q).map (fun p => (q, p.1, p.2)) ++
        later.map (fun e => (q, e.messageId, e)) ∧
      arrivals q u.log = arrivals q s.log ++ later := by
  intro q hqids hq
  obtain ⟨he, hc⟩ := run_explains hrun
  obtain ⟨he', hc'⟩ := step_explains he hc (stepped_of_step hsub)
  simp only [Service.step, RelayState.handle_subscribe] at hsub
  split_ifs at hsub
  · cases hsub
    simp at hok
  cases hsub
  have hch := s.relay.subscribe_channel ids k
  rw [if_pos hopen] at hch
  have hreg : (s.relay.subscribe ids k).Registered k q := by
    refine ⟨?_, by rw [hch]; exact hopen⟩
    rw [RelayState.subscribe_subscribers, if_pos hqids, count_append,
      count_eq_zero_of_not_mem (by simp), count_singleton_self]
  obtain ⟨sent, later, hsent, hfil, harr⟩ :=
    run_streamed he' hc' hreg (isMailbox_append he he' hq) hkeeps hmore
  refine ⟨ids.flatMap s.relay.backlog ++ sent, later, ?_, ?_, ?_⟩
  · rw [hsent, hch, append_assoc]
  · rw [filter_append, RelayState.filter_flatMap_backlog, hids.count, if_pos hqids, hfil]
    simp [RelayState.backlog]
  · rw [harr, arrivals_snoc]
    simp [boxEvents]

/-- After a subscription: another message, a read, another subscriber and an ack. -/
def streaming : List RelayEvent :=
  [.request (.fill 0) (.sendToMailbox (.fill 1) (.fill 0)
      ⟨.fill 4, .relayFanout, [4]⟩) none,
    .receivePush 7,
    .request (.fill 0) (.subscribe [.fill 1]) (some 8),
    .request (.fill 0) (.ack (.fill 1) (.fill 3)) (some 7)]

theorem subscriber_stream_streaming :
    ∃ t u, run (Service.step .plain) (Service.boot false) (waitingMessage ++
        [.request (.fill 0) (.subscribe [.fill 1]) (some 7)]) = some t ∧
      run (Service.step .plain) t streaming = some u ∧
      ((Service.takenBy .plain 7 t streaming ++ (u.relay.channels 7).queue).filter
        (fun m => m.1 = Bytes.fill 1)).map (fun m => m.2.1) = [.fill 3, Bytes.fill 4] := by
  obtain ⟨s, hs, hopen, hempty, hbox, hpend, harr, t, ht, hok, u, hu, harr'⟩ :
      ∃ s, run (Service.step .plain) (Service.boot false) waitingMessage = some s ∧
      (s.relay.channels 7).receiving = true ∧ (s.relay.channels 7).queue = [] ∧
      s.relay.ledger.isMailbox (.fill 1) = true ∧
      (s.relay.pendingOf (.fill 1)).map Prod.fst = [Bytes.fill 3] ∧
      (arrivals (.fill 1) s.log).map Envelope.messageId = [Bytes.fill 3] ∧
      ∃ t, Service.step .plain s (.request (.fill 0) (.subscribe [.fill 1]) (some 7))
          = some t ∧ t.log = s.log ++ [(.subscribe [.fill 1], .ok)] ∧
          ∃ u, run (Service.step .plain) t streaming = some u ∧
            (arrivals (.fill 1) u.log).map Envelope.messageId =
              [.fill 3, Bytes.fill 4] := by decide +kernel
  have hkeeps : ∀ ev ∈ streaming, ev.Keeps 7 := by simp [streaming, RelayEvent.Keeps]
  obtain ⟨sent, later, hsent, hfil, hlater⟩ := subscriber_stream .plain false waitingMessage
    streaming s t u (.fill 0) 7 [.fill 1] hs hopen (nodup_singleton _) ht hok hkeeps hu
    (.fill 1) (mem_singleton_self _) hbox
  refine ⟨t, u, by rw [run_snoc, hs]; exact ht, hu, ?_⟩
  rw [hlater, map_append, harr] at harr'
  rw [hsent, hempty, nil_append, hfil, map_append, map_map, map_map]
  change (s.relay.pendingOf (.fill 1)).map Prod.fst ++ later.map Envelope.messageId = _
  rw [hpend, harr']

end Rosette.Relay
