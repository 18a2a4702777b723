import Rosette.Relay.Attestation
import Rosette.Relay.Durability
import Rosette.Relay.Refusals
import Rosette.Relay.Senders
import Rosette.Relay.Streams

/-! # Delivery modes

Two of the three modes are reserved: the relay has no path for them and is to refuse
them. It never looks at the mode. What it holds, in its mailboxes, its file and its
push channels, is what it let through, so the reserved modes stay out exactly as long
as nobody gets one past its other checks.
-/
namespace Rosette.Relay
open Foundation Proto RelayState List Option Function

variable {d : Ledger} {m : Mutation} {e : Envelope} {db : Database} {now : ℕ} {ev : RelayEvent}

def Mutation.envelope : Mutation → Option Envelope
  | .sendToMailbox _ e => some e
  | .sendToGroupInbox _ _ e _ => some e
  | _ => none

/-- All that the relay holds, in its mailboxes, in its file and in its push channels,
has the property. -/
structure Everywhere (P : Envelope → Prop) (s : RelayState) : Prop where
  pending : ∀ q, ∀ p ∈ s.ledger.pending q, P p.2
  stored : ∀ db, s.inner.db = some db → ∀ row ∈ db.pending, ∃ e,
    row.envelope = Envelope.codec.encode e ∧ e.paddedCiphertext.length ≤ maxMessageSize ∧ P e
  pushed : ∀ k, ∀ p ∈ (s.channels k).queue, P p.2.2

section Mutations
variable {c : Crypto} {msg : ClientMessage}

theorem Admits.envelope (h : Admits c d msg m) : sentEnvelope msg = m.envelope := by cases h <;> rfl

theorem Admits.size (h : Admits c d msg m) (he : m.envelope = some e) :
    e.paddedCiphertext.length ≤ maxMessageSize := by
  cases h with
  | sendToMailbox size | sendToGroupInbox size =>
    cases he
    exact size
  | _ => cases he

theorem Mutation.envelope_of_deliveries {q : QueueId} (h : e ∈ m.deliveries q) :
    m.envelope = some e := by
  cases m with
  | sendToMailbox =>
    rw [deliveries] at h
    split_ifs at h
    · rw [mem_singleton.mp h]
      rfl
    · cases h
  | sendToGroupInbox =>
    rw [eq_of_mem_replicate h]
    rfl
  | _ => cases h

/-- Whatever is stored after the durable write was stored before it or is what it brought. -/
theorem pending_persist {queues : Queues} {db' : Database} (h : m.persist queues db = some db')
    {row : PendingRow} (hrow : row ∈ db'.pending) :
    row ∈ db.pending ∨ ∃ e, m.envelope = some e ∧ row.envelope = Envelope.codec.encode e := by
  have copies : ∀ (e : Envelope) (ms : List QueueId) (db : Database),
      row ∈ (Database.insertCopies e.messageId (Envelope.codec.encode e) db ms).pending →
        row ∈ db.pending ∨ row.envelope = Envelope.codec.encode e := by
    intro e ms
    induction ms with
    | nil => exact fun db hr => .inl hr
    | cons x ms ih =>
      intro db hr
      rcases ih _ hr with hr | hr
      · rcases mem_append.mp hr with hr | hr
        · exact .inl hr
        · rw [mem_singleton.mp hr]
          exact .inr rfl
      · exact .inr hr
  cases m with
  | createMailbox =>
    obtain rfl := insertQueue_eq_some h
    exact .inl hrow
  | createGroupInbox =>
    obtain ⟨v, -, h⟩ := bind_eq_some_iff.mp h
    obtain ⟨db₁, h₁, h₂⟩ := bind_eq_some_iff.mp h
    obtain rfl := insertQueue_eq_some h₁
    obtain rfl := Database.insertMembers_eq_some h₂
    exact .inl hrow
  | sendToMailbox q e =>
    cases h
    exact (copies e [q] db hrow).imp_right fun hr => ⟨e, rfl, hr⟩
  | sendToGroupInbox q kind e =>
    cases h
    refine (copies e _ _ hrow).imp ?_ fun hr => ⟨e, rfl, hr⟩
    cases kind <;> exact id
  | ack =>
    cases h
    exact .inl (mem_filter.mp hrow).1

end Mutations

/-- Whatever is in a channel after the in-memory half of a mutation was there before it or
is what it brought. -/
theorem queue_apply {s t : RelayState} (h : m.apply now s = some t) {k : ChannelId} {p : Push}
    (hp : p ∈ (t.channels k).queue) : p ∈ (s.channels k).queue ∨ m.envelope = some p.2.2 := by
  have pushes : ∀ (e : Envelope) (ms : List QueueId) (s : RelayState),
      p ∈ ((s.pushAll ms e).channels k).queue → p ∈ (s.channels k).queue ∨ p.2.2 = e := by
    intro e ms
    induction ms with
    | nil => exact fun s hp => .inl hp
    | cons x ms ih =>
      intro s hp
      rcases ih (s.pushAndNotify x e) hp with hp | hp
      · rw [pushAndNotify_channels, foldl_sendPush] at hp
        split_ifs at hp
        · rcases mem_append.mp hp with hp | hp
          · exact .inl hp
          · rw [eq_of_mem_replicate hp]
            exact .inr rfl
        · exact .inl hp
      · exact .inr hp
  cases m with
  | createMailbox | createGroupInbox =>
    cases h
    exact .inl hp
  | sendToMailbox q e =>
    cases h
    exact (pushes e [q] s hp).imp_right fun hp => congrArg some hp.symm
  | sendToGroupInbox x kind e roster =>
    obtain ⟨u, hu, rfl⟩ := map_eq_some_iff.mp h
    have hp := pushes e roster u hp
    rw [(bumpEpoch_frame hu).1] at hp
    exact hp.imp_right fun hp => congrArg some hp.symm
  | ack =>
    cases h
    unfold removeAcked at hp
    split at hp <;> exact .inl hp

namespace Everywhere
variable {P : Envelope → Prop} {c : Crypto} {s s₁ s₂ t : RelayState} {msg : ClientMessage}

section
variable (h : Everywhere P s)
include h

theorem silent (hs : Silent s t) : Everywhere P t where
  pending := hs.ledger ▸ h.pending
  stored := hs.db ▸ h.stored
  pushed := hs.channels ▸ h.pushed

theorem poison : Everywhere P s.poison := ⟨h.pending, h.stored, h.pushed⟩

theorem persist (ha : Admits c s.ledger msg m) (hm : ∀ e ∈ m.envelope, P e)
    (hper : s.persist m = some t) : Everywhere P t := by
  obtain ⟨hl, -, -, hdb⟩ := persist_eq_some hper
  refine ⟨hl ▸ h.pending, fun db hd row hrow => ?_, fun k => ?_⟩
  · rcases hdb with ⟨-, hnone⟩ | ⟨db₀, db', h₀, h', hw⟩
    · simp [hnone] at hd
    · obtain rfl := mem_unique h' hd
      rcases pending_persist hw hrow with hold | ⟨e, he, hr⟩
      · exact h.stored db₀ h₀ row hold
      · exact ⟨e, hr, ha.size he, hm e he⟩
  · rw [(persist_frame hper).1]
    exact h.pushed k

theorem apply (hm : ∀ e ∈ m.envelope, P e) (happ : m.apply now s = some t) :
    Everywhere P t where
  pending q p hp := by
    rw [ledger_apply happ] at hp
    rcases pending_apply hp with hold | ⟨hnew, -⟩
    · exact h.pending q p hold
    · exact hm p.2 (Mutation.envelope_of_deliveries hnew)
  stored := by
    rw [(apply_frame happ).1]
    exact h.stored
  pushed k p hp := by
    rcases queue_apply happ hp with hold | hnew
    · exact h.pushed k p hold
    · exact hm p.2.2 hnew

theorem finish {amb : Ambient} (ha : Admits c s.ledger msg m) (hm : ∀ e ∈ m.envelope, P e) :
    Everywhere P (RelayState.finish amb s (.write m)).1 := by
  unfold RelayState.finish
  dsimp only
  cases hper : s.persist m with
  | none => exact h.poison
  | some s₁ =>
    have h₁ := h.persist ha hm hper
    dsimp only
    cases happ : m.apply amb.now s₁ with
    | none => exact h₁.poison
    | some => exact h₁.apply hm happ

theorem subscribe (ids : List QueueId) (tx : ChannelId) :
    Everywhere P (s.subscribe ids tx) := by
  have hq := quiet_subscribe s ids tx
  refine ⟨hq.ledger ▸ h.pending, hq.db ▸ h.stored, fun k p hp => ?_⟩
  by_cases hk : k = tx
  · subst hk
    rw [subscribe_channel] at hp
    rcases mem_append.mp hp with hold | hnew
    · exact h.pushed k p hold
    · split_ifs at hnew
      · obtain ⟨q, -, hq⟩ := mem_flatMap.mp hnew
        obtain ⟨entry, hentry, rfl⟩ := mem_map.mp hq
        rw [← ledger_pending] at hentry
        exact h.pending q entry hentry
      · cases hnew
  · rw [subscribe_channel_of_ne hk] at hp
    exact h.pushed k p hp

end

theorem reopen (hr : RelayState.reopen now db = some t) (hl : t.ledger = d)
    (hd : ∀ q, ∀ p ∈ d.pending q, P p.2)
    (hdb : ∀ row ∈ db.pending, ∃ e, row.envelope = Envelope.codec.encode e ∧
      e.paddedCiphertext.length ≤ maxMessageSize ∧ P e) :
    Everywhere P t := by
  refine ⟨hl ▸ hd, fun db' h' => ?_, fun k p hp => ?_⟩
  · rw [reopen_db hr] at h'
    cases h'
    exact hdb
  · simp [(reopen_fresh hr).1] at hp

theorem step {s t : Service} (h : Everywhere P s.relay) (hc : Consistent s.relay)
    (hP : ∀ amb msg m, ev.made = some (amb, msg) →
      (plan c amb s.relay msg none).2 = .write m → ∀ e ∈ m.envelope, P e)
    (hstep : Service.step c s ev = some t) : Everywhere P t.relay := by
  cases ev with
  | receivePush tx =>
    cases hstep
    refine ⟨h.pending, h.stored, fun k p hp => ?_⟩
    by_cases hk : k = tx
    · subst hk
      simp only [receivePush, update_self] at hp
      exact h.pushed k p (mem_of_mem_tail hp)
    · simp only [receivePush, update_of_ne hk] at hp
      exact h.pushed k p hp
  | hangUp tx =>
    cases hstep
    refine ⟨h.pending, h.stored, fun k p hp => ?_⟩
    by_cases hk : k = tx
    · subst hk
      simp only [hangUp, update_self] at hp
      exact h.pushed k p hp
    · simp only [hangUp, update_of_ne hk] at hp
      exact h.pushed k p hp
  | setAttestationKey =>
    cases hstep
    exact ⟨h.pending, h.stored, h.pushed⟩
  | request amb msg pushTx =>
    rw [step_request_relay hstep]
    by_cases hsub : ∃ ids, msg = .subscribe ids
    · obtain ⟨ids, rfl⟩ := hsub
      cases pushTx with
      | none => exact h
      | some tx =>
        rw [handle_subscribe]
        split_ifs
        · exact h.poison
        · exact h.subscribe ids tx
    · have hns : ∀ ids, msg ≠ .subscribe ids := fun ids hm => hsub ⟨ids, hm⟩
      have hp := planned_plan c amb s.relay msg pushTx
      have hnew : ∀ m, (plan c amb s.relay msg pushTx).2 = .write m → ∀ e ∈ m.envelope, P e :=
        fun m hm => hP amb msg m rfl (by rw [← plan_pushTx s.relay hns pushTx]; exact hm)
      unfold handle
      generalize plan c amb s.relay msg pushTx = r at hp hnew
      have h₁ := h.silent (hp.silent hns)
      rcases r with ⟨s₁, reply | m | _ | _⟩
      · exact h₁
      · exact h₁.finish ((hp.silent hns).ledger ▸ hp.admits m rfl) (hnew m rfl)
      · exact h₁.poison
      · exact h₁
  | restart now inFlight =>
    rcases inFlight with _ | ⟨amb, msg⟩
    · obtain ⟨db, hdb, hr⟩ := bind_eq_some_iff.mp hstep
      obtain ⟨u, hu, rfl⟩ := map_eq_some_iff.mp hr
      exact .reopen hu (restart_idle hc hdb hu).1 h.pending (h.stored db hdb)
    · obtain ⟨⟨mid, m⟩, hm, hr⟩ := bind_eq_some_iff.mp hstep
      obtain ⟨db, hdb, hr⟩ := bind_eq_some_iff.mp hr
      obtain ⟨u, hu, rfl⟩ := map_eq_some_iff.mp hr
      obtain ⟨s₁, hs, -, ha, hper, hplan⟩ := midway_eq_some hm
      have hnew : ∀ e ∈ m.envelope, P e := hP amb msg m rfl (by rw [hplan])
      have hmid := (h.silent hs).persist (hs.ledger ▸ ha) hnew hper
      refine .reopen hu (restart_midway hc hm hdb hu).2.2.1 (fun q p hp => ?_) (hmid.stored db hdb)
      rcases pending_apply hp with hold | ⟨hlast, -⟩
      · exact h.pending q p hold
      · exact hnew p.2 (Mutation.envelope_of_deliveries hlast)

theorem boot (P : Envelope → Prop) (persistent : Bool) :
    Everywhere P (Service.boot persistent).relay where
  pending q p hp := by cases hp
  stored db hdb row hrow := by
    cases persistent with
    | false => cases hdb
    | true =>
      cases hdb
      cases hrow
  pushed k p hp := by cases hp

end Everywhere

/-- No send of a reserved mode passes the relay's checks: the envelope's size, the queue and its
kind, the sender's tag, the rate, the depth of the mailbox and the relay's storage, and for a
commit its epoch. -/
def TurnsAwayReserved (c : Crypto) (s : Service) (ev : RelayEvent) : Prop :=
  ∀ amb msg m, ev.made = some (amb, msg) → (plan c amb s.relay msg none).2 = .write m →
    ∀ e ∈ sentEnvelope msg, e.deliveryMode = .relayFanout

/-- A send of a reserved mode on record was answered with an error. -/
def RefusesReserved (log : List Exchange) : Prop :=
  ∀ entry ∈ log, ∀ e ∈ sentEnvelope entry.1, e.deliveryMode ≠ .relayFanout →
    ∃ code, entry.2 = .error code

variable {msg : ClientMessage} {c : Crypto}

theorem RefusesReserved.snoc {log : List Exchange} {reply : ServerMessage} (h : RefusesReserved log)
    (hnew : ∀ e ∈ sentEnvelope msg, e.deliveryMode ≠ .relayFanout → ∃ code, reply = .error code) :
    RefusesReserved (log ++ [(msg, reply)]) := by
  intro entry hentry
  rcases mem_append.mp hentry with hold | hlast
  · exact h entry hold
  · rw [mem_singleton.mp hlast]
    exact hnew

theorem sendTarget_of_sentEnvelope (h : sentEnvelope msg = some e) :
    (sendTarget msg).isSome = true := by
  cases msg with
  | sendToMailbox | sendToGroupInbox => rfl
  | _ => cases h

theorem RefusesReserved.step {s t : Service} (h : RefusesReserved s.log)
    (haway : TurnsAwayReserved c s ev) (hstep : Service.step c s ev = some t) :
    RefusesReserved t.log := by
  cases ev with
  | receivePush | hangUp | setAttestationKey =>
    cases hstep
    exact h
  | request amb msg pushTx =>
    simp only [Service.step] at hstep
    split at hstep
    · rename_i u reply hhandle
      cases hstep
      refine h.snoc fun e he hmode => ?_
      have hsend := sendTarget_of_sentEnvelope he
      have hns : ∀ ids, msg ≠ .subscribe ids := by
        rintro ids rfl
        cases he
      refine (answered_send hsend (by rw [hhandle])).resolve_right ?_
      rintro ⟨m, hm⟩
      rw [plan_pushTx s.relay hns pushTx] at hm
      exact hmode (haway amb msg m rfl hm e he)
    · cases hstep
      exact h
    · cases hstep
  | restart now inFlight =>
    rcases inFlight with _ | ⟨amb, msg⟩
    · obtain ⟨db, -, hr⟩ := bind_eq_some_iff.mp hstep
      obtain ⟨u, -, rfl⟩ := map_eq_some_iff.mp hr
      exact h
    · obtain ⟨⟨mid, m⟩, hm, hr⟩ := bind_eq_some_iff.mp hstep
      obtain ⟨db, -, hr⟩ := bind_eq_some_iff.mp hr
      obtain ⟨u, -, rfl⟩ := map_eq_some_iff.mp hr
      obtain ⟨s₁, -, -, -, -, hplan⟩ := midway_eq_some hm
      exact h.snoc fun e he hmode => absurd (haway amb msg m rfl (by rw [hplan]) e he) hmode

theorem run_modes {persistent : Bool} {es : List RelayEvent} {s : Service}
    (haway : Along (Service.step c) (TurnsAwayReserved c) (Service.boot persistent) es)
    (hrun : run (Service.step c) (Service.boot persistent) es = some s) :
    Everywhere (fun e => e.deliveryMode = .relayFanout) s.relay ∧ RefusesReserved s.log := by
  have key := run_invariant_along
    (P := fun s : Service => (Explains c s.log s.relay.ledger ∧ Consistent s.relay) ∧
      Everywhere (fun e => e.deliveryMode = .relayFanout) s.relay ∧ RefusesReserved s.log)
    ⟨⟨explains_boot c persistent, consistent_boot persistent⟩, .boot _ persistent, by rintro - ⟨⟩⟩
    (fun s ev t hs haway hstep => ⟨step_explains hs.1.1 hs.1.2 (stepped_of_step hstep),
      hs.2.1.step hs.1.2 (fun amb msg m hmade hplan e he => haway amb msg m hmade hplan e
        (((planned_plan c amb s.relay msg none).admits m hplan).envelope ▸ he)) hstep,
      hs.2.2.step haway hstep⟩) haway hrun
  exact key.2

/-- A run whose sends all carry the implemented mode. -/
abbrev AllFanout (es : List RelayEvent) : Prop :=
  ∀ ev ∈ es, ∀ r ∈ ev.made, ∀ e ∈ sentEnvelope r.2, e.deliveryMode = .relayFanout

theorem along_turnsAwayReserved (s : Service) {es : List RelayEvent} (h : AllFanout es) :
    Along (Service.step c) (TurnsAwayReserved c) s es :=
  along_of_forall s fun _ ev hev amb msg _ hmade _ => h ev hev (amb, msg) hmade

/-- The relay brings no other mode into such a run. -/
theorem run_allFanout {persistent : Bool} {es : List RelayEvent} {s : Service} (h : AllFanout es)
    (hrun : run (Service.step c) (Service.boot persistent) es = some s) :
    Everywhere (fun e => e.deliveryMode = .relayFanout) s.relay :=
  (run_modes (along_turnsAwayReserved _ h) hrun).1

/-- In every run in which no send of a reserved mode passes the relay's checks, none is in a
mailbox, in the database or in a push, and one that was answered was answered with an error. -/
theorem reserved_modes_stay_out (c : Crypto) (persistent : Bool) (es : List RelayEvent)
    (s : Service) (hrun : run (Service.step c) (Service.boot persistent) es = some s)
    (haway : Along (Service.step c) (TurnsAwayReserved c) (Service.boot persistent) es) :
    (∀ q, ∀ p ∈ s.relay.pendingOf q, p.2.deliveryMode = .relayFanout) ∧
    (∀ db row e, s.relay.inner.db = some db → row ∈ db.pending →
      decodeFrom Envelope.codec row.envelope = some e → e.deliveryMode = .relayFanout) ∧
    (∀ k, ∀ p ∈ (s.relay.channels k).queue, p.2.2.deliveryMode = .relayFanout) ∧
    ∀ entry ∈ s.log, ∀ e ∈ sentEnvelope entry.1, e.deliveryMode ≠ .relayFanout →
      ∃ code, entry.2 = .error code := by
  obtain ⟨heverywhere, hlog⟩ := run_modes haway hrun
  refine ⟨fun q p hp => heverywhere.pending q p (by rwa [ledger_pending]),
    fun db row e hdb hrow hdec => ?_, heverywhere.pushed, hlog⟩
  obtain ⟨e', henc, hsize, hmode⟩ := heverywhere.stored db hdb row hrow
  rw [henc, Envelope.decodeFrom_encode hsize] at hdec
  exact some.inj hdec ▸ hmode

/-- A message of the implemented mode, stored and read back by a new process. -/
theorem reserved_modes_stay_out_storedMessage :
    ∃ s, run (Service.step .plain) (Service.boot true) (storedMessage ++ [.restart 0 none]) =
        some s ∧
      s.relay.pendingOf (.fill 1) ≠ [] ∧
      ∀ p ∈ s.relay.pendingOf (.fill 1), p.2.deliveryMode = .relayFanout := by
  obtain ⟨s, hs, hne⟩ : ∃ s, run (Service.step .plain) (Service.boot true)
      (storedMessage ++ [.restart 0 none]) = some s ∧
        s.relay.pendingOf (.fill 1) ≠ [] := by decide +kernel
  exact ⟨s, hs, hne, (reserved_modes_stay_out .plain true _ s hs
    (along_turnsAwayReserved _ (by decide +kernel))).1 (.fill 1)⟩

/-- A subscriber's mailbox is sent a message of a reserved mode. -/
def signaled : List RelayEvent :=
  mint 1 (fun solution => .createMailbox solution none) ++
    [.request (.fill 0) (.subscribe [.fill 1]) (some 0),
      .request (.fill 0) (.sendToMailbox (.fill 1) (.fill 0)
        ⟨.fill 3, .signaling, [3]⟩) none]

/-- It is accepted, kept in the mailbox and in the file, and pushed. -/
theorem signaling_is_stored :
    ∃ s, run (Service.step .plain) (Service.boot true) signaled = some s ∧
      (ClientMessage.sendToMailbox (.fill 1) (.fill 0) ⟨.fill 3, .signaling, [3]⟩,
        ServerMessage.ok) ∈ s.log ∧
      (∃ p ∈ s.relay.pendingOf (.fill 1), p.2.deliveryMode = .signaling) ∧
      (∃ db ∈ s.relay.inner.db, ∃ row ∈ db.pending,
        (decodeFrom Envelope.codec row.envelope).any (fun e => e.deliveryMode = .signaling) =
          true) ∧
      ∃ p ∈ (s.relay.channels 0).queue, p.2.2.deliveryMode = .signaling := by decide +kernel

end Rosette.Relay
