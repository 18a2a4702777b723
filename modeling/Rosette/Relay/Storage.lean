import Rosette.Proto.Frame
import Rosette.Relay.Deliveries

/-! # What the relay stores, and how much

The storage account against the entries it stands for, and the bounds on both: the
account is exact and below its limit in every state, and a mailbox is as deep as the
sends let into it. A direct send is held to the depth limit. A fan-out is not, so
the limit holds exactly as long as every accepted fan-out happens to fit.
-/
namespace Rosette.Relay
open Foundation Proto List Option Ledger

variable {d : Ledger} {e : Envelope} {q x : QueueId} {msg : ClientMessage} {m : Mutation}
  {inner : Inner} {targets : ℕ} {tag : AuthTag} {kind : GroupSendKind} {roster : List QueueId}

def Ledger.pendingBytes (d : Ledger) (q : QueueId) : ℕ :=
  ((d.pending q).map (fun p => p.2.paddedCiphertext.length)).sum

def Ledger.freedBytes (d : Ledger) (q : QueueId) (id : MessageId) : ℕ :=
  (((d.pending q).filter (fun p => p.1 = id)).map (fun p => p.2.paddedCiphertext.length)).sum

/-- The account is the sum over the mailboxes. -/
def Ledger.Accounted (d : Ledger) : Prop :=
  ∀ S : Finset QueueId, (∀ q, d.isMailbox q = true → q ∈ S) →
    d.storageBytesUsed = ∑ q ∈ S, d.pendingBytes q

namespace Ledger
variable {d' : Ledger}

theorem Accounted.congr (h : d.Accounted) (hp : d'.pending = d.pending)
    (hb : ∀ q, d.isMailbox q = true → d'.isMailbox q = true)
    (hs : d'.storageBytesUsed = d.storageBytesUsed) : d'.Accounted := by
  intro S hS
  rw [hs, h S (fun q hq => hS q (hb q hq))]
  simp only [pendingBytes, hp]

theorem storage_deliver (d : Ledger) (e : Envelope) (q : QueueId) :
    (d.deliver e q).storageBytesUsed = d.storageBytesUsed +
      if d.isMailbox q then e.paddedCiphertext.length else 0 := by
  unfold deliver isMailbox
  rcases d.queues q with _ | ⟨k, p | _⟩ <;> rfl

theorem pendingBytes_deliver (d : Ledger) (e : Envelope) (q x : QueueId) :
    (d.deliver e q).pendingBytes x = d.pendingBytes x +
      if q = x then if d.isMailbox q then e.paddedCiphertext.length else 0 else 0 := by
  rw [pendingBytes, pending_deliver, pendingBytes]
  by_cases hq : q = x
  · cases hb : d.isMailbox q <;> simp [hq]
  · simp [hq]

theorem Accounted.deliver (h : d.Accounted) (e : Envelope) (q : QueueId) :
    (d.deliver e q).Accounted := by
  intro S hS
  rw [isMailbox_deliver] at hS
  simp only [storage_deliver, pendingBytes_deliver, Finset.sum_add_distrib, h S hS,
    Finset.sum_ite_eq]
  split_ifs with hb hq
  · rfl
  · exact absurd (hS q hb) hq
  · rfl
  · rfl

theorem Accounted.foldl_deliver (members : List QueueId) (h : d.Accounted) (e : Envelope) :
    (members.foldl (Ledger.deliver e) d).Accounted := by
  induction members generalizing d with
  | nil => exact h
  | cons m members ih => exact ih (h.deliver e m)

theorem Accounted.advance (h : d.Accounted) (x : QueueId) (kind : GroupSendKind) :
    (d.advance x kind).Accounted := by
  refine h.congr (d.pending_advance x kind) (fun q hq => by rwa [isMailbox_advance]) ?_
  unfold Ledger.advance
  split <;> rfl

theorem pendingBytes_removeAcked (d : Ledger) (q : QueueId) (id : MessageId) (x : QueueId) :
    (d.removeAcked q id).pendingBytes x + (if q = x then d.freedBytes q id else 0) =
      d.pendingBytes x := by
  rw [pendingBytes, pending_removeAcked]
  by_cases hx : x = q
  · subst hx
    rw [if_pos rfl, if_pos rfl, pendingBytes, freedBytes]
    induction d.pending x with
    | nil => rfl
    | cons p l ih => by_cases hp : p.1 = id <;> simp [hp] at ih ⊢ <;> omega
  · rw [if_neg hx, if_neg (Ne.symm hx)]
    rfl

theorem Accounted.removeAcked (h : d.Accounted) (q : QueueId) (id : MessageId) :
    (d.removeAcked q id).Accounted := by
  intro S hS
  rw [isMailbox_removeAcked] at hS
  have hsum : (∑ x ∈ S, (d.removeAcked q id).pendingBytes x) +
      (if q ∈ S then d.freedBytes q id else 0) = ∑ x ∈ S, d.pendingBytes x := by
    rw [← Finset.sum_ite_eq S q (fun _ => d.freedBytes q id), ← Finset.sum_add_distrib]
    exact Finset.sum_congr rfl fun x _ => d.pendingBytes_removeAcked q id x
  have hfreed : (if q ∈ S then d.freedBytes q id else 0) = d.freedBytes q id := by
    split_ifs with hq
    · rfl
    · have hb : ¬ d.isMailbox q = true := fun hb => hq (hS q hb)
      rw [freedBytes, pending]
      unfold isMailbox at hb
      rcases hd : d.queues q with _ | ⟨k, p | _⟩
      · rfl
      · simp [hd] at hb
      · rfl
  rw [hfreed] at hsum
  rw [storage_removeAcked, h S hS, ← hsum]
  exact Nat.add_sub_cancel _ _

theorem Accounted.set_fresh (h : d.Accounted) (hq : d.queues q = none) (k : SendKey)
    {kind : QueueKind} (hk : ∀ p, kind = .mailbox p → p = []) : (d.set q (k, kind)).Accounted := by
  refine h.congr (funext fun x => ?_) (fun x hx => ?_) rfl
  · by_cases hx : x = q
    · subst hx
      cases kind with
      | mailbox p => simp [pending, hq, hk p rfl]
      | groupInbox => simp [pending, hq]
    · simp [pending, d.set_queues_of_ne hx]
  · have hne : x ≠ q := by
      rintro rfl
      simp [isMailbox, hq] at hx
    rw [← hx]
    simp [isMailbox, d.set_queues_of_ne hne]

theorem Accounted.apply {c : Crypto} (h : d.Accounted) (ha : Admits c d msg m) :
    (d.apply m).Accounted := by
  cases ha with
  | createMailbox fresh => exact h.set_fresh fresh _ (by rintro p ⟨⟩; rfl)
  | createGroupInbox fresh => exact h.set_fresh fresh _ (by rintro p ⟨⟩)
  | sendToMailbox => exact h.deliver _ _
  | sendToGroupInbox => exact Accounted.foldl_deliver _ (h.advance _ _) _
  | ack => exact h.removeAcked _ _

end Ledger

variable {c : Crypto} {log : List Exchange} {s t : Service} {ev : RelayEvent}
  {persistent : Bool} {es : List RelayEvent} {queues loaded : Queues} {used total : ℕ}
  {rows : List PendingRow}

theorem explains_accounted (h : Explains c log d) : d.Accounted := by
  induction h with
  | nil => exact fun S _ => (Finset.sum_eq_zero fun _ _ => rfl).symm
  | answered prior answers ih => exact ih
  | wrote prior admits bounded ih => exact ih.apply admits

/-! ## What a request is checked against -/

/-- The mutation leaves the account within its limit, counting a copy for each target. -/
def Mutation.Roomy (d : Ledger) : Mutation → Prop
  | .sendToMailbox _ e => d.storageBytesUsed + e.paddedCiphertext.length ≤ maxStorageBytes
  | .sendToGroupInbox _ _ e roster =>
    d.storageBytesUsed + e.paddedCiphertext.length * roster.length ≤ maxStorageBytes
  | _ => True

namespace RelayState
variable {c : Crypto} {amb : Ambient} {s t : RelayState} {n : ℕ}

theorem wouldExceedStorageBound_false (h : wouldExceedStorageBound inner n targets = some false) :
    inner.storageBytesUsed + n * targets ≤ maxStorageBytes := by
  unfold wouldExceedStorageBound at h
  split_ifs at h with hfit
  have hle := of_decide_eq_false (some.inj h)
  unfold maxStorageBytes at hle ⊢
  omega

theorem wouldExceedStorageBound_of_le (hprod : n * targets < 2 ^ 64)
    (h : inner.storageBytesUsed + n * targets ≤ maxStorageBytes) :
    wouldExceedStorageBound inner n targets = some false := by
  unfold wouldExceedStorageBound
  rw [if_pos hprod, some.injEq, decide_eq_false_iff_not, Nat.not_lt]
  exact (Nat.min_le_left _ _).trans h

theorem roomy_sendToMailbox (h : sendToMailbox c amb s q tag e = (t, .write m)) :
    m.Roomy s.ledger := by
  have hs := mailboxSend c amb s q tag e
  rw [h] at hs
  cases hs with
  | accepted size awake found auth depth window room =>
    have hle := wouldExceedStorageBound_false room
    rw [Nat.mul_one] at hle
    exact hle

theorem roomy_sendToGroupInbox (h : sendToGroupInbox c amb s q kind tag e = (t, .write m)) :
    m.Roomy s.ledger := by
  have hs := inboxSend c amb s q tag e kind
  rw [h] at hs
  cases hs with
  | accepted size awake found auth current room => exact wouldExceedStorageBound_false room

theorem roomy_plan {tx : Option ChannelId} (h : plan c amb s msg tx = (t, .write m)) :
    m.Roomy s.ledger := by
  cases msg with
  | sendToMailbox => exact roomy_sendToMailbox h
  | sendToGroupInbox => exact roomy_sendToGroupInbox h
  | _ =>
    have ha := (planned_plan c amb s _ tx).admits m (by rw [h])
    cases ha <;> trivial

end RelayState

open RelayState

/-- The request an event puts to the relay, if any. -/
def RelayEvent.message : RelayEvent → Option ClientMessage
  | .request _ msg _ => some msg
  | .restart _ (some (_, msg)) => some msg
  | _ => none

theorem step_ledger (hc : Consistent s.relay) (h : Service.step c s ev = some t) :
    t.relay.ledger = s.relay.ledger ∧ (t.log = s.log ∨ ∃ msg reply,
      Answers s.relay.ledger msg reply ∧ t.log = s.log ++ [(msg, reply)]) ∨
    ∃ msg ∈ ev.message, ∃ m, Admits c s.relay.ledger msg m ∧ m.Roomy s.relay.ledger ∧
      t.log = s.log ++ [(msg, m.reply)] ∧ t.relay.ledger = s.relay.ledger.apply m := by
  cases ev with
  | request amb msg pushTx =>
    have hp := planned_plan c amb s.relay msg pushTx
    have hroom := fun s₁ m (hm : plan c amb s.relay msg pushTx = (s₁, .write m)) => roomy_plan hm
    unfold Service.step handle at h
    dsimp only at h
    generalize plan c amb s.relay msg pushTx = r at h hp hroom
    rcases r with ⟨s₁, reply | m | _ | _⟩
    · cases h
      exact .inl ⟨hp.quiet.ledger, .inr ⟨msg, reply, hp.answers reply rfl, rfl⟩⟩
    · have ha := hp.admits m rfl
      have hs := hp.silent (Admits.not_subscribe ha)
      simp only [finish] at h
      cases hper : s₁.persist m with
      | none =>
        rw [hper] at h
        cases h
        exact .inl ⟨hs.ledger, .inl rfl⟩
      | some s₂ =>
        rw [hper] at h
        dsimp only at h
        cases happ : m.apply amb.now s₂ with
        | none =>
          rw [happ] at h
          cases h
          exact .inl ⟨(persist_eq_some hper).1.trans hs.ledger, .inl rfl⟩
        | some =>
          rw [happ] at h
          cases h
          exact .inr ⟨msg, rfl, m, ha, hroom s₁ m rfl, rfl,
            (consistent_wrote hc hs (hp.awake m rfl) ha hper happ).1⟩
    · cases h
      exact .inl ⟨(hp.panics rfl).ledger, .inl rfl⟩
    · cases h
  | receivePush | hangUp | setAttestationKey =>
    cases h
    exact .inl ⟨rfl, .inl rfl⟩
  | restart now inFlight =>
    cases inFlight with
    | none =>
      obtain ⟨db, hdb, hr⟩ := bind_eq_some_iff.mp h
      obtain ⟨u, hu, rfl⟩ := map_eq_some_iff.mp hr
      exact .inl ⟨(restart_idle hc hdb hu).1, .inl rfl⟩
    | some p =>
      obtain ⟨⟨mid, m⟩, hm, hr⟩ := bind_eq_some_iff.mp h
      obtain ⟨db, hdb, hr⟩ := bind_eq_some_iff.mp hr
      obtain ⟨u, hu, rfl⟩ := map_eq_some_iff.mp hr
      obtain ⟨ha, -, hl, -⟩ := restart_midway hc hm hdb hu
      obtain ⟨s₁, -, -, -, -, hplan⟩ := midway_eq_some hm
      exact .inr ⟨p.2, rfl, m, ha, roomy_plan hplan, rfl, hl⟩

def RelayEvent.Framed (ev : RelayEvent) : Prop := ∀ msg ∈ ev.message, msg.Framed

theorem framed_of_readBack {es : List RelayEvent}
    (h : ∀ msg ∈ es.filterMap RelayEvent.message,
      readFrame ClientFrame.codec (writeFrame ClientFrame.codec ⟨0, msg⟩) = .ok (⟨0, msg⟩, [])) :
    ∀ ev ∈ es, ev.Framed :=
  fun ev hev msg hm => .of_writeFrame (h msg (mem_filterMap.mpr ⟨ev, hev, hm⟩))

theorem step_message (h : Service.step c s ev = some t) :
    ∀ entry ∈ t.log, entry ∈ s.log ∨ entry.1 ∈ ev.message := by
  have hsnoc : ∀ {entry e : Exchange}, entry ∈ s.log ++ [e] →
      e.1 ∈ ev.message → entry ∈ s.log ∨ entry.1 ∈ ev.message := by
    intro entry e hm he
    rcases mem_append.mp hm with hm | hm
    · exact .inl hm
    · rw [mem_singleton.mp hm]
      exact .inr he
  cases ev with
  | request =>
    simp only [Service.step] at h
    split at h
    · cases h
      exact fun entry hm => hsnoc hm rfl
    · cases h
      exact fun entry hm => .inl hm
    · cases h
  | restart now inFlight =>
    cases inFlight with
    | none =>
      obtain ⟨db, hdb, hr⟩ := bind_eq_some_iff.mp h
      obtain ⟨u, hu, rfl⟩ := map_eq_some_iff.mp hr
      exact fun entry hm => .inl hm
    | some =>
      obtain ⟨⟨mid, m⟩, hm, hr⟩ := bind_eq_some_iff.mp h
      obtain ⟨db, hdb, hr⟩ := bind_eq_some_iff.mp hr
      obtain ⟨u, hu, rfl⟩ := map_eq_some_iff.mp hr
      exact fun entry hm => hsnoc hm rfl
  | _ =>
    cases h
    exact fun entry hm => .inl hm

theorem run_framed (h : run (Service.step c) (Service.boot persistent) es = some s)
    (hf : ∀ ev ∈ es, ev.Framed) : ∀ entry ∈ s.log, entry.1.Framed := by
  have key := run_induction (P := fun es (s : Service) => (∀ ev ∈ es, ev.Framed) →
    ∀ entry ∈ s.log, entry.1.Framed) (by rintro - entry ⟨⟩) (fun es s ev t _ ih ht hf => ?_) h
  · exact key hf
  · intro entry hm
    rcases step_message ht entry hm with hm | hm
    · exact ih (fun ev' hev => hf ev' (mem_append_left _ hev)) entry hm
    · exact hf ev (mem_append_right _ (mem_singleton_self ev)) entry.1 hm

theorem mem_of_rosterIn (h : rosterIn log x = some roster) :
    ∃ solution epoch attestation reply,
      (ClientMessage.createGroupInbox solution epoch roster attestation, reply) ∈ log := by
  obtain ⟨entry, hm, he⟩ := exists_of_findSome?_eq_some h
  split at he
  · rename_i solution epoch roster' attestation y k
    split_ifs at he
    cases he
    exact ⟨_, _, _, _, hm⟩
  · cases he

namespace Ledger

theorem storage_foldl_deliver (e : Envelope) (members : List QueueId) (d : Ledger) :
    (members.foldl (Ledger.deliver e) d).storageBytesUsed =
      d.storageBytesUsed + e.paddedCiphertext.length * members.countP d.isMailbox := by
  induction members generalizing d with
  | nil => rfl
  | cons m members ih =>
    rw [foldl_cons, ih, storage_deliver, isMailbox_deliver, countP_cons]
    split_ifs with hm
    · rw [Nat.mul_succ]
      omega
    · simp

theorem storage_foldl_deliver_le (e : Envelope) (members : List QueueId) (d : Ledger) :
    (members.foldl (Ledger.deliver e) d).storageBytesUsed ≤
      d.storageBytesUsed + e.paddedCiphertext.length * members.length := by
  rw [storage_foldl_deliver]
  exact Nat.add_le_add_left (Nat.mul_le_mul_left _ countP_le_length) _

theorem storage_advance (d : Ledger) (x : QueueId) (kind : GroupSendKind) :
    (d.advance x kind).storageBytesUsed = d.storageBytesUsed := by
  unfold advance
  split <;> rfl

theorem storage_apply {c : Crypto} (hd : d.storageBytesUsed ≤ maxStorageBytes)
    (ha : Admits c d msg m) (hr : m.Roomy d) : (d.apply m).storageBytesUsed ≤ maxStorageBytes := by
  cases ha with
  | createMailbox | createGroupInbox => exact hd
  | sendToMailbox =>
    rw [apply, storage_deliver]
    split_ifs
    · exact hr
    · exact hd
  | @sendToGroupInbox x kind _ e _ _ roster =>
    have hle := storage_foldl_deliver_le e roster (d.advance x kind)
    rw [storage_advance] at hle
    exact hle.trans hr
  | ack =>
    rw [apply, storage_removeAcked]
    omega

theorem freedBytes_le (d : Ledger) (q : QueueId) (id : MessageId) :
    d.freedBytes q id ≤ d.pendingBytes q := by
  have h := d.pendingBytes_removeAcked q id q
  rw [if_pos rfl] at h
  omega

end Ledger

theorem run_storage (h : run (Service.step c) (Service.boot persistent) es = some s) :
    s.relay.ledger.storageBytesUsed ≤ maxStorageBytes := by
  have key : (Explains c s.log s.relay.ledger ∧ Consistent s.relay) ∧
      s.relay.ledger.storageBytesUsed ≤ maxStorageBytes := by
    refine run_invariant ⟨⟨explains_boot c persistent, consistent_boot persistent⟩, Nat.zero_le _⟩
      (fun s ev t hs ht => ⟨step_explains hs.1.1 hs.1.2 (stepped_of_step ht), ?_⟩) h
    rcases step_ledger hs.1.2 ht with ⟨hl, -⟩ | ⟨msg, -, m, ha, hr, -, hl⟩
    · rw [hl]
      exact hs.2
    · rw [hl]
      exact storage_apply hs.2 ha hr
  exact key.2

namespace RelayState

def pendingBytes (s : RelayState) (q : QueueId) : ℕ :=
  ((s.pendingOf q).map (fun p => p.2.paddedCiphertext.length)).sum

/-- What an ack of this id would free. -/
def freedBytes (s : RelayState) (q : QueueId) (id : MessageId) : ℕ :=
  (((s.pendingOf q).filter (fun p => p.1 = id)).map (fun p => p.2.paddedCiphertext.length)).sum

theorem pendingBytes_eq (s : RelayState) (q : QueueId) :
    s.ledger.pendingBytes q = s.pendingBytes q := by
  rw [Ledger.pendingBytes, ledger_pending, pendingBytes]

theorem freedBytes_eq (s : RelayState) (q : QueueId) (id : MessageId) :
    s.ledger.freedBytes q id = s.freedBytes q id := by
  rw [Ledger.freedBytes, ledger_pending, freedBytes]

theorem mem_keys_of_isMailbox {s : RelayState} (h : s.ledger.isMailbox q = true) :
    q ∈ s.inner.queues.keys := by
  rw [← isMailbox_eq] at h
  unfold isMailbox at h
  rw [Finmap.mem_keys, ← Finmap.lookup_isSome]
  split at h
  · rename_i hl
    rw [hl]
    rfl
  · cases h

theorem wouldExceedStorageBound_isSome {n : ℕ} (hn : n ≤ maxMessageSize)
    (ht : targets ≤ maxFramedRoster) : (wouldExceedStorageBound inner n targets).isSome = true := by
  have hprod : n * targets ≤ maxMessageSize * maxFramedRoster := Nat.mul_le_mul hn ht
  have hlt : n * targets < 2 ^ 64 := by
    unfold maxFramedRoster maxMessageSize at hprod
    omega
  rw [wouldExceedStorageBound, if_pos hlt]
  rfl

end RelayState

/-- The rosters in memory are no longer than a frame. -/
def RelayState.RostersFramed (s : RelayState) : Prop :=
  ∀ x roster, s.ledger.roster x = some roster → roster.length ≤ maxFramedRoster

theorem run_rostersFramed (h : run (Service.step c) (Service.boot persistent) es = some s)
    (hf : ∀ ev ∈ es, ev.Framed) : s.relay.RostersFramed := by
  intro x roster hx
  rw [← (explains_boxesTell (run_explains h).1).roster] at hx
  obtain ⟨solution, epoch, attestation, reply, hm⟩ := mem_of_rosterIn hx
  exact framed_roster (run_framed h hf _ hm)

theorem loadPending_le (h : loadPending queues used rows = .ok (loaded, total)) : used ≤ total := by
  induction rows generalizing queues used with
  | nil =>
    cases h
    exact le_rfl
  | cons row rows ih =>
    unfold loadPending at h
    cases hq : blob32 row.queueId with
    | error => simp [hq, bind, Except.bind] at h
    | ok =>
      cases he : decodeFrom Envelope.codec row.envelope with
      | none => simp [hq, he, bind, Except.bind] at h
      | some =>
        simp only [hq, he] at h
        exact (Nat.le_add_right _ _).trans (ih h)

theorem loadPending_take (h : loadPending queues used rows = .ok (loaded, total)) (n : ℕ) :
    ∃ loaded' used', loadPending queues used (rows.take n) = .ok (loaded', used') ∧
      used' ≤ total := by
  induction rows generalizing queues used n with
  | nil =>
    rw [take_nil]
    exact ⟨loaded, total, h, le_rfl⟩
  | cons row rows ih =>
    cases n with
    | zero => exact ⟨queues, used, rfl, loadPending_le h⟩
    | succ n =>
      rw [take_succ_cons]
      unfold loadPending at h ⊢
      cases hq : blob32 row.queueId with
      | error => simp [hq, bind, Except.bind] at h
      | ok =>
        cases he : decodeFrom Envelope.codec row.envelope with
        | none => simp [hq, he, bind, Except.bind] at h
        | some =>
          simp only [hq, he] at h ⊢
          exact ih h n

/-- In every state the relay reaches: the storage account is the number of bytes pending in
all mailboxes, and within its limit; an ack frees no more than was accounted; neither the
product a send is checked with nor a running total, of a send or of a reload, leaves 64 bits. -/
theorem storage_accounting (c : Crypto) (persistent : Bool) (es : List RelayEvent) (s : Service)
    (hrun : run (Service.step c) (Service.boot persistent) es = some s)
    (hframed : ∀ ev ∈ es, ev.Framed) :
    s.relay.inner.storageBytesUsed = ∑ q ∈ s.relay.inner.queues.keys, s.relay.pendingBytes q ∧
    s.relay.inner.storageBytesUsed ≤ maxStorageBytes ∧
    (∀ q id, s.relay.freedBytes q id ≤ s.relay.inner.storageBytesUsed) ∧
    (∀ n ≤ maxMessageSize, (wouldExceedStorageBound s.relay.inner n 1).isSome = true ∧
      ∀ x roster, s.relay.ledger.roster x = some roster →
        (wouldExceedStorageBound s.relay.inner n roster.length).isSome = true) ∧
    (∀ amb msg pushTx t q e, plan c amb s.relay msg pushTx = (t, .write (.sendToMailbox q e)) →
      (t.pushAndNotify q e).inner.storageBytesUsed < 2 ^ 64) ∧
    (∀ amb msg pushTx t x kind e roster u n,
      plan c amb s.relay msg pushTx = (t, .write (.sendToGroupInbox x kind e roster)) →
      t.bumpEpoch x kind = some u →
      (u.pushAll (roster.take n) e).inner.storageBytesUsed < 2 ^ 64) ∧
    ∀ db now inner qs rs n, s.relay.inner.db = some db → openDatabase now db = .ok inner →
      loadQueues now ∅ db.queues = .ok qs → loadRoster qs db.selectRoster = .ok rs →
      ∃ loaded used, loadPending rs 0 (db.selectPending.take n) = .ok (loaded, used) ∧
        used < 2 ^ 64 := by
  obtain ⟨hexp, hcons⟩ := run_explains hrun
  have hacc := explains_accounted hexp
  have hle := run_storage hrun
  have hlimit : maxStorageBytes < 2 ^ 64 := by decide
  have hsum : s.relay.inner.storageBytesUsed =
      ∑ q ∈ s.relay.inner.queues.keys, s.relay.ledger.pendingBytes q :=
    hacc _ (fun q hq => mem_keys_of_isMailbox hq)
  refine ⟨?_, hle, fun q id => ?_, fun n hn => ⟨?_, fun x roster hx => ?_⟩, ?_, ?_, ?_⟩
  · rw [hsum]
    exact Finset.sum_congr rfl fun q _ => s.relay.pendingBytes_eq q
  · rw [← freedBytes_eq]
    refine (s.relay.ledger.freedBytes_le q id).trans ?_
    change _ ≤ s.relay.ledger.storageBytesUsed
    rw [hacc (insert q s.relay.inner.queues.keys)
      (fun q hq => Finset.mem_insert_of_mem (mem_keys_of_isMailbox hq))]
    exact Finset.single_le_sum (fun _ _ => Nat.zero_le _) (Finset.mem_insert_self _ _)
  · exact wouldExceedStorageBound_isSome hn (by decide)
  · exact wouldExceedStorageBound_isSome hn (run_rostersFramed hrun hframed x roster hx)
  · intro amb msg pushTx t q e hplan
    have hp := planned_plan c amb s.relay msg pushTx
    have hroom := roomy_plan hplan
    rw [hplan] at hp
    change (t.pushAndNotify q e).ledger.storageBytesUsed < _
    rw [ledger_pushAndNotify, Ledger.storage_deliver, hp.quiet.ledger]
    change s.relay.ledger.storageBytesUsed + _ ≤ _ at hroom
    split_ifs <;> omega
  · intro amb msg pushTx t x kind e roster u n hplan hu
    have hp := planned_plan c amb s.relay msg pushTx
    have hroom := roomy_plan hplan
    rw [hplan] at hp
    change (u.pushAll (roster.take n) e).ledger.storageBytesUsed < _
    rw [ledger_pushAll, ledger_bumpEpoch hu, hp.quiet.ledger]
    have hfold := Ledger.storage_foldl_deliver_le e (roster.take n) (s.relay.ledger.advance x kind)
    rw [Ledger.storage_advance] at hfold
    have htake : e.paddedCiphertext.length * (roster.take n).length ≤
        e.paddedCiphertext.length * roster.length :=
      Nat.mul_le_mul_left _ (length_take_le' n roster)
    change s.relay.ledger.storageBytesUsed + _ ≤ _ at hroom
    omega
  · intro db now inner qs rs n hdb hopen hqs hrs
    have hre : RelayState.reopen now db = some (RelayState.ofInner inner) := by
      rw [RelayState.reopen, hopen]
    have hused : inner.storageBytesUsed ≤ maxStorageBytes := by
      have hl := (restart_idle hcons hdb hre).1
      change (RelayState.ofInner inner).ledger.storageBytesUsed ≤ _
      rw [hl]
      exact hle
    obtain ⟨qs', rs', ps, h₁, h₂, h₃, hinner⟩ := openDatabase_ok hopen
    have hused : inner.storageBytesUsed = ps.2 := by rw [hinner]
    rw [hqs] at h₁
    cases h₁
    rw [hrs] at h₂
    cases h₂
    obtain ⟨loaded, used, hload, hle'⟩ := loadPending_take h₃ n
    exact ⟨loaded, used, hload, by omega⟩

theorem storage_accounting_fannedOut :
    ∃ s, run (Service.step .plain) (Service.boot false) fannedOut = some s ∧
      s.relay.inner.storageBytesUsed = 3 ∧
      ∑ q ∈ s.relay.inner.queues.keys, s.relay.pendingBytes q = 3 ∧
      s.relay.freedBytes (.fill 2) (.fill 4) ≤ 3 := by
  obtain ⟨s, hs, hused⟩ : ∃ s, run (Service.step .plain) (Service.boot false) fannedOut = some s ∧
      s.relay.inner.storageBytesUsed = 3 := by decide +kernel
  obtain ⟨hsum, -, hfreed, -⟩ := storage_accounting .plain false fannedOut s hs
    (framed_of_readBack (by decide +kernel))
  exact ⟨s, hs, hused, hsum.symm.trans hused, hused ▸ hfreed _ _⟩

/-! ## Depth -/

/-- If the event is an accepted group send, every mailbox on its roster had room for its
copies. -/
def FanOutFits (c : Crypto) (s : Service) (ev : RelayEvent) : Prop :=
  ∀ t x kind tag e roster q, Service.step c s ev = some t →
    t.log = s.log ++ [(.sendToGroupInbox x kind tag e, .ok)] →
    s.relay.ledger.roster x = some roster → s.relay.ledger.isMailbox q = true →
    (s.relay.pendingOf q).length + roster.count q ≤ maxQueueDepth

def RelayState.Capped (s : RelayState) : Prop := ∀ q, (s.pendingOf q).length ≤ maxQueueDepth

section Depth
variable {c : Crypto} {s t : Service} {ev : RelayEvent}

theorem pendingOf_groupSend
    (hl : t.relay.ledger = s.relay.ledger.apply (.sendToGroupInbox x kind e roster))
    (hq : s.relay.ledger.isMailbox q = true) :
    (t.relay.pendingOf q).length = (s.relay.pendingOf q).length + roster.count q := by
  rw [← ledger_pending, hl, Ledger.apply, pending_foldl_deliver, isMailbox_advance,
    pending_advance, if_pos hq, length_append, length_replicate, ledger_pending]

theorem pendingOf_of_not_mailbox (hq : ¬ s.relay.ledger.isMailbox q = true) :
    s.relay.pendingOf q = [] := by
  rw [← ledger_pending]
  unfold Ledger.pending
  unfold Ledger.isMailbox at hq
  rcases h : s.relay.ledger.queues q with _ | ⟨k, p | _⟩
  · rfl
  · simp [h] at hq
  · rfl

theorem capped_step (hc : Consistent s.relay) (hs : s.relay.Capped) (hfits : FanOutFits c s ev)
    (h : Service.step c s ev = some t) : t.relay.Capped := by
  intro q
  have hq := hs q
  rcases step_ledger hc h with ⟨hl, -⟩ | ⟨msg, -, m, ha, -, hlog, hl⟩
  · rw [← ledger_pending] at hq ⊢
    rwa [hl]
  · cases ha with
    | @createMailbox _ _ p | @createGroupInbox _ _ epoch fanOutTo p =>
      rw [← ledger_pending, hl, Ledger.apply]
      rw [← ledger_pending] at hq
      unfold Ledger.pending at hq ⊢
      by_cases hp : q = p
      · subst hp
        simp
      · rw [set_queues_of_ne _ hp]
        exact hq
    | @sendToMailbox p tag e k pending size entry auth depth =>
      rw [← ledger_pending, hl, Ledger.apply, pending_deliver]
      rw [← ledger_pending] at hq
      split_ifs with hp
      · obtain rfl := hp.1
        rw [pending_of_mailbox entry]
        simpa using depth
      · simpa using hq
    | @sendToGroupInbox x kind tag e k epoch roster size entry =>
      by_cases hb : s.relay.ledger.isMailbox q = true
      · rw [pendingOf_groupSend hl hb]
        exact hfits t x kind tag e roster q h hlog (roster_of_groupInbox entry) hb
      · have hb' : ¬ t.relay.ledger.isMailbox q = true := by
          rw [hl, Ledger.apply, isMailbox_foldl_deliver, isMailbox_advance]
          exact hb
        rw [pendingOf_of_not_mailbox hb']
        exact Nat.zero_le _
    | ack =>
      rw [← ledger_pending, hl, Ledger.apply, pending_removeAcked]
      rw [← ledger_pending] at hq
      split_ifs
      · exact (length_filter_le _ _).trans hq
      · exact hq

theorem pendingOf_of_groupSend (hc : Consistent s.relay) (h : Service.step c s ev = some t)
    (hlog : t.log = s.log ++ [(.sendToGroupInbox x kind tag e, .ok)])
    (hx : s.relay.ledger.roster x = some roster) (hq : s.relay.ledger.isMailbox q = true) :
    (t.relay.pendingOf q).length = (s.relay.pendingOf q).length + roster.count q := by
  rcases step_ledger hc h with ⟨-, hlog' | ⟨msg, reply, ha, hlog'⟩⟩ | ⟨msg, -, m, ha, -, hlog', hl⟩
  · rw [hlog] at hlog'
    simp at hlog'
  · rw [hlog] at hlog'
    simp only [append_cancel_left_eq, cons.injEq, and_true] at hlog'
    obtain ⟨rfl, rfl⟩ := hlog'
    cases ha
  · rw [hlog] at hlog'
    simp only [append_cancel_left_eq, cons.injEq, Prod.mk.injEq, and_true] at hlog'
    obtain ⟨rfl, -⟩ := hlog'
    cases ha with
    | @sendToGroupInbox _ _ _ _ k epoch roster' size entry =>
      rw [roster_of_groupInbox entry] at hx
      cases hx
      exact pendingOf_groupSend hl hq

end Depth

/-- Along a run, every mailbox stays within the depth limit if and only if every accepted
fan-out left each mailbox on its roster within it. -/
theorem queue_depth_capped_iff (c : Crypto) (persistent : Bool) (es : List RelayEvent) :
    (∀ pre post s, es = pre ++ post →
      run (Service.step c) (Service.boot persistent) pre = some s → s.relay.Capped) ↔
    Along (Service.step c) (FanOutFits c) (Service.boot persistent) es := by
  rw [along_iff]
  constructor
  · intro h pre ev post s hes hrun t x kind tag e roster q ht hlog hx hq
    rw [← pendingOf_of_groupSend (run_explains hrun).2 ht hlog hx hq]
    refine h (pre ++ [ev]) post t (by rw [hes]; simp) ?_ q
    rw [run_snoc, hrun]
    exact ht
  · rintro h pre post s rfl hrun
    have hpre : Along (Service.step c) (FanOutFits c) (Service.boot persistent) pre :=
      along_iff.mpr fun pre' ev post' t hes => h pre' ev (post' ++ post) t (by rw [hes]; simp)
    have key : (Explains c s.log s.relay.ledger ∧ Consistent s.relay) ∧ s.relay.Capped :=
      run_invariant_along
        ⟨⟨explains_boot c persistent, consistent_boot persistent⟩, fun _ => Nat.zero_le _⟩
        (fun s ev t hs hfits ht => ⟨step_explains hs.1.1 hs.1.2 (stepped_of_step ht),
          capped_step hs.1.2 hs.2 hfits ht⟩) hpre hrun
    exact key.2

/-- One mailbox, named 1001 times on the roster of a group inbox. -/
def crowdedRoster : List RelayEvent :=
  mint 1 (fun solution => .createMailbox solution none) ++
    mint 2 (fun solution =>
      .createGroupInbox solution 1 (replicate 1001 (.fill 1)) none)

/-- A single send to that inbox puts more than `maxQueueDepth` entries in the mailbox. -/
theorem groupSend_overfills_mailbox :
    ∃ s, run (Service.step .plain) (Service.boot false) (crowdedRoster ++
        [.request (.fill 0) (.sendToGroupInbox (.fill 2) .application (.fill 0)
          ⟨.fill 3, .relayFanout, [3]⟩) none]) = some s ∧
      ¬ (s.relay.pendingOf (.fill 1)).length ≤ maxQueueDepth := by
  obtain ⟨s, hs, hbox, hroster, t, ht, hlog⟩ :
      ∃ s, run (Service.step .plain) (Service.boot false) crowdedRoster = some s ∧
      s.relay.ledger.isMailbox (.fill 1) = true ∧
      s.relay.ledger.roster (.fill 2) = some (replicate 1001 (Bytes.fill 1)) ∧
      ∃ t, Service.step .plain s (.request (.fill 0) (.sendToGroupInbox (.fill 2) .application
          (.fill 0) ⟨.fill 3, .relayFanout, [3]⟩) none) = some t ∧
        t.log = s.log ++ [(.sendToGroupInbox (.fill 2) .application (.fill 0)
          ⟨.fill 3, .relayFanout, [3]⟩, .ok)] := by decide +kernel
  refine ⟨t, by rw [run_snoc, hs]; exact ht, ?_⟩
  rw [pendingOf_of_groupSend (run_explains hs).2 ht hlog hroster hbox,
    count_replicate_self, maxQueueDepth]
  omega

end Rosette.Relay
