import Rosette.Relay.Open

/-! # The durable ledger

What the relay promises to keep across a restart, as a plain function from queue
ids, and the effect each mutation has on it. The in-memory update is shown to
have exactly this effect; the database is shown to in the next module. What a
request does before its mutation leaves the ledger alone.
-/
namespace Rosette.Relay
open Foundation Proto Option

variable {x q : QueueId}

def QueueKind.column : QueueKind → Option UInt64
  | .mailbox _ => none
  | .groupInbox epoch _ => some epoch

/-- Keys, kinds, epochs, rosters and unacked entries, with the storage account. -/
@[ext] structure Ledger where
  queues : QueueId → Option (SendKey × QueueKind)
  storageBytesUsed : ℕ

namespace Ledger

def set (d : Ledger) (q : QueueId) (p : SendKey × QueueKind) : Ledger :=
  { d with queues := Function.update d.queues q (some p) }

@[simp] theorem set_queues_self (d : Ledger) (q : QueueId) (p : SendKey × QueueKind) :
    (d.set q p).queues q = some p := Function.update_self ..

variable {d : Ledger} {e : UInt64}

theorem set_queues_of_ne (d : Ledger) (h : x ≠ q) (p : SendKey × QueueKind) :
    (d.set q p).queues x = d.queues x := Function.update_of_ne h ..

/-- Store one copy, if the id names a mailbox. -/
def deliver (e : Envelope) (d : Ledger) (q : QueueId) : Ledger :=
  match d.queues q with
  | some (k, .mailbox pending) =>
    { d.set q (k, .mailbox (pending ++ [(e.messageId, e)])) with
      storageBytesUsed := d.storageBytesUsed + e.paddedCiphertext.length }
  | _ => d

/-- The Delivery Service rule: an accepted commit moves its inbox one epoch on. -/
def advance (d : Ledger) (x : QueueId) (kind : GroupSendKind) : Ledger :=
  match kind, d.queues x with
  | .commit _, some (k, .groupInbox epoch fanOutTo) => d.set x (k, .groupInbox (epoch + 1) fanOutTo)
  | _, _ => d

def removeAcked (d : Ledger) (q : QueueId) (id : MessageId) : Ledger :=
  match d.queues q with
  | some (k, .mailbox pending) =>
    { d.set q (k, .mailbox (pending.filter (fun p => p.1 ≠ id))) with
      storageBytesUsed := d.storageBytesUsed - ((pending.filter (fun p => p.1 = id)).map
        (fun p => p.2.paddedCiphertext.length)).sum }
  | _ => d

def apply (d : Ledger) : Mutation → Ledger
  | .createMailbox q k => d.set q (k, .mailbox [])
  | .createGroupInbox q k epoch fanOutTo => d.set q (k, .groupInbox epoch fanOutTo)
  | .sendToMailbox q e => d.deliver e q
  | .sendToGroupInbox q kind e fanOutTo => fanOutTo.foldl (deliver e) (d.advance q kind)
  | .ack q id => d.removeAcked q id

def pending (d : Ledger) (q : QueueId) : List (MessageId × Envelope) :=
  match d.queues q with
  | some (_, .mailbox p) => p
  | _ => []

def isMailbox (d : Ledger) (q : QueueId) : Bool :=
  match d.queues q with
  | some (_, .mailbox _) => true
  | _ => false

def inbox (d : Ledger) (x : QueueId) : Option (SendKey × UInt64 × List QueueId) :=
  match d.queues x with
  | some (k, .groupInbox epoch fanOutTo) => some (k, epoch, fanOutTo)
  | _ => none

def epoch (d : Ledger) (x : QueueId) : Option UInt64 := (d.inbox x).map (fun p => p.2.1)

def roster (d : Ledger) (x : QueueId) : Option (List QueueId) := (d.inbox x).map (fun p => p.2.2)

theorem epoch_eq_some : d.epoch x = some e ↔ ∃ k r, d.queues x = some (k, .groupInbox e r) := by
  unfold epoch inbox
  rcases d.queues x with _ | ⟨k, p | ⟨e', r⟩⟩ <;> simp

theorem advance_commit {k : SendKey} {r : List QueueId} (h : d.queues x = some (k, .groupInbox e r))
    (target : UInt64) : d.advance x (.commit target) = d.set x (k, .groupInbox (e + 1) r) := by
  unfold advance
  rw [h]

@[simp] theorem advance_application (d : Ledger) (x : QueueId) : d.advance x .application = d := by
  rfl

theorem isMailbox_advance (d : Ledger) (x : QueueId) (kind : GroupSendKind) :
    (d.advance x kind).isMailbox = d.isMailbox := by
  funext y
  unfold advance
  split
  · rename_i k e r hx
    by_cases hy : y = x
    · subst hy
      simp [isMailbox, hx]
    · simp [isMailbox, set_queues_of_ne _ hy]
  · rfl

theorem pending_advance (d : Ledger) (x : QueueId) (kind : GroupSendKind) :
    (d.advance x kind).pending = d.pending := by
  funext y
  unfold advance
  split
  · rename_i k e r hx
    by_cases hy : y = x
    · subst hy
      simp [pending, hx]
    · simp [pending, set_queues_of_ne _ hy]
  · rfl

theorem roster_advance (d : Ledger) (x : QueueId) (kind : GroupSendKind) :
    (d.advance x kind).roster = d.roster := by
  funext y
  unfold advance
  split
  · rename_i k e r hx
    by_cases hy : y = x
    · subst hy
      simp [roster, inbox, hx]
    · simp [roster, inbox, set_queues_of_ne _ hy]
  · rfl

theorem isMailbox_deliver (d : Ledger) (e : Envelope) (q : QueueId) :
    (d.deliver e q).isMailbox = d.isMailbox := by
  funext x
  unfold deliver
  rcases hq : d.queues q with _ | ⟨k, p | _⟩
  · rfl
  · by_cases hx : x = q
    · subst hx
      simp [isMailbox, hq]
    · simp [isMailbox, set_queues_of_ne _ hx]
  · rfl

theorem pending_deliver (d : Ledger) (e : Envelope) (q x : QueueId) :
    (d.deliver e q).pending x =
      d.pending x ++ if q = x ∧ d.isMailbox q then [(e.messageId, e)] else [] := by
  unfold deliver
  rcases hq : d.queues q with _ | ⟨k, p | _⟩
  · simp [isMailbox, hq]
  · by_cases hx : q = x
    · subst hx
      simp [pending, isMailbox, hq]
    · simp [pending, set_queues_of_ne _ (Ne.symm hx), hx]
  · simp [isMailbox, hq]

theorem inbox_deliver (d : Ledger) (e : Envelope) (q : QueueId) :
    (d.deliver e q).inbox = d.inbox := by
  funext x
  unfold deliver
  rcases hq : d.queues q with _ | ⟨k, p | _⟩
  · rfl
  · by_cases hx : x = q
    · subst hx
      simp [inbox, hq]
    · simp [inbox, set_queues_of_ne _ hx]
  · rfl

theorem inbox_foldl_deliver (e : Envelope) (members : List QueueId) (d : Ledger) :
    (members.foldl (deliver e) d).inbox = d.inbox := by
  induction members generalizing d with
  | nil => rfl
  | cons m members ih => rw [List.foldl_cons, ih, inbox_deliver]

theorem epoch_foldl_deliver (e : Envelope) (members : List QueueId) (d : Ledger) :
    (members.foldl (deliver e) d).epoch = d.epoch := by
  funext x
  rw [epoch, inbox_foldl_deliver, epoch]

theorem epoch_set (d : Ledger) (q x : QueueId) (k : SendKey) (kind : QueueKind) :
    (d.set q (k, kind)).epoch x = if x = q then kind.column else d.epoch x := by
  by_cases hx : x = q
  · subst hx
    cases kind <;> simp [epoch, inbox, QueueKind.column]
  · simp [epoch, inbox, d.set_queues_of_ne hx, hx]

theorem inbox_removeAcked (d : Ledger) (q : QueueId) (id : MessageId) :
    (d.removeAcked q id).inbox = d.inbox := by
  funext x
  unfold removeAcked
  rcases hq : d.queues q with _ | ⟨k, p | _⟩
  · rfl
  · by_cases hx : x = q
    · subst hx
      simp [inbox, hq]
    · simp [inbox, set_queues_of_ne _ hx]
  · rfl

theorem isMailbox_removeAcked (d : Ledger) (q : QueueId) (id : MessageId) :
    (d.removeAcked q id).isMailbox = d.isMailbox := by
  funext x
  unfold removeAcked
  rcases hq : d.queues q with _ | ⟨k, p | _⟩
  · rfl
  · by_cases hx : x = q
    · subst hx
      simp [isMailbox, hq]
    · simp [isMailbox, set_queues_of_ne _ hx]
  · rfl

theorem pending_removeAcked (d : Ledger) (q : QueueId) (id : MessageId) (x : QueueId) :
    (d.removeAcked q id).pending x =
      if x = q then (d.pending x).filter (fun p => p.1 ≠ id) else d.pending x := by
  unfold removeAcked
  rcases hq : d.queues q with _ | ⟨k, p | _⟩
  · by_cases hx : x = q
    · subst hx
      simp [pending, hq]
    · simp [hx]
  · by_cases hx : x = q
    · subst hx
      simp [pending, hq]
    · simp [pending, set_queues_of_ne _ hx, hx]
  · by_cases hx : x = q
    · subst hx
      simp [pending, hq]
    · simp [hx]

theorem storage_removeAcked (d : Ledger) (q : QueueId) (id : MessageId) :
    (d.removeAcked q id).storageBytesUsed = d.storageBytesUsed -
      (((d.pending q).filter (fun p => p.1 = id)).map
        (fun p => p.2.paddedCiphertext.length)).sum := by
  unfold removeAcked pending
  rcases d.queues q with _ | ⟨k, p | _⟩ <;> rfl

end Ledger

def Inner.ledger (i : Inner) : Ledger := ⟨durableQueues i.queues, i.storageBytesUsed⟩

namespace RelayState

def ledger (s : RelayState) : Ledger := s.inner.ledger

theorem ledger_setEntry (s : RelayState) (q : QueueId) (e : QueueEntry) :
    (s.setEntry q e).ledger = s.ledger.set q e.durable := by
  simp only [ledger, Inner.ledger, setEntry, Ledger.set, durableQueues_insert]

variable {s t : RelayState}

theorem ledger_setEntry_same {e e' : QueueEntry} (h : s.inner.queues.lookup q = some e)
    (hd : e'.durable = e.durable) : (s.setEntry q e').ledger = s.ledger := by
  rw [ledger_setEntry, hd]
  apply Ledger.ext
  · change Function.update s.ledger.queues q (some e.durable) = s.ledger.queues
    simp [ledger, Inner.ledger, durableQueues, h]
  · rfl

theorem ledger_queues (s : RelayState) (q : QueueId) :
    s.ledger.queues q = (s.inner.queues.lookup q).map QueueEntry.durable := rfl

theorem ledger_pending (s : RelayState) (q : QueueId) : s.ledger.pending q = s.pendingOf q := by
  unfold Ledger.pending pendingOf
  rw [ledger_queues]
  rcases s.inner.queues.lookup q with _ | ⟨k, _ | _, n, w⟩ <;> rfl

theorem ledger_epoch (s : RelayState) (x : QueueId) :
    s.ledger.epoch x = match s.inner.queues.lookup x with
      | some ⟨_, .groupInbox epoch _, _, _⟩ => some epoch
      | _ => none := by
  unfold Ledger.epoch Ledger.inbox
  rw [ledger_queues]
  rcases s.inner.queues.lookup x with _ | ⟨k, _ | _, n, w⟩ <;> rfl

theorem isMailbox_eq (s : RelayState) (q : QueueId) :
    isMailbox s.inner.queues q = s.ledger.isMailbox q := by
  unfold isMailbox Ledger.isMailbox
  rw [ledger_queues]
  rcases s.inner.queues.lookup q with _ | ⟨k, _ | _, n, w⟩ <;> rfl

theorem ledger_pushAndNotify (s : RelayState) (q : QueueId) (e : Envelope) :
    (s.pushAndNotify q e).ledger = s.ledger.deliver e q := by
  unfold Ledger.deliver
  rw [ledger_queues]
  rcases h : s.inner.queues.lookup q with _ | ⟨k, p | _, n, w⟩
  · simp only [pushAndNotify, h]
    rfl
  · simp only [pushAndNotify, h]
    apply Ledger.ext
    · exact durableQueues_insert _ _ _
    · rfl
  · simp only [pushAndNotify, h]
    rfl

theorem ledger_pushAll (s : RelayState) (members : List QueueId) (e : Envelope) :
    (s.pushAll members e).ledger = members.foldl (Ledger.deliver e) s.ledger := by
  induction members generalizing s with
  | nil => rfl
  | cons m members ih =>
    change ((s.pushAndNotify m e).pushAll members e).ledger = _
    rw [ih, ledger_pushAndNotify]
    rfl

theorem ledger_bumpEpoch {kind : GroupSendKind} (h : s.bumpEpoch x kind = some t) :
    t.ledger = s.ledger.advance x kind := by
  unfold Ledger.advance
  rw [ledger_queues]
  cases kind with
  | application =>
    cases h
    rcases s.inner.queues.lookup x with _ | ⟨k, _ | _, n, w⟩ <;> rfl
  | commit =>
    rcases hl : s.inner.queues.lookup x with _ | ⟨k, _ | ⟨epoch, fanOutTo⟩, n, w⟩
    · simp only [bumpEpoch, hl] at h
      cases h
      rfl
    · simp only [bumpEpoch, hl] at h
      cases h
      rfl
    · simp only [bumpEpoch, hl] at h
      split_ifs at h
      cases h
      rw [ledger_setEntry]
      rfl

theorem ledger_removeAcked (s : RelayState) (q : QueueId) (id : MessageId) :
    (s.removeAcked q id).ledger = s.ledger.removeAcked q id := by
  unfold Ledger.removeAcked
  rw [ledger_queues]
  rcases h : s.inner.queues.lookup q with _ | ⟨k, p | _, n, w⟩
  · simp only [removeAcked, h, map_none]
  · simp only [removeAcked, h]
    apply Ledger.ext
    · exact durableQueues_insert _ _ _
    · rfl
  · simp only [removeAcked, h, map_some, QueueEntry.durable]

theorem ledger_apply {m : Mutation} {now : ℕ} (h : m.apply now s = some t) :
    t.ledger = s.ledger.apply m := by
  cases m with
  | createMailbox q | createGroupInbox q =>
    cases h
    exact ledger_setEntry s q _
  | sendToMailbox q e =>
    cases h
    exact ledger_pushAndNotify s q e
  | sendToGroupInbox =>
    obtain ⟨u, hu, rfl⟩ := map_eq_some_iff.mp h
    rw [ledger_pushAll, ledger_bumpEpoch hu]
    rfl
  | ack q id =>
    cases h
    exact ledger_removeAcked s q id

end RelayState
end Rosette.Relay
