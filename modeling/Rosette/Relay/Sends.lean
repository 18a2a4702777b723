import Rosette.Relay.State

/-! # How a send's checks end

Both send requests walk through their checks in a fixed order and leave at the first
that fails. Every exit is listed once, with what has been checked and what has been
touched by then.

The order differs. A send to a mailbox counts against the rate window before it asks
for room; a send to a group inbox asks first.
-/
namespace Rosette.Relay
open Foundation Proto

def sendTarget : ClientMessage → Option QueueId
  | .sendToMailbox q _ _ => some q
  | .sendToGroupInbox q _ _ _ => some q
  | _ => none

namespace QueueEntry
variable {e e' : QueueEntry} {now : ℕ}

/-- The entry with its rate window as a send at `now` finds it. -/
def atTime (e : QueueEntry) (now : ℕ) : QueueEntry :=
  if rateWindow ≤ now - e.windowStarted then { e with windowStarted := now, sentThisMinute := 0 }
  else e

def bumped (e : QueueEntry) : QueueEntry := { e with sentThisMinute := e.sentThisMinute + 1 }

theorem checkAndBumpRateLimit_eq (e : QueueEntry) (now : ℕ) : e.checkAndBumpRateLimit now =
    if rateLimitPerQueuePerMinute ≤ (e.atTime now).sentThisMinute then
      (.error .rateLimited, e.atTime now)
    else (.ok (), (e.atTime now).bumped) := rfl

theorem checkAndBumpRateLimit_limited {code : RejectionCode}
    (h : e.checkAndBumpRateLimit now = (.error code, e')) : code = .rateLimited ∧ e' = e := by
  rw [checkAndBumpRateLimit_eq] at h
  split_ifs at h with hfull
  · cases h
    refine ⟨rfl, ?_⟩
    unfold atTime at hfull ⊢
    split_ifs at hfull ⊢ with hold
    · exact absurd hfull (by change ¬ rateLimitPerQueuePerMinute ≤ 0; decide)
    · rfl
  · cases h

theorem checkAndBumpRateLimit_counted (h : e.checkAndBumpRateLimit now = (.ok (), e')) :
    (e.atTime now).sentThisMinute < rateLimitPerQueuePerMinute ∧ e' = (e.atTime now).bumped := by
  rw [checkAndBumpRateLimit_eq] at h
  split_ifs at h with hfull
  · cases h
  · exact ⟨Nat.lt_of_not_le hfull, (Prod.mk.inj h).2.symm⟩

theorem bumped_atTime_ne (e : QueueEntry) (now : ℕ) : (e.atTime now).bumped ≠ e := by
  intro h
  unfold atTime at h
  split_ifs at h with hold
  · have hw : now = e.windowStarted := congrArg QueueEntry.windowStarted h
    rw [hw, Nat.sub_self] at hold
    exact absurd hold (by decide)
  · have hn : e.sentThisMinute + 1 = e.sentThisMinute := congrArg QueueEntry.sentThisMinute h
    omega

theorem checkAndBumpRateLimit_cases (e : QueueEntry) (now : ℕ) :
    e.checkAndBumpRateLimit now = (.error .rateLimited, e) ∨
      ∃ e', e.checkAndBumpRateLimit now = (.ok (), e') := by
  rcases h : e.checkAndBumpRateLimit now with ⟨code | _, e'⟩
  · obtain ⟨rfl, rfl⟩ := checkAndBumpRateLimit_limited h
    exact .inl rfl
  · exact .inr ⟨e', rfl⟩

end QueueEntry

namespace RelayState
variable {c : Crypto} {amb : Ambient} {s : RelayState} {q : QueueId} {tag : AuthTag} {e : Envelope}
  {k : SendKey} {n w : ℕ} {entry' : QueueEntry}

theorem setEntry_self {entry : QueueEntry} (h : s.inner.queues.lookup q = some entry) :
    s.setEntry q entry = s := by
  have hq : s.inner.queues.insert q entry = s.inner.queues := by
    apply Finmap.ext_lookup
    intro x
    by_cases hx : x = q
    · subst hx
      rw [Finmap.lookup_insert, h]
    · rw [Finmap.lookup_insert_of_ne _ hx]
  unfold setEntry
  rw [hq]

theorem lookup_setEntry (s : RelayState) (q : QueueId) (e : QueueEntry) :
    (s.setEntry q e).inner.queues.lookup q = some e := Finmap.lookup_insert _

theorem lookup_setEntry_of_ne (s : RelayState) {x : QueueId} (h : x ≠ q) (e : QueueEntry) :
    (s.setEntry q e).inner.queues.lookup x = s.inner.queues.lookup x :=
  Finmap.lookup_insert_of_ne _ h

/-- The exits of a send to a mailbox. -/
inductive MailboxSend (c : Crypto) (amb : Ambient) (s : RelayState) (q : QueueId) (tag : AuthTag)
    (e : Envelope) : RelayState × Plan → Prop where
  | tooLarge (size : maxMessageSize < e.paddedCiphertext.length) :
    MailboxSend c amb s q tag e (s, .answer (.error .messageTooLarge))
  | poisoned (asleep : s.poisoned = true) : MailboxSend c amb s q tag e (s, .panic)
  | unknown (absent : ∀ k pending n w, s.inner.queues.lookup q ≠ some ⟨k, .mailbox pending, n, w⟩) :
    MailboxSend c amb s q tag e (s, .answer (.error .queueNotFound))
  | forged {entry} (found : s.inner.queues.lookup q = some entry)
      (auth : verifyTag c entry.sendKey q e tag = false) :
    MailboxSend c amb s q tag e (s, .answer (.error .unauthorized))
  | full {k pending n w} (found : s.inner.queues.lookup q = some ⟨k, .mailbox pending, n, w⟩)
      (depth : maxQueueDepth ≤ pending.length) :
    MailboxSend c amb s q tag e (s, .answer (.error .queueFull))
  | limited {entry} (found : s.inner.queues.lookup q = some entry)
      (window : entry.checkAndBumpRateLimit amb.now = (.error .rateLimited, entry)) :
    MailboxSend c amb s q tag e (s, .answer (.error .rateLimited))
  | overflow {entry entry'} (size : e.paddedCiphertext.length ≤ maxMessageSize)
      (found : s.inner.queues.lookup q = some entry)
      (window : entry.checkAndBumpRateLimit amb.now = (.ok (), entry'))
      (room : wouldExceedStorageBound s.inner e.paddedCiphertext.length 1 = none) :
    MailboxSend c amb s q tag e (s.setEntry q entry', .panic)
  | noRoom {entry entry'} (found : s.inner.queues.lookup q = some entry)
      (window : entry.checkAndBumpRateLimit amb.now = (.ok (), entry'))
      (room : wouldExceedStorageBound s.inner e.paddedCiphertext.length 1 = some true) :
    MailboxSend c amb s q tag e (s.setEntry q entry', .answer (.error .storageBoundExceeded))
  | accepted {k pending n w entry'} (size : e.paddedCiphertext.length ≤ maxMessageSize)
      (awake : s.poisoned = false)
      (found : s.inner.queues.lookup q = some ⟨k, .mailbox pending, n, w⟩)
      (auth : verifyTag c k q e tag = true) (depth : pending.length < maxQueueDepth)
      (window : QueueEntry.checkAndBumpRateLimit ⟨k, .mailbox pending, n, w⟩ amb.now =
        (.ok (), entry'))
      (room : wouldExceedStorageBound s.inner e.paddedCiphertext.length 1 = some false) :
    MailboxSend c amb s q tag e (s.setEntry q entry', .write (.sendToMailbox q e))

variable (c amb s q tag e) in
theorem mailboxSend : MailboxSend c amb s q tag e (sendToMailbox c amb s q tag e) := by
  unfold sendToMailbox
  split_ifs with hsize hp
  · exact .tooLarge hsize
  · exact .poisoned hp
  rcases hl : s.inner.queues.lookup q with _ | ⟨k, pending | ⟨epoch, roster⟩, n, w⟩
  · exact .unknown (by simp [hl])
  · dsimp only
    split_ifs with ht hd
    · exact .forged hl (by simpa using ht)
    · exact .full hl hd
    rcases QueueEntry.checkAndBumpRateLimit_cases ⟨k, .mailbox pending, n, w⟩ amb.now with
      hlim | ⟨entry', hok⟩
    · rw [hlim]
      dsimp only
      rw [setEntry_self hl]
      exact .limited hl hlim
    · rw [hok]
      dsimp only
      rcases hroom : wouldExceedStorageBound (s.setEntry q entry').inner
        e.paddedCiphertext.length 1 with _ | _ | _
      · exact .overflow (Nat.le_of_not_lt hsize) hl hok hroom
      · exact .accepted (Nat.le_of_not_lt hsize) (Bool.eq_false_of_not_eq_true hp) hl
          (by simpa using ht) (Nat.lt_of_not_le hd) hok hroom
      · exact .noRoom hl hok hroom
  · exact .unknown (by simp [hl])

/-- The exits of a send to a group inbox. -/
inductive InboxSend (c : Crypto) (amb : Ambient) (s : RelayState) (q : QueueId)
    (kind : GroupSendKind) (tag : AuthTag) (e : Envelope) : RelayState × Plan → Prop where
  | tooLarge (size : maxMessageSize < e.paddedCiphertext.length) :
    InboxSend c amb s q kind tag e (s, .answer (.error .messageTooLarge))
  | poisoned (asleep : s.poisoned = true) : InboxSend c amb s q kind tag e (s, .panic)
  | unknown (absent : ∀ k epoch roster n w,
      s.inner.queues.lookup q ≠ some ⟨k, .groupInbox epoch roster, n, w⟩) :
    InboxSend c amb s q kind tag e (s, .answer (.error .groupInboxNotFound))
  | forged {entry} (found : s.inner.queues.lookup q = some entry)
      (auth : verifyTag c entry.sendKey q e tag = false) :
    InboxSend c amb s q kind tag e (s, .answer (.error .unauthorized))
  | conflict {k epoch roster n w}
      (found : s.inner.queues.lookup q = some ⟨k, .groupInbox epoch roster, n, w⟩)
      (stale : conflicts kind epoch = true) :
    InboxSend c amb s q kind tag e (s, .answer (.error .epochConflict))
  | overflow {k epoch roster n w} (size : e.paddedCiphertext.length ≤ maxMessageSize)
      (found : s.inner.queues.lookup q = some ⟨k, .groupInbox epoch roster, n, w⟩)
      (room : wouldExceedStorageBound s.inner e.paddedCiphertext.length roster.length = none) :
    InboxSend c amb s q kind tag e (s, .panic)
  | noRoom {k epoch roster n w}
      (found : s.inner.queues.lookup q = some ⟨k, .groupInbox epoch roster, n, w⟩)
      (room : wouldExceedStorageBound s.inner e.paddedCiphertext.length roster.length = some true) :
    InboxSend c amb s q kind tag e (s, .answer (.error .storageBoundExceeded))
  | limited {entry} (found : s.inner.queues.lookup q = some entry)
      (window : entry.checkAndBumpRateLimit amb.now = (.error .rateLimited, entry)) :
    InboxSend c amb s q kind tag e (s, .answer (.error .rateLimited))
  | accepted {k epoch roster n w entry'} (size : e.paddedCiphertext.length ≤ maxMessageSize)
      (awake : s.poisoned = false)
      (found : s.inner.queues.lookup q = some ⟨k, .groupInbox epoch roster, n, w⟩)
      (auth : verifyTag c k q e tag = true) (current : conflicts kind epoch = false)
      (room : wouldExceedStorageBound s.inner e.paddedCiphertext.length roster.length = some false)
      (window : QueueEntry.checkAndBumpRateLimit ⟨k, .groupInbox epoch roster, n, w⟩ amb.now =
        (.ok (), entry')) :
    InboxSend c amb s q kind tag e
      (s.setEntry q entry', .write (.sendToGroupInbox q kind e roster))

variable (c amb s q tag e) in
theorem inboxSend (kind : GroupSendKind) :
    InboxSend c amb s q kind tag e (sendToGroupInbox c amb s q kind tag e) := by
  unfold sendToGroupInbox
  split_ifs with hsize hp
  · exact .tooLarge hsize
  · exact .poisoned hp
  rcases hl : s.inner.queues.lookup q with _ | ⟨k, boxKind, n, w⟩
  · exact .unknown (by simp [hl])
  dsimp only
  split_ifs with ht
  · exact .forged hl (by simpa using ht)
  rcases boxKind with pending | ⟨epoch, roster⟩
  · exact .unknown (by simp [hl])
  dsimp only
  split_ifs with hc
  · exact .conflict hl hc
  rcases hroom : wouldExceedStorageBound s.inner e.paddedCiphertext.length roster.length
    with _ | _ | _
  · exact .overflow (Nat.le_of_not_lt hsize) hl hroom
  · rcases QueueEntry.checkAndBumpRateLimit_cases ⟨k, .groupInbox epoch roster, n, w⟩ amb.now with
      hlim | ⟨entry', hok⟩
    · rw [hlim]
      dsimp only
      rw [setEntry_self hl]
      exact .limited hl hlim
    · rw [hok]
      exact .accepted (Nat.le_of_not_lt hsize) (Bool.eq_false_of_not_eq_true hp) hl
        (by simpa using ht) (Bool.eq_false_of_not_eq_true hc) hroom hok
  · exact .noRoom hl hroom

variable (c amb s) in
/-- The checks of a send touch nothing, and then it writes nothing, or count it. -/
theorem plan_of_send {msg : ClientMessage} (h : sendTarget msg = some q)
    (pushTx : Option ChannelId) :
    (plan c amb s msg pushTx).1 = s ∧ (∀ m, (plan c amb s msg pushTx).2 ≠ .write m) ∨
      ∃ entry entry', s.inner.queues.lookup q = some entry ∧
        entry.checkAndBumpRateLimit amb.now = (.ok (), entry') ∧
        (plan c amb s msg pushTx).1 = s.setEntry q entry' := by
  cases msg with
  | sendToMailbox p tag e =>
    obtain rfl := Option.some.inj h
    have hs := mailboxSend c amb s p tag e
    simp only [plan]
    generalize sendToMailbox c amb s p tag e = r at hs
    cases hs with
    | overflow size found window | noRoom found window
    | accepted size awake found auth depth window => exact .inr ⟨_, _, found, window, rfl⟩
    | _ => exact .inl ⟨rfl, by simp⟩
  | sendToGroupInbox p kind tag e =>
    obtain rfl := Option.some.inj h
    have hs := inboxSend c amb s p tag e kind
    simp only [plan]
    generalize sendToGroupInbox c amb s p kind tag e = r at hs
    cases hs with
    | accepted size awake found auth current room window => exact .inr ⟨_, _, found, window, rfl⟩
    | _ => exact .inl ⟨rfl, by simp⟩
  | _ => cases h

theorem sendToMailbox_noRoom {pending : List (MessageId × Envelope)}
    (size : e.paddedCiphertext.length ≤ maxMessageSize) (awake : s.poisoned = false)
    (found : s.inner.queues.lookup q = some ⟨k, .mailbox pending, n, w⟩)
    (auth : verifyTag c k q e tag = true) (depth : pending.length < maxQueueDepth)
    (window : QueueEntry.checkAndBumpRateLimit ⟨k, .mailbox pending, n, w⟩ amb.now =
      (.ok (), entry'))
    (room : wouldExceedStorageBound s.inner e.paddedCiphertext.length 1 = some true) :
    sendToMailbox c amb s q tag e =
      (s.setEntry q entry', .answer (.error .storageBoundExceeded)) := by
  unfold sendToMailbox
  rw [if_neg (Nat.not_lt.mpr size), if_neg (by simp [awake]), found]
  dsimp only
  rw [if_neg (by simp [auth]), if_neg (Nat.not_le.mpr depth), window]
  have hroom : wouldExceedStorageBound (s.setEntry q entry').inner e.paddedCiphertext.length 1 =
      some true := room
  dsimp only
  rw [hroom]

theorem sendToGroupInbox_accepted {kind : GroupSendKind} {epoch : UInt64} {roster : List QueueId}
    (size : e.paddedCiphertext.length ≤ maxMessageSize) (awake : s.poisoned = false)
    (found : s.inner.queues.lookup q = some ⟨k, .groupInbox epoch roster, n, w⟩)
    (auth : verifyTag c k q e tag = true) (current : conflicts kind epoch = false)
    (room : wouldExceedStorageBound s.inner e.paddedCiphertext.length roster.length = some false)
    (window : QueueEntry.checkAndBumpRateLimit ⟨k, .groupInbox epoch roster, n, w⟩ amb.now =
      (.ok (), entry')) :
    sendToGroupInbox c amb s q kind tag e =
      (s.setEntry q entry', .write (.sendToGroupInbox q kind e roster)) := by
  unfold sendToGroupInbox
  rw [if_neg (Nat.not_lt.mpr size), if_neg (by simp [awake]), found]
  dsimp only
  rw [if_neg (by simp [auth]), if_neg (by simp [current]), room]
  rw [window]

end RelayState
end Rosette.Relay
