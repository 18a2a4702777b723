import Rosette.Relay.Storage

/-! # What a refused send leaves behind

Nothing, for every refusal but one. A send to a mailbox is counted against the rate
window before the relay looks for room, so a send refused for want of room has used
up quota. A send to a group inbox looks first and is counted last.
-/
namespace Rosette.Relay
open Foundation Proto RelayState List Option

def crowdedOut : ClientMessage → RejectionCode → Bool
  | .sendToMailbox _ _ _, .storageBoundExceeded => true
  | _, _ => false

/-- Nothing separates the two states, but that a rate window that had expired may
have been started anew, empty. -/
inductive Untouched (now : ℕ) (s : RelayState) : RelayState → Prop where
  | same : Untouched now s s
  | restarted {q : QueueId} {e : QueueEntry} (found : s.inner.queues.lookup q = some e)
      (expired : rateWindow ≤ now - e.windowStarted) :
    Untouched now s (s.setEntry q { e with windowStarted := now, sentThisMinute := 0 })

section Refusal
variable {c : Crypto} {amb : Ambient} {s t : RelayState} {q : QueueId} {entry entry' : QueueEntry}
  {tag : AuthTag} {e : Envelope} {code : RejectionCode}

/-- A counted send shows: its window holds one more than it did, or one where it
would be empty. -/
theorem not_untouched_of_counted (found : s.inner.queues.lookup q = some entry)
    (window : entry.checkAndBumpRateLimit amb.now = (.ok (), entry')) :
    ¬ Untouched amb.now s (s.setEntry q entry') := by
  obtain ⟨-, rfl⟩ := QueueEntry.checkAndBumpRateLimit_counted window
  have hlook := lookup_setEntry s q (entry.atTime amb.now).bumped
  have hne := QueueEntry.bumped_atTime_ne entry amb.now
  intro h
  generalize s.setEntry q (entry.atTime amb.now).bumped = t at h hlook
  cases h with
  | same =>
    rw [found] at hlook
    exact hne (some.inj hlook).symm
  | @restarted p =>
    by_cases hqp : q = p
    · subst hqp
      rw [lookup_setEntry] at hlook
      have hn : 0 = (entry.atTime amb.now).sentThisMinute + 1 :=
        congrArg QueueEntry.sentThisMinute (some.inj hlook)
      omega
    · rw [lookup_setEntry_of_ne s hqp, found] at hlook
      exact hne (some.inj hlook).symm

theorem refused_sendToMailbox (h : sendToMailbox c amb s q tag e = (t, .answer (.error code))) :
    Untouched amb.now s t ↔ code ≠ .storageBoundExceeded := by
  have hs := mailboxSend c amb s q tag e
  rw [h] at hs
  cases hs with
  | noRoom found window =>
    exact ⟨fun hu => absurd hu (not_untouched_of_counted found window), fun hne => absurd rfl hne⟩
  | _ => exact ⟨fun _ => by decide, fun _ => .same⟩

theorem refused_sendToGroupInbox {kind : GroupSendKind}
    (h : sendToGroupInbox c amb s q kind tag e = (t, .answer (.error code))) : t = s := by
  have hs := inboxSend c amb s q tag e kind
  rw [h] at hs
  cases hs <;> rfl

theorem answered_send {msg : ClientMessage} {pushTx : Option ChannelId} {reply : ServerMessage}
    (hsend : (sendTarget msg).isSome = true) (h : (s.handle c amb msg pushTx).2 = .answered reply) :
    (∃ code, reply = .error code) ∨ ∃ m, (plan c amb s msg pushTx).2 = .write m := by
  have hp := planned_plan c amb s msg pushTx
  unfold handle at h
  generalize plan c amb s msg pushTx = r at hp h ⊢
  rcases r with ⟨s₁, answer | m | _ | _⟩
  · obtain rfl := Handled.answered.inj h
    cases hp.answers answer rfl with
    | sendRefused code | groupSendRefused code => exact .inl ⟨code, rfl⟩
    | _ => cases hsend
  · exact .inr ⟨m, rfl⟩
  · cases h
  · cases h

/-- A send that is answered with an error leaves the whole relay as it was, unless it
is a send to a mailbox that found the relay full. -/
theorem refused_send_leaves_no_trace_iff (c : Crypto) (amb : Ambient) (s t : RelayState)
    (msg : ClientMessage) (pushTx : Option ChannelId) (code : RejectionCode)
    (hsend : (sendTarget msg).isSome = true)
    (h : s.handle c amb msg pushTx = (t, .answered (.error code))) :
    Untouched amb.now s t ↔ crowdedOut msg code = false := by
  have hplan := plan_of_refused h
  cases msg with
  | sendToMailbox =>
    rw [refused_sendToMailbox hplan]
    cases code <;> simp [crowdedOut]
  | sendToGroupInbox =>
    obtain rfl := refused_sendToGroupInbox hplan
    exact ⟨fun _ => rfl, fun _ => .same⟩
  | _ => cases hsend

end Refusal

/-- A forged tag on a fresh mailbox. -/
theorem refused_send_leaves_no_trace_iff_forged :
    ∃ s t, run (Service.step .plain) (Service.boot false)
        (mint 1 (fun solution => .createMailbox solution none)) = some s ∧
      s.relay.handle .plain (.fill 0) (.sendToMailbox (.fill 1) (.fill 1)
        ⟨.fill 3, .relayFanout, [3]⟩) none = (t, .answered (.error .unauthorized)) ∧
      Untouched 0 s.relay t := by
  obtain ⟨s, hs, hreply⟩ : ∃ s, run (Service.step .plain) (Service.boot false)
      (mint 1 (fun solution => .createMailbox solution none)) = some s ∧
        (s.relay.handle .plain (.fill 0) (.sendToMailbox (.fill 1) (.fill 1)
          ⟨.fill 3, .relayFanout, [3]⟩) none).2 = .answered (.error .unauthorized) := by
    decide +kernel
  have hh := Prod.mk.eta.symm.trans (congrArg (Prod.mk _) hreply)
  exact ⟨s, _, hs, hh,
    (refused_send_leaves_no_trace_iff .plain (.fill 0) s.relay _ _ none _ rfl hh).mpr rfl⟩

/-! ## A full relay

One mailbox on the roster of a group inbox 128 times, and a full-size message sent to
the inbox once a minute. After 1280 minutes the last byte of storage is taken; a second
mailbox, still empty, is then sent one byte.
-/

def crowd : List QueueId := replicate 128 (.fill 1)

def flooding : List RelayEvent :=
  mint 1 (fun solution => .createMailbox solution none) ++
    mint 2 (fun solution => .createGroupInbox solution 1 crowd none) ++
    mint 4 (fun solution => .createMailbox solution none)

def flood (e : Envelope) (n : ℕ) : RelayEvent :=
  .request { Ambient.fill 0 with now := n * rateWindow }
    (.sendToGroupInbox (.fill 2) .application (.fill 0) e) none

/-- After `n` of these messages. -/
structure Flooded (n : ℕ) (s : RelayState) : Prop where
  awake : s.poisoned = false
  memory : s.inner.db = none
  used : s.ledger.storageBytesUsed = n * (65536 * 128)
  target : s.ledger.isMailbox (.fill 1) = true
  inbox : ∃ k sent started, s.inner.queues.lookup (Bytes.fill 2) =
      some ⟨k, .groupInbox 1 crowd, sent, started⟩ ∧ started ≤ n * rateWindow ∧
      (sent = 0 ∨ rateWindow ≤ n * rateWindow - started)
  spare : s.inner.queues.lookup (Bytes.fill 4) = some ⟨.fill 4, .mailbox [], 0, 0⟩

theorem lookup_pushAll_of_not_mem {x : QueueId} (e : Envelope) {members : List QueueId}
    (h : x ∉ members) (s : RelayState) :
    (s.pushAll members e).inner.queues.lookup x = s.inner.queues.lookup x := by
  induction members generalizing s with
  | nil => rfl
  | cons m members ih =>
    have hx : x ≠ m := fun hm => h (hm ▸ mem_cons_self)
    refine (ih (fun hm => h (mem_cons_of_mem _ hm)) (s.pushAndNotify m e)).trans ?_
    unfold pushAndNotify
    split
    · exact lookup_setEntry_of_ne s hx _
    · rfl

theorem window_counts_one (k : SendKey) (kind : QueueKind) {sent started now : ℕ}
    (hstarted : started ≤ now) (hfresh : sent = 0 ∨ rateWindow ≤ now - started) :
    ∃ w ≤ now, QueueEntry.checkAndBumpRateLimit ⟨k, kind, sent, started⟩ now =
      (.ok (), ⟨k, kind, 1, w⟩) := by
  rw [QueueEntry.checkAndBumpRateLimit_eq]
  by_cases hold : rateWindow ≤ now - started
  · refine ⟨now, le_rfl, ?_⟩
    rw [QueueEntry.atTime, if_pos hold]
    rfl
  · obtain rfl := hfresh.resolve_right hold
    refine ⟨started, hstarted, ?_⟩
    rw [QueueEntry.atTime, if_neg hold]
    rfl

variable {e : Envelope} {n : ℕ}

theorem Flooded.step (he : e.paddedCiphertext.length = 65536) {s : RelayState} (h : Flooded n s)
    (hn : n < 1280) :
    ∃ t, s.handle .plain { Ambient.fill 0 with now := n * rateWindow }
        (.sendToGroupInbox (.fill 2) .application (.fill 0) e) none =
          (t, .answered .ok) ∧ Flooded (n + 1) t := by
  obtain ⟨k, sent, started, hfound, hstarted, hfresh⟩ := h.inbox
  obtain ⟨w, hw, hwindow⟩ := window_counts_one k (.groupInbox 1 crowd) hstarted hfresh
  have hfits : n * (65536 * 128) + 65536 * 128 ≤ maxStorageBytes := by
    unfold maxStorageBytes
    omega
  have hroom : wouldExceedStorageBound s.inner e.paddedCiphertext.length crowd.length =
      some false := by
    rw [he, crowd, length_replicate]
    refine wouldExceedStorageBound_of_le (by norm_num) ?_
    change s.ledger.storageBytesUsed + _ ≤ _
    rw [h.used]
    exact hfits
  have hplan : sendToGroupInbox .plain { Ambient.fill 0 with now := n * rateWindow } s
      (.fill 2) .application (.fill 0) e =
        (s.setEntry (.fill 2) ⟨k, .groupInbox 1 crowd, 1, w⟩,
          .write (.sendToGroupInbox (.fill 2) .application e crowd)) :=
    sendToGroupInbox_accepted he.le h.awake hfound rfl rfl hroom hwindow
  have hledger : (s.setEntry (.fill 2) ⟨k, .groupInbox 1 crowd, 1, w⟩).ledger = s.ledger :=
    ledger_setEntry_same hfound rfl
  generalize hs₁ : s.setEntry (.fill 2) ⟨k, .groupInbox 1 crowd, 1, w⟩ = s₁ at hplan hledger
  refine ⟨s₁.pushAll crowd e, ?_, ?_⟩
  · have hper : s₁.persist (.sendToGroupInbox (.fill 2) .application e crowd) = some s₁ := by
      have hdb : s₁.inner.db = none := by rw [← hs₁]; exact h.memory
      rw [persist, hdb]
    unfold handle
    dsimp only [plan]
    rw [hplan, finish, hper]
    rfl
  · have hnot : ∀ b : UInt8, b ≠ 1 → .fill b ∉ crowd := by
      intro b hb hmem
      have hfill := eq_of_mem_replicate hmem
      exact hb (congrArg List.Vector.head hfill)
    obtain ⟨hdb, hpoison⟩ := pushAll_frame crowd e s₁
    have hl : (s₁.pushAll crowd e).ledger = crowd.foldl (Ledger.deliver e) s.ledger := by
      rw [ledger_pushAll, hledger]
    have htargets : crowd.countP s.ledger.isMailbox = 128 := by
      rw [crowd, countP_replicate, if_pos h.target]
    constructor
    · rw [hpoison, ← hs₁]
      exact h.awake
    · rw [hdb, ← hs₁]
      exact h.memory
    · rw [hl, Ledger.storage_foldl_deliver, h.used, htargets, he]
      ring
    · rw [hl, Ledger.isMailbox_foldl_deliver]
      exact h.target
    · refine ⟨k, 1, w, ?_, ?_, .inr ?_⟩
      · rw [lookup_pushAll_of_not_mem e (hnot 2 (by decide)), ← hs₁, lookup_setEntry]
      · rw [Nat.succ_mul]
        omega
      · rw [Nat.succ_mul]
        omega
    · rw [lookup_pushAll_of_not_mem e (hnot 4 (by decide)), ← hs₁,
        lookup_setEntry_of_ne s (by decide), h.spare]

theorem run_flood (he : e.paddedCiphertext.length = 65536) {s : Service} (h : Flooded 0 s.relay)
    (hn : n ≤ 1280) :
    ∃ t, run (Service.step .plain) s ((range n).map (flood e)) = some t ∧ Flooded n t.relay := by
  induction n with
  | zero => exact ⟨s, rfl, h⟩
  | succ n ih =>
    obtain ⟨t, ht, hflooded⟩ := ih (by omega)
    obtain ⟨u, hu, hnext⟩ := hflooded.step he (by omega)
    refine ⟨⟨u, t.log ++ [(.sendToGroupInbox (.fill 2) .application (.fill 0) e,
      .ok)]⟩, ?_, hnext⟩
    rw [range_succ, map_append, run_append, ht]
    simp only [map_cons, map_nil, run, flood, Service.step, hu, bind_some]

theorem flooding_flooded : ∃ s, run (Service.step .plain) (Service.boot false) flooding = some s ∧
    Flooded 0 s.relay := by
  obtain ⟨s, hs, hawake, hmem, hused, htarget, hinbox, hspare⟩ :
      ∃ s, run (Service.step .plain) (Service.boot false) flooding = some s ∧
      s.relay.poisoned = false ∧ s.relay.inner.db.isNone = true ∧
      s.relay.ledger.storageBytesUsed = 0 ∧ s.relay.ledger.isMailbox (.fill 1) = true ∧
      s.relay.inner.queues.lookup (Bytes.fill 2) = some ⟨.fill 2, .groupInbox 1 crowd, 0, 0⟩ ∧
      s.relay.inner.queues.lookup (Bytes.fill 4) = some ⟨.fill 4, .mailbox [], 0, 0⟩ := by
    decide +kernel
  exact ⟨s, hs, hawake, isNone_iff_eq_none.mp hmem, hused, htarget,
    ⟨_, 0, 0, hinbox, Nat.zero_le _, .inl rfl⟩, hspare⟩

/-- The full relay refuses one byte for the empty mailbox, and counts it. -/
theorem crowdedOut_send_is_counted :
    ∃ s t, run (Service.step .plain) (Service.boot false) (flooding ++ (range 1280).map
        (flood ⟨.fill 3, .relayFanout, replicate maxMessageSize 0⟩)) = some s ∧
      s.relay.handle .plain (.fill 0) (.sendToMailbox (.fill 4) (.fill 0)
        ⟨.fill 5, .relayFanout, [5]⟩) none =
          (t, .answered (.error .storageBoundExceeded)) ∧
      ¬ Untouched 0 s.relay t := by
  obtain ⟨s₀, hs₀, h₀⟩ := flooding_flooded
  obtain ⟨s, hs, h⟩ := run_flood (e := ⟨.fill 3, .relayFanout, replicate maxMessageSize 0⟩)
    length_replicate h₀ le_rfl
  have hroom : wouldExceedStorageBound s.relay.inner 1 1 = some true := by
    have hused : s.relay.inner.storageBytesUsed = 1280 * (65536 * 128) := h.used
    rw [wouldExceedStorageBound, hused]
    decide
  have hplan : sendToMailbox .plain (.fill 0) s.relay (.fill 4) (.fill 0)
      ⟨.fill 5, .relayFanout, [5]⟩ =
        (s.relay.setEntry (.fill 4) ⟨.fill 4, .mailbox [], 1, 0⟩,
          .answer (.error .storageBoundExceeded)) :=
    sendToMailbox_noRoom (by decide) h.awake h.spare rfl (by decide) rfl hroom
  have htrace : ¬ Untouched (Ambient.fill 0).now s.relay _ := not_untouched_of_counted h.spare rfl
  refine ⟨s, _, ?_, ?_, htrace⟩
  · rw [run_append, hs₀, bind_some, hs]
  · unfold handle
    dsimp only [plan]
    rw [hplan]
    rfl

end Rosette.Relay
