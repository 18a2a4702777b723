import Rosette.Relay.Ledger
import Rosette.Relay.Sends

/-! # What one request can do

The checks of every request, read off once: a request leaves the ledger alone
until its mutation, a mutation is admitted only under the conditions below, and a
refusal for an epoch conflict means what it says.
-/
namespace Rosette.Relay
open Foundation Proto

/-- The mutation a request may lead to, with everything the relay has checked by then. -/
inductive Admits (c : Crypto) (d : Ledger) : ClientMessage → Mutation → Prop where
  | createMailbox {q k} (fresh : d.queues q = none) :
    Admits c d (.createMailbox solution attestation) (.createMailbox q k)
  | createGroupInbox {epoch fanOutTo q k} (fresh : d.queues q = none) :
    Admits c d (.createGroupInbox solution epoch fanOutTo attestation)
      (.createGroupInbox q k epoch fanOutTo)
  | sendToMailbox {q tag e k pending} (size : e.paddedCiphertext.length ≤ maxMessageSize)
      (entry : d.queues q = some (k, .mailbox pending)) (auth : verifyTag c k q e tag = true)
      (depth : pending.length < maxQueueDepth) :
    Admits c d (.sendToMailbox q tag e) (.sendToMailbox q e)
  | sendToGroupInbox {q kind tag e k epoch roster}
      (size : e.paddedCiphertext.length ≤ maxMessageSize)
      (entry : d.queues q = some (k, .groupInbox epoch roster))
      (auth : verifyTag c k q e tag = true) (current : RelayState.conflicts kind epoch = false) :
    Admits c d (.sendToGroupInbox q kind tag e) (.sendToGroupInbox q kind e roster)
  | ack {q id} : Admits c d (.ack q id) (.ack q id)

/-- The queue is a group inbox of another epoch than the commit's. -/
def Ledger.Stale (d : Ledger) (q : QueueId) (kind : GroupSendKind) : Prop :=
  ∃ k epoch roster target, d.queues q = some (k, .groupInbox epoch roster) ∧
    kind = .commit target ∧ target ≠ epoch

/-- The answers given without a durable write. -/
inductive Answers (d : Ledger) : ClientMessage → ServerMessage → Prop where
  | challenge (challenge : PowChallenge) : Answers d .requestPowChallenge (.powChallenge challenge)
  | mailboxRefused {solution attestation} (code : RejectionCode) :
    Answers d (.createMailbox solution attestation) (.error code)
  | inboxRefused {solution epoch fanOutTo attestation} (code : RejectionCode) :
    Answers d (.createGroupInbox solution epoch fanOutTo attestation) (.error code)
  | sendRefused {q tag e} (code : RejectionCode) : Answers d (.sendToMailbox q tag e) (.error code)
  | groupSendRefused {q kind tag e} (code : RejectionCode)
      (conflict : code = .epochConflict → d.Stale q kind) :
    Answers d (.sendToGroupInbox q kind tag e) (.error code)
  | subscribed {ids} : Answers d (.subscribe ids) .ok

namespace RelayState

/-- Nothing durable, and no poison, separates the two states. -/
structure Quiet (s t : RelayState) : Prop where
  ledger : t.ledger = s.ledger
  db : t.inner.db = s.inner.db
  poisoned : t.poisoned = s.poisoned

/-- Nor has any push been sent or any subscription changed. -/
structure Silent (s t : RelayState) : Prop extends Quiet s t where
  channels : t.channels = s.channels
  subscribers : t.inner.subscribers = s.inner.subscribers

theorem Quiet.refl (s : RelayState) : Quiet s s := ⟨rfl, rfl, rfl⟩

theorem Silent.refl (s : RelayState) : Silent s s := ⟨Quiet.refl s, rfl, rfl⟩

variable {s t : RelayState} {q : QueueId} {e e' : QueueEntry} {b : Inner} {msg : ClientMessage}
  {m : Mutation}

theorem Silent.setEntry (h : s.inner.queues.lookup q = some e) (hd : e'.durable = e.durable) :
    Silent s (s.setEntry q e') := ⟨⟨ledger_setEntry_same h hd, rfl, rfl⟩, rfl, rfl⟩

/-- Two inner states that differ in the abuse bookkeeping only. -/
structure SameCore (a b : Inner) : Prop where
  queues : b.queues = a.queues
  subscribers : b.subscribers = a.subscribers
  storageBytesUsed : b.storageBytesUsed = a.storageBytesUsed
  db : b.db = a.db

theorem SameCore.silent (h : SameCore s.inner b) : Silent s { s with inner := b } := by
  refine ⟨⟨?_, h.db, rfl⟩, rfl, h.subscribers⟩
  simp only [ledger, Inner.ledger, h.queues, h.storageBytesUsed]

theorem SameCore.trans {a d : Inner} (h : SameCore a b) (h' : SameCore b d) : SameCore a d :=
  ⟨h'.queues.trans h.queues, h'.subscribers.trans h.subscribers,
    h'.storageBytesUsed.trans h.storageBytesUsed, h'.db.trans h.db⟩

variable (c : Crypto) (amb : Ambient)

theorem consumeAttestation_sameCore (inner : Inner) (token : Option AttestationToken) :
    SameCore inner (consumeAttestation c amb inner token).2 := by
  unfold consumeAttestation
  split
  · exact ⟨rfl, rfl, rfl, rfl⟩
  · exact ⟨rfl, rfl, rfl, rfl⟩
  · dsimp only
    split_ifs <;> exact ⟨rfl, rfl, rfl, rfl⟩

theorem consumePow_sameCore (inner : Inner) (solution : PowSolution) :
    SameCore inner (consumePow c inner solution).2 := by
  unfold consumePow
  split
  · exact ⟨rfl, rfl, rfl, rfl⟩
  · split <;> exact ⟨rfl, rfl, rfl, rfl⟩

theorem durable_checkAndBumpRateLimit (e : QueueEntry) (now : ℕ) :
    (e.checkAndBumpRateLimit now).2.durable = e.durable := by
  unfold QueueEntry.checkAndBumpRateLimit
  dsimp only
  split_ifs <;> rfl

theorem Silent.counted {now : ℕ} {r : Except RejectionCode Unit}
    (h : s.inner.queues.lookup q = some e) (hw : e.checkAndBumpRateLimit now = (r, e')) :
    Silent s (s.setEntry q e') := by
  refine .setEntry h ?_
  rw [← durable_checkAndBumpRateLimit e now, hw]

/-- What holds of a request's checks when they are done. -/
structure Planned (s : RelayState) (msg : ClientMessage) (r : RelayState × Plan) : Prop where
  quiet : Quiet s r.1
  silent : (∀ ids, msg ≠ .subscribe ids) → Silent s r.1
  admits : ∀ m, r.2 = .write m → Admits c s.ledger msg m
  awake : ∀ m, r.2 = .write m → s.poisoned = false
  answers : ∀ reply, r.2 = .answer reply → Answers s.ledger msg reply
  panics : r.2 = .panic → Silent s r.1

variable {c amb}

theorem Planned.of_answer {reply : ServerMessage} (h : Silent s t)
    (ha : Answers s.ledger msg reply) :
    Planned c s msg (t, .answer reply) where
  quiet := h.toQuiet
  silent := fun _ => h
  admits := by rintro m ⟨⟩
  awake := by rintro m ⟨⟩
  answers := by rintro r ⟨⟩; exact ha
  panics := by rintro ⟨⟩

theorem Planned.of_write (h : Silent s t) (hp : ¬ s.poisoned = true)
    (ha : Admits c s.ledger msg m) :
    Planned c s msg (t, .write m) where
  quiet := h.toQuiet
  silent := fun _ => h
  admits := by rintro m' ⟨⟩; exact ha
  awake := fun _ _ => Bool.eq_false_of_not_eq_true hp
  answers := by rintro r ⟨⟩
  panics := by rintro ⟨⟩

theorem Planned.of_panic (h : Silent s t) : Planned c s msg (t, .panic) where
  quiet := h.toQuiet
  silent := fun _ => h
  admits := by rintro m ⟨⟩
  awake := by rintro m ⟨⟩
  answers := by rintro r ⟨⟩
  panics := fun _ => h

theorem Planned.of_spin (h : Silent s t) : Planned c s msg (t, .spin) where
  quiet := h.toQuiet
  silent := fun _ => h
  admits := by rintro m ⟨⟩
  awake := by rintro m ⟨⟩
  answers := by rintro r ⟨⟩
  panics := by rintro ⟨⟩

/-- The two creation requests differ only in the mutation a fresh id leads to. -/
theorem planned_admitQueue (s : RelayState) (solution : PowSolution)
    (attestation : Option AttestationToken) (mutation : QueueId → Mutation)
    (hm : ∀ q, s.ledger.queues q = none → Admits c s.ledger msg (mutation q))
    (ha : ∀ code, Answers s.ledger msg (.error code)) :
    Planned c s msg (admitQueue c amb s solution attestation mutation) := by
  unfold admitQueue
  by_cases hp : s.poisoned
  · rw [if_pos hp]
    exact .of_panic (.refl s)
  rw [if_neg hp]
  have h₁ := consumeAttestation_sameCore c amb s.inner attestation
  generalize consumeAttestation c amb s.inner attestation = r₁ at h₁
  rcases r₁ with ⟨_ | _, inner₁⟩
  · exact .of_answer h₁.silent (ha _)
  have h₂ := h₁.trans (consumePow_sameCore c inner₁ solution)
  dsimp only
  generalize consumePow c inner₁ solution = r₂ at h₂
  rcases r₂ with ⟨_ | _ | _, inner₂⟩
  · exact .of_panic h₂.silent
  · exact .of_answer h₂.silent (ha _)
  · dsimp only
    cases hf : freshQueueId amb inner₂ with
    | none => exact .of_spin h₂.silent
    | some =>
      apply Planned.of_write h₂.silent hp
      apply hm
      have hid := List.find?_some hf
      rw [ledger_queues, ← h₂.queues]
      simpa using hid

theorem planned_sendToMailbox (s : RelayState) (q : QueueId) (tag : AuthTag) (e : Envelope) :
    Planned c s (.sendToMailbox q tag e) (sendToMailbox c amb s q tag e) := by
  have h := mailboxSend c amb s q tag e
  generalize sendToMailbox c amb s q tag e = r at h
  cases h with
  | tooLarge | unknown | forged | full | limited => exact .of_answer (.refl s) (.sendRefused _)
  | poisoned => exact .of_panic (.refl s)
  | overflow size found window => exact .of_panic (.counted found window)
  | noRoom found window => exact .of_answer (.counted found window) (.sendRefused _)
  | accepted size awake found auth depth window =>
    refine .of_write (.counted found window) (by simp [awake]) (.sendToMailbox size ?_ auth depth)
    rw [ledger_queues, found]
    rfl

theorem conflicts_eq_true {kind : GroupSendKind} {epoch : UInt64} :
    conflicts kind epoch = true ↔ ∃ target, kind = .commit target ∧ target ≠ epoch := by
  cases kind <;> simp [conflicts]

theorem planned_sendToGroupInbox (s : RelayState) (q : QueueId) (kind : GroupSendKind)
    (tag : AuthTag) (e : Envelope) :
    Planned c s (.sendToGroupInbox q kind tag e) (sendToGroupInbox c amb s q kind tag e) := by
  have refused : ∀ code : RejectionCode, code ≠ .epochConflict →
      Planned c s (.sendToGroupInbox q kind tag e) (s, .answer (.error code)) :=
    fun code hne => .of_answer (.refl s) (.groupSendRefused code (fun h => absurd h hne))
  have h := inboxSend c amb s q tag e kind
  generalize sendToGroupInbox c amb s q kind tag e = r at h
  cases h with
  | tooLarge | unknown | forged | noRoom | limited => exact refused _ (by decide)
  | poisoned | overflow => exact .of_panic (.refl s)
  | @conflict k epoch roster n w found stale =>
    obtain ⟨target, hkind, hne⟩ := conflicts_eq_true.mp stale
    refine .of_answer (.refl s)
      (.groupSendRefused _ fun _ => ⟨k, epoch, roster, target, ?_, hkind, hne⟩)
    rw [ledger_queues, found]
    rfl
  | accepted size awake found auth current room window =>
    refine .of_write (.counted found window) (by simp [awake])
      (.sendToGroupInbox size ?_ auth current)
    rw [ledger_queues, found]
    rfl

theorem subscribe_inner (s : RelayState) (ids : List QueueId) (tx : ChannelId) :
    ∃ subscribers, (s.subscribe ids tx).inner = { s.inner with subscribers := subscribers } ∧
      (s.subscribe ids tx).poisoned = s.poisoned := by
  have hdrain : ∀ (l : List QueueId) (t : RelayState),
      (l.foldl (fun t q => t.drainBacklog tx q) t).inner = t.inner ∧
        (l.foldl (fun t q => t.drainBacklog tx q) t).poisoned = t.poisoned := by
    intro l
    induction l with
    | nil => exact fun _ => ⟨rfl, rfl⟩
    | cons q l ih => exact fun t => ih (t.drainBacklog tx q)
  have hreg : ∀ (l : List QueueId) (t : RelayState), ∃ subscribers,
      (l.foldl (fun t q => t.registerSubscriber tx q) t).inner =
        { t.inner with subscribers := subscribers } ∧
      (l.foldl (fun t q => t.registerSubscriber tx q) t).poisoned = t.poisoned := by
    intro l
    induction l with
    | nil => exact fun t => ⟨t.inner.subscribers, rfl, rfl⟩
    | cons q l ih => exact fun t => ih (t.registerSubscriber tx q)
  obtain ⟨subscribers, hinner, hpoisoned⟩ := hreg ids s
  obtain ⟨hinner', hpoisoned'⟩ := hdrain ids (ids.foldl (fun t q => t.registerSubscriber tx q) s)
  exact ⟨subscribers, hinner'.trans hinner, hpoisoned'.trans hpoisoned⟩

theorem quiet_subscribe (s : RelayState) (ids : List QueueId) (tx : ChannelId) :
    Quiet s (s.subscribe ids tx) := by
  obtain ⟨subscribers, hinner, hpoisoned⟩ := subscribe_inner s ids tx
  refine ⟨?_, by rw [hinner], hpoisoned⟩
  rw [ledger, hinner]
  rfl

variable (c amb) in
theorem planned_plan (s : RelayState) (msg : ClientMessage) (tx : Option ChannelId) :
    Planned c s msg (plan c amb s msg tx) := by
  cases msg with
  | requestPowChallenge =>
    unfold plan
    by_cases hp : s.poisoned
    · rw [if_pos hp]
      exact .of_panic (.refl s)
    · rw [if_neg hp]
      exact .of_answer (SameCore.silent ⟨rfl, rfl, rfl, rfl⟩) (.challenge _)
  | createMailbox => exact planned_admitQueue s _ _ _ (fun q h => .createMailbox h) .mailboxRefused
  | createGroupInbox =>
    exact planned_admitQueue s _ _ _ (fun q h => .createGroupInbox h) .inboxRefused
  | sendToMailbox q tag e => exact planned_sendToMailbox s q tag e
  | sendToGroupInbox q kind tag e => exact planned_sendToGroupInbox s q kind tag e
  | subscribe ids =>
    cases tx with
    | none => exact .of_answer (.refl s) .subscribed
    | some tx =>
      unfold plan
      dsimp only
      by_cases hp : s.poisoned
      · rw [if_pos hp]
        exact .of_panic (.refl s)
      · rw [if_neg hp]
        exact {
          quiet := quiet_subscribe s ids tx
          silent := fun h => absurd rfl (h ids)
          admits := by rintro m ⟨⟩
          awake := by rintro m ⟨⟩
          answers := by rintro r ⟨⟩; exact .subscribed
          panics := by rintro ⟨⟩ }
  | ack =>
    unfold plan
    dsimp only
    by_cases hp : s.poisoned
    · rw [if_pos hp]
      exact .of_panic (.refl s)
    · rw [if_neg hp]
      exact .of_write (.refl s) hp .ack

/-- The four ways a request can end. -/
inductive Outcome (c : Crypto) (amb : Ambient) (s : RelayState) (msg : ClientMessage) :
    RelayState → Handled → Prop where
  | answered {t : RelayState} {reply : ServerMessage} (quiet : Quiet s t)
      (silent : (∀ ids, msg ≠ .subscribe ids) → Silent s t) (answers : Answers s.ledger msg reply) :
    Outcome c amb s msg t (.answered reply)
  | wrote {m : Mutation} {s₁ s₂ t : RelayState} (silent : Silent s s₁)
      (awake : s.poisoned = false) (admits : Admits c s.ledger msg m)
      (persisted : s₁.persist m = some s₂) (applied : m.apply amb.now s₂ = some t) :
    Outcome c amb s msg t (.answered m.reply)
  | refused {t : RelayState} (silent : Silent s t) : Outcome c amb s msg t.poison .panicked
  | overflowed {m : Mutation} {s₁ s₂ : RelayState} (silent : Silent s s₁)
      (awake : s.poisoned = false) (admits : Admits c s.ledger msg m)
      (persisted : s₁.persist m = some s₂) (failed : m.apply amb.now s₂ = none) :
    Outcome c amb s msg s₂.poison .panicked
  | spinning {t : RelayState} (silent : Quiet s t) : Outcome c amb s msg t .spinning

theorem Admits.not_subscribe {d : Ledger} (h : Admits c d msg m) (ids : List QueueId) :
    msg ≠ .subscribe ids := by
  cases h <;> rintro ⟨⟩

variable (c amb) in
theorem outcome_handle (s : RelayState) (msg : ClientMessage) (tx : Option ChannelId) :
    Outcome c amb s msg (handle c amb s msg tx).1 (handle c amb s msg tx).2 := by
  have hp := planned_plan c amb s msg tx
  unfold handle
  generalize plan c amb s msg tx = r at hp
  rcases r with ⟨s₁, reply | m | _ | _⟩
  · exact .answered hp.quiet hp.silent (hp.answers reply rfl)
  · have ha := hp.admits m rfl
    have hs := hp.silent (Admits.not_subscribe ha)
    unfold finish
    dsimp only
    cases hper : s₁.persist m with
    | none => exact .refused hs
    | some s₂ =>
      dsimp only
      cases happ : m.apply amb.now s₂ with
      | none => exact .overflowed hs (hp.awake m rfl) ha hper happ
      | some => exact .wrote hs (hp.awake m rfl) ha hper happ
  · exact .refused (hp.panics rfl)
  · exact .spinning hp.quiet

theorem plan_of_refused {pushTx : Option ChannelId} {code : RejectionCode}
    (h : s.handle c amb msg pushTx = (t, .answered (.error code))) :
    plan c amb s msg pushTx = (t, .answer (.error code)) := by
  unfold handle at h
  generalize plan c amb s msg pushTx = r at h ⊢
  rcases r with ⟨s₁, reply | m | _ | _⟩
  · cases h
    rfl
  · unfold finish at h
    dsimp only at h
    split at h
    · cases h
    · split at h
      · cases h
      · have hreply := Handled.answered.inj (Prod.mk.inj h).2
        cases m <;> cases hreply
  · cases h
  · cases h

end RelayState
end Rosette.Relay
