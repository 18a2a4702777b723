import Rosette.Relay.Push
import Rosette.Relay.Storage

/-! # Who can fill a mailbox

Whoever holds the send key of a queue. Each entry of a mailbox is traced to the one
request on record that brought it: its tag was verified over the very envelope that is
stored and the queue it named, under the key issued when that queue was created, and
the queue is the mailbox itself or a group inbox with the mailbox on the roster it was
created with. A tag binds key, queue and envelope, so one made for anything else is
refused.
-/
namespace Rosette.Relay
open Foundation Proto RelayState List Option Ledger

variable {d : Ledger} {q x : QueueId} {c : Crypto} {log : List Exchange}
  {msg : ClientMessage} {e : Envelope}

/-- What a queue is for, with the roster an inbox was created with. -/
inductive Role where
  | mailbox
  | groupInbox (roster : List QueueId)
deriving DecidableEq

/-- The key and the role an answered request gave a queue. -/
def issued (x : QueueId) : Exchange → Option (SendKey × Role)
  | (.createMailbox _ _, .queueCreated y k) => if y = x then some (k, .mailbox) else none
  | (.createGroupInbox _ _ roster _, .queueCreated y k) =>
    if y = x then some (k, .groupInbox roster) else none
  | _ => none

def Issued (log : List Exchange) (x : QueueId) (r : SendKey × Role) : Prop :=
  ∃ entry ∈ log, issued x entry = some r

def QueueKind.role : QueueKind → Role
  | .mailbox _ => .mailbox
  | .groupInbox _ roster => .groupInbox roster

def Ledger.role (d : Ledger) (x : QueueId) : Option (SendKey × Role) :=
  (d.queues x).map (fun p => (p.1, p.2.role))

namespace Ledger

theorem role_set (d : Ledger) (q x : QueueId) (p : SendKey × QueueKind) :
    (d.set q p).role x = if x = q then some (p.1, p.2.role) else d.role x := by
  by_cases hx : x = q
  · subst hx
    rw [role, set_queues_self, map_some, if_pos rfl]
  · rw [role, d.set_queues_of_ne hx, if_neg hx, role]

theorem role_set_same {p p' : SendKey × QueueKind} (h : d.queues q = some p) (hk : p'.1 = p.1)
    (hr : p'.2.role = p.2.role) : (d.set q p').role = d.role := by
  funext x
  rw [role_set]
  split_ifs with hx
  · rw [hx, role, h, map_some, hk, hr]
  · rfl

theorem role_deliver (d : Ledger) (e : Envelope) (q : QueueId) : (d.deliver e q).role = d.role := by
  unfold deliver
  rcases hq : d.queues q with _ | ⟨k, p | _⟩
  · rfl
  · exact role_set_same hq rfl rfl
  · rfl

theorem role_foldl_deliver (e : Envelope) (members : List QueueId) (d : Ledger) :
    (members.foldl (deliver e) d).role = d.role := by
  induction members generalizing d with
  | nil => rfl
  | cons m members ih => rw [foldl_cons, ih, role_deliver]

theorem role_advance (d : Ledger) (x : QueueId) (kind : GroupSendKind) :
    (d.advance x kind).role = d.role := by
  unfold advance
  split
  · rename_i k e r hx
    exact role_set_same hx rfl rfl
  · rfl

theorem role_removeAcked (d : Ledger) (q : QueueId) (id : MessageId) :
    (d.removeAcked q id).role = d.role := by
  unfold removeAcked
  rcases hq : d.queues q with _ | ⟨k, p | _⟩
  · rfl
  · exact role_set_same hq rfl rfl
  · rfl

end Ledger

section Record
variable {r : SendKey × Role}

theorem issued_snoc {entry : Exchange} :
    Issued (log ++ [entry]) x r ↔ Issued log x r ∨ issued x entry = some r := by
  simp only [Issued, mem_append, mem_singleton, or_and_right, exists_or, exists_eq_left]

theorem not_issued_of_answers {reply : ServerMessage} (h : Answers d msg reply) (x : QueueId) :
    issued x (msg, reply) = none := by
  cases h <;> rfl

/-- The record knows every queue's key and role, and knows only one. -/
theorem explains_issued (h : Explains c log d) : Issued log x r ↔ d.role x = some r := by
  induction h with
  | nil => simp [Issued, Ledger.role, Ledger.empty]
  | answered prior answers ih => rw [issued_snoc, ih, not_issued_of_answers answers]; simp
  | @wrote log d msg m prior admits bounded ih =>
    rw [issued_snoc, ih]
    cases admits with
    | @createMailbox _ _ y k fresh | @createGroupInbox _ _ epoch roster y k fresh =>
      rw [Ledger.apply, role_set]
      by_cases hx : x = y
      · subst hx
        simp [Ledger.role, fresh, issued, Mutation.reply, QueueKind.role]
      · simp [hx, Ne.symm hx, issued, Mutation.reply]
    | sendToMailbox => simp [Ledger.apply, role_deliver, issued]
    | sendToGroupInbox =>
      simp [Ledger.apply, role_foldl_deliver, role_advance, issued]
    | ack => simp [Ledger.apply, role_removeAcked, issued]

end Record

/-- A request that may bring an envelope to a mailbox, after the requests before it. -/
inductive Carries (c : Crypto) (prior : List Exchange) (q : QueueId) (e : Envelope) :
    ClientMessage → Prop where
  | direct {tag k} (key : Issued prior q (k, .mailbox)) (auth : verifyTag c k q e tag = true) :
    Carries c prior q e (.sendToMailbox q tag e)
  | fanned {x kind tag k roster} (key : Issued prior x (k, .groupInbox roster))
      (member : q ∈ roster) (auth : verifyTag c k x e tag = true) :
    Carries c prior q e (.sendToGroupInbox x kind tag e)

/-- An accepted request on record brought the envelope to the mailbox. -/
def Authorized (c : Crypto) (log : List Exchange) (q : QueueId) (e : Envelope) : Prop :=
  ∃ pre msg post, log = pre ++ (msg, .ok) :: post ∧ Carries c pre q e msg

section Entries

theorem Authorized.snoc (h : Authorized c log q e) (entry : Exchange) :
    Authorized c (log ++ [entry]) q e := by
  obtain ⟨pre, msg, post, rfl, hc⟩ := h
  exact ⟨pre, msg, post ++ [entry], by simp, hc⟩

theorem explains_authorized (h : Explains c log d) {p : MessageId × Envelope}
    (hp : p ∈ d.pending q) : Authorized c log q p.2 := by
  induction h with
  | nil => cases hp
  | answered prior answers ih => exact (ih hp).snoc _
  | @wrote log d msg m prior admits bounded ih =>
    rcases pending_apply hp with hold | ⟨hnew, -⟩
    · exact (ih hold).snoc _
    · refine ⟨log, msg, [], ?_, ?_⟩
      · cases admits with
        | sendToMailbox | sendToGroupInbox => rfl
        | _ => cases hnew
      · cases admits with
        | @sendToMailbox x tag env k pending size entry auth =>
          rw [Mutation.deliveries] at hnew
          split_ifs at hnew with hx
          · obtain rfl := mem_singleton.mp hnew
            subst hx
            exact .direct ((explains_issued prior).mpr (by rw [Ledger.role, entry]; rfl)) auth
          · cases hnew
        | @sendToGroupInbox x kind tag env k epoch roster size entry auth =>
          obtain ⟨hcount, heq⟩ := mem_replicate.mp hnew
          rw [heq]
          exact .fanned ((explains_issued prior).mpr (by rw [Ledger.role, entry]; rfl))
            (count_pos_iff.mp (Nat.pos_of_ne_zero hcount)) auth
        | _ => cases hnew

end Entries

def sentTag : ClientMessage → Option AuthTag
  | .sendToMailbox _ tag _ => some tag
  | .sendToGroupInbox _ _ tag _ => some tag
  | _ => none

def sentEnvelope : ClientMessage → Option Envelope
  | .sendToMailbox _ _ e => some e
  | .sendToGroupInbox _ _ _ e => some e
  | _ => none

/-- What the tag of an envelope for a queue is computed from. -/
def tagInput (k : SendKey) (x : QueueId) (e : Envelope) : List UInt8 × List UInt8 :=
  (k.toList, x.toList ++ Envelope.codec.encode e)

/-- A send that names no queue of its kind, or whose tag was made for another queue, under
another key or for another envelope. `U` holds the inputs the MAC is assumed to separate. -/
inductive Misdirected (c : Crypto) (U : Set (List UInt8 × List UInt8)) (log : List Exchange) :
    ClientMessage → Prop where
  | noMailbox {x tag e} (unknown : ∀ k, ¬ Issued log x (k, .mailbox)) :
    Misdirected c U log (.sendToMailbox x tag e)
  | noInbox {x kind tag e} (unknown : ∀ k roster, ¬ Issued log x (k, .groupInbox roster)) :
    Misdirected c U log (.sendToGroupInbox x kind tag e)
  | strayTag {msg x x' e e' k'} (target : sendTarget msg = some x)
      (envelope : sentEnvelope msg = some e) (tag : sentTag msg = some (computeTag c k' x' e'))
      (made : tagInput k' x' e' ∈ U)
      (checked : ∀ k role, Issued log x (k, role) → tagInput k x e ∈ U)
      (stray : x' ≠ x ∨ (∀ k role, Issued log x (k, role) → k' ≠ k) ∨ e' ≠ e ∧
        e'.paddedCiphertext.length ≤ maxMessageSize) :
    Misdirected c U log msg

section Misdirection
variable {U : Set (List UInt8 × List UInt8)} {m : Mutation}

theorem eq_of_verifyTag (hsep : Set.InjOn (fun p => c.hmacSha256 p.1 p.2) U) {k k' : SendKey}
    {x' : QueueId} {e' : Envelope} (hk : tagInput k x e ∈ U) (hk' : tagInput k' x' e' ∈ U)
    (h : verifyTag c k x e (computeTag c k' x' e') = true) :
    k' = k ∧ x' = x ∧ Envelope.codec.encode e' = Envelope.codec.encode e := by
  have hpair : tagInput k x e = tagInput k' x' e' := hsep hk hk' (of_decide_eq_true h)
  obtain ⟨hkey, hinput⟩ := Prod.mk.inj hpair
  obtain ⟨hx, he⟩ := append_inj hinput (by simp)
  exact ⟨(List.Vector.toList_injective hkey).symm, (List.Vector.toList_injective hx).symm, he.symm⟩

/-- An admitted send was checked under the key of the queue it names. -/
theorem Admits.verified {tag : AuthTag} (h : Admits c d msg m) (hx : sendTarget msg = some x)
    (he : sentEnvelope msg = some e) (ht : sentTag msg = some tag) :
    ∃ k role, d.role x = some (k, role) ∧ verifyTag c k x e tag = true ∧
      e.paddedCiphertext.length ≤ maxMessageSize := by
  cases h with
  | @sendToMailbox q tag e k pending size entry auth =>
    cases hx
    cases he
    cases ht
    exact ⟨k, .mailbox, by rw [Ledger.role, entry]; rfl, auth, size⟩
  | @sendToGroupInbox q kind tag e k epoch roster size entry auth =>
    cases hx
    cases he
    cases ht
    exact ⟨k, .groupInbox roster, by rw [Ledger.role, entry]; rfl, auth, size⟩
  | _ => cases hx

theorem Misdirected.not_admits (hsep : Set.InjOn (fun p => c.hmacSha256 p.1 p.2) U)
    (hlog : Explains c log d) (h : Misdirected c U log msg) : ¬ Admits c d msg m := by
  intro ha
  cases h with
  | noMailbox unknown =>
    cases ha with
    | @sendToMailbox _ _ _ k _ size entry =>
      exact unknown k ((explains_issued hlog).mpr (by rw [Ledger.role, entry]; rfl))
  | noInbox unknown =>
    cases ha with
    | @sendToGroupInbox _ _ _ _ k _ roster size entry =>
      exact unknown k roster ((explains_issued hlog).mpr (by rw [Ledger.role, entry]; rfl))
  | @strayTag _ x x' e e' k' target envelope tag made checked stray =>
    obtain ⟨k, role, hrole, hauth, hsize⟩ := ha.verified target envelope tag
    have hissued : Issued log x (k, role) := (explains_issued hlog).mpr hrole
    obtain ⟨hk, hx, he⟩ := eq_of_verifyTag hsep (checked k role hissued) made hauth
    rcases stray with hne | hne | ⟨hne, hsize'⟩
    · exact hne hx
    · exact hne k role hissued hk
    · refine hne (Envelope.codec.encode_append_inj (s := [])
        (Envelope.codec_valid hsize') (Envelope.codec_valid hsize) (by rw [he])).1

theorem pendingOf_of_not_admits {s t : Service} {ev : RelayEvent} (hc : Consistent s.relay)
    (hstep : Service.step c s ev = some t) (hmsg : ev.message = some msg)
    (hno : ∀ m, ¬ Admits c s.relay.ledger msg m) (q : QueueId) :
    t.relay.pendingOf q = s.relay.pendingOf q := by
  rcases step_ledger hc hstep with ⟨hl, -⟩ | ⟨msg', hmsg', m, ha, -⟩
  · rw [← ledger_pending, hl, ledger_pending]
  · obtain rfl := mem_unique hmsg hmsg'
    exact absurd ha (hno m)

end Misdirection

/-- In every state a run reaches, restarts included, every entry of a mailbox was brought by
a request on record whose tag verified over the queue it named and the stored envelope under
the key issued for that queue, which is the mailbox or an inbox with the mailbox on its first
roster; a queue was issued one key only; and a misdirected send changes no mailbox. -/
theorem only_authorized_senders_fill_mailboxes (c : Crypto) (persistent : Bool)
    (es : List RelayEvent) (s : Service)
    (hrun : run (Service.step c) (Service.boot persistent) es = some s)
    (U : Set (List UInt8 × List UInt8)) (hsep : Set.InjOn (fun p => c.hmacSha256 p.1 p.2) U) :
    (∀ q, ∀ p ∈ s.relay.pendingOf q, Authorized c s.log q p.2) ∧
    (∀ x r r', Issued s.log x r → Issued s.log x r' → r = r') ∧
    ∀ ev t msg, Service.step c s ev = some t → ev.message = some msg →
      Misdirected c U s.log msg → ∀ q, t.relay.pendingOf q = s.relay.pendingOf q := by
  obtain ⟨he, hc⟩ := run_explains hrun
  refine ⟨fun q p hp => ?_, fun x r r' hr hr' => ?_, fun ev t msg hstep hmsg hmis => ?_⟩
  · rw [← ledger_pending] at hp
    exact explains_authorized he hp
  · rw [explains_issued he] at hr hr'
    exact mem_unique hr hr'
  · exact pendingOf_of_not_admits hc hstep hmsg fun m => hmis.not_admits hsep he

def sampleEnvelope : Envelope := ⟨.fill 3, .relayFanout, [3]⟩

/-- Two mailboxes, a message for the first, and a restart. -/
def keyedSend : List RelayEvent :=
  mint 1 (fun solution => .createMailbox solution none) ++
    mint 2 (fun solution => .createMailbox solution none) ++
    [.request (.fill 0) (.sendToMailbox (.fill 1)
        (computeTag .keyed (.fill 1) (.fill 1) sampleEnvelope) sampleEnvelope) none,
      .restart 0 none]

/-- The same envelope, tagged for the second mailbox and sent to the first. -/
def straySend : ClientMessage :=
  .sendToMailbox (.fill 1) (computeTag .keyed (.fill 2) (.fill 2) sampleEnvelope)
    sampleEnvelope

theorem only_authorized_senders_fill_mailboxes_keyed :
    ∃ s t, run (Service.step .keyed) (Service.boot true) keyedSend = some s ∧
      s.relay.pendingOf (.fill 1) = [(Bytes.fill 3, sampleEnvelope)] ∧
      Authorized .keyed s.log (.fill 1) sampleEnvelope ∧
      Service.step .keyed s (.request (.fill 0) straySend none) = some t ∧
      t.relay.pendingOf (.fill 1) = s.relay.pendingOf (.fill 1) := by
  obtain ⟨s, hs, hpending, hissued, hsome⟩ :
      ∃ s, run (Service.step .keyed) (Service.boot true) keyedSend = some s ∧
      s.relay.pendingOf (.fill 1) = [(Bytes.fill 3, sampleEnvelope)] ∧
      (∃ entry ∈ s.log, issued (.fill 1) entry = some (Bytes.fill 1, .mailbox)) ∧
      (Service.step .keyed s (.request (.fill 0) straySend none)).isSome = true := by decide +kernel
  obtain ⟨t, ht⟩ := isSome_iff_exists.mp hsome
  have hsep : Set.InjOn (fun p => Crypto.keyed.hmacSha256 p.1 p.2)
      {tagInput (.fill 1) (.fill 1) sampleEnvelope,
        tagInput (.fill 2) (.fill 2) sampleEnvelope} := by
    rintro a (rfl | rfl) b (rfl | rfl) hab
    · rfl
    · exact absurd hab (by decide +kernel)
    · exact absurd hab (by decide +kernel)
    · rfl
  obtain ⟨hentries, hone, hstray⟩ :=
    only_authorized_senders_fill_mailboxes .keyed true keyedSend s hs _ hsep
  refine ⟨s, t, hs, hpending, hentries _ _ (by rw [hpending]; exact mem_singleton_self _), ht,
    hstray _ t straySend ht rfl (.strayTag rfl rfl rfl (Or.inr rfl) (fun k role h => ?_)
      (Or.inl (by decide +kernel))) _⟩
  obtain ⟨rfl, -⟩ := Prod.mk.inj (hone _ _ _ h hissued)
  exact Or.inl rfl

end Rosette.Relay
