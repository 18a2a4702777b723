import Rosette.Relay.Service

/-! # No loss, no duplication, no reordering in a mailbox

The history of a mailbox is read off the record of answered requests: what
arrived in it, by which way, and which ids were acked on it. What the mailbox
holds is what arrived and was not acked since.
-/
namespace Rosette.Relay
open Foundation Proto List Ledger

/-- What happens to one mailbox. An arrival by fan-out names its inbox and kind. -/
inductive BoxEvent where
  | arrive (source : Option (QueueId × GroupSendKind)) (envelope : Envelope)
  | acked (messageId : MessageId)
deriving DecidableEq

def mailboxIn (log : List Exchange) (q : QueueId) : Bool :=
  log.any (fun entry => match entry with
    | (.createMailbox _ _, .queueCreated p _) => p = q
    | _ => false)

/-- The roster the inbox was created with. -/
def rosterIn (log : List Exchange) (x : QueueId) : Option (List QueueId) :=
  log.findSome? (fun entry => match entry with
    | (.createGroupInbox _ _ roster _, .queueCreated y _) => if y = x then some roster else none
    | _ => none)

/-- What one answered request does to a mailbox, after the requests before it. An accepted
group send arrives once per occurrence in the roster, if the mailbox exists by then. -/
def boxEvents (q : QueueId) (prior : List Exchange) : Exchange → List BoxEvent
  | (.sendToMailbox p _ e, .ok) => if p = q then [.arrive none e] else []
  | (.sendToGroupInbox x kind _ e, .ok) =>
    if mailboxIn prior q then
      replicate (((rosterIn prior x).getD []).count q) (.arrive (some (x, kind)) e)
    else []
  | (.ack p id, .ok) => if p = q then [.acked id] else []
  | _ => []

def boxHistoryFrom (q : QueueId) : List Exchange →
    List Exchange → List BoxEvent
  | _, [] => []
  | prior, entry :: rest => boxEvents q prior entry ++ boxHistoryFrom q (prior ++ [entry]) rest

/-- Everything that has happened to a mailbox, in order. -/
def boxHistory (q : QueueId) (log : List Exchange) : List BoxEvent := boxHistoryFrom q [] log

/-- The arrivals whose id was not acked later. -/
def survivors : List BoxEvent → List (MessageId × Envelope)
  | [] => []
  | .arrive _ e :: rest =>
    if .acked e.messageId ∈ rest then survivors rest else (e.messageId, e) :: survivors rest
  | .acked _ :: rest => survivors rest

theorem boxHistoryFrom_snoc (q : QueueId) (prior log : List Exchange) (entry : Exchange) :
    boxHistoryFrom q prior (log ++ [entry]) =
      boxHistoryFrom q prior log ++ boxEvents q (prior ++ log) entry := by
  induction log generalizing prior with
  | nil => simp [boxHistoryFrom]
  | cons d log ih => simp [boxHistoryFrom, ih]

theorem boxHistory_snoc (q : QueueId) (log : List Exchange) (entry : Exchange) :
    boxHistory q (log ++ [entry]) = boxHistory q log ++ boxEvents q log entry :=
  boxHistoryFrom_snoc q [] log entry

theorem survivors_arrive (h : List BoxEvent) (source : Option (QueueId × GroupSendKind))
    (e : Envelope) :
    survivors (h ++ [.arrive source e]) = survivors h ++ [(e.messageId, e)] := by
  induction h with
  | nil => simp [survivors]
  | cons b h ih =>
    cases b with
    | acked => simpa [survivors] using ih
    | arrive source' e' =>
      by_cases hm : BoxEvent.acked e'.messageId ∈ h
      · simp [survivors, hm, ih]
      · simp [survivors, hm, ih]

theorem survivors_arrivals (h : List BoxEvent) (source : Option (QueueId × GroupSendKind))
    (e : Envelope) (n : ℕ) :
    survivors (h ++ replicate n (.arrive source e)) =
      survivors h ++ replicate n (e.messageId, e) := by
  induction n with
  | zero => simp
  | succ n ih =>
    rw [replicate_succ', replicate_succ', ← append_assoc, survivors_arrive, ih, append_assoc]

theorem survivors_acked (h : List BoxEvent) (id : MessageId) :
    survivors (h ++ [.acked id]) = (survivors h).filter (fun p => p.1 ≠ id) := by
  induction h with
  | nil => simp [survivors]
  | cons b h ih =>
    cases b with
    | acked => simpa [survivors] using ih
    | arrive source e =>
      by_cases hm : BoxEvent.acked e.messageId ∈ h
      · simp [survivors, hm, ih]
      · by_cases hid : e.messageId = id
        · subst hid
          simp [survivors, hm, ih]
        · simp [survivors, hm, ih, hid]

theorem Ledger.pending_foldl_deliver (e : Envelope) (members : List QueueId) (d : Ledger)
    (q : QueueId) :
    (members.foldl (Ledger.deliver e) d).pending q = d.pending q ++
      if d.isMailbox q then replicate (members.count q) (e.messageId, e) else [] := by
  induction members generalizing d with
  | nil => simp
  | cons m members ih =>
    rw [foldl_cons, ih, pending_deliver, isMailbox_deliver, append_assoc]
    congr 1
    by_cases hm : m = q
    · subst hm
      cases d.isMailbox m <;> simp [replicate_succ]
    · cases d.isMailbox q <;> simp [hm]

/-- The record knows the mailboxes, the rosters and what every mailbox holds. -/
structure BoxesTell (log : List Exchange) (d : Ledger) : Prop where
  mailbox : ∀ q, mailboxIn log q = d.isMailbox q
  roster : ∀ x, rosterIn log x = d.roster x
  pending : ∀ q, d.pending q = survivors (boxHistory q log)

theorem Ledger.isMailbox_foldl_deliver (e : Envelope) (members : List QueueId) (d : Ledger) :
    (members.foldl (Ledger.deliver e) d).isMailbox = d.isMailbox := by
  induction members generalizing d with
  | nil => rfl
  | cons m members ih => rw [foldl_cons, ih, isMailbox_deliver]

theorem mailboxIn_snoc (log : List Exchange) (entry : Exchange) (q : QueueId) :
    mailboxIn (log ++ [entry]) q = (mailboxIn log q || mailboxIn [entry] q) := by
  simp [mailboxIn]

theorem rosterIn_snoc (log : List Exchange) (entry : Exchange) (x : QueueId) :
    rosterIn (log ++ [entry]) x = (rosterIn log x).or (rosterIn [entry] x) := by
  simp [rosterIn]

variable {log pre post : List Exchange} {d d' : Ledger}
  {entry : Exchange} {c : Crypto} {x q : QueueId}

theorem BoxesTell.of_unchanged (h : BoxesTell log d) (hm : ∀ q, mailboxIn [entry] q = false)
    (hr : ∀ x, rosterIn [entry] x = none) (hbox : d'.isMailbox = d.isMailbox)
    (hinbox : ∀ x, d'.roster x = d.roster x)
    (hp : ∀ q, d'.pending q = survivors (boxHistory q (log ++ [entry]))) :
    BoxesTell (log ++ [entry]) d' where
  mailbox := fun q => by rw [mailboxIn_snoc, hm, Bool.or_false, h.mailbox, hbox]
  roster := fun x => by rw [rosterIn_snoc, hr, Option.or_none, h.roster, hinbox]
  pending := hp

theorem explains_boxesTell (h : Explains c log d) : BoxesTell log d := by
  induction h with
  | nil => exact ⟨fun _ => rfl, fun _ => rfl, fun _ => rfl⟩
  | @answered log d msg reply prior answers ih =>
    have hquiet : ∀ q, boxEvents q log (msg, reply) = [] ∧ mailboxIn [(msg, reply)] q = false ∧
        rosterIn [(msg, reply)] q = none := by
      intro q
      cases answers <;> exact ⟨rfl, rfl, rfl⟩
    refine ih.of_unchanged (fun q => (hquiet q).2.1) (fun x => (hquiet x).2.2) rfl (fun _ => rfl) ?_
    intro q
    rw [boxHistory_snoc, (hquiet q).1, append_nil, ih.pending]
  | @wrote log d msg m prior admits bounded ih =>
    cases admits with
    | @createMailbox solution attestation q k fresh =>
      have hnew : ∀ p, boxHistory p (log ++ [(.createMailbox solution attestation,
          (Mutation.createMailbox q k).reply)]) = boxHistory p log := by
        intro p
        rw [boxHistory_snoc]
        exact append_nil _
      constructor
      · intro p
        rw [mailboxIn_snoc, ih.mailbox]
        by_cases hp : p = q
        · subst hp
          simp [mailboxIn, Mutation.reply, Ledger.apply, Ledger.isMailbox]
        · simp [mailboxIn, Mutation.reply, Ledger.apply, Ledger.isMailbox, Ne.symm hp,
            d.set_queues_of_ne hp]
      · intro x
        rw [rosterIn_snoc, ih.roster]
        by_cases hx : x = q
        · subst hx
          simp [rosterIn, Ledger.apply, Ledger.roster, Ledger.inbox, fresh]
        · simp [rosterIn, Ledger.apply, Ledger.roster, Ledger.inbox, d.set_queues_of_ne hx]
      · intro p
        rw [hnew, ← ih.pending]
        by_cases hp : p = q
        · subst hp
          simp [Ledger.apply, Ledger.pending, fresh]
        · simp [Ledger.apply, Ledger.pending, d.set_queues_of_ne hp]
    | @createGroupInbox solution attestation epoch roster q k fresh =>
      have hnew : ∀ p, boxHistory p (log ++ [(.createGroupInbox solution epoch roster attestation,
          (Mutation.createGroupInbox q k epoch roster).reply)]) = boxHistory p log := by
        intro p
        rw [boxHistory_snoc]
        exact append_nil _
      constructor
      · intro p
        rw [mailboxIn_snoc, ih.mailbox]
        by_cases hp : p = q
        · subst hp
          simp [mailboxIn, Ledger.apply, Ledger.isMailbox, fresh]
        · simp [mailboxIn, Ledger.apply, Ledger.isMailbox, d.set_queues_of_ne hp]
      · intro x
        rw [rosterIn_snoc, ih.roster]
        by_cases hx : x = q
        · subst hx
          simp [rosterIn, Mutation.reply, Ledger.apply, Ledger.roster, Ledger.inbox, fresh]
        · simp [rosterIn, Mutation.reply, Ledger.apply, Ledger.roster, Ledger.inbox,
            d.set_queues_of_ne hx, Ne.symm hx]
      · intro p
        rw [hnew, ← ih.pending]
        by_cases hp : p = q
        · subst hp
          simp [Ledger.apply, Ledger.pending, fresh]
        · simp [Ledger.apply, Ledger.pending, d.set_queues_of_ne hp]
    | @sendToMailbox q tag e k pending size entry =>
      refine ih.of_unchanged (fun _ => rfl) (fun _ => rfl) (d.isMailbox_deliver e q) ?_ ?_
      · intro x
        rw [Ledger.roster, Ledger.apply, inbox_deliver, Ledger.roster]
      · intro p
        have hbox : d.isMailbox q = true := isMailbox_iff.mpr ⟨k, pending, entry⟩
        rw [Ledger.apply, pending_deliver, boxHistory_snoc, ih.pending]
        by_cases hp : q = p
        · simp [boxEvents, Mutation.reply, hp, hp ▸ hbox, survivors_arrive]
        · simp [boxEvents, Mutation.reply, hp]
    | @sendToGroupInbox x kind tag e k epoch roster size entry =>
      have hroster : rosterIn log x = some roster := by
        rw [ih.roster, Ledger.roster, Ledger.inbox, entry]
        rfl
      refine ih.of_unchanged (fun _ => rfl) (fun _ => rfl) ?_ ?_ ?_
      · rw [Ledger.apply, isMailbox_foldl_deliver, isMailbox_advance]
      · intro y
        rw [Ledger.roster, Ledger.apply, inbox_foldl_deliver, ← Ledger.roster,
          roster_advance]
      · intro q
        rw [Ledger.apply, pending_foldl_deliver, pending_advance,
          isMailbox_advance, boxHistory_snoc, ih.pending, ← ih.mailbox]
        by_cases hq : mailboxIn log q = true
        · simp [boxEvents, Mutation.reply, hq, hroster, survivors_arrivals]
        · simp [boxEvents, Mutation.reply, hq]
    | @ack q id =>
      refine ih.of_unchanged (fun _ => rfl) (fun _ => rfl) (d.isMailbox_removeAcked q id) ?_ ?_
      · intro x
        rw [Ledger.roster, Ledger.apply, inbox_removeAcked, Ledger.roster]
      · intro p
        rw [Ledger.apply, pending_removeAcked, boxHistory_snoc, ih.pending]
        by_cases hp : p = q
        · simp [boxEvents, Mutation.reply, hp, survivors_acked]
        · simp [boxEvents, Mutation.reply, hp, Ne.symm hp]

/-! ## Two members of one roster -/

def groupSend (x : QueueId) : Exchange → Option (GroupSendKind × Envelope)
  | (.sendToGroupInbox y kind _ e, .ok) => if y = x then some (kind, e) else none
  | _ => none

def sentVia (x : QueueId) (log : List Exchange) :
    List (GroupSendKind × Envelope) := log.filterMap (groupSend x)

def arrivalVia (x : QueueId) : BoxEvent → Option (GroupSendKind × Envelope)
  | .arrive (some (y, kind)) e => if y = x then some (kind, e) else none
  | _ => none

/-- What has arrived in a mailbox by way of an inbox, in order. -/
def receivedVia (x q : QueueId) (log : List Exchange) :
    List (GroupSendKind × Envelope) := (boxHistory q log).filterMap (arrivalVia x)

theorem sentVia_append (x : QueueId) (log post : List Exchange) :
    sentVia x (log ++ post) = sentVia x log ++ sentVia x post := filterMap_append

theorem sentVia_singleton (x : QueueId) (entry : Exchange) :
    sentVia x [entry] = (groupSend x entry).toList := by
  cases h : groupSend x entry <;> simp [sentVia, h]

theorem receivedVia_snoc (x q : QueueId) (log : List Exchange) (entry : Exchange) :
    receivedVia x q (log ++ [entry]) =
      receivedVia x q log ++ (boxEvents q log entry).filterMap (arrivalVia x) := by
  rw [receivedVia, boxHistory_snoc, filterMap_append, receivedVia]

theorem arrivals_of_groupSend_none (h : groupSend x entry = none) :
    (boxEvents q log entry).filterMap (arrivalVia x) = [] := by
  unfold boxEvents
  split
  · split_ifs <;> rfl
  · rename_i y kind tag e
    have hy : y ≠ x := by
      intro hy
      simp [groupSend, hy] at h
    split_ifs
    · simp [arrivalVia, hy]
    · rfl
  · split_ifs <;> rfl
  · rfl

/-- In an explained record, a send was accepted only by an inbox created before. -/
theorem explains_groupSend (h : Explains c (log ++ [entry]) d) :
    (∃ d', Explains c log d') ∧
      ∀ x p, groupSend x entry = some p → ∃ roster tag,
        rosterIn log x = some roster ∧ entry = (.sendToGroupInbox x p.1 tag p.2, .ok) := by
  generalize hl : log ++ [entry] = l at h
  cases h with
  | nil => simp at hl
  | @answered log' _ msg reply prior answers =>
    obtain ⟨rfl, he⟩ := append_inj' hl rfl
    cases he
    refine ⟨⟨d, prior⟩, fun x p hp => ?_⟩
    cases answers <;> simp [groupSend] at hp
  | @wrote log' d' msg m prior admits =>
    obtain ⟨rfl, he⟩ := append_inj' hl rfl
    cases he
    refine ⟨⟨d', prior⟩, fun x p hp => ?_⟩
    cases admits with
    | @sendToGroupInbox y kind tag e k epoch roster size entry =>
      simp only [groupSend, Mutation.reply] at hp
      split_ifs at hp with hy
      subst hy
      cases hp
      refine ⟨roster, tag, ?_, rfl⟩
      rw [(explains_boxesTell prior).roster, Ledger.roster, Ledger.inbox, entry]
      rfl
    | _ => simp [groupSend] at hp

theorem explains_of_append (h : Explains c (pre ++ post) d) : ∃ d', Explains c pre d' := by
  induction post using reverseRecOn generalizing d with
  | nil => exact ⟨d, by simpa using h⟩
  | append_singleton post entry ih =>
    rw [← append_assoc] at h
    obtain ⟨⟨d', prior⟩, -⟩ := explains_groupSend h
    exact ih prior

theorem rosterIn_append {roster : List QueueId} (h : rosterIn log x = some roster) :
    rosterIn (log ++ post) x = some roster := by
  unfold rosterIn at h ⊢
  rw [findSome?_append, h]
  rfl

theorem mailboxIn_append (h : mailboxIn log q = true) : mailboxIn (log ++ post) q = true := by
  unfold mailboxIn at h ⊢
  rw [any_append, h, Bool.true_or]

theorem isMailbox_append {more : List Exchange} (he : Explains c log d)
    (he' : Explains c (log ++ more) d') (hq : d.isMailbox q = true) : d'.isMailbox q = true := by
  rw [← (explains_boxesTell he).mailbox] at hq
  rw [← (explains_boxesTell he').mailbox]
  exact mailboxIn_append hq

/-- A mailbox that occurs once in the roster receives, from its creation on, exactly the
accepted sends of the inbox. -/
theorem receivedVia_after (h : Explains c (pre ++ post) d)
    (hq : ∀ roster, rosterIn (pre ++ post) x = some roster → roster.count q = 1)
    (hm : mailboxIn pre q = true) :
    receivedVia x q (pre ++ post) = receivedVia x q pre ++ sentVia x post := by
  induction post using reverseRecOn generalizing d with
  | nil => simp [sentVia]
  | append_singleton post entry ih =>
    rw [← append_assoc] at h hq ⊢
    obtain ⟨⟨d', prior⟩, hsend⟩ := explains_groupSend h
    have ih' := ih prior (fun roster hr => hq roster (rosterIn_append hr))
    rw [receivedVia_snoc, sentVia_append, sentVia_singleton, ih', append_assoc]
    congr 2
    rcases hg : groupSend x entry with _ | p
    · exact arrivals_of_groupSend_none hg
    · obtain ⟨roster, tag, hr, rfl⟩ := hsend x p hg
      have hcount := hq roster (rosterIn_append hr)
      simp [boxEvents, mailboxIn_append hm, hr, hcount, arrivalVia]

theorem arrivals_of_absent (h : mailboxIn log q = false) (entry : Exchange) :
    (boxEvents q log entry).filterMap (arrivalVia x) = [] := by
  unfold boxEvents
  split
  · split_ifs <;> rfl
  · simp [h]
  · split_ifs <;> rfl
  · rfl

theorem receivedVia_absent (h : mailboxIn log q = false) : receivedVia x q log = [] := by
  induction log using reverseRecOn with
  | nil => rfl
  | append_singleton log entry ih =>
    rw [mailboxIn_snoc, Bool.or_eq_false_iff] at h
    rw [receivedVia_snoc, ih h.1, arrivals_of_absent h.1]
    rfl

theorem receivedVia_suffix (h : Explains c log d)
    (hq : ∀ roster, rosterIn log x = some roster → roster.count q = 1) :
    receivedVia x q log <:+ sentVia x log := by
  induction log using reverseRecOn generalizing d with
  | nil => exact suffix_rfl
  | append_singleton log entry ih =>
    obtain ⟨⟨d', prior⟩, -⟩ := explains_groupSend h
    have ih' := ih prior (fun roster hr => hq roster (rosterIn_append hr))
    by_cases hm : mailboxIn log q = true
    · rw [receivedVia_after h hq hm, sentVia_append]
      obtain ⟨missed, hmissed⟩ := ih'
      exact ⟨missed, by rw [← append_assoc, hmissed]⟩
    · have hm' := Bool.eq_false_of_not_eq_true hm
      rw [receivedVia_snoc, receivedVia_absent hm', arrivals_of_absent hm']
      exact nil_suffix

/-- Every mailbox holds the deliveries of its history that were not acked since, in order;
two mailboxes that occur once each in a roster get final parts of one sequence of sends,
and the same sends if both existed before the first. -/
theorem mailbox_holds_unacked_deliveries (c : Crypto) (persistent : Bool) (es : List RelayEvent)
    (s : Service) (hrun : run (Service.step c) (Service.boot persistent) es = some s) :
    (∀ q, s.relay.pendingOf q = survivors (boxHistory q s.log)) ∧
      ∀ x roster q₁ q₂, rosterIn s.log x = some roster → roster.count q₁ = 1 →
        roster.count q₂ = 1 →
        receivedVia x q₁ s.log <:+ sentVia x s.log ∧ receivedVia x q₂ s.log <:+ sentVia x s.log ∧
        ∀ pre post, s.log = pre ++ post → sentVia x pre = [] → mailboxIn pre q₁ = true →
          mailboxIn pre q₂ = true → receivedVia x q₁ s.log = receivedVia x q₂ s.log := by
  obtain ⟨hexp, -⟩ := run_explains hrun
  refine ⟨fun q => ?_, fun x roster q₁ q₂ hx h₁ h₂ => ?_⟩
  · rw [← RelayState.ledger_pending, (explains_boxesTell hexp).pending]
  · have once : ∀ {q}, roster.count q = 1 → ∀ r, rosterIn s.log x = some r → r.count q = 1 := by
      intro q hq r hr
      rw [hx] at hr
      cases hr
      exact hq
    refine ⟨receivedVia_suffix hexp (once h₁), receivedVia_suffix hexp (once h₂), ?_⟩
    intro pre post hlog hnone hm₁ hm₂
    rw [hlog] at hexp once ⊢
    obtain ⟨d, hpre⟩ := explains_of_append hexp
    have hall : ∀ q, roster.count q = 1 → mailboxIn pre q = true →
        receivedVia x q (pre ++ post) = sentVia x post := by
      intro q hq hm
      have hnil := receivedVia_suffix hpre (fun r hr => once hq r (rosterIn_append hr))
      rw [hnone, suffix_nil] at hnil
      rw [receivedVia_after hexp (once hq) hm, hnil, nil_append]
    rw [hall q₁ h₁ hm₁, hall q₂ h₂ hm₂]

/-- Two mailboxes on one roster, an application message, a commit, and one ack. -/
def fannedOut : List RelayEvent :=
  mint 1 (fun solution => .createMailbox solution none) ++
    mint 2 (fun solution => .createMailbox solution none) ++
    mint 3 (fun solution => .createGroupInbox solution 1 [.fill 1, .fill 2] none) ++
    [.request (.fill 0) (.sendToGroupInbox (.fill 3) .application (.fill 0)
        ⟨.fill 4, .relayFanout, [4]⟩) none,
      .request (.fill 0) (.sendToGroupInbox (.fill 3) (.commit 1) (.fill 0)
        ⟨.fill 5, .relayFanout, [5]⟩) none,
      .request (.fill 0) (.ack (.fill 1) (.fill 4)) none]

theorem mailbox_holds_unacked_deliveries_fannedOut :
    ∃ s, run (Service.step .plain) (Service.boot false) fannedOut = some s ∧
      s.relay.pendingOf (.fill 1) = survivors (boxHistory (.fill 1) s.log) ∧
      (s.relay.pendingOf (.fill 1)).map Prod.fst = [Bytes.fill 5] ∧
      receivedVia (.fill 3) (.fill 1) s.log =
        receivedVia (.fill 3) (.fill 2) s.log := by
  obtain ⟨s, hs, hids, hroster, hnone, hm₁, hm₂⟩ :
      ∃ s, run (Service.step .plain) (Service.boot false) fannedOut = some s ∧
      (s.relay.pendingOf (.fill 1)).map Prod.fst = [Bytes.fill 5] ∧
      rosterIn s.log (.fill 3) = some [.fill 1, Bytes.fill 2] ∧
      sentVia (.fill 3) (s.log.take 6) = [] ∧
      mailboxIn (s.log.take 6) (.fill 1) = true ∧
      mailboxIn (s.log.take 6) (.fill 2) = true := by decide +kernel
  obtain ⟨hpend, hsame⟩ := mailbox_holds_unacked_deliveries .plain false fannedOut s hs
  obtain ⟨-, -, heq⟩ := hsame _ _ (.fill 1) (.fill 2) hroster (by decide) (by decide)
  exact ⟨s, hs, hpend _, hids, heq _ _ (take_append_drop 6 s.log).symm hnone hm₁ hm₂⟩

end Rosette.Relay
