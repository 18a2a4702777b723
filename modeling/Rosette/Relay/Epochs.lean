import Rosette.Relay.Service

/-! # Delivery-service agreement

One commit per epoch. The accepted commits of an inbox carry consecutive epochs
from the one it was created with, and the stored epoch is always the next one.
-/
namespace Rosette.Relay
open Foundation Proto List Ledger

/-- The inbox was created with this initial epoch. -/
def CreatedWith (x : QueueId) (i : UInt64) (log : List Exchange) : Prop :=
  ∃ solution roster attestation k,
    (ClientMessage.createGroupInbox solution i roster attestation, ServerMessage.queueCreated x k)
      ∈ log

/-- The epoch of one answered request, if it is an accepted commit for the inbox. -/
def acceptedCommit (x : QueueId) : Exchange → Option UInt64
  | (.sendToGroupInbox y (.commit target) _ _, .ok) => if y = x then some target else none
  | _ => none

def acceptedCommits (x : QueueId) (log : List Exchange) : List UInt64 :=
  log.filterMap (acceptedCommit x)

theorem acceptedCommits_snoc (x : QueueId) (log : List Exchange) (entry : Exchange) :
    acceptedCommits x (log ++ [entry]) =
      acceptedCommits x log ++ (acceptedCommit x entry).toList := by
  cases h : acceptedCommit x entry <;> simp [acceptedCommits, h]

variable {x : QueueId} {i : UInt64} {log : List Exchange}
  {entry : Exchange} {c : Crypto} {d : Ledger}

theorem createdWith_snoc :
    CreatedWith x i (log ++ [entry]) ↔ CreatedWith x i log ∨ CreatedWith x i [entry] := by
  simp only [CreatedWith, mem_append]
  constructor
  · rintro ⟨solution, roster, attestation, k, h | h⟩
    · exact .inl ⟨solution, roster, attestation, k, h⟩
    · exact .inr ⟨solution, roster, attestation, k, h⟩
  · rintro (⟨solution, roster, attestation, k, h⟩ | ⟨solution, roster, attestation, k, h⟩)
    · exact ⟨solution, roster, attestation, k, .inl h⟩
    · exact ⟨solution, roster, attestation, k, .inr h⟩

theorem createdWith_of_step {s t : Service} {ev : RelayEvent} (h : Service.step c s ev = some t)
    (hi : CreatedWith x i s.log) : CreatedWith x i t.log := by
  rcases step_log h with hlog | ⟨entry, hlog⟩
  · rw [hlog]
    exact hi
  · rw [hlog]
    exact createdWith_snoc.mpr (.inl hi)

/-- What the record says about one inbox, next to what the ledger stores for it. -/
structure EpochHistory (x : QueueId) (log : List Exchange) (d : Ledger) :
    Prop where
  absent : d.epoch x = none → acceptedCommits x log = [] ∧ ∀ i, ¬ CreatedWith x i log
  stored : ∀ e, d.epoch x = some e → ∀ i, CreatedWith x i log →
    (acceptedCommits x log).map UInt64.toNat =
        range' i.toNat (acceptedCommits x log).length ∧
      e.toNat = i.toNat + (acceptedCommits x log).length

theorem EpochHistory.of_unchanged {d' : Ledger} (h : EpochHistory x log d)
    (he : d'.epoch x = d.epoch x) (hacc : acceptedCommit x entry = none)
    (hnew : ∀ i, ¬ CreatedWith x i [entry]) : EpochHistory x (log ++ [entry]) d' := by
  have hlog : acceptedCommits x (log ++ [entry]) = acceptedCommits x log := by
    rw [acceptedCommits_snoc, hacc]
    simp
  constructor
  · intro hnone
    rw [he] at hnone
    obtain ⟨hempty, hnot⟩ := h.absent hnone
    refine ⟨hlog.trans hempty, fun i hi => ?_⟩
    rcases createdWith_snoc.mp hi with hi | hi
    · exact hnot i hi
    · exact hnew i hi
  · intro e hsome i hi
    rw [he] at hsome
    rw [hlog]
    rcases createdWith_snoc.mp hi with hi | hi
    · exact h.stored e hsome i hi
    · exact absurd hi (hnew i)

theorem answers_silent {msg : ClientMessage} {reply : ServerMessage} (x : QueueId)
    (h : Answers d msg reply) :
    acceptedCommit x (msg, reply) = none ∧ ∀ i, ¬ CreatedWith x i [(msg, reply)] := by
  cases h with
  | groupSendRefused =>
    refine ⟨?_, by simp [CreatedWith]⟩
    unfold acceptedCommit
    split
    · simp_all
    · rfl
  | _ => exact ⟨rfl, by simp [CreatedWith]⟩

theorem explains_epochHistory (h : Explains c log d) (x : QueueId) : EpochHistory x log d := by
  induction h with
  | nil => exact ⟨fun _ => ⟨rfl, by simp [CreatedWith]⟩, by simp [CreatedWith]⟩
  | answered prior answers ih =>
    obtain ⟨hacc, hnew⟩ := answers_silent x answers
    exact ih.of_unchanged rfl hacc hnew
  | @wrote log d msg m prior admits bounded ih =>
    cases admits with
    | @createMailbox _ _ q k fresh =>
      refine ih.of_unchanged ?_ rfl (by simp [CreatedWith])
      rw [Ledger.apply, epoch_set]
      split_ifs with hx
      · subst hx
        simp [Ledger.epoch, Ledger.inbox, fresh, QueueKind.column]
      · rfl
    | @createGroupInbox solution attestation epoch roster q k fresh =>
      by_cases hx : x = q
      · -- the id was free, so this is the inbox's first record
        subst hx
        have hnone : d.epoch x = none := by simp [Ledger.epoch, Ledger.inbox, fresh]
        obtain ⟨hempty, hnot⟩ := ih.absent hnone
        have hlog : acceptedCommits x (log ++ [(.createGroupInbox solution epoch roster attestation,
            (Mutation.createGroupInbox x k epoch roster).reply)]) = [] := by
          rw [acceptedCommits_snoc, hempty]
          rfl
        have hep : (d.apply (.createGroupInbox x k epoch roster)).epoch x = some epoch := by
          rw [Ledger.apply, epoch_set, if_pos rfl, QueueKind.column]
        refine ⟨fun h => absurd (hep.symm.trans h) (by simp), fun e he i hi => ?_⟩
        rw [hep] at he
        cases he
        rw [hlog]
        rcases createdWith_snoc.mp hi with hi | hi
        · exact absurd hi (hnot i)
        · obtain ⟨s', r', a', k', hmem⟩ := hi
          simp only [Mutation.reply, mem_singleton, Prod.mk.injEq,
            ClientMessage.createGroupInbox.injEq] at hmem
          simp [hmem.1.2.1]
      · refine ih.of_unchanged ?_ rfl ?_
        · rw [Ledger.apply, epoch_set, if_neg hx]
        · rintro i ⟨s', r', a', k', hmem⟩
          simp only [Mutation.reply, mem_singleton, Prod.mk.injEq,
            ServerMessage.queueCreated.injEq] at hmem
          exact hx hmem.2.1
    | sendToMailbox =>
      refine ih.of_unchanged ?_ rfl (by simp [CreatedWith])
      simp only [Ledger.apply, Ledger.epoch, inbox_deliver]
    | @sendToGroupInbox q kind tag e k epoch roster size entry auth current =>
      have hq : d.epoch q = some epoch := epoch_eq_some.mpr ⟨k, roster, entry⟩
      cases kind with
      | application =>
        refine ih.of_unchanged ?_ rfl (by simp [CreatedWith])
        rw [Ledger.apply, epoch_foldl_deliver, advance_application]
      | commit target =>
        have hep : (d.apply (.sendToGroupInbox q (.commit target) e roster)).epoch x =
            if x = q then some (epoch + 1) else d.epoch x := by
          rw [Ledger.apply, epoch_foldl_deliver, advance_commit entry,
            epoch_set, QueueKind.column]
        by_cases hx : x = q
        · -- accepted at the stored epoch, which then moves by one
          subst hx
          rw [if_pos rfl] at hep
          have htarget : target = epoch := by simpa [RelayState.conflicts] using current
          have hnext : (epoch + 1).toNat = epoch.toNat + 1 := by
            exact Nat.mod_eq_of_lt (bounded epoch hq)
          have hlog : acceptedCommits x (log ++ [(.sendToGroupInbox x (.commit target) tag e,
              (Mutation.sendToGroupInbox x (.commit target) e roster).reply)]) =
              acceptedCommits x log ++ [target] := by
            rw [acceptedCommits_snoc]
            simp [acceptedCommit, Mutation.reply]
          refine ⟨fun h => absurd (hep.symm.trans h) (by simp), fun e' he' i hi => ?_⟩
          rw [hep] at he'
          cases he'
          have hi' : CreatedWith x i log := by
            rcases createdWith_snoc.mp hi with hi | hi
            · exact hi
            · simp [CreatedWith] at hi
          obtain ⟨hrange, hcount⟩ := ih.stored epoch hq i hi'
          rw [hlog, map_append, hrange, length_append, hnext, htarget]
          refine ⟨?_, by simp; omega⟩
          rw [map_singleton, length_singleton, range'_concat, hcount, Nat.one_mul]
        · refine ih.of_unchanged (hep.trans (if_neg hx)) ?_ (by simp [CreatedWith])
          simp [acceptedCommit, Mutation.reply, Ne.symm hx]
    | ack =>
      refine ih.of_unchanged ?_ rfl (by simp [CreatedWith])
      simp only [Ledger.apply, Ledger.epoch, inbox_removeAcked]

/-- For an inbox created with epoch `i` and still below `2 ^ 63`: its accepted commits carry
the epochs `i, i + 1, ...` in order, each once; the epoch in memory and the one in the
database are `i` plus their number; an event that accepts no commit for it moves neither. -/
theorem deliveryService_agreement (c : Crypto) (persistent : Bool) (es : List RelayEvent)
    (s : Service) (x : QueueId) (i : UInt64)
    (hrun : run (Service.step c) (Service.boot persistent) es = some s)
    (hcreated : CreatedWith x i s.log)
    (hbelow : ∀ e, s.relay.ledger.epoch x = some e → e.toNat < 2 ^ 63) :
    (acceptedCommits x s.log).map UInt64.toNat =
        range' i.toNat (acceptedCommits x s.log).length ∧
      (acceptedCommits x s.log).Nodup ∧
      ∃ e, s.relay.ledger.epoch x = some e ∧
        e.toNat = i.toNat + (acceptedCommits x s.log).length ∧
        (∀ db, s.relay.inner.db = some db → ∃ row ∈ db.queues,
          row.queueId = x.toList ∧ row.epoch = .integer e.toNat) ∧
        ∀ ev t, Service.step c s ev = some t → acceptedCommits x t.log = acceptedCommits x s.log →
          t.relay.ledger.epoch x = some e ∧
          ∀ db, t.relay.inner.db = some db → ∃ row ∈ db.queues,
            row.queueId = x.toList ∧ row.epoch = .integer e.toNat := by
  obtain ⟨hexp, hcons⟩ := run_explains hrun
  have hist := explains_epochHistory hexp x
  rcases hep : s.relay.ledger.epoch x with _ | e
  · exact absurd hcreated ((hist.absent hep).2 i)
  obtain ⟨hrange, hcount⟩ := hist.stored e hep i hcreated
  have hnodup : (acceptedCommits x s.log).Nodup := by
    apply Nodup.of_map UInt64.toNat
    rw [hrange]
    exact nodup_range'
  have hstored : ∀ {t : Service}, Consistent t.relay → t.relay.ledger.epoch x = some e →
      ∀ db, t.relay.inner.db = some db → ∃ row ∈ db.queues,
        row.queueId = x.toList ∧ row.epoch = .integer e.toNat := by
    intro t ht he db hdb
    obtain ⟨k, r, hx⟩ := Ledger.epoch_eq_some.mp he
    refine ⟨_, (ht.queues db hdb).present x k _ hx, rowOf_queueId .., ?_⟩
    exact if_pos (hbelow e hep)
  refine ⟨hrange, hnodup, e, rfl, hcount, hstored hcons hep, fun ev t hstep hsame => ?_⟩
  obtain ⟨hexp', hcons'⟩ := step_explains hexp hcons (stepped_of_step hstep)
  have hep' : t.relay.ledger.epoch x = some e := by
    have hist' := explains_epochHistory hexp' x
    have hcreated' : CreatedWith x i t.log := createdWith_of_step hstep hcreated
    rcases h' : t.relay.ledger.epoch x with _ | e'
    · exact absurd hcreated' ((hist'.absent h').2 i)
    · obtain ⟨-, hcount'⟩ := hist'.stored e' h' i hcreated'
      rw [hsame, ← hcount] at hcount'
      rw [UInt64.toNat_inj.mp hcount']
  exact ⟨hep', hstored hcons' hep'⟩

/-- An inbox minted at epoch one, a commit, a losing commit for the same epoch, a restart and
the next commit. -/
def racingCommits : List RelayEvent :=
  mint 2 (fun solution => .createGroupInbox solution 1 [] none) ++
    [.request (.fill 0) (.sendToGroupInbox (.fill 2) (.commit 1) (.fill 0)
        ⟨.fill 3, .relayFanout, [3]⟩) none,
      .request (.fill 0) (.sendToGroupInbox (.fill 2) (.commit 1) (.fill 0)
        ⟨.fill 4, .relayFanout, [4]⟩) none,
      .restart 0 none,
      .request (.fill 0) (.sendToGroupInbox (.fill 2) (.commit 2) (.fill 0)
        ⟨.fill 5, .relayFanout, [5]⟩) none]

theorem deliveryService_agreement_racingCommits :
    ∃ s, run (Service.step .plain) (Service.boot true) racingCommits = some s ∧
      acceptedCommits (.fill 2) s.log = [1, 2] ∧
      (acceptedCommits (.fill 2) s.log).Nodup ∧
      ∃ e, s.relay.ledger.epoch (.fill 2) = some e ∧ e.toNat = 3 := by
  obtain ⟨s, hs, hmem, hacc, hep⟩ :
      ∃ s, run (Service.step .plain) (Service.boot true) racingCommits = some s ∧
      (ClientMessage.createGroupInbox ⟨.fill 2, 0⟩ 1 [] none,
        ServerMessage.queueCreated (.fill 2) (.fill 2)) ∈ s.log ∧
      acceptedCommits (.fill 2) s.log = [1, 2] ∧
      s.relay.ledger.epoch (.fill 2) = some 3 := by decide +kernel
  have hbelow : ∀ e, s.relay.ledger.epoch (.fill 2) = some e → e.toNat < 2 ^ 63 := by
    intro e he
    rw [hep] at he
    cases he
    decide
  obtain ⟨-, hnodup, e, he, hcount, -⟩ := deliveryService_agreement .plain true racingCommits s
    (.fill 2) 1 hs ⟨_, _, _, _, hmem⟩ hbelow
  exact ⟨s, hs, hacc, hnodup, e, he, by rw [hcount, hacc]; rfl⟩

end Rosette.Relay
