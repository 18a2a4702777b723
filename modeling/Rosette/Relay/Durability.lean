import Rosette.Relay.Service

/-! # Crash recovery refines the in-memory relay

Whatever the process was doing when it died, the state it comes back with is the
one it had answered for, or the one the single request in flight was leading to.
-/
namespace Rosette.Relay
open Foundation Proto RelayState Ledger

variable {db : Database} {t : RelayState} {m : Mutation} {c : Crypto} {s : Service}
  {msg : ClientMessage}

theorem reopen_db {now : ℕ} (h : reopen now db = some t) : t.inner.db = some db := by
  obtain ⟨queues, used, rfl⟩ := reopen_eq_some h
  rfl

theorem persist_backed {s : RelayState} (hb : s.inner.db.isSome) (h : s.persist m = some t) :
    t.inner.db.isSome := by
  obtain ⟨-, -, -, ⟨hnone, -⟩ | ⟨-, db', -, h', -⟩⟩ := persist_eq_some h
  · simp [hnone] at hb
  · rw [h']
    rfl

theorem step_backed {t : Service} (hb : s.relay.inner.db.isSome) (h : Stepped c s t) :
    t.relay.inner.db.isSome := by
  cases h with
  | answered quiet | connection quiet => exact quiet.db ▸ hb
  | wrote silent awake admits persisted applied =>
    exact (apply_frame applied).1 ▸ persist_backed (silent.db ▸ hb) persisted
  | refused silent => exact silent.db ▸ hb
  | overflowed silent awake admits persisted => exact (persist_backed (silent.db ▸ hb) persisted :)
  | restarted file reopened | restartedMidway inFlight file reopened =>
    rw [reopen_db reopened]
    rfl

theorem run_backed {es : List RelayEvent}
    (h : run (Service.step c) (Service.boot true) es = some s) :
    s.relay.inner.db.isSome :=
  run_invariant rfl
    (fun _ _ _ hs ht => step_backed hs (stepped_of_step ht)) h

def Ledger.EpochsBelow (d : Ledger) (n : ℕ) : Prop := ∀ x e, d.epoch x = some e → e.toNat < n

theorem Ledger.EpochsBelow.fits_apply {d : Ledger} {db' : Database} {queues : Queues}
    (h : d.EpochsBelow (2 ^ 63 - 1)) (ha : Admits c d msg m) (hp : m.persist queues db = some db') :
    (d.apply m).Fits := by
  have hd : d.Fits := fun x e he => by
    have := h x e he
    omega
  intro x e he
  cases ha with
  | createMailbox =>
    rw [Ledger.apply, epoch_set] at he
    split_ifs at he
    · cases he
    · exact hd x e he
  | createGroupInbox =>
    rw [Ledger.apply, epoch_set] at he
    split_ifs at he
    · cases he
      obtain ⟨v, hv, -⟩ := Option.bind_eq_some_iff.mp hp
      unfold bindU64 at hv
      split_ifs at hv with hfit
      exact hfit
    · exact hd x e he
  | sendToMailbox =>
    simp only [Ledger.apply, Ledger.epoch, inbox_deliver] at he
    exact hd x e he
  | @sendToGroupInbox q kind _ env k epoch roster size entry =>
    rw [Ledger.apply, epoch_foldl_deliver] at he
    cases kind with
    | application => exact hd x e he
    | commit =>
      rw [advance_commit entry, epoch_set] at he
      split_ifs at he
      · cases he
        have := h q epoch (epoch_eq_some.mpr ⟨k, roster, entry⟩)
        rw [UInt64.toNat_add, Nat.mod_eq_of_lt] <;> simp <;> omega
      · exact hd x e he
  | ack =>
    simp only [Ledger.apply, Ledger.epoch, inbox_removeAcked] at he
    exact hd x e he

theorem plan_pushTx {amb : Ambient} (s : RelayState) (h : ∀ ids, msg ≠ .subscribe ids)
    (tx : Option ChannelId) : plan c amb s msg tx = plan c amb s msg none := by
  cases msg with
  | subscribe ids => exact absurd rfl (h ids)
  | _ => rfl

/-- Reopening the file yields the durable state the process last answered for; after the
durable write of a request in flight, it yields the state that request leads to. -/
theorem reopen_yields_durable_state (c : Crypto) (es : List RelayEvent) (s : Service)
    (hrun : run (Service.step c) (Service.boot true) es = some s)
    (hbelow : s.relay.ledger.EpochsBelow (2 ^ 63 - 1)) :
    ∃ db, s.relay.inner.db = some db ∧
      (∀ now, ∃ inner, openDatabase now db = .ok inner ∧ inner.ledger = s.relay.ledger) ∧
      (∀ amb msg pushTx, (∀ reply, (s.relay.handle c amb msg pushTx).2 ≠ .answered reply) →
        (s.relay.handle c amb msg pushTx).1.ledger = s.relay.ledger) ∧
      ∀ amb msg mid m, s.relay.midway c amb msg = some (mid, m) → ∀ pushTx, ∃ db' t,
        mid.inner.db = some db' ∧ s.relay.handle c amb msg pushTx = (t, .answered m.reply) ∧
          ∀ now, ∃ inner, openDatabase now db' = .ok inner ∧ inner.ledger = t.ledger := by
  obtain ⟨-, hc⟩ := run_explains hrun
  have hback := run_backed hrun
  obtain ⟨db, hdb⟩ := Option.isSome_iff_exists.mp hback
  have hfits : s.relay.ledger.Fits := fun x e he => by
    have := hbelow x e he
    omega
  have hholds : Holds db s.relay.ledger := hc.holds_of_bounded hdb fun x e he => by
    have := hfits x e he
    omega
  refine ⟨db, hdb, fun now => ?_, fun amb msg pushTx hno => ?_, fun amb msg mid m hm pushTx => ?_⟩
  · obtain ⟨inner, ho, hl, -⟩ := openDatabase_holds hholds hfits now
    exact ⟨inner, ho, hl⟩
  · have ho := outcome_handle c amb s.relay msg pushTx
    generalize s.relay.handle c amb msg pushTx = r at ho hno
    rcases r with ⟨t, handled⟩
    cases ho with
    | answered | wrote => exact absurd rfl (hno _)
    | refused silent => exact silent.ledger
    | overflowed silent awake admits persisted =>
      exact (persist_eq_some persisted).1.trans silent.ledger
    | spinning quiet => exact quiet.ledger
  · obtain ⟨s₁, hq, hp, ha, hper, hplan⟩ := midway_eq_some hm
    have hl : mid.ledger = s.relay.ledger := (persist_eq_some hper).1.trans hq.ledger
    have hb : m.Bounded s.relay.ledger := hfits.bounded m
    obtain ⟨db', hdb'⟩ := Option.isSome_iff_exists.mp
      (persist_backed (hq.db ▸ hback) hper)
    obtain ⟨t, ht⟩ := (apply_isSome_iff m amb.now mid).mpr (hl.symm ▸ hb)
    refine ⟨db', t, hdb', ?_, fun now => ?_⟩
    · unfold handle
      rw [plan_pushTx s.relay (Admits.not_subscribe ha) pushTx, hplan]
      simp only [finish, hper, ht]
    · have hfits' : (s.relay.ledger.apply m).Fits := by
        obtain ⟨-, -, -, ⟨-, hnone⟩ | ⟨db₀, db₁, -, -, hw⟩⟩ := persist_eq_some hper
        · simp [hnone] at hdb'
        · exact hbelow.fits_apply ha hw
      obtain ⟨inner, ho, hled, -⟩ :=
        openDatabase_holds (holds_midway hc hq hp ha hper hb hdb') hfits' now
      refine ⟨inner, ho, ?_⟩
      rw [hled, ledger_apply ht, hl]

/-- A mailbox and an inbox, and one message that is stored but not acked. -/
def storedMessage : List RelayEvent :=
  mint 1 (fun solution => .createMailbox solution none) ++
    mint 2 (fun solution => .createGroupInbox solution 1 [.fill 1] none) ++
    [.request (.fill 0) (.sendToGroupInbox (.fill 2) .application (.fill 0)
        ⟨.fill 3, .relayFanout, [3]⟩) none]

theorem reopen_yields_durable_state_storedMessage :
    ∃ s db, run (Service.step .plain) (Service.boot true) storedMessage = some s ∧
      s.relay.inner.db = some db ∧ s.relay.ledger.pending (.fill 1) ≠ [] ∧
      ∃ inner, openDatabase 0 db = .ok inner ∧ inner.ledger = s.relay.ledger := by
  obtain ⟨s, hs, hne, hqueues⟩ :
      ∃ s, run (Service.step .plain) (Service.boot true) storedMessage = some s ∧
      s.relay.ledger.pending (.fill 1) ≠ [] ∧
      s.relay.inner.queues = (Finmap.insert (.fill 2)
        ⟨.fill 2, .groupInbox 1 [.fill 1], 1, 0⟩ (Finmap.insert (.fill 1)
          ⟨.fill 1, .mailbox [(.fill 3, ⟨.fill 3, .relayFanout, [3]⟩)], 0, 0⟩ ∅)
        : Queues) := by decide +kernel
  have hbelow : s.relay.ledger.EpochsBelow (2 ^ 63 - 1) := by
    intro x e he
    rw [ledger_epoch, hqueues] at he
    by_cases h₂ : x = .fill 2
    · rw [h₂] at he
      cases he
      decide
    · rw [Finmap.lookup_insert_of_ne _ h₂] at he
      by_cases h₁ : x = .fill 1
      · rw [h₁] at he
        cases he
      · simp [Finmap.lookup_insert_of_ne _ h₁] at he
  obtain ⟨db, hdb, hopen, -⟩ := reopen_yields_durable_state .plain storedMessage s hs hbelow
  exact ⟨s, db, hs, hdb, hne, hopen 0⟩

end Rosette.Relay
