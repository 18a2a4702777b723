import Rosette.Relay.Durability
import Rosette.Relay.Epochs
import Rosette.Relay.Storage

/-! # What can take the relay down

An epoch is an unsigned word on the wire and in memory and a signed one in the
database, and the sender of a request chooses it. The relay comes back from its
file unless a commit has carried an epoch out of the signed range, and it answers
every request except those that make it bind, add or count past a bound.
-/
namespace Rosette.Relay
open Foundation Proto RelayState List Option Ledger

/-! ## Coming back -/

variable {c : Crypto} {d : Ledger} {x : QueueId} {db : Database} {i : UInt64} {es : List RelayEvent}
  {s : Service} {msg : ClientMessage} {m : Mutation}

theorem exists_createdWith {log : List Exchange} (h : Explains c log d) {e : UInt64}
    (he : d.epoch x = some e) : ∃ i, CreatedWith x i log := by
  induction h generalizing e with
  | nil => cases he
  | answered prior answers ih =>
    obtain ⟨i, hi⟩ := ih he
    exact ⟨i, createdWith_snoc.mpr (.inl hi)⟩
  | @wrote log d msg m prior admits bounded ih =>
    have hold : ∀ {e}, d.epoch x = some e → ∃ i, CreatedWith x i (log ++ [(msg, m.reply)]) := by
      intro e he
      obtain ⟨i, hi⟩ := ih he
      exact ⟨i, createdWith_snoc.mpr (.inl hi)⟩
    cases admits with
    | createMailbox =>
      rw [Ledger.apply, epoch_set] at he
      split_ifs at he
      · cases he
      · exact hold he
    | @createGroupInbox solution attestation epoch roster q k =>
      rw [Ledger.apply, epoch_set] at he
      split_ifs at he with hx
      · subst hx
        exact ⟨epoch, createdWith_snoc.mpr (.inr
          ⟨solution, roster, attestation, k, mem_singleton_self _⟩)⟩
      · exact hold he
    | sendToMailbox =>
      rw [Ledger.apply, Ledger.epoch, inbox_deliver] at he
      exact hold he
    | @sendToGroupInbox q kind tag env k epoch roster size entry =>
      rw [Ledger.apply, epoch_foldl_deliver] at he
      cases kind with
      | application => exact hold he
      | commit =>
        rw [advance_commit entry, epoch_set] at he
        split_ifs at he with hx
        · subst hx
          exact hold (epoch_eq_some.mpr ⟨k, roster, entry⟩)
        · exact hold he
    | ack =>
      rw [Ledger.apply, Ledger.epoch, inbox_removeAcked] at he
      exact hold he

theorem createdWith_bound {queues : Queues} {db' : Database} (ha : Admits c d msg m)
    (hp : m.persist queues db = some db') (hi : CreatedWith x i [(msg, m.reply)]) :
    i.toNat < 2 ^ 63 := by
  obtain ⟨solution, roster, attestation, k, hmem⟩ := hi
  obtain ⟨rfl, -⟩ := Prod.mk.inj (mem_singleton.mp hmem)
  cases ha with
  | createGroupInbox =>
    obtain ⟨v, hv, -⟩ := bind_eq_some_iff.mp hp
    unfold bindU64 at hv
    split_ifs at hv with hfit
    exact hfit

section
variable (h : run (Service.step c) (Service.boot true) es = some s)
include h

/-- On a file, every inbox was created with an epoch the column can hold. -/
theorem run_createdWith (hi : CreatedWith x i s.log) :
    i.toNat < 2 ^ 63 := by
  have key : s.relay.inner.db.isSome = true ∧ ∀ i, CreatedWith x i s.log → i.toNat < 2 ^ 63 := by
    refine run_invariant ⟨rfl, by simp [CreatedWith, Service.boot]⟩
      (fun s ev t hs ht => ⟨step_backed hs.1 (stepped_of_step ht), fun i hi => ?_⟩) h
    cases stepped_of_step ht with
    | answered quiet answers =>
      rcases createdWith_snoc.mp hi with hi | hi
      · exact hs.2 i hi
      · exact absurd hi ((answers_silent x answers).2 i)
    | wrote silent awake admits persisted =>
      rcases createdWith_snoc.mp hi with hi | hi
      · exact hs.2 i hi
      · obtain ⟨-, -, -, ⟨hnone, -⟩ | ⟨db, db', -, -, hw⟩⟩ := persist_eq_some persisted
        · rw [← silent.db, hnone] at hs
          cases hs.1
        · exact createdWith_bound admits hw hi
    | restartedMidway inFlight =>
      rcases createdWith_snoc.mp hi with hi | hi
      · exact hs.2 i hi
      · obtain ⟨s₁, hq, -, ha, hper, -⟩ := midway_eq_some inFlight
        obtain ⟨-, -, -, ⟨hnone, -⟩ | ⟨db, db', -, -, hw⟩⟩ := persist_eq_some hper
        · rw [← hq.db, hnone] at hs
          cases hs.1
        · exact createdWith_bound ha hw hi
    | _ => exact hs.2 i hi
  exact key.2 i hi

/-- The epochs fit the column exactly as long as no accepted commit has led out of it. -/
theorem fits_iff :
    s.relay.ledger.Fits ↔
      ∀ x, ∀ target ∈ acceptedCommits x s.log, target.toNat + 1 < 2 ^ 63 := by
  obtain ⟨hexp, -⟩ := run_explains h
  constructor
  · intro hfits x target hmem
    have hist := explains_epochHistory hexp x
    rcases hep : s.relay.ledger.epoch x with _ | e
    · simp [(hist.absent hep).1] at hmem
    · obtain ⟨i, hi⟩ := exists_createdWith hexp hep
      obtain ⟨hrange, hcount⟩ := hist.stored e hep i hi
      have hin := mem_map_of_mem (f := UInt64.toNat) hmem
      rw [hrange, mem_range'_1] at hin
      have := hfits x e hep
      omega
  · intro hcommits x e hep
    obtain ⟨i, hi⟩ := exists_createdWith hexp hep
    obtain ⟨hrange, hcount⟩ := (explains_epochHistory hexp x).stored e hep i hi
    have hbound := run_createdWith h hi
    by_cases hnil : acceptedCommits x s.log = []
    · rw [hnil, length_nil] at hcount
      omega
    · -- the last accepted commit is the one before the stored epoch
      have hpos := length_pos_iff.mpr hnil
      have hin : e.toNat - 1 ∈ (acceptedCommits x s.log).map UInt64.toNat := by
        rw [hrange, mem_range'_1]
        omega
      obtain ⟨target, hmem, htarget⟩ := mem_map.mp hin
      have := hcommits x target hmem
      omega

end

/-- A relay can be started again from its file, with every epoch it had in memory, if and only
if no accepted commit was for epoch `2 ^ 63 - 1` or a later one. -/
theorem reopen_succeeds_iff (c : Crypto) (es : List RelayEvent) (s : Service)
    (hrun : run (Service.step c) (Service.boot true) es = some s) :
    (∃ db, s.relay.inner.db = some db ∧ ∀ now, ∃ inner, openDatabase now db = .ok inner ∧
        ∀ x, inner.ledger.epoch x = s.relay.ledger.epoch x) ↔
      ∀ x, ∀ target ∈ acceptedCommits x s.log, target.toNat + 1 < 2 ^ 63 := by
  obtain ⟨-, hc⟩ := run_explains hrun
  rw [← fits_iff hrun]
  constructor
  · rintro ⟨db, hdb, hopen⟩
    obtain ⟨inner, ho, -⟩ := hopen 0
    exact openDatabase_fits (hc.queues db hdb) ho
  · intro hfits
    obtain ⟨db, hdb⟩ := isSome_iff_exists.mp (run_backed hrun)
    have hholds : Holds db s.relay.ledger := hc.holds_of_bounded hdb fun x e he => by
      have := hfits x e he
      omega
    refine ⟨db, hdb, fun now => ?_⟩
    obtain ⟨inner, ho, hl, -⟩ := openDatabase_holds hholds hfits now
    exact ⟨inner, ho, fun x => by rw [hl]⟩

/-- The epoch of an accepted commit, whatever its inbox. -/
def commitTarget : Exchange → Option UInt64
  | (.sendToGroupInbox _ (.commit target) _ _, .ok) => some target
  | _ => none

theorem commitTarget_of_acceptedCommit {entry : Exchange} {target : UInt64}
    (h : acceptedCommit x entry = some target) : commitTarget entry = some target := by
  unfold acceptedCommit at h
  split at h
  · split_ifs at h
    exact h
  · cases h

theorem reopen_succeeds_iff_racingCommits :
    ∃ s db, run (Service.step .plain) (Service.boot true) racingCommits = some s ∧
      s.relay.inner.db = some db ∧ ∃ inner, openDatabase 0 db = .ok inner ∧
        inner.ledger.epoch (.fill 2) = s.relay.ledger.epoch (.fill 2) := by
  obtain ⟨s, hs, hcommits⟩ :
      ∃ s, run (Service.step .plain) (Service.boot true) racingCommits = some s ∧
      s.log.filterMap commitTarget = [1, 2] := by decide +kernel
  have hfit : ∀ x, ∀ target ∈ acceptedCommits x s.log, target.toNat + 1 < 2 ^ 63 := by
    intro x target hm
    obtain ⟨entry, hin, hacc⟩ := mem_filterMap.mp hm
    have hmem := mem_filterMap.mpr ⟨entry, hin, commitTarget_of_acceptedCommit hacc⟩
    rw [hcommits] at hmem
    have hsmall : ∀ target ∈ ([1, 2] : List UInt64), target.toNat + 1 < 2 ^ 63 := by simp
    exact hsmall target hmem
  obtain ⟨db, hdb, hopen⟩ := (reopen_succeeds_iff .plain racingCommits s hs).mpr hfit
  obtain ⟨inner, ho, hep⟩ := hopen 0
  exact ⟨s, db, hs, hdb, inner, ho, hep _⟩

/-- An inbox minted at the last epoch the column can hold, and a commit for it. -/
def lastEpoch : List RelayEvent :=
  mint 2 (fun solution => .createGroupInbox solution 0x7fffffffffffffff [] none) ++
    [.request (.fill 0) (.sendToGroupInbox (.fill 2) (.commit 0x7fffffffffffffff) (.fill 0)
        ⟨.fill 3, .relayFanout, [3]⟩) none]

/-- Both requests are accepted, and the relay does not come back. -/
theorem lastEpoch_bars_reopening :
    ∃ s db, run (Service.step .plain) (Service.boot true) lastEpoch = some s ∧
      s.log.map Prod.snd = [.powChallenge ⟨.fill 2, queueCreationPowDifficulty⟩,
        .queueCreated (.fill 2) (.fill 2), .ok] ∧
      s.relay.ledger.epoch (.fill 2) = some 0x8000000000000000 ∧ s.relay.inner.db = some db ∧
      ∀ now, openDatabase now db = .error .invalidColumn := by
  obtain ⟨s, hs, hlog, hep, hdb⟩ :
      ∃ s, run (Service.step .plain) (Service.boot true) lastEpoch = some s ∧
      s.log.map Prod.snd = [.powChallenge ⟨.fill 2, queueCreationPowDifficulty⟩,
        .queueCreated (.fill 2) (.fill 2), .ok] ∧
      s.relay.ledger.epoch (.fill 2) = some 0x8000000000000000 ∧
      s.relay.inner.db = some { Database.empty with queues :=
        [⟨(.fill 2 : QueueId).toList, (.fill 2 : SendKey).toList, .real⟩] } := by
            decide +kernel
  exact ⟨s, _, hs, hlog, hep, hdb, fun now => rfl⟩

/-! ## Staying up -/

namespace RelayState
section Conditions
variable (c : Crypto) (amb : Ambient) (s : RelayState)

/-- What the two gates of a creation request say. `none` is a leading-zero count over 255. -/
def gates (solution : PowSolution) (attestation : Option AttestationToken) :
    Option (Except RejectionCode Unit) :=
  match consumeAttestation c amb s.inner attestation with
  | (.error code, _) => some (.error code)
  | (.ok _, inner) => (consumePow c inner solution).1

/-- No epoch or count the request brings goes past its bound where the relay would use it. -/
def harmless : ClientMessage → Bool
  | .createMailbox solution attestation => (gates c amb s solution attestation).isSome
  | .createGroupInbox solution initialEpoch _ attestation =>
    match gates c amb s solution attestation with
    | none => false
    | some (.error _) => true
    | some (.ok _) => initialEpoch.toNat < 2 ^ 63
  | .sendToGroupInbox queueId (.commit target) authTag envelope =>
    match (sendToGroupInbox c amb s queueId (.commit target) authTag envelope).2 with
    | .write _ => target.toNat + 1 < 2 ^ 64
    | _ => true
  | _ => true

end Conditions

variable {c : Crypto} {amb : Ambient} {s : RelayState}

variable (hp : s.poisoned = false)
include hp

theorem admitQueue_plan (solution : PowSolution) (attestation : Option AttestationToken)
    (mutation : QueueId → Mutation) :
    (admitQueue c amb s solution attestation mutation).2 =
      match gates c amb s solution attestation with
      | none => .panic
      | some (.error code) => .answer (.error code)
      | some (.ok _) => match freshQueueId amb s.inner with
        | none => .spin
        | some id => .write (mutation id) := by
  unfold admitQueue gates
  rw [if_neg (by simp [hp])]
  have h₁ := consumeAttestation_sameCore c amb s.inner attestation
  generalize consumeAttestation c amb s.inner attestation = r₁ at h₁
  rcases r₁ with ⟨_ | _, inner₁⟩
  · rfl
  have h₂ := h₁.trans (consumePow_sameCore c inner₁ solution)
  dsimp only
  generalize consumePow c inner₁ solution = r₂ at h₂
  rcases r₂ with ⟨_ | _ | _, inner₂⟩
  · rfl
  · rfl
  · have hfresh : freshQueueId amb inner₂ = freshQueueId amb s.inner := by
      unfold freshQueueId
      rw [h₂.queues]
    dsimp only
    rw [hfresh]
    cases freshQueueId amb s.inner <;> rfl

theorem sendToMailbox_goesOn (q : QueueId) (tag : AuthTag) (e : Envelope) :
    (sendToMailbox c amb s q tag e).2 ≠ .panic ∧
      (sendToMailbox c amb s q tag e).2 ≠ .spin := by
  have h := mailboxSend c amb s q tag e
  generalize sendToMailbox c amb s q tag e = r at h
  cases h with
  | poisoned asleep => simp [hp] at asleep
  | overflow size found window room =>
    exact absurd room (isSome_iff_ne_none.mp (wouldExceedStorageBound_isSome size (by decide)))
  | _ => simp

theorem sendToGroupInbox_goesOn (hr : s.RostersFramed) (q : QueueId) (kind : GroupSendKind)
    (tag : AuthTag) (e : Envelope) :
    (sendToGroupInbox c amb s q kind tag e).2 ≠ .panic ∧
      (sendToGroupInbox c amb s q kind tag e).2 ≠ .spin := by
  have h := inboxSend c amb s q tag e kind
  generalize sendToGroupInbox c amb s q kind tag e = r at h
  cases h with
  | poisoned asleep => simp [hp] at asleep
  | @overflow k epoch roster n w size found room =>
    have hroster : s.ledger.roster q = some roster := by
      apply roster_of_groupInbox
      rw [ledger_queues, found]
      rfl
    exact absurd room (isSome_iff_ne_none.mp
      (wouldExceedStorageBound_isSome size (hr q roster hroster)))
  | _ => simp

end RelayState

/-- The database binds what the mutation brings, and memory can count it. -/
def Mutation.storable : Mutation → Bool
  | .createGroupInbox _ _ epoch _ => epoch.toNat < 2 ^ 63
  | .sendToGroupInbox _ (.commit target) _ _ => target.toNat + 1 < 2 ^ 64
  | _ => true

namespace RelayState
variable {c : Crypto} {amb : Ambient} {s : RelayState} {db : Database} {d : Ledger}

/-- What a plan says about the request it was made for. -/
def Foreseen (harmless : Bool) (fresh : Option QueueId) : Plan → Prop
  | .answer _ => harmless = true
  | .write m => harmless = m.storable
  | .panic => harmless = false
  | .spin => fresh = none

theorem plan_foreseen (hp : s.poisoned = false) (hr : s.RostersFramed) (msg : ClientMessage)
    (tx : Option ChannelId) :
    Foreseen (harmless c amb s msg) (freshQueueId amb s.inner) (plan c amb s msg tx).2 := by
  have hawake : ¬ s.poisoned = true := by simp [hp]
  cases msg with
  | requestPowChallenge | ack =>
    simp only [plan, if_neg hawake]
    rfl
  | createMailbox solution attestation =>
    simp only [plan, createMailbox, admitQueue_plan hp, harmless]
    rcases gates c amb s solution attestation with _ | _ | _
    · rfl
    · rfl
    · cases hf : freshQueueId amb s.inner <;> rfl
  | createGroupInbox solution epoch fanOutTo attestation =>
    simp only [plan, createGroupInbox, admitQueue_plan hp, harmless]
    rcases gates c amb s solution attestation with _ | _ | _
    · rfl
    · rfl
    · cases hf : freshQueueId amb s.inner <;> rfl
  | sendToMailbox q tag e =>
    obtain ⟨hpanic, hspin⟩ := @sendToMailbox_goesOn c amb s hp q tag e
    have hw := (@planned_sendToMailbox c amb s q tag e).admits
    simp only [plan]
    generalize (sendToMailbox c amb s q tag e).2 = r at hpanic hspin hw
    cases r with
    | answer => rfl
    | write m =>
      cases hw m rfl
      rfl
    | panic => exact absurd rfl hpanic
    | spin => exact absurd rfl hspin
  | sendToGroupInbox q kind tag e =>
    obtain ⟨hpanic, hspin⟩ := @sendToGroupInbox_goesOn c amb s hp hr q kind tag e
    have hw := (@planned_sendToGroupInbox c amb s q kind tag e).admits
    cases kind with
    | application =>
      simp only [plan]
      generalize (sendToGroupInbox c amb s q .application tag e).2 = r at hpanic hspin hw
      cases r with
      | answer => rfl
      | write m =>
        cases hw m rfl
        rfl
      | panic => exact absurd rfl hpanic
      | spin => exact absurd rfl hspin
    | commit target =>
      simp only [plan, harmless]
      generalize (sendToGroupInbox c amb s q (.commit target) tag e).2 = r at hpanic hspin hw
      cases r with
      | answer => rfl
      | write m =>
        cases hw m rfl
        rfl
      | panic => exact absurd rfl hpanic
      | spin => exact absurd rfl hspin
  | subscribe =>
    cases tx with
    | none => rfl
    | some =>
      simp only [plan, if_neg hawake]
      rfl

theorem insertQueue_fresh (h : HoldsQueues db d) {q : QueueId} (hq : d.queues q = none)
    (k : List UInt8) (v : SqlValue) :
    db.insertQueue ⟨q.toList, k, v⟩ =
      some { db with queues := db.queues ++ [⟨q.toList, k, v⟩] } := by
  unfold Database.insertQueue
  rw [if_neg]
  intro hany
  obtain ⟨row, hrow, he⟩ := any_eq_true.mp hany
  obtain ⟨q', k', kind, hq', rfl⟩ := h.rows row hrow
  have he := of_decide_eq_true he
  rw [rowOf_queueId] at he
  simp [List.Vector.toList_injective he, hq] at hq'

/-- The only statement that is refused binds an epoch past the signed range. -/
theorem persist_isSome (h : HoldsQueues db d) (ha : Admits c d msg m) (queues : Queues)
    (hm : ∀ q k epoch roster, m = .createGroupInbox q k epoch roster → epoch.toNat < 2 ^ 63) :
    (m.persist queues db).isSome = true := by
  cases ha with
  | @createMailbox _ _ q k fresh =>
    rw [Mutation.persist, insertQueue_fresh h fresh]
    rfl
  | @createGroupInbox _ _ epoch fanOutTo q k fresh =>
    have hnone : ∀ r ∈ db.roster, r.inboxId = q.toList → r.ord < 0 := by
      intro r hr hx
      have hin : r ∈ db.roster.filter (fun r => r.inboxId = q.toList) :=
        mem_filter.mpr ⟨hr, decide_eq_true hx⟩
      rw [h.roster q, Ledger.roster, Ledger.inbox, fresh] at hin
      simp [Database.rosterRows] at hin
    obtain ⟨db', hdb'⟩ := @Database.insertMembers_isSome q { db with
      queues := db.queues ++ [⟨q.toList, k.toList, .integer epoch.toNat⟩] } 0 fanOutTo hnone
    rw [Mutation.persist, bindU64, if_pos (hm q k epoch fanOutTo rfl), bind_some,
      insertQueue_fresh h fresh, bind_some, hdb']
    rfl
  | _ => rfl

theorem storable_iff (ha : Admits c d msg m) :
    m.storable = true ↔
      (∀ q k epoch roster, m = .createGroupInbox q k epoch roster → epoch.toNat < 2 ^ 63) ∧
        m.Bounded d := by
  cases ha with
  | createGroupInbox =>
    rw [Mutation.storable, decide_eq_true_iff]
    refine ⟨fun h => ⟨?_, trivial⟩, fun h => h.1 _ _ _ _ rfl⟩
    rintro q k epoch roster ⟨⟩
    exact h
  | @sendToGroupInbox q kind tag e k epoch roster size entry auth current =>
    cases kind with
    | application => simp [Mutation.storable, Mutation.Bounded]
    | commit target =>
      obtain rfl : target = epoch := by simpa [conflicts] using current
      have hep : d.epoch q = some target := epoch_eq_some.mpr ⟨k, roster, entry⟩
      simp [Mutation.storable, Mutation.Bounded, hep]
  | _ => simp [Mutation.storable, Mutation.Bounded]

variable (hc : Consistent s)
include hc

/-- On a file, a durable write goes through exactly if the mutation is storable. -/
theorem finish_write {s₁ : RelayState} (hb : s.inner.db.isSome = true) (hs : Silent s s₁)
    (ha : Admits c s.ledger msg m) :
    (finish amb s₁ (.write m)).2 = if m.storable then .answered m.reply else .panicked := by
  obtain ⟨db, hdb⟩ := isSome_iff_exists.mp hb
  have hper : s₁.persist m = (m.persist s₁.inner.queues db).map
      (fun db => { s₁ with inner := { s₁.inner with db := some db } }) := by
    rw [persist, hs.db, hdb]
  have hbound : ∀ t, s₁.persist m = some t → ((∃ u, m.apply amb.now t = some u) ↔
      m.Bounded s.ledger) := by
    intro t ht
    rw [apply_isSome_iff, (persist_eq_some ht).1, hs.ledger]
  by_cases hst : m.storable = true
  · obtain ⟨hbind, hb⟩ := (storable_iff ha).mp hst
    obtain ⟨db', hdb'⟩ := isSome_iff_exists.mp
      (persist_isSome (hc.queues db hdb) ha s₁.inner.queues hbind)
    rw [hdb', map_some] at hper
    obtain ⟨u, hu⟩ := (hbound _ hper).mpr hb
    simp only [finish, hper, hu, hst, if_true]
  · rw [if_neg hst]
    rw [storable_iff ha, not_and_or] at hst
    rcases hst with hbind | hb
    · push Not at hbind
      obtain ⟨q, k, epoch, roster, rfl, hbig⟩ := hbind
      rw [Mutation.persist, bindU64, if_neg (Nat.not_lt.mpr hbig), bind_none, map_none] at hper
      simp only [finish, hper]
    · cases ht : s₁.persist m with
      | none => simp only [finish, ht]
      | some t =>
        have hnone : m.apply amb.now t = none := by
          rw [eq_none_iff_forall_not_mem]
          intro u hu
          exact hb ((hbound t ht).mp ⟨u, hu⟩)
        simp only [finish, ht, hnone]

theorem handle_foreseen (hb : s.inner.db.isSome = true) (hp : s.poisoned = false)
    (hr : s.RostersFramed) (msg : ClientMessage) (tx : Option ChannelId) :
    match (handle c amb s msg tx).2 with
    | .answered _ => harmless c amb s msg = true
    | .panicked => harmless c amb s msg = false
    | .spinning => freshQueueId amb s.inner = none := by
  have hforeseen := @plan_foreseen c amb s hp hr msg tx
  have hplan := planned_plan c amb s msg tx
  unfold handle
  generalize plan c amb s msg tx = r at hforeseen hplan
  rcases r with ⟨s₁, reply | m | _ | _⟩
  · exact hforeseen
  · have ha := hplan.admits m rfl
    rw [finish_write hc hb (hplan.silent (Admits.not_subscribe ha)) ha]
    rw [hforeseen]
    cases m.storable <;> rfl
  · exact hforeseen
  · exact hforeseen

theorem handle_answered_iff (hb : s.inner.db.isSome = true) (hp : s.poisoned = false)
    (hr : s.RostersFramed) {tx : Option ChannelId}
    (hid : ∃ id ∈ amb.ids, s.inner.queues.lookup id = none) :
    (∃ reply, (handle c amb s msg tx).2 = .answered reply) ↔ harmless c amb s msg = true := by
  have hforeseen := @handle_foreseen c amb s hc hb hp hr msg tx
  cases h : (handle c amb s msg tx).2 with
  | answered reply =>
    rw [h] at hforeseen
    exact ⟨fun _ => hforeseen, fun _ => ⟨reply, rfl⟩⟩
  | panicked =>
    rw [h] at hforeseen
    simp [hforeseen]
  | spinning =>
    rw [h] at hforeseen
    obtain ⟨id, hmem, hfree⟩ := hid
    have := find?_eq_none.mp hforeseen id hmem
    simp [hfree] at this

end RelayState

/-- The event, if it is a request, is harmless. -/
def HarmlessRequest (c : Crypto) (s : Service) : RelayEvent → Prop
  | .request amb msg _ => harmless c amb s.relay msg = true
  | _ => True

instance (c : Crypto) (s : Service) (ev : RelayEvent) : Decidable (HarmlessRequest c s ev) :=
  match ev with
  | .request amb msg _ => inferInstanceAs (Decidable (harmless c amb s.relay msg = true))
  | .receivePush _ => isTrue trivial
  | .hangUp _ => isTrue trivial
  | .setAttestationKey _ => isTrue trivial
  | .restart _ _ => isTrue trivial

theorem reopen_poisoned {now : ℕ} {t : RelayState} (h : reopen now db = some t) :
    t.poisoned = false := by
  unfold reopen at h
  split at h
  · cases h
    rfl
  · cases h

/-- A harmless request poisons nothing, and a restart starts clean. -/
theorem step_awake {t : Service} {ev : RelayEvent} (hc : Consistent s.relay)
    (hb : s.relay.inner.db.isSome = true) (hp : s.relay.poisoned = false)
    (hr : s.relay.RostersFramed) (hh : HarmlessRequest c s ev) (h : Service.step c s ev = some t) :
    t.relay.poisoned = false := by
  cases ev with
  | request amb msg pushTx =>
    have hforeseen := @handle_foreseen c amb s.relay hc hb hp hr msg pushTx
    have hout := outcome_handle c amb s.relay msg pushTx
    simp only [Service.step] at h
    generalize s.relay.handle c amb msg pushTx = r at h hforeseen hout
    rcases r with ⟨u, handled⟩
    cases hout with
    | answered quiet =>
      cases h
      exact quiet.poisoned.trans hp
    | wrote silent awake admits persisted applied =>
      cases h
      rw [(apply_frame applied).2, (persist_eq_some persisted).2.1, silent.poisoned, hp]
    | refused | overflowed =>
      rw [hh] at hforeseen
      cases hforeseen
    | spinning => cases h
  | restart now inFlight =>
    cases inFlight with
    | none =>
      obtain ⟨db, hdb, hre⟩ := bind_eq_some_iff.mp h
      obtain ⟨u, hu, rfl⟩ := map_eq_some_iff.mp hre
      exact reopen_poisoned hu
    | some =>
      obtain ⟨⟨mid, m⟩, hm, hre⟩ := bind_eq_some_iff.mp h
      obtain ⟨db, hdb, hre⟩ := bind_eq_some_iff.mp hre
      obtain ⟨u, hu, rfl⟩ := map_eq_some_iff.mp hre
      exact reopen_poisoned hu
  | _ =>
    cases h
    exact hp

/-- A relay on a file, sent frames, that has only handled harmless requests is not poisoned,
and it answers the next request if and only if that one is harmless too. -/
theorem relay_answers_iff_harmless (c : Crypto) (es : List RelayEvent) (s : Service)
    (hrun : run (Service.step c) (Service.boot true) es = some s) (hframed : ∀ ev ∈ es, ev.Framed)
    (hharmless : Along (Service.step c) (HarmlessRequest c) (Service.boot true) es) :
    s.relay.poisoned = false ∧ ∀ amb msg pushTx,
      (∃ id ∈ amb.ids, s.relay.inner.queues.lookup id = none) →
      ((∃ reply, (s.relay.handle c amb msg pushTx).2 = .answered reply) ↔
        harmless c amb s.relay msg = true) := by
  have key : (∀ ev ∈ es, ev.Framed) → Along (Service.step c) (HarmlessRequest c)
      (Service.boot true) es → s.relay.poisoned = false := by
    refine run_induction (fun _ _ => rfl) (fun es s ev t hes ih ht hf ha => ?_) hrun
    have hf' : ∀ ev ∈ es, ev.Framed := fun ev' hev => hf ev' (mem_append_left _ hev)
    obtain ⟨ha', hh⟩ := along_snoc ha hes
    exact step_awake (run_explains hes).2 (run_backed hes) (ih hf' ha')
      (run_rostersFramed hes hf') hh ht
  have hp := key hframed hharmless
  exact ⟨hp, fun amb msg pushTx hid => handle_answered_iff (run_explains hrun).2 (run_backed hrun)
    hp (run_rostersFramed hrun hframed) hid⟩

theorem relay_answers_iff_harmless_storedMessage :
    ∃ s, run (Service.step .plain) (Service.boot true) storedMessage = some s ∧
      s.relay.poisoned = false ∧ ∃ reply,
        (s.relay.handle .plain (.fill 9) .requestPowChallenge none).2 = .answered reply := by
  obtain ⟨s, hs, hfacts⟩ :
      ∃ s, run (Service.step .plain) (Service.boot true) storedMessage = some s ∧
      s.relay.inner.queues.lookup (Bytes.fill 9) = none := by decide +kernel
  obtain ⟨hp, hnext⟩ := relay_answers_iff_harmless .plain storedMessage s hs
    (framed_of_readBack (by decide +kernel)) (by decide +kernel)
  exact ⟨s, hs, hp, (hnext _ _ _ ⟨_, mem_singleton_self _, hfacts⟩).mpr rfl⟩

/-- A client pays for an inbox and asks for an epoch past the signed range. -/
def hugeEpoch : List RelayEvent :=
  mint 2 (fun solution => .createGroupInbox solution 0x8000000000000000 [] none)

/-- The request comes in a frame, is never answered, and neither is anything after it. -/
theorem hugeEpoch_poisons_relay :
    (∀ ev ∈ hugeEpoch, ev.Framed) ∧
    ∃ s, run (Service.step .plain) (Service.boot true) hugeEpoch = some s ∧
      s.log.length = 1 ∧ s.relay.poisoned = true ∧
      (s.relay.handle .plain (.fill 0) .requestPowChallenge none).2 = .panicked := by
  exact ⟨framed_of_readBack (by decide +kernel), by decide +kernel⟩

end Rosette.Relay
