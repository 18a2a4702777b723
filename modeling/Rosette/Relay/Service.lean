import Rosette.Foundation.Trace
import Rosette.Relay.Persist

/-! # Runs of the relay process

Requests from any number of connections, in any interleaving, with the process
killed and reopened at any point. The service records the requests it has
answered; a request whose durable write was made before the process died is
recorded with the reply it was about to get, for it has taken effect.

Two facts carry everything said about runs. The ledger is the one the record
explains, and the database holds the ledger.
-/
namespace Rosette.Relay
open Foundation Proto Option

variable {now : ℕ} {db : Database} {m : Mutation}

namespace RelayState

/-- A process that has just started: nobody is connected and nothing is poisoned. -/
def ofInner (inner : Inner) : RelayState := ⟨inner, fun _ => ⟨true, []⟩, false⟩

/-- Start a process on a database file; `none` if it refuses to come up. -/
def reopen (now : ℕ) (db : Database) : Option RelayState :=
  match openDatabase now db with
  | .ok inner => some (ofInner inner)
  | .error _ => none

theorem reopen_eq_some {t : RelayState} (h : reopen now db = some t) :
    ∃ queues used, t = ofInner
      { Inner.default with queues := queues, storageBytesUsed := used, db := some db } := by
  unfold reopen at h
  cases ho : openDatabase now db with
  | error => simp [ho] at h
  | ok =>
    rw [ho] at h
    obtain ⟨-, -, ps, -, -, -, rfl⟩ := openDatabase_ok ho
    exact ⟨ps.1, ps.2, (some.inj h).symm⟩

def receivePush (s : RelayState) (tx : ChannelId) : RelayState :=
  { s with
    channels := Function.update s.channels tx
      { s.channels tx with queue := (s.channels tx).queue.tail } }

def hangUp (s : RelayState) (tx : ChannelId) : RelayState :=
  { s with channels := Function.update s.channels tx { s.channels tx with receiving := false } }

def setAttestationKey (s : RelayState) (key : Bytes 32) : RelayState :=
  { s with inner := { s.inner with attestationKey := some key } }

end RelayState

/-- The process and the requests it has answered, oldest first. -/
structure Service where
  relay : RelayState
  log : List Exchange

inductive RelayEvent where
  | request (amb : Ambient) (msg : ClientMessage) (pushTx : Option ChannelId)
  | receivePush (tx : ChannelId)
  | hangUp (tx : ChannelId)
  | setAttestationKey (key : Bytes 32)
  /-- The process dies and comes back. A request in flight has made its durable write. -/
  | restart (now : ℕ) (inFlight : Option (Ambient × ClientMessage))

def RelayEvent.restarts : RelayEvent → Bool
  | .restart _ _ => true
  | _ => false

namespace Service

/-- A relay without a file, or one that has created its file. -/
def boot (persistent : Bool) : Service where
  relay := .ofInner { Inner.default with db := if persistent then some Database.empty else none }
  log := []

variable (c : Crypto)

/-- An event that does not end a request, or a restart that does not come up, is refused. -/
def step (s : Service) : RelayEvent → Option Service
  | .request amb msg pushTx =>
    match s.relay.handle c amb msg pushTx with
    | (t, .answered reply) => some ⟨t, s.log ++ [(msg, reply)]⟩
    | (t, .panicked) => some ⟨t, s.log⟩
    | (_, .spinning) => none
  | .receivePush tx => some { s with relay := s.relay.receivePush tx }
  | .hangUp tx => some { s with relay := s.relay.hangUp tx }
  | .setAttestationKey key => some { s with relay := s.relay.setAttestationKey key }
  | .restart now none =>
    s.relay.inner.db.bind
      (fun db => (RelayState.reopen now db).map (fun t => { s with relay := t }))
  | .restart now (some (amb, msg)) =>
    (s.relay.midway c amb msg).bind (fun p => p.1.inner.db.bind (fun db =>
      (RelayState.reopen now db).map (fun t => ⟨t, s.log ++ [(msg, p.2.reply)]⟩)))

end Service

def Ambient.fill (b : UInt8) : Ambient := ⟨0, 0, [.fill b], .fill b, .fill b⟩

/-- A client pays for a queue and mints it under the drawn id. -/
def mint (b : UInt8) (create : PowSolution → ClientMessage) : List RelayEvent :=
  [.request (.fill b) .requestPowChallenge none, .request (.fill b) (create ⟨.fill b, 0⟩) none]

/-- The record explains the ledger: each answer was the right one for the ledger the
earlier ones had left. -/
inductive Explains (c : Crypto) : List Exchange → Ledger → Prop where
  | nil : Explains c [] Ledger.empty
  | answered {log d msg reply} (prior : Explains c log d) (answers : Answers d msg reply) :
    Explains c (log ++ [(msg, reply)]) d
  | wrote {log d msg m} (prior : Explains c log d) (admits : Admits c d msg m)
      (bounded : m.Bounded d) : Explains c (log ++ [(msg, m.reply)]) (d.apply m)

/-- The database holds the ledger, up to the entries of a commit that overflowed its
epoch and poisoned the process. -/
structure Consistent (s : RelayState) : Prop where
  queues : ∀ db, s.inner.db = some db → HoldsQueues db s.ledger
  pending : ∀ db, s.inner.db = some db → (∃ entries, HoldsPending db s.ledger entries) ∨
    s.poisoned = true ∧ ∃ x e, s.ledger.epoch x = some e ∧ ¬ e.toNat + 1 < 2 ^ 64

namespace Consistent
variable {s t : RelayState}

theorem of_holds (h : ∀ db, s.inner.db = some db → Holds db s.ledger) : Consistent s :=
  ⟨fun db hdb => (h db hdb).queues, fun db hdb => .inl (h db hdb).pending⟩

variable (h : Consistent s)
include h

theorem holds (hp : s.poisoned = false) (hdb : s.inner.db = some db) :
    Holds db s.ledger := by
  refine ⟨h.queues db hdb, ?_⟩
  rcases h.pending db hdb with h | ⟨hpoison, _⟩
  · exact h
  · simp [hp] at hpoison

theorem holds_of_bounded (hdb : s.inner.db = some db)
    (hb : ∀ x e, s.ledger.epoch x = some e → e.toNat + 1 < 2 ^ 64) : Holds db s.ledger := by
  refine ⟨h.queues db hdb, ?_⟩
  rcases h.pending db hdb with h | ⟨_, x, e, he, hbig⟩
  · exact h
  · exact absurd (hb x e he) hbig

theorem transfer (hl : t.ledger = s.ledger) (hdb : t.inner.db = s.inner.db)
    (hp : s.poisoned = true → t.poisoned = true) : Consistent t := by
  constructor
  · rw [hl, hdb]
    exact h.queues
  · rw [hl, hdb]
    intro db hd
    rcases h.pending db hd with hpend | ⟨hpoison, hbig⟩
    · exact .inl hpend
    · exact .inr ⟨hp hpoison, hbig⟩

theorem quiet (hq : RelayState.Quiet s t) : Consistent t :=
  h.transfer hq.ledger hq.db (fun hp => hq.poisoned.trans hp)

theorem poison : Consistent s.poison := h.transfer rfl rfl (fun _ => rfl)

end Consistent

namespace RelayState

variable {s t : RelayState}

theorem persist_eq_some (h : s.persist m = some t) :
    t.ledger = s.ledger ∧ t.poisoned = s.poisoned ∧ t.inner.queues = s.inner.queues ∧
      ((s.inner.db = none ∧ t.inner.db = none) ∨ ∃ db db', s.inner.db = some db ∧
        t.inner.db = some db' ∧ m.persist s.inner.queues db = some db') := by
  unfold persist at h
  rcases hdb : s.inner.db with _ | db
  · rw [hdb] at h
    cases h
    exact ⟨rfl, rfl, rfl, .inl ⟨rfl, hdb⟩⟩
  · rw [hdb] at h
    obtain ⟨db', hp, rfl⟩ := map_eq_some_iff.mp h
    exact ⟨rfl, rfl, rfl, .inr ⟨db, db', rfl, rfl, hp⟩⟩

theorem pushAll_frame (members : List QueueId) (e : Envelope) (s : RelayState) :
    (s.pushAll members e).inner.db = s.inner.db ∧ (s.pushAll members e).poisoned = s.poisoned := by
  induction members generalizing s with
  | nil => exact ⟨rfl, rfl⟩
  | cons m members ih =>
    obtain ⟨hdb, hp⟩ := ih (s.pushAndNotify m e)
    change ((s.pushAndNotify m e).pushAll members e).inner.db = _ ∧
      ((s.pushAndNotify m e).pushAll members e).poisoned = _
    rw [hdb, hp]
    unfold pushAndNotify
    split <;> exact ⟨rfl, rfl⟩

theorem apply_frame (h : m.apply now s = some t) :
    t.inner.db = s.inner.db ∧ t.poisoned = s.poisoned := by
  cases m with
  | createMailbox | createGroupInbox =>
    cases h
    exact ⟨rfl, rfl⟩
  | sendToMailbox q e =>
    cases h
    exact pushAll_frame [q] e s
  | sendToGroupInbox q kind e fanOutTo =>
    obtain ⟨u, hu, rfl⟩ := map_eq_some_iff.mp h
    obtain ⟨hdb, hp⟩ := pushAll_frame fanOutTo e u
    rw [hdb, hp]
    unfold bumpEpoch at hu
    split at hu
    · split_ifs at hu
      cases hu
      exact ⟨rfl, rfl⟩
    · cases hu
      exact ⟨rfl, rfl⟩
  | ack =>
    cases h
    unfold removeAcked
    split <;> exact ⟨rfl, rfl⟩

end RelayState

section Step
variable {c : Crypto} {s s₁ s₂ t mid : RelayState} {msg : ClientMessage} {d : Ledger}
  {amb : Ambient}
open RelayState

section
variable (hc : Consistent s)
include hc

theorem holds_midway (hq : Silent s s₁) (hp : s.poisoned = false) (ha : Admits c s.ledger msg m)
    (hper : s₁.persist m = some s₂) (hb : m.Bounded s.ledger) (hdb : s₂.inner.db = some db) :
    Holds db (s.ledger.apply m) := by
  obtain ⟨-, -, -, ⟨-, hnone⟩ | ⟨db₀, db', h₀, h', hw⟩⟩ := persist_eq_some hper
  · simp [hnone] at hdb
  · rw [h'] at hdb
    cases hdb
    have hold := hc.holds hp (hq.db.symm.trans h₀)
    rw [← hq.ledger] at hold ha hb ⊢
    exact holds_persist hold ha hw hb

theorem consistent_wrote (hq : Silent s s₁) (hp : s.poisoned = false) (ha : Admits c s.ledger msg m)
    (hper : s₁.persist m = some s₂) (happ : m.apply now s₂ = some t) :
    t.ledger = s.ledger.apply m ∧ Consistent t := by
  have hl : s₂.ledger = s.ledger := (persist_eq_some hper).1.trans hq.ledger
  have ht : t.ledger = s.ledger.apply m := hl ▸ ledger_apply happ
  have hb : m.Bounded s.ledger := hl ▸ (apply_isSome_iff m now s₂).mp ⟨t, happ⟩
  refine ⟨ht, .of_holds fun db hdb => ?_⟩
  rw [(apply_frame happ).1] at hdb
  rw [ht]
  exact holds_midway hc hq hp ha hper hb hdb

theorem consistent_overflowed (hq : Silent s s₁) (ha : Admits c s.ledger msg m)
    (hper : s₁.persist m = some s₂) (hnone : m.apply now s₂ = none) : Consistent s₂.poison := by
  obtain ⟨hl, -, -, hdb⟩ := persist_eq_some hper
  have hl' : s₂.ledger = s.ledger := hl.trans hq.ledger
  have hb : ¬ m.Bounded s.ledger := by
    rw [← hl', ← apply_isSome_iff m now s₂, hnone]
    simp
  cases ha with
  | createMailbox | createGroupInbox | sendToMailbox | ack => exact absurd trivial hb
  | @sendToGroupInbox x kind _ e k epoch roster size entry =>
    cases kind with
    | application => exact absurd trivial hb
    | commit =>
      have hep : s.ledger.epoch x = some epoch := Ledger.epoch_eq_some.mpr ⟨k, roster, entry⟩
      have hbig : ¬ epoch.toNat + 1 < 2 ^ 64 := by
        intro hlt
        apply hb
        intro e' he'
        rw [hep] at he'
        cases he'
        exact hlt
      have hep' : s₂.poison.ledger.epoch x = some epoch := by
        change s₂.ledger.epoch x = some epoch
        rw [hl', hep]
      refine ⟨fun db hd => ?_, fun db _ => .inr ⟨rfl, x, epoch, hep', hbig⟩⟩
      change s₂.inner.db = some db at hd
      change HoldsQueues db s₂.ledger
      rw [hl']
      rcases hdb with ⟨-, hn⟩ | ⟨db₀, db', h₀, h', hw⟩
      · simp [hn] at hd
      · rw [h'] at hd
        cases hd
        cases hw
        refine ((hc.queues db₀ (hq.db.symm.trans h₀)).advance_overflow entry hbig).congr ?_ ?_ rfl
        · exact Database.insertCopies_queues ..
        · exact Database.insertCopies_roster ..

end

theorem reopen_ledger (h : Holds db d) (hr : reopen now db = some t) :
    t.ledger = d ∧ Consistent t := by
  unfold reopen at hr
  cases ho : openDatabase now db with
  | error => simp [ho] at hr
  | ok inner =>
    rw [ho] at hr
    cases hr
    obtain ⟨inner', ho', hl, hdb⟩ := openDatabase_holds h (openDatabase_fits h.queues ho) now
    rw [ho] at ho'
    cases ho'
    refine ⟨hl, .of_holds fun db' hdb' => ?_⟩
    change inner.db = some db' at hdb'
    rw [hdb] at hdb'
    cases hdb'
    change Holds db inner.ledger
    rw [hl]
    exact h

theorem reopen_fits (h : HoldsQueues db d) (hr : reopen now db = some t) : d.Fits := by
  unfold reopen at hr
  cases ho : openDatabase now db with
  | error => simp [ho] at hr
  | ok => exact openDatabase_fits h ho

theorem Ledger.Fits.bounded (h : d.Fits) (m : Mutation) : m.Bounded d := by
  rcases m with ⟨q, k⟩ | ⟨q, k, e, r⟩ | ⟨q, e⟩ | ⟨x, _ | _, e, r⟩ | ⟨q, id⟩
  · trivial
  · trivial
  · trivial
  · intro e' he'
    have := h x e' he'
    omega
  · trivial
  · trivial

theorem restart_idle (hc : Consistent s) (hdb : s.inner.db = some db)
    (hr : reopen now db = some t) :
    t.ledger = s.ledger ∧ Consistent t := by
  have hf := reopen_fits (hc.queues db hdb) hr
  refine reopen_ledger (hc.holds_of_bounded hdb fun x e he => ?_) hr
  have := hf x e he
  omega

theorem midway_eq_some (h : s.midway c amb msg = some (mid, m)) :
    ∃ s₁, Silent s s₁ ∧ s.poisoned = false ∧ Admits c s.ledger msg m ∧
      s₁.persist m = some mid ∧ plan c amb s msg none = (s₁, .write m) := by
  have hp := planned_plan c amb s msg none
  unfold midway at h
  rcases hr : plan c amb s msg none with ⟨s₁, reply | m' | _ | _⟩
  · simp [hr] at h
  · simp only [hr, map_eq_some_iff, Prod.mk.injEq] at h
    obtain ⟨u, hu, rfl, rfl⟩ := h
    rw [hr] at hp
    have ha := hp.admits m' rfl
    exact ⟨s₁, hp.silent (Admits.not_subscribe ha), hp.awake m' rfl, ha, hu, rfl⟩
  · simp [hr] at h
  · simp [hr] at h

/-- A crash right after the durable write leaves the ledger the request was leading to. -/
theorem restart_midway (hc : Consistent s) (hm : s.midway c amb msg = some (mid, m))
    (hdb : mid.inner.db = some db) (hr : reopen now db = some t) :
    Admits c s.ledger msg m ∧ m.Bounded s.ledger ∧ t.ledger = s.ledger.apply m ∧ Consistent t := by
  obtain ⟨s₁, hq, hp, ha, hper, -⟩ := midway_eq_some hm
  have hl : mid.ledger = s.ledger := (persist_eq_some hper).1.trans hq.ledger
  by_cases hb : m.Bounded s.ledger
  · exact ⟨ha, hb, reopen_ledger (holds_midway hc hq hp ha hper hb hdb) hr⟩
  · -- the overflowing commit is already past what the column can hold
    have hnone : m.apply now mid = none := by
      rw [← not_isSome_iff_eq_none, isSome_iff_exists, apply_isSome_iff, hl]
      exact hb
    have hf := reopen_fits ((consistent_overflowed hc hq ha hper hnone).queues db hdb) hr
    change mid.ledger.Fits at hf
    rw [hl] at hf
    exact absurd (hf.bounded m) hb

end Step

theorem explains_boot (c : Crypto) (persistent : Bool) :
    Explains c (Service.boot persistent).log (Service.boot persistent).relay.ledger :=
  Explains.nil

theorem consistent_boot (persistent : Bool) : Consistent (Service.boot persistent).relay := by
  apply Consistent.of_holds
  intro db hdb
  cases persistent with
  | false => cases hdb
  | true =>
    cases hdb
    exact holds_empty

inductive Stepped (c : Crypto) (s : Service) : Service → Prop where
  | answered {t : RelayState} {msg : ClientMessage} {reply : ServerMessage}
      (quiet : RelayState.Quiet s.relay t) (answers : Answers s.relay.ledger msg reply) :
    Stepped c s ⟨t, s.log ++ [(msg, reply)]⟩
  | wrote {amb : Ambient} {msg : ClientMessage} {m : Mutation} {s₁ s₂ t : RelayState}
      (silent : RelayState.Silent s.relay s₁) (awake : s.relay.poisoned = false)
      (admits : Admits c s.relay.ledger msg m) (persisted : s₁.persist m = some s₂)
      (applied : m.apply amb.now s₂ = some t) : Stepped c s ⟨t, s.log ++ [(msg, m.reply)]⟩
  | refused {t : RelayState} (quiet : RelayState.Quiet s.relay t) : Stepped c s ⟨t.poison, s.log⟩
  | overflowed {amb : Ambient} {msg : ClientMessage} {m : Mutation} {s₁ s₂ : RelayState}
      (silent : RelayState.Silent s.relay s₁) (awake : s.relay.poisoned = false)
      (admits : Admits c s.relay.ledger msg m) (persisted : s₁.persist m = some s₂)
      (failed : m.apply amb.now s₂ = none) : Stepped c s ⟨s₂.poison, s.log⟩
  | connection {t : RelayState} (quiet : RelayState.Quiet s.relay t) : Stepped c s ⟨t, s.log⟩
  | restarted {now : ℕ} {db : Database} {t : RelayState} (file : s.relay.inner.db = some db)
      (reopened : RelayState.reopen now db = some t) : Stepped c s ⟨t, s.log⟩
  | restartedMidway {now : ℕ} {amb : Ambient} {msg : ClientMessage} {mid : RelayState}
      {m : Mutation} {db : Database} {t : RelayState}
      (inFlight : s.relay.midway c amb msg = some (mid, m)) (file : mid.inner.db = some db)
      (reopened : RelayState.reopen now db = some t) : Stepped c s ⟨t, s.log ++ [(msg, m.reply)]⟩

variable {c : Crypto} {s t : Service} {e : RelayEvent} {amb : Ambient} {msg : ClientMessage}
  {pushTx : Option ChannelId}

theorem stepped_of_step (h : Service.step c s e = some t) : Stepped c s t := by
  cases e with
  | request amb msg pushTx =>
    have ho := RelayState.outcome_handle c amb s.relay msg pushTx
    simp only [Service.step] at h
    generalize s.relay.handle c amb msg pushTx = r at h ho
    rcases r with ⟨t', handled⟩
    cases ho with
    | answered quiet silent answers =>
      cases h
      exact .answered quiet answers
    | wrote silent awake admits persisted applied =>
      cases h
      exact .wrote silent awake admits persisted applied
    | refused silent =>
      cases h
      exact .refused silent.toQuiet
    | overflowed silent awake admits persisted failed =>
      cases h
      exact .overflowed silent awake admits persisted failed
    | spinning => cases h
  | receivePush | hangUp | setAttestationKey =>
    cases h
    exact .connection ⟨rfl, rfl, rfl⟩
  | restart now inFlight =>
    cases inFlight with
    | none =>
      obtain ⟨db, hdb, hr⟩ := bind_eq_some_iff.mp h
      obtain ⟨u, hu, rfl⟩ := map_eq_some_iff.mp hr
      exact .restarted hdb hu
    | some =>
      obtain ⟨⟨mid, m⟩, hm, hr⟩ := bind_eq_some_iff.mp h
      obtain ⟨db, hdb, hr⟩ := bind_eq_some_iff.mp hr
      obtain ⟨u, hu, rfl⟩ := map_eq_some_iff.mp hr
      exact .restartedMidway hm hdb hu

section
variable (h : Service.step c s (.request amb msg pushTx) = some t)
include h

theorem step_request_handled :
    ∃ r, s.relay.handle c amb msg pushTx = (t.relay, r) ∧ r ≠ .spinning := by
  unfold Service.step at h
  dsimp only at h
  generalize s.relay.handle c amb msg pushTx = r at h ⊢
  rcases r with ⟨u, _ | _ | _⟩
  · cases h
    exact ⟨_, rfl, by simp⟩
  · cases h
    exact ⟨_, rfl, by simp⟩
  · cases h

theorem step_request_relay :
    t.relay = (s.relay.handle c amb msg pushTx).1 := by
  obtain ⟨r, hr, -⟩ := step_request_handled h
  rw [hr]

end

theorem step_restart_reopens {inFlight : Option (Ambient × ClientMessage)}
    (h : Service.step c s (.restart now inFlight) = some t) :
    ∃ db, RelayState.reopen now db = some t.relay := by
  rcases inFlight with _ | ⟨amb, msg⟩
  · obtain ⟨db, -, hdb⟩ := bind_eq_some_iff.mp h
    obtain ⟨u, hu, rfl⟩ := map_eq_some_iff.mp hdb
    exact ⟨db, hu⟩
  · obtain ⟨p, -, hp⟩ := bind_eq_some_iff.mp h
    obtain ⟨db, -, hdb⟩ := bind_eq_some_iff.mp hp
    obtain ⟨u, hu, rfl⟩ := map_eq_some_iff.mp hdb
    exact ⟨db, hu⟩

theorem step_answered {reply : ServerMessage}
    (h : (s.relay.handle c amb msg pushTx).2 = .answered reply) :
    Service.step c s (.request amb msg pushTx) =
      some ⟨(s.relay.handle c amb msg pushTx).1, s.log ++ [(msg, reply)]⟩ := by
  unfold Service.step
  dsimp only
  generalize s.relay.handle c amb msg pushTx = r at h ⊢
  obtain ⟨t, r⟩ := r
  obtain rfl : r = .answered reply := h
  rfl

theorem step_log (h : Service.step c s e = some t) :
    t.log = s.log ∨ ∃ entry, t.log = s.log ++ [entry] := by
  cases stepped_of_step h with
  | answered | wrote | restartedMidway => exact .inr ⟨_, rfl⟩
  | _ => exact .inl rfl

theorem step_explains (he : Explains c s.log s.relay.ledger) (hc : Consistent s.relay)
    (h : Stepped c s t) : Explains c t.log t.relay.ledger ∧ Consistent t.relay := by
  cases h with
  | answered quiet answers => exact ⟨quiet.ledger ▸ .answered he answers, hc.quiet quiet⟩
  | wrote silent awake admits persisted applied =>
    obtain ⟨hl, hc'⟩ := consistent_wrote hc silent awake admits persisted applied
    have hl₂ := (RelayState.persist_eq_some persisted).1.trans silent.ledger
    have hb := (apply_isSome_iff _ _ _).mp ⟨_, applied⟩
    rw [hl₂] at hb
    exact ⟨hl ▸ .wrote he admits hb, hc'⟩
  | refused quiet => exact ⟨quiet.ledger ▸ he, (hc.quiet quiet).poison⟩
  | overflowed silent awake admits persisted failed =>
    have hl₂ := (RelayState.persist_eq_some persisted).1.trans silent.ledger
    exact ⟨hl₂ ▸ he, consistent_overflowed hc silent admits persisted failed⟩
  | connection quiet => exact ⟨quiet.ledger ▸ he, hc.quiet quiet⟩
  | restarted file reopened =>
    obtain ⟨hl, hc'⟩ := restart_idle hc file reopened
    exact ⟨hl ▸ he, hc'⟩
  | restartedMidway inFlight file reopened =>
    obtain ⟨ha, hb, hl, hc'⟩ := restart_midway hc inFlight file reopened
    exact ⟨hl ▸ .wrote he ha hb, hc'⟩

theorem run_explains {persistent : Bool} {es : List RelayEvent}
    (h : run (Service.step c) (Service.boot persistent) es = some s) :
    Explains c s.log s.relay.ledger ∧ Consistent s.relay :=
  run_invariant ⟨explains_boot c persistent, consistent_boot persistent⟩
    (fun _ _ _ hs ht => step_explains hs.1 hs.2 (stepped_of_step ht)) h

end Rosette.Relay
