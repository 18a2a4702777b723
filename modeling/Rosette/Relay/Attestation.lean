import Rosette.Foundation.Spending
import Rosette.Relay.Service

/-! # Attestation tokens are single-use

The gate keeps the nonces it has let through, each until its token expires. In one
process that is as good as keeping them all. The set lives in memory only, so a
process that comes back accepts every unexpired token once more.
-/
namespace Rosette.Relay
open Foundation Proto RelayState List Option

variable {token : AttestationToken} {c : Crypto} {now : ℤ} {ev : RelayEvent} {es : List RelayEvent}

def presented : ClientMessage → Option (Option AttestationToken)
  | .createMailbox _ attestation => some attestation
  | .createGroupInbox _ _ _ attestation => some attestation
  | _ => none

/-- The configured key and the nonces spent under it. -/
def Inner.gate (inner : Inner) : Option (Bytes 32) × (Bytes 16 → Option ℤ) :=
  (inner.attestationKey, inner.spentTokens)

/-- What the relay keeps against abuse, which no write touches: everything but the queues,
their subscribers and their storage. -/
def Inner.guards (inner : Inner) : Inner :=
  { inner with queues := ∅, subscribers := fun _ => [], storageBytesUsed := 0, db := none }

theorem Inner.gate_of_guards {a b : Inner} (h : a.guards = b.guards) : a.gate = b.gate := by
  change a.guards.gate = b.guards.gate
  rw [h]

section Gate
variable (c : Crypto) (amb : Ambient) {inner : Inner} {key : Bytes 32} {m : Mutation}
  {s t : RelayState} {msg : ClientMessage} {attestation : Option AttestationToken}

theorem consumeAttestation_refused (hkey : inner.attestationKey = some key)
    (h : ¬ (token.signatureValid c key = true ∧ amb.nowUnix < token.expiresAt)) :
    consumeAttestation c amb inner (some token) = (.error .invalidAttestation, inner) := by
  have hfail : (token.isExpired amb.nowUnix || !token.signatureValid c key) = true := by
    rw [not_and_or, not_lt] at h
    rcases h with h | h <;> simp [AttestationToken.isExpired, h]
  unfold consumeAttestation
  rw [hkey]
  exact if_pos hfail

theorem consumeAttestation_checked (hkey : inner.attestationKey = some key)
    (hsig : token.signatureValid c key = true) (hexp : amb.nowUnix < token.expiresAt) :
    consumeAttestation c amb inner (some token) =
      ((if (spend amb.nowUnix inner.spentTokens token.nonce token.expiresAt).1 then .ok ()
        else .error .invalidAttestation),
      { inner with spentTokens :=
        (spend amb.nowUnix inner.spentTokens token.nonce token.expiresAt).2 }) := by
  have hpass : ¬ (token.isExpired amb.nowUnix || !token.signatureValid c key) = true := by
    simp [AttestationToken.isExpired, hsig, hexp]
  unfold consumeAttestation
  rw [hkey]
  refine (if_neg hpass).trans ?_
  by_cases hs : (prune amb.nowUnix inner.spentTokens token.nonce).isSome = true
  · rw [spend_of_counting hs]
    exact if_pos hs
  · rw [spend_of_free hs]
    exact if_neg hs

theorem consumeAttestation_error_iff (inner : Inner) (attestation : Option AttestationToken) :
    (consumeAttestation c amb inner attestation).1 = .error .invalidAttestation ↔
      ¬ (consumeAttestation c amb inner attestation).1 = .ok () := by
  unfold consumeAttestation
  split
  · simp
  · simp
  · dsimp only
    split_ifs <;> simp

theorem consumePow_gate (inner : Inner) (solution : PowSolution) :
    (consumePow c inner solution).2.gate = inner.gate := by
  unfold consumePow
  split
  · rfl
  · split <;> rfl

theorem consumePow_refused {solution : PowSolution} (code : RejectionCode)
    (h : (consumePow c inner solution).1 = some (.error code)) : code = .invalidProofOfWork := by
  unfold consumePow at h
  split at h
  · cases h
    rfl
  · split at h <;> cases h
    rfl

theorem pushAll_guards (members : List QueueId) (e : Envelope) (s : RelayState) :
    (s.pushAll members e).inner.guards = s.inner.guards := by
  induction members generalizing s with
  | nil => rfl
  | cons m members ih =>
    refine (ih (s.pushAndNotify m e)).trans ?_
    unfold pushAndNotify
    split <;> rfl

theorem apply_guards {now : ℕ} (h : m.apply now s = some t) : t.inner.guards = s.inner.guards := by
  cases m with
  | createMailbox | createGroupInbox =>
    cases h
    rfl
  | sendToMailbox q e =>
    cases h
    exact pushAll_guards [q] e s
  | sendToGroupInbox =>
    obtain ⟨u, hu, rfl⟩ := map_eq_some_iff.mp h
    rw [pushAll_guards]
    unfold bumpEpoch at hu
    split at hu
    · split_ifs at hu
      cases hu
      rfl
    · cases hu
      rfl
  | ack =>
    cases h
    unfold removeAcked
    split <;> rfl

theorem persist_guards (h : s.persist m = some t) : t.inner.guards = s.inner.guards := by
  unfold persist at h
  cases hdb : s.inner.db with
  | none =>
    rw [hdb] at h
    cases h
    rfl
  | some =>
    rw [hdb] at h
    obtain ⟨db', -, rfl⟩ := map_eq_some_iff.mp h
    rfl

theorem finish_guards (s : RelayState) (p : Plan) :
    (finish amb s p).1.inner.guards = s.inner.guards := by
  cases p with
  | answer | panic | spin => rfl
  | write m =>
    unfold finish
    dsimp only
    cases hper : s.persist m with
    | none => rfl
    | some t =>
      dsimp only
      have ht := persist_guards hper
      cases happ : m.apply amb.now t with
      | none => exact ht
      | some => exact (apply_guards happ).trans ht

theorem finish_write_reply {reply : ServerMessage}
    (h : (finish amb s (.write m)).2 = .answered reply) : m.reply = reply := by
  unfold finish at h
  cases hper : s.persist m with
  | none => simp [hper] at h
  | some t =>
    cases happ : m.apply amb.now t with
    | none => simp [hper, happ] at h
    | some => simpa [hper, happ] using h

theorem admitQueue_gate (s : RelayState) (solution : PowSolution)
    (attestation : Option AttestationToken) (mutation : QueueId → Mutation)
    (hp : s.poisoned = false) :
    (admitQueue c amb s solution attestation mutation).1.inner.gate =
      (consumeAttestation c amb s.inner attestation).2.gate := by
  unfold admitQueue
  rw [if_neg (by simp [hp])]
  rcases consumeAttestation c amb s.inner attestation with ⟨_ | _, inner⟩
  · rfl
  · dsimp only
    have hpow := consumePow_gate c inner solution
    generalize consumePow c inner solution = r at hpow
    rcases r with ⟨_ | _ | _, inner'⟩
    · exact hpow
    · exact hpow
    · dsimp only
      cases freshQueueId amb inner' <;> exact hpow

theorem plan_gate_of_presented (h : presented msg = some attestation) (hp : s.poisoned = false)
    (pushTx : Option ChannelId) :
    (plan c amb s msg pushTx).1.inner.gate =
      (consumeAttestation c amb s.inner attestation).2.gate := by
  cases msg with
  | createMailbox solution | createGroupInbox solution =>
    cases h
    exact admitQueue_gate c amb s solution attestation _ hp
  | _ => cases h

theorem subscribe_guards (s : RelayState) (ids : List QueueId) (tx : ChannelId) :
    (s.subscribe ids tx).inner.guards = s.inner.guards := by
  obtain ⟨subscribers, hinner, -⟩ := subscribe_inner s ids tx
  rw [hinner]
  rfl

theorem plan_guards_of_send {q : QueueId} (h : sendTarget msg = some q)
    (pushTx : Option ChannelId) :
    (plan c amb s msg pushTx).1.inner.guards = s.inner.guards := by
  rcases plan_of_send c amb s h pushTx with ⟨hs, -⟩ | ⟨entry, entry', -, -, hs⟩
  · rw [hs]
  · rw [hs]
    rfl

theorem plan_guards (h : presented msg = none) (hask : msg ≠ .requestPowChallenge)
    (pushTx : Option ChannelId) : (plan c amb s msg pushTx).1.inner.guards = s.inner.guards := by
  cases msg with
  | createMailbox | createGroupInbox => cases h
  | requestPowChallenge => exact absurd rfl hask
  | sendToMailbox | sendToGroupInbox => exact plan_guards_of_send c amb rfl pushTx
  | subscribe ids =>
    cases pushTx with
    | none => rfl
    | some tx =>
      rw [plan]
      split_ifs
      · rfl
      · exact subscribe_guards s ids tx
  | ack =>
    rw [plan]
    split_ifs <;> rfl

theorem plan_gate_of_not_presented (h : presented msg = none) (pushTx : Option ChannelId) :
    (plan c amb s msg pushTx).1.inner.gate = s.inner.gate := by
  by_cases hask : msg = .requestPowChallenge
  · subst hask
    rw [plan]
    split_ifs <;> rfl
  · exact Inner.gate_of_guards (plan_guards c amb h hask pushTx)

theorem plan_of_poisoned (h : presented msg ≠ none) (hp : s.poisoned = true)
    (pushTx : Option ChannelId) : plan c amb s msg pushTx = (s, .panic) := by
  cases msg with
  | createMailbox | createGroupInbox => exact if_pos hp
  | _ => exact absurd rfl h

/-- The reply that refuses a token comes from the gate and from nothing behind it. -/
theorem handle_refuses_iff (h : presented msg = some attestation) (pushTx : Option ChannelId) :
    (s.handle c amb msg pushTx).2 = .answered (.error .invalidAttestation) ↔
      s.poisoned = false ∧
        (consumeAttestation c amb s.inner attestation).1 = .error .invalidAttestation := by
  cases hp : s.poisoned with
  | true =>
    rw [handle, plan_of_poisoned c amb (by simp [h]) hp]
    simp [finish]
  | false =>
    have key : ∀ solution (mutation : QueueId → Mutation),
        (∀ q, (mutation q).reply ≠ .error .invalidAttestation) →
        ((finish amb (admitQueue c amb s solution attestation mutation).1
          (admitQueue c amb s solution attestation mutation).2).2 =
            .answered (.error .invalidAttestation) ↔
          (consumeAttestation c amb s.inner attestation).1 = .error .invalidAttestation) := by
      intro solution mutation hreply
      unfold admitQueue
      rw [if_neg (by simp [hp])]
      rcases consumeAttestation c amb s.inner attestation with ⟨code | _, inner⟩
      · simp [finish]
      · dsimp only
        have hpow := @consumePow_refused c inner solution
        generalize consumePow c inner solution = r at hpow
        rcases r with ⟨_ | code | _, inner'⟩
        · simp [finish]
        · simp [finish, hpow code rfl]
        · dsimp only
          cases freshQueueId amb inner' with
          | none => simp [finish]
          | some q =>
            simp only [reduceCtorEq, iff_false]
            intro hfin
            exact hreply q (finish_write_reply amb hfin)
    simp only [true_and]
    cases msg with
    | createMailbox solution | createGroupInbox solution =>
      cases h
      exact key solution _ (fun _ => by simp [Mutation.reply])
    | _ => cases h

/-- A request calls the gate once, if it asks for a queue and the process is not poisoned. -/
theorem step_request_gate {s t : Service} {pushTx : Option ChannelId}
    (h : Service.step c s (.request amb msg pushTx) = some t) :
    (∃ attestation, presented msg = some attestation ∧ s.relay.poisoned = false ∧
        t.relay.inner.gate = (consumeAttestation c amb s.relay.inner attestation).2.gate) ∨
      (presented msg = none ∨ s.relay.poisoned = true) ∧
        t.relay.inner.gate = s.relay.inner.gate := by
  have hfin : t.relay.inner.gate = (plan c amb s.relay msg pushTx).1.inner.gate := by
    rw [step_request_relay h]
    exact Inner.gate_of_guards (finish_guards amb _ _)
  cases hpres : presented msg with
  | none => exact .inr ⟨.inl rfl, hfin.trans (plan_gate_of_not_presented c amb hpres pushTx)⟩
  | some attestation =>
    cases hp : s.relay.poisoned with
    | true =>
      rw [plan_of_poisoned c amb (by simp [hpres]) hp] at hfin
      exact .inr ⟨.inr rfl, hfin⟩
    | false =>
      exact .inl ⟨attestation, rfl, rfl, hfin.trans (plan_gate_of_presented c amb hpres hp pushTx)⟩

end Gate

namespace RelayEvent

def WithinProcess : RelayEvent → Prop
  | .restart _ _ | .setAttestationKey _ => False
  | _ => True

def made : RelayEvent → Option (Ambient × ClientMessage)
  | .request amb msg _ => some (amb, msg)
  | .restart _ inFlight => inFlight
  | _ => none

def reading (ev : RelayEvent) : Option ℤ :=
  ev.made.bind (fun r => (presented r.2).map (fun _ => r.1.nowUnix))

end RelayEvent

/-- The token the gate lets through in one event, if it is on. -/
def admitted (c : Crypto) (s : Service) (ev : RelayEvent) : Option AttestationToken :=
  ev.made.bind (fun r => (presented r.2).bind (fun attestation =>
    if s.relay.poisoned = false ∧ s.relay.inner.attestationKey.isSome ∧
      (consumeAttestation c r.1 s.relay.inner attestation).1 = .ok () then attestation else none))

/-- The tokens accepted along a run, oldest first. -/
def acceptances (c : Crypto) : Service → List RelayEvent → List AttestationToken :=
  observe (Service.step c) (admitted c)

def useOf (token : AttestationToken) : Bytes 16 × ℤ := (token.nonce, token.expiresAt)

section Process
variable {key : Bytes 32} {accepted : List AttestationToken} {inner : Inner} {amb : Ambient}
  {s t : Service}

/-- The key is configured and the spent set says what the record of accepted tokens says. -/
structure Guarded (key : Bytes 32) (now : ℤ) (inner : Inner) (accepted : List AttestationToken) :
    Prop where
  key : inner.attestationKey = some key
  spent : Remembers now inner.spentTokens (accepted.map useOf)

theorem Guarded.transfer {a b : Inner} (h : Guarded key now a accepted) (hg : b.gate = a.gate) :
    Guarded key now b accepted := by
  obtain ⟨hk, hs⟩ := Prod.mk.inj hg
  exact ⟨hk.trans h.key, hs ▸ h.spent⟩

theorem Guarded.mono {later : ℤ} (h : Guarded key now inner accepted) (hle : now ≤ later) :
    Guarded key later inner accepted :=
  ⟨h.key, h.spent.mono hle⟩

/-- The gate opens for a token exactly when no accepted one of its nonce is still unexpired. -/
theorem Guarded.accepts_iff (h : Guarded key amb.nowUnix inner accepted)
    (token : AttestationToken) :
    (consumeAttestation c amb inner (some token)).1 = .ok () ↔
      token.signatureValid c key = true ∧ amb.nowUnix < token.expiresAt ∧
        ∀ t ∈ accepted, t.nonce = token.nonce → ¬ amb.nowUnix < t.expiresAt := by
  by_cases hpass : token.signatureValid c key = true ∧ amb.nowUnix < token.expiresAt
  · have hiff := h.spent.spend_iff token.nonce token.expiresAt
    rw [consumeAttestation_checked c amb h.key hpass.1 hpass.2]
    have hrec : (∀ e, (token.nonce, e) ∈ accepted.map useOf → ¬ amb.nowUnix < e) ↔
        ∀ t ∈ accepted, t.nonce = token.nonce → ¬ amb.nowUnix < t.expiresAt := by
      simp only [List.mem_map, useOf, Prod.mk.injEq]
      constructor
      · exact fun hall t ht hn => hall _ ⟨t, ht, hn, rfl⟩
      · rintro hall e ⟨t, ht, hn, rfl⟩
        exact hall t ht hn
    rw [← hrec, ← hiff]
    cases (spend amb.nowUnix inner.spentTokens token.nonce token.expiresAt).1 <;> simp [hpass]
  · rw [consumeAttestation_refused c amb h.key hpass]
    simp only [reduceCtorEq, false_iff]
    exact fun hall => hpass ⟨hall.1, hall.2.1⟩

theorem Guarded.consume (h : Guarded key amb.nowUnix inner accepted)
    (attestation : Option AttestationToken) :
    Guarded key amb.nowUnix (consumeAttestation c amb inner attestation).2
      (accepted ++ (if (consumeAttestation c amb inner attestation).1 = .ok () then attestation
        else none).toList) := by
  cases attestation with
  | none =>
    unfold consumeAttestation
    rw [h.key]
    simpa using h
  | some token =>
    by_cases hpass : token.signatureValid c key = true ∧ amb.nowUnix < token.expiresAt
    · rw [consumeAttestation_checked c amb h.key hpass.1 hpass.2]
      refine ⟨h.key, ?_⟩
      have hspent := h.spent.spend token.nonce hpass.2
      convert hspent using 2
      cases (spend amb.nowUnix inner.spentTokens token.nonce token.expiresAt).1 <;> simp [useOf]
    · rw [consumeAttestation_refused c amb h.key hpass]
      simpa using h

theorem Guarded.step (hwithin : ev.WithinProcess) (hstep : Service.step c s ev = some t)
    (hread : ∀ r ∈ ev.reading, r = now) (h : Guarded key now s.relay.inner accepted) :
    Guarded key now t.relay.inner (accepted ++ (admitted c s ev).toList) := by
  have quiet : admitted c s ev = none → t.relay.inner.gate = s.relay.inner.gate →
      Guarded key now t.relay.inner (accepted ++ (admitted c s ev).toList) := by
    intro hnone hgate
    rw [hnone]
    simpa using h.transfer hgate
  cases ev with
  | restart | setAttestationKey => exact hwithin.elim
  | receivePush | hangUp =>
    cases hstep
    exact quiet rfl rfl
  | request amb =>
    rcases step_request_gate c amb hstep with ⟨attestation, hpres, hp, hgate⟩ | ⟨hidle, hgate⟩
    · have hnow : amb.nowUnix = now :=
          hread _ (by simp [RelayEvent.reading, RelayEvent.made, hpres])
      subst hnow
      have hcall := (h.consume attestation).transfer hgate
      simpa [admitted, RelayEvent.made, hpres, hp, h.key] using hcall
    · refine quiet ?_ hgate
      rcases hidle with hpres | hp
      · simp [admitted, RelayEvent.made, hpres]
      · simp [admitted, hp]

theorem Guarded.run {start : ℤ} (h : Guarded key start s.relay.inner [])
    (hrun : Foundation.run (Service.step c) s es = some t) (hwithin : ∀ ev ∈ es, ev.WithinProcess)
    (hclock : (start :: es.filterMap RelayEvent.reading ++ [now]).Pairwise (· ≤ ·)) :
    Guarded key now t.relay.inner (acceptances c s es) := by
  induction es using reverseRecOn generalizing t now with
  | nil =>
    cases hrun
    exact h.mono (by simpa using hclock)
  | append_singleton es ev ih =>
    rw [run_snoc] at hrun
    obtain ⟨u, hu, hstep⟩ := bind_eq_some_iff.mp hrun
    have hes : ∀ ev ∈ es, ev.WithinProcess := fun e he => hwithin e (by simp [he])
    rw [acceptances, observe_snoc ev hu]
    cases hr : ev.reading with
    | none =>
      have hclock' : (start :: es.filterMap RelayEvent.reading ++ [now]).Pairwise (· ≤ ·) := by
        simpa [filterMap_append, hr] using hclock
      exact (ih hu hes hclock').step (hwithin ev (by simp)) hstep (by simp [hr])
    | some r =>
      have hclock' : (start :: es.filterMap RelayEvent.reading ++ [r] ++ [now]).Pairwise
          (· ≤ ·) := by
        simpa [filterMap_append, hr] using hclock
      rw [pairwise_append] at hclock'
      have hle : r ≤ now := hclock'.2.2 r (by simp) now (by simp)
      exact ((ih hu hes hclock'.1).step (hwithin ev (by simp)) hstep (by simp [hr])).mono hle

end Process

/-- A process that has just come up, from nothing or from a file, with its key configured. -/
def Started (key : Bytes 32) (s : Service) : Prop :=
  ∃ relay, (relay = RelayState.ofInner Inner.default ∨
      ∃ now db, RelayState.reopen now db = some relay) ∧
    s.relay = relay.setAttestationKey key

variable {key : Bytes 32} {s : Service}

theorem Started.guarded (h : Started key s) (now : ℤ) : Guarded key now s.relay.inner [] := by
  obtain ⟨relay, hrelay, hs⟩ := h
  rw [hs]
  refine ⟨rfl, ?_⟩
  have hspent : relay.inner.spentTokens = fun _ => none := by
    rcases hrelay with rfl | ⟨now', db, ho⟩
    · rfl
    · obtain ⟨queues, used, rfl⟩ := reopen_eq_some ho
      rfl
  change Remembers now relay.inner.spentTokens []
  rw [hspent]
  exact .empty now

theorem Started.run {t : Service} (h : Started key s)
    (hrun : Foundation.run (Service.step c) s es = some t) (hwithin : ∀ ev ∈ es, ev.WithinProcess)
    (hclock : (es.filterMap RelayEvent.reading ++ [now]).Pairwise (· ≤ ·)) :
    Guarded key now t.relay.inner (acceptances c s es) := by
  -- the first reading, or the last, bounds all the others from below
  cases hr : es.filterMap RelayEvent.reading ++ [now] with
  | nil => simp at hr
  | cons r =>
    rw [hr] at hclock
    refine (h.guarded r).run hrun hwithin ?_
    rw [cons_append, hr, pairwise_cons]
    refine ⟨fun x hx => ?_, hclock⟩
    rcases mem_cons.mp hx with rfl | hx
    · exact le_rfl
    · exact (pairwise_cons.mp hclock).1 x hx

/-- In one process with the gate on and a clock that does not go back: a token is accepted
exactly when its signature is valid, it has not expired and no accepted token of its nonce is
still unexpired; no nonce is accepted twice with one expiry; and a call that passes the
token's own checks leaves no expired nonce behind. -/
theorem attestation_single_use (c : Crypto) (key : Bytes 32) (s₀ s : Service) (es : List RelayEvent)
    (hstart : Started key s₀) (hrun : run (Service.step c) s₀ es = some s)
    (hone : ∀ ev ∈ es, ev.WithinProcess) (amb : Ambient) (token : AttestationToken)
    (hclock : (es.filterMap RelayEvent.reading ++ [amb.nowUnix]).Pairwise (· ≤ ·)) :
    ((consumeAttestation c amb s.relay.inner (some token)).1 = .ok () ↔
      token.signatureValid c key = true ∧ amb.nowUnix < token.expiresAt ∧
        ∀ t ∈ acceptances c s₀ es, t.nonce = token.nonce → ¬ amb.nowUnix < t.expiresAt) ∧
      ((acceptances c s₀ es).map (fun t => (t.nonce, t.expiresAt))).Nodup ∧
      (token.signatureValid c key = true → amb.nowUnix < token.expiresAt →
        ∀ nonce exp, (consumeAttestation c amb s.relay.inner (some token)).2.spentTokens nonce =
          some exp → amb.nowUnix < exp) := by
  have hg := hstart.run hrun hone hclock
  refine ⟨hg.accepts_iff token, hg.spent.once, fun hsig hexp nonce exp hn => ?_⟩
  rw [consumeAttestation_checked c amb hg.key hsig hexp] at hn
  exact spend_fresh hexp hn

def sampleToken : AttestationToken := ⟨.fill 1, 10, replicate 64 0⟩

def sampleKey : Bytes 32 := .fill 9

/-- A client mints a mailbox with the token, at time zero. -/
def attestedMint (b : UInt8) : List RelayEvent :=
  mint b (fun solution => .createMailbox solution (some sampleToken))

def gatedService : Service := ⟨(RelayState.ofInner Inner.default).setAttestationKey sampleKey, []⟩

/-- The token opens the gate once and not again at time five. -/
theorem attestation_single_use_replay :
    ∃ s, run (Service.step .plain) gatedService (attestedMint 2) = some s ∧
      acceptances .plain gatedService (attestedMint 2) = [sampleToken] ∧
      ¬ (consumeAttestation .plain { Ambient.fill 3 with nowUnix := 5 } s.relay.inner
        (some sampleToken)).1 = .ok () := by
  obtain ⟨s, hs⟩ : ∃ s, run (Service.step .plain) gatedService
    (attestedMint 2) = some s := by decide +kernel
  have hacc : acceptances .plain gatedService (attestedMint 2) = [sampleToken] := by decide +kernel
  have hsingle := attestation_single_use .plain sampleKey gatedService s (attestedMint 2)
    ⟨_, Or.inl rfl, rfl⟩ hs (by simp [attestedMint, mint, RelayEvent.WithinProcess])
    { Ambient.fill 3 with nowUnix := 5 } sampleToken (by decide +kernel)
  refine ⟨s, hs, hacc, fun hok => ?_⟩
  exact (hsingle.1.mp hok).2.2 sampleToken (by simp [hacc]) rfl (by decide)

section Restart
variable {key : Bytes 32} {s : Service}

theorem consumeAttestation_key (amb : Ambient) (inner : Inner)
    (attestation : Option AttestationToken) :
    (consumeAttestation c amb inner attestation).2.attestationKey = inner.attestationKey := by
  unfold consumeAttestation
  split
  · rfl
  · rfl
  · dsimp only
    split_ifs <;> rfl

theorem admitted_valid (hkey : ∀ k ∈ s.relay.inner.attestationKey, k = key)
    (h : admitted c s ev = some token) : token.signatureValid c key = true := by
  obtain ⟨⟨amb, msg⟩, -, hpres⟩ := bind_eq_some_iff.mp h
  obtain ⟨attestation, -, hif⟩ := bind_eq_some_iff.mp hpres
  split_ifs at hif with hgate
  subst hif
  obtain ⟨-, hon, hok⟩ := hgate
  obtain ⟨k, hk⟩ := isSome_iff_exists.mp hon
  obtain rfl := hkey k hk
  by_contra hsig
  simp [consumeAttestation_refused c amb hk (fun hpass => hsig hpass.1)] at hok

/-- With one key ever configured, the gate checks against that key or against none. -/
theorem step_key {t : Service} (hstep : Service.step c s ev = some t)
    (hev : ∀ k, ev = .setAttestationKey k → k = key)
    (h : ∀ k ∈ s.relay.inner.attestationKey, k = key) :
    ∀ k ∈ t.relay.inner.attestationKey, k = key := by
  have same : t.relay.inner.attestationKey = s.relay.inner.attestationKey →
      ∀ k ∈ t.relay.inner.attestationKey, k = key := fun hs => hs ▸ h
  cases ev with
  | receivePush | hangUp =>
    cases hstep
    exact same rfl
  | setAttestationKey k =>
    cases hstep
    intro k' hk'
    cases hk'
    exact hev k rfl
  | request amb =>
    apply same
    rcases step_request_gate c amb hstep with ⟨attestation, -, -, hgate⟩ | ⟨-, hgate⟩
    · exact (congrArg Prod.fst hgate).trans (consumeAttestation_key amb s.relay.inner attestation)
    · exact congrArg Prod.fst hgate
  | restart =>
    obtain ⟨db, ho⟩ := step_restart_reopens hstep
    obtain ⟨queues, used, hr⟩ := reopen_eq_some ho
    rw [hr]
    exact fun k hk => by cases hk

theorem acceptances_valid (hrun : run (Service.step c) (Service.boot true) es = some s)
    (hkeys : ∀ k, RelayEvent.setAttestationKey k ∈ es → k = key) :
    (∀ k ∈ s.relay.inner.attestationKey, k = key) ∧
      ∀ token ∈ acceptances c (Service.boot true) es, token.signatureValid c key = true := by
  induction es using reverseRecOn generalizing s with
  | nil =>
    cases hrun
    exact ⟨fun k hk => (by cases hk), fun token ht => (by cases ht)⟩
  | append_singleton es ev ih =>
    rw [run_snoc] at hrun
    obtain ⟨u, hu, hstep⟩ := bind_eq_some_iff.mp hrun
    obtain ⟨hk, hvalid⟩ := ih hu (fun k hm => hkeys k (mem_append_left _ hm))
    refine ⟨step_key hstep (fun k he => hkeys k (by simp [he])) hk, fun token ht => ?_⟩
    rw [acceptances, observe_snoc ev hu] at ht
    rcases mem_append.mp ht with hold | hnew
    · exact hvalid token hold
    · exact admitted_valid hk (by simpa using hnew)

/-- After a restart under the same key, a request that presents a token accepted before it and
not yet expired is refused exactly when the process is not poisoned and has itself accepted an
unexpired token of the same nonce since. -/
theorem replay_refused_iff (c : Crypto) (key : Bytes 32) (es rest : List RelayEvent) (now : ℕ)
    (inFlight : Option (Ambient × ClientMessage)) (s₁ s : Service)
    (hbefore : run (Service.step c) (Service.boot true) (es ++ [.restart now inFlight]) = some s₁)
    (hkeys : ∀ k, RelayEvent.setAttestationKey k ∈ es → k = key)
    (hafter : run (Service.step c) s₁ (.setAttestationKey key :: rest) = some s)
    (hone : ∀ ev ∈ rest, ev.WithinProcess) (token : AttestationToken)
    (hspent : token ∈ acceptances c (Service.boot true) (es ++ [.restart now inFlight]))
    (amb : Ambient) (msg : ClientMessage) (pushTx : Option ChannelId)
    (hmsg : presented msg = some (some token))
    (hclock : (rest.filterMap RelayEvent.reading ++ [amb.nowUnix]).Pairwise (· ≤ ·))
    (hlive : amb.nowUnix < token.expiresAt) :
    (s.relay.handle c amb msg pushTx).2 = .answered (.error .invalidAttestation) ↔
      s.relay.poisoned = false ∧ ∃ t ∈ acceptances c s₁ (.setAttestationKey key :: rest),
        t.nonce = token.nonce ∧ amb.nowUnix < t.expiresAt := by
  have hvalid : token.signatureValid c key = true :=
    (acceptances_valid hbefore (fun k hm => hkeys k (by simpa using hm))).2 token hspent
  rw [run_snoc] at hbefore
  obtain ⟨u, -, hrestart⟩ := bind_eq_some_iff.mp hbefore
  obtain ⟨db, hopen⟩ := step_restart_reopens hrestart
  obtain ⟨s₂, hset, hrest⟩ := bind_eq_some_iff.mp hafter
  cases hset
  have hstarted : Started key { s₁ with relay := s₁.relay.setAttestationKey key } :=
    ⟨s₁.relay, Or.inr ⟨now, db, hopen⟩, rfl⟩
  have hg := hstarted.run hrest hone hclock
  have hrecord : acceptances c s₁ (.setAttestationKey key :: rest) =
      acceptances c { s₁ with relay := s₁.relay.setAttestationKey key } rest := rfl
  have hiff := hg.accepts_iff (c := c) token
  rw [handle_refuses_iff c amb hmsg pushTx, hrecord, consumeAttestation_error_iff, hiff]
  simp [hvalid, hlive]

def firstUse : List RelayEvent := .setAttestationKey sampleKey :: attestedMint 2

/-- The token buys a second mailbox once the relay has restarted. -/
theorem restart_revives_token :
    ∃ s, run (Service.step .plain) (Service.boot true) (firstUse ++ [.restart 0 none] ++
        .setAttestationKey sampleKey :: attestedMint 3) = some s ∧
      acceptances .plain (Service.boot true) (firstUse ++ [.restart 0 none]) = [sampleToken] ∧
      ¬ sampleToken.expiresAt ≤ (Ambient.fill 3).nowUnix ∧
      (ClientMessage.createMailbox ⟨.fill 3, 0⟩ (some sampleToken),
        ServerMessage.queueCreated (.fill 3) (.fill 3)) ∈ s.log := by decide +kernel

/-- Used again after the restart, the token is refused from then on. -/
theorem replay_refused_iff_secondUse :
    ∃ s, run (Service.step .plain) (Service.boot true) (firstUse ++ [.restart 0 none] ++
        .setAttestationKey sampleKey :: attestedMint 3) = some s ∧
      (s.relay.handle .plain { Ambient.fill 4 with nowUnix := 5 }
        (.createMailbox ⟨.fill 4, 0⟩ (some sampleToken)) none).2 =
          .answered (.error .invalidAttestation) := by
  have hacc : acceptances .plain (Service.boot true) (firstUse ++ [.restart 0 none]) =
      [sampleToken] := by decide +kernel
  obtain ⟨s₁, h₁, hagain, s, hs, hp⟩ : ∃ s₁, run (Service.step .plain)
    (Service.boot true) (firstUse ++ [.restart 0 none]) = some s₁ ∧
      sampleToken ∈ acceptances .plain s₁ (.setAttestationKey sampleKey :: attestedMint 3) ∧
      ∃ s, run (Service.step .plain) s₁ (.setAttestationKey sampleKey :: attestedMint 3) = some s ∧
          !s.relay.poisoned := by decide +kernel
  refine ⟨s, by rw [run_append, h₁, bind_some, hs], ?_⟩
  refine (replay_refused_iff .plain sampleKey firstUse (attestedMint 3) 0 none s₁ s h₁ ?_ hs ?_
    sampleToken (by simp [hacc]) { Ambient.fill 4 with nowUnix := 5 } _ none rfl
    (by decide +kernel) (by decide)).mpr ⟨by simpa using hp, sampleToken, hagain, rfl, by decide⟩
  · simp [firstUse, attestedMint, mint]
  · simp [attestedMint, mint, RelayEvent.WithinProcess]

end Restart

end Rosette.Relay
