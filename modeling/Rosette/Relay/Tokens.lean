import Rosette.Relay.Challenges

/-! # What a refused creation costs

The gate spends the token before the proof of work is looked at, and nothing gives it
back. So a creation that gets past the gate and is refused has cost its token: until
it expires the token is refused, unless the process forgets it in a restart. The proof
of work can fail through no fault of its solver, because strangers' requests evict the
oldest challenge.
-/
namespace Rosette.Relay
open Foundation Proto RelayState List Option

variable {c : Crypto} {amb : Ambient} {t : RelayState} {solution : PowSolution}
  {attestation : Option AttestationToken} {code : RejectionCode} {inner : Inner} {key : Bytes 32}
  {token : AttestationToken} {order : List (Bytes 32)}

section Refusal

/-- Behind the gate only the proof of work refuses. -/
theorem admitQueue_refused {s : RelayState} {mutation : QueueId → Mutation}
    (h : admitQueue c amb s solution attestation mutation = (t, .answer (.error code)))
    (hopen : (consumeAttestation c amb s.inner attestation).1 = .ok ()) :
    code = .invalidProofOfWork := by
  unfold admitQueue at h
  split_ifs at h
  · cases h
  · generalize consumeAttestation c amb s.inner attestation = a at h hopen
    obtain ⟨_ | _, inner⟩ := a
    · cases hopen
    · dsimp only at h
      have hpow := @consumePow_refused c inner solution
      generalize consumePow c inner solution = r at h hpow
      obtain ⟨_ | code' | _, inner'⟩ := r
      · cases h
      · cases h
        exact hpow _ rfl
      · cases hid : freshQueueId amb inner' with
        | none | some => simp [hid] at h

theorem refused_behind_gate {s : RelayState} {msg : ClientMessage} {pushTx : Option ChannelId}
    (hmsg : presented msg = some attestation)
    (h : plan c amb s msg pushTx = (t, .answer (.error code)))
    (hopen : (consumeAttestation c amb s.inner attestation).1 = .ok ()) :
    code = .invalidProofOfWork := by
  cases msg with
  | createMailbox | createGroupInbox =>
    cases hmsg
    exact admitQueue_refused h hopen
  | _ => cases hmsg

theorem consumeAttestation_unspent (hkey : inner.attestationKey = some key)
    (hvalid : token.signatureValid c key = true) (hlive : amb.nowUnix < token.expiresAt)
    (hunspent : prune amb.nowUnix inner.spentTokens token.nonce = none) :
    (consumeAttestation c amb inner (some token)).1 = .ok () ∧
      (consumeAttestation c amb inner (some token)).2.spentTokens token.nonce =
        some token.expiresAt := by
  rw [consumeAttestation_checked c amb hkey hvalid hlive, spend_of_free (by simp [hunspent])]
  exact ⟨rfl, Function.update_self ..⟩

/-- Let through the gate without a challenge to its solution, a creation is refused. -/
theorem handle_unsolved {s : RelayState} (hp : s.poisoned = false)
    (hopen : (consumeAttestation c amb s.inner attestation).1 = .ok ())
    (hgone : s.inner.outstandingChallenges.lookup solution.challenge = none) :
    s.handle c amb (.createMailbox solution attestation) none =
      ({ s with inner := (consumeAttestation c amb s.inner attestation).2 },
        .answered (.error .invalidProofOfWork)) := by
  have hkept : (consumeAttestation c amb s.inner attestation).2.outstandingChallenges =
      s.inner.outstandingChallenges :=
    congrArg Pool.live (consumeAttestation_pool c amb s.inner attestation)
  have hplan : admitQueue c amb s solution attestation
      (fun id => .createMailbox id amb.sendKey) =
        ({ s with inner := (consumeAttestation c amb s.inner attestation).2 },
          .answer (.error .invalidProofOfWork)) := by
    unfold admitQueue
    rw [if_neg (by simp [hp])]
    rw [← hkept] at hgone
    generalize consumeAttestation c amb s.inner attestation = a at hopen hgone
    obtain ⟨r, inner⟩ := a
    obtain rfl : r = .ok () := hopen
    dsimp only at hgone ⊢
    rw [consumePow, hgone]
  unfold handle
  dsimp only [plan, createMailbox]
  rw [hplan]
  rfl

theorem consumeAttestation_spent (hkey : inner.attestationKey = some key)
    (hvalid : token.signatureValid c key = true) (hlive : amb.nowUnix < token.expiresAt)
    (hspent : inner.spentTokens token.nonce = some token.expiresAt) :
    (consumeAttestation c amb inner (some token)).1 = .error .invalidAttestation := by
  have hcounts : prune amb.nowUnix inner.spentTokens token.nonce = some token.expiresAt :=
    prune_eq_some.mpr ⟨hspent, hlive⟩
  rw [consumeAttestation_checked c amb hkey hvalid hlive, spend_of_counting (by simp [hcounts])]
  rfl

end Refusal

section Memory
variable {nonce : Bytes 16} {exp : ℤ}

/-- The gate remembers a live nonce as it was when it is called for another. -/
theorem consumeAttestation_other (hlive : ∀ e, inner.spentTokens nonce = some e → amb.nowUnix < e)
    (hother : inner.attestationKey.isSome = true →
      (consumeAttestation c amb inner attestation).1 = .ok () →
      ∀ token ∈ attestation, token.nonce ≠ nonce) :
    (consumeAttestation c amb inner attestation).2.spentTokens nonce = inner.spentTokens nonce := by
  cases hkey : inner.attestationKey with
  | none =>
    unfold consumeAttestation
    rw [hkey]
  | some key =>
    cases attestation with
    | none =>
      unfold consumeAttestation
      rw [hkey]
    | some token =>
      by_cases hpass : token.signatureValid c key = true ∧ amb.nowUnix < token.expiresAt
      · rw [consumeAttestation_checked c amb hkey hpass.1 hpass.2] at hother ⊢
        refine spend_of_other hlive (fun htaken => ?_)
        rw [if_pos htaken] at hother
        exact (hother (by simp [hkey]) rfl token rfl).symm
      · rw [consumeAttestation_refused c amb hkey hpass]

/-- Until it expires, a nonce is forgotten by a restart and by nothing else. -/
theorem step_spent {s t : Service} {ev : RelayEvent} (hstep : Service.step c s ev = some t)
    (hclock : ∀ r ∈ ev.reading, r < exp) (hother : ∀ token ∈ admitted c s ev, token.nonce ≠ nonce)
    (hs : ∀ e, s.relay.inner.spentTokens nonce = some e → e = exp) :
    t.relay.inner.spentTokens nonce =
      if ev.restarts then none else s.relay.inner.spentTokens nonce := by
  cases ev with
  | restart =>
    obtain ⟨db, ho⟩ := step_restart_reopens hstep
    obtain ⟨queues, used, hr⟩ := reopen_eq_some ho
    rw [hr]
    rfl
  | request amb =>
    change t.relay.inner.gate.2 nonce = _
    rcases step_request_gate c amb hstep with ⟨attestation, hpres, hp, hgate⟩ | ⟨-, hgate⟩
    · rw [hgate]
      refine consumeAttestation_other (fun e he => ?_) (fun hon hok token htoken => ?_)
      · rw [hs e he]
        exact hclock _ (by simp [RelayEvent.reading, RelayEvent.made, hpres])
      · refine hother token ?_
        simpa [admitted, RelayEvent.made, hpres, hp, hon, hok] using htoken
    · rw [hgate]
      rfl
  | _ =>
    cases hstep
    rfl

theorem run_spent {s t : Service} {es : List RelayEvent} (hrun : run (Service.step c) s es = some t)
    (hclock : ∀ ev ∈ es, ∀ r ∈ ev.reading, r < exp)
    (hother : ∀ token ∈ acceptances c s es, token.nonce ≠ nonce)
    (hs : s.relay.inner.spentTokens nonce = some exp) :
    t.relay.inner.spentTokens nonce = if es.any RelayEvent.restarts then none else some exp := by
  induction es using reverseRecOn generalizing t with
  | nil =>
    cases hrun
    exact hs
  | append_singleton es ev ih =>
    rw [run_snoc] at hrun
    obtain ⟨u, hu, hstep⟩ := bind_eq_some_iff.mp hrun
    rw [acceptances, observe_snoc ev hu] at hother
    have hbefore := ih hu (fun e he => hclock e (by simp [he]))
      (fun token ht => hother token (mem_append_left _ ht))
    have hafter := step_spent hstep (hclock ev (by simp))
      (fun token ht => hother token (mem_append_right _ (by simpa using ht)))
      (fun e he => by
        rw [hbefore] at he
        split_ifs at he
        exact (some.inj he).symm)
    rw [hafter, hbefore, any_append, any_cons]
    cases ev.restarts <;> cases es.any RelayEvent.restarts <;> rfl

end Memory

/-- A valid, unexpired and unspent token that came with a creation answered with an
error can only have met a failed proof of work. As long as nobody else is let through
with it, a later request presenting it before its expiry gets past the gate exactly
when the relay restarted in between. -/
theorem refused_creation_keeps_token_iff (c : Crypto) (key : Bytes 32) (token : AttestationToken)
    (s t u : Service) (amb : Ambient) (msg : ClientMessage) (pushTx : Option ChannelId)
    (code : RejectionCode) (later : List RelayEvent)
    (hkey : s.relay.inner.attestationKey = some key) (hmsg : presented msg = some (some token))
    (hvalid : token.signatureValid c key = true) (hlive : amb.nowUnix < token.expiresAt)
    (hunspent : prune amb.nowUnix s.relay.inner.spentTokens token.nonce = none)
    (hstep : Service.step c s (.request amb msg pushTx) = some t)
    (herror : (s.relay.handle c amb msg pushTx).2 = .answered (.error code))
    (hrun : run (Service.step c) t later = some u)
    (hclock : ∀ ev ∈ later, ∀ r ∈ ev.reading, r < token.expiresAt)
    (hother : ∀ other ∈ acceptances c t later, other.nonce ≠ token.nonce)
    (hkey' : u.relay.inner.attestationKey = some key) (hawake : u.relay.poisoned = false)
    (amb' : Ambient) (msg' : ClientMessage) (pushTx' : Option ChannelId)
    (hmsg' : presented msg' = some (some token)) (hlive' : amb'.nowUnix < token.expiresAt) :
    code = .invalidProofOfWork ∧
      ((u.relay.handle c amb' msg' pushTx').2 ≠ .answered (.error .invalidAttestation) ↔
        ∃ ev ∈ later, ev.restarts = true) := by
  obtain ⟨hopen, hspends⟩ := consumeAttestation_unspent hkey hvalid hlive hunspent
  have hplan := plan_of_refused (Prod.mk.eta.symm.trans (congrArg (Prod.mk _) herror))
  have hspent : t.relay.inner.spentTokens token.nonce = some token.expiresAt := by
    change t.relay.inner.gate.2 token.nonce = _
    rcases step_request_gate c amb hstep with ⟨attestation, hpres, -, hgate⟩ | ⟨hidle, -⟩
    · obtain rfl := mem_unique hpres hmsg
      rw [hgate]
      exact hspends
    · -- a poisoned process panics and gives no answer
      rcases hidle with hnone | hp
      · simp [hmsg] at hnone
      · rw [plan_of_poisoned c amb (by simp [hmsg]) hp] at hplan
        cases (Prod.mk.inj hplan).2
  refine ⟨refused_behind_gate hmsg hplan hopen, ?_⟩
  have hmemory := run_spent hrun hclock hother hspent
  rw [Ne, handle_refuses_iff c amb' hmsg' pushTx', ← List.any_eq_true]
  cases hany : later.any RelayEvent.restarts with
  | true =>
    rw [hany, if_pos rfl] at hmemory
    have hfree : prune amb'.nowUnix u.relay.inner.spentTokens token.nonce = none := by
      rw [prune, hmemory, filter_none]
    have hok := (consumeAttestation_unspent hkey' hvalid hlive' hfree).1
    simp [hok]
  | false =>
    rw [hany] at hmemory
    simp [hawake, consumeAttestation_spent hkey' hvalid hlive' hmemory]

/-- A client asks for a mailbox with the token and a proof for the challenge `b`. -/
def create (b : UInt8) : ClientMessage := .createMailbox ⟨.fill b, 0⟩ (some sampleToken)

/-- Refused for a challenge the relay never issued, the token comes back with a restart. -/
theorem refused_creation_keeps_token_iff_restarted :
    ∃ s t u, run (Service.step .plain) (Service.boot true) [.setAttestationKey sampleKey] = some s ∧
      Service.step .plain s (.request (.fill 2) (create 2) none) = some t ∧
      run (Service.step .plain) t [.restart 0 none, .setAttestationKey sampleKey] = some u ∧
      (u.relay.handle .plain (.fill 3) (create 3) none).2 ≠
        .answered (.error .invalidAttestation) := by
  obtain ⟨s, hs, hkey, hfree, herror, t, ht, hacc, u, hu, hkey', hawake⟩ :
      ∃ s, run (Service.step .plain)
    (Service.boot true) [.setAttestationKey sampleKey] = some s ∧
      s.relay.inner.attestationKey = some sampleKey ∧
      s.relay.inner.spentTokens sampleToken.nonce = none ∧
      (s.relay.handle .plain (.fill 2) (create 2) none).2 =
        .answered (.error .invalidProofOfWork) ∧
      ∃ t, Service.step .plain s (.request (.fill 2) (create 2) none) = some t ∧
        acceptances .plain t [.restart 0 none, .setAttestationKey sampleKey] = [] ∧
        ∃ u, run (Service.step .plain) t [.restart 0 none, .setAttestationKey sampleKey] = some u ∧
            u.relay.inner.attestationKey = some sampleKey ∧
            u.relay.poisoned = false := by decide +kernel
  refine ⟨s, t, u, hs, ht, hu, ?_⟩
  refine (refused_creation_keeps_token_iff .plain sampleKey sampleToken s t u (.fill 2) (create 2)
    none _ _ hkey rfl (by decide +kernel) (by decide) ?_ ht herror hu ?_ ?_ hkey' hawake (.fill 3)
    (create 3) none rfl (by decide)).2.mpr ⟨.restart 0 none, by simp, rfl⟩
  · rw [prune, hfree, filter_none]
  · simp [RelayEvent.reading, RelayEvent.made]
  · simp [hacc]

/-! ## A challenge evicted by strangers

The relay keeps its last `maxOutstandingPowChallenges` challenges. A client asks for one
and solves it; before it asks for its mailbox, strangers have asked for as many.
-/

section Eviction

/-- The gate is on and unused, and the challenges that can be solved are among `order`. -/
structure Outstanding (order : List (Bytes 32)) (s : RelayState) : Prop where
  awake : s.poisoned = false
  gate : s.inner.gate = (some sampleKey, fun _ => none)
  queue : s.inner.challengeOrder = order
  listed : ∀ x ∉ order, s.inner.outstandingChallenges.lookup x = none

def ask (x : Bytes 32) : RelayEvent :=
  .request { Ambient.fill 0 with challenge := x } .requestPowChallenge none

theorem Outstanding.step {s : Service} (h : Outstanding order s.relay) (x : Bytes 32) :
    ∃ t, Service.step c s (ask x) = some t ∧
      Outstanding (order.drop (order.length + 1 - maxOutstandingPowChallenges) ++ [x]) t.relay := by
  have hplan : plan c { Ambient.fill 0 with challenge := x } s.relay .requestPowChallenge none =
      issuePowChallenge { Ambient.fill 0 with challenge := x } s.relay :=
    if_neg (by simp [h.awake])
  refine ⟨⟨(issuePowChallenge { Ambient.fill 0 with challenge := x } s.relay).1,
    s.log ++ [(.requestPowChallenge, .powChallenge ⟨x, queueCreationPowDifficulty⟩)]⟩, ?_, ?_⟩
  · simp only [ask, Service.step, handle, hplan, issuePowChallenge, finish]
  · obtain rfl := h.queue
    have horder := Pool.evict_order maxOutstandingPowChallenges s.relay.inner.challengeOrder
      s.relay.inner.outstandingChallenges
    rw [← evictChallenges_eq] at horder
    refine ⟨h.awake, h.gate, congrArg (· ++ [x]) horder, fun y hy => ?_⟩
    rw [mem_append, mem_singleton, not_or] at hy
    refine (Finmap.lookup_insert_of_ne _ hy.2).trans ?_
    rw [evictChallenges_eq, Pool.lookup_evict]
    split_ifs with hdropped
    · rfl
    · -- neither dropped nor kept, it was not queued
      refine h.listed y (fun hmem => ?_)
      rw [← take_append_drop (Pool.surplus maxOutstandingPowChallenges
        s.relay.inner.challengeOrder) s.relay.inner.challengeOrder, mem_append] at hmem
      exact hmem.elim hdropped hy.1

theorem run_ask (horder : order.length ≤ maxOutstandingPowChallenges) {s : Service}
    (h : Outstanding order s.relay) (cs : List (Bytes 32)) :
    ∃ t, run (Service.step c) s (cs.map ask) = some t ∧ Outstanding
      ((order ++ cs).drop ((order ++ cs).length - maxOutstandingPowChallenges)) t.relay := by
  induction cs using reverseRecOn with
  | nil =>
    refine ⟨s, rfl, ?_⟩
    rwa [append_nil, Nat.sub_eq_zero_of_le horder, drop_zero]
  | append_singleton cs x ih =>
    obtain ⟨t, ht, hout⟩ := ih
    obtain ⟨u, hu, hnext⟩ := hout.step x
    refine ⟨u, ?_, ?_⟩
    · rw [map_append, map_singleton, run_snoc, ht, bind_some, hu]
    · rw [← append_assoc]
      generalize order ++ cs = l at hnext
      have hcap : 1 ≤ maxOutstandingPowChallenges := by decide
      have hdrop : l.length - maxOutstandingPowChallenges +
          ((l.drop (l.length - maxOutstandingPowChallenges)).length + 1 -
            maxOutstandingPowChallenges) = (l ++ [x]).length - maxOutstandingPowChallenges := by
        simp only [length_drop, length_append, length_singleton]
        omega
      rw [drop_drop, hdrop] at hnext
      rwa [drop_append_of_le_length]
      simp only [length_append, length_singleton]
      omega

end Eviction

/-- The client gets its challenge, and then the strangers get theirs. -/
def evicting (strangers : List (Bytes 32)) : List RelayEvent :=
  .setAttestationKey sampleKey :: (.fill 2 :: strangers).map ask

theorem run_evicting {strangers : List (Bytes 32)}
    (hlen : strangers.length = maxOutstandingPowChallenges) :
    ∃ s, run (Service.step .plain) (Service.boot true) (evicting strangers) = some s ∧
      Outstanding strangers s.relay := by
  have hfresh : Outstanding [] ((Service.boot true).relay.setAttestationKey sampleKey) :=
    ⟨rfl, rfl, rfl, fun x _ => Finmap.lookup_empty x⟩
  obtain ⟨s, hs, hout⟩ := @run_ask .plain [] (Nat.zero_le _)
    ⟨(Service.boot true).relay.setAttestationKey sampleKey, []⟩ hfresh (.fill 2 :: strangers)
  have hlast : (.fill 2 :: strangers).length - maxOutstandingPowChallenges = 1 := by
    rw [length_cons]
    omega
  rw [nil_append, hlast] at hout
  exact ⟨s, hs, hout⟩

def stranger (n : ℕ) : Bytes 32 := ⟨n.toUInt8 :: (n / 256).toUInt8 :: replicate 30 7, by simp⟩

def strangers : List (Bytes 32) := (range maxOutstandingPowChallenges).map stranger

theorem client_not_stranger : Bytes.fill 2 ∉ strangers := by
  intro hmem
  obtain ⟨n, -, hn⟩ := List.mem_map.mp hmem
  have hbyte : (7 : UInt8) = 2 := congrArg (fun b : Bytes 32 => b.get 2) hn
  exact absurd hbyte (by decide)

/-- A client whose token has been spent solves a challenge in vain. -/
theorem run_attestedMint_spent {s : Service} (hp : s.relay.poisoned = false)
    (hkey : s.relay.inner.attestationKey = some sampleKey)
    (hspent : s.relay.inner.spentTokens sampleToken.nonce = some sampleToken.expiresAt) :
    ∃ t, run (Service.step .plain) s (attestedMint 3) = some t ∧ t.log = s.log ++
      [(.requestPowChallenge, .powChallenge ⟨.fill 3, queueCreationPowDifficulty⟩)] ++
      [(create 3, .error .invalidAttestation)] := by
  have hasked : s.relay.handle .plain (.fill 3) .requestPowChallenge none =
      ((issuePowChallenge (.fill 3) s.relay).1,
        .answered (.powChallenge ⟨.fill 3, queueCreationPowDifficulty⟩)) := by
    unfold handle
    rw [plan, if_neg (by simp [hp])]
    rfl
  have hask := step_answered (congrArg Prod.snd hasked)
  rw [hasked] at hask
  have hshut : ((issuePowChallenge (.fill 3) s.relay).1.handle .plain (.fill 3) (create 3) none).2 =
      .answered (.error .invalidAttestation) :=
    (handle_refuses_iff .plain (.fill 3) rfl none).mpr
      ⟨hp, consumeAttestation_spent hkey (by decide +kernel) (by decide) hspent⟩
  have hcreate := @step_answered .plain
    ⟨(issuePowChallenge (.fill 3) s.relay).1, s.log ++ [(.requestPowChallenge,
      .powChallenge ⟨.fill 3, queueCreationPowDifficulty⟩)]⟩ _ _ _ _ hshut
  refine ⟨⟨((issuePowChallenge (.fill 3) s.relay).1.handle .plain (.fill 3) (create 3) none).1,
    _⟩, ?_, rfl⟩
  change ((Service.step .plain s (.request (.fill 3) .requestPowChallenge none)).bind (fun t =>
    (Service.step .plain t (.request (.fill 3) (create 3) none)).bind some)) = _
  rw [hask, bind_some, hcreate, bind_some]

/-- Evicted, the client asks again and solves the new challenge; its token is refused. -/
theorem eviction_costs_token :
    ∃ s t, run (Service.step .plain) (Service.boot true) (evicting strangers) = some s ∧
      s.relay.inner.attestationKey = some sampleKey ∧
      sampleToken.signatureValid .plain sampleKey = true ∧
      (Ambient.fill 2).nowUnix < sampleToken.expiresAt ∧
      s.relay.inner.spentTokens sampleToken.nonce = none ∧
      run (Service.step .plain) s (.request (.fill 2) (create 2) none :: attestedMint 3) = some t ∧
      t.log = s.log ++ [(create 2, .error .invalidProofOfWork)] ++
        [(.requestPowChallenge, .powChallenge ⟨.fill 3, queueCreationPowDifficulty⟩)] ++
        [(create 3, .error .invalidAttestation)] := by
  have hlen : strangers.length = maxOutstandingPowChallenges := by
    rw [strangers, length_map, length_range]
  obtain ⟨s, hs, hout⟩ := run_evicting hlen
  obtain ⟨hkey, hspent⟩ := Prod.mk.inj hout.gate
  have hvalid : sampleToken.signatureValid .plain sampleKey = true := by decide +kernel
  have hfree : s.relay.inner.spentTokens sampleToken.nonce = none := by rw [hspent]
  have hlive : (Ambient.fill 2).nowUnix < sampleToken.expiresAt := by decide
  obtain ⟨hopen, hspends⟩ := consumeAttestation_unspent hkey hvalid hlive
    (by rw [prune, hfree, filter_none])
  have hgone : s.relay.inner.outstandingChallenges.lookup (.fill 2) = none :=
    hout.listed _ client_not_stranger
  have hrefused : s.relay.handle .plain (.fill 2) (create 2) none = _ :=
    handle_unsolved hout.awake hopen hgone
  have hstep := step_answered (congrArg Prod.snd hrefused)
  rw [hrefused] at hstep
  obtain ⟨t, ht, hlog⟩ := @run_attestedMint_spent
    ⟨{ s.relay with inner := (consumeAttestation .plain (.fill 2) s.relay.inner
      (some sampleToken)).2 }, s.log ++ [(create 2, .error .invalidProofOfWork)]⟩ hout.awake
    ((consumeAttestation_key (.fill 2) s.relay.inner (some sampleToken)).trans hkey) hspends
  refine ⟨s, t, hs, hkey, hvalid, hlive, hfree, ?_, hlog⟩
  rw [run, hstep, bind_some, ht]

end Rosette.Relay
