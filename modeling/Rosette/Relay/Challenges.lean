import Rosette.Foundation.Pool
import Rosette.Relay.Attestation

/-! # Proof-of-work challenges

The challenges a relay has out form a pool of single-use tickets: a request for one
issues it, a creation that presents one spends it whatever comes of the attempt, and
nothing else touches them. A restart forgets them all.
-/
namespace Rosette.Relay
open Foundation Proto RelayState List Option

variable {msg : ClientMessage} {code : RejectionCode} {solution : PowSolution} {c : Crypto}
  {amb : Ambient} {pushTx : Option ChannelId} {ev : RelayEvent}

theorem evictChallenges_eq (order : List (Bytes 32)) (m : Finmap (fun _ : Bytes 32 => ℕ)) :
    evictChallenges order m = Pool.evict maxOutstandingPowChallenges order m := by
  induction order generalizing m with
  | nil => rfl
  | cons o os ih =>
    unfold evictChallenges Pool.evict
    rw [ih]

def Inner.pool (inner : Inner) : Pool (Bytes 32) ℕ :=
  ⟨inner.outstandingChallenges, inner.challengeOrder⟩

theorem Inner.pool_of_guards {a b : Inner} (h : a.guards = b.guards) : a.pool = b.pool := by
  change a.guards.pool = b.guards.pool
  rw [h]

def solutionOf : ClientMessage → Option PowSolution
  | .createMailbox solution _ => some solution
  | .createGroupInbox solution _ _ _ => some solution
  | _ => none

def challenged : Exchange → Option (Bytes 32)
  | (_, .powChallenge challenge) => some challenge.challenge
  | _ => none

def redeemed : Exchange → Option (Bytes 32)
  | (msg, .queueCreated _ _) => (solutionOf msg).map PowSolution.challenge
  | _ => none

/-- The reply a request is led to, unless it panics on the way. -/
def Plan.reply : Plan → Option ServerMessage
  | .answer reply => some reply
  | .write m => some m.reply
  | .panic | .spin => none

section Request
variable (c : Crypto) (amb : Ambient) {s : RelayState}

theorem finish_reply {p : Plan} {reply : ServerMessage} (h : (finish amb s p).2 = .answered reply) :
    p.reply = some reply := by
  cases p with
  | answer =>
    cases h
    rfl
  | panic | spin => cases h
  | write => exact congrArg some (finish_write_reply amb h)

theorem consumeAttestation_pool (inner : Inner) (attestation : Option AttestationToken) :
    (consumeAttestation c amb inner attestation).2.pool = inner.pool := by
  unfold consumeAttestation
  split
  · rfl
  · rfl
  · dsimp only
    split_ifs <;> rfl

theorem consumePow_pool (inner : Inner) (solution : PowSolution) :
    (solution.challenge ∈ inner.pool.live ∧
        (consumePow c inner solution).2.pool = inner.pool.spend solution.challenge) ∨
      (consumePow c inner solution).1 = some (.error .invalidProofOfWork) ∧
        (consumePow c inner solution).2.pool = inner.pool := by
  unfold consumePow
  cases hout : inner.outstandingChallenges.lookup solution.challenge with
  | none => exact .inr ⟨rfl, rfl⟩
  | some difficulty =>
    refine .inl ⟨Finmap.mem_iff.mpr ⟨difficulty, hout⟩, ?_⟩
    dsimp only
    cases PowChallenge.verify c ⟨solution.challenge, difficulty⟩ solution with
    | none => rfl
    | some ok => cases ok <;> rfl

/-- What the front of a request does to the challenges, and what reply it leads to. -/
inductive Pooling (s : RelayState) (msg : ClientMessage) (r : RelayState × Plan) : Prop where
  | kept (pool : r.1.inner.pool = s.inner.pool)
      (plain : ∀ reply ∈ r.2.reply,
        challenged (msg, reply) = none ∧ redeemed (msg, reply) = none)
  | issued (x : Bytes 32)
      (pool : r.1.inner.pool =
        s.inner.pool.issue maxOutstandingPowChallenges x queueCreationPowDifficulty)
      (answer : r.2 = .answer (.powChallenge ⟨x, queueCreationPowDifficulty⟩))
  | spent (solution : PowSolution) (presents : solutionOf msg = some solution)
      (out : solution.challenge ∈ s.inner.pool.live)
      (pool : r.1.inner.pool = s.inner.pool.spend solution.challenge)
      (plain : ∀ reply ∈ r.2.reply, challenged (msg, reply) = none)

theorem Pooling.of_error {r : RelayState × Plan} (pool : r.1.inner.pool = s.inner.pool)
    (h : r.2 = .answer (.error code)) : Pooling s msg r := by
  refine .kept pool (fun reply hreply => ?_)
  rw [h] at hreply
  cases hreply
  exact ⟨rfl, rfl⟩

theorem pooling_admitQueue (s : RelayState) (attestation : Option AttestationToken)
    {mutation : QueueId → Mutation} (hmsg : solutionOf msg = some solution)
    (hreply : ∀ q, ∃ q' k, (mutation q).reply = .queueCreated q' k) :
    Pooling s msg (admitQueue c amb s solution attestation mutation) := by
  unfold admitQueue
  split_ifs
  · exact .kept rfl (by simp [Plan.reply])
  · have hgate := consumeAttestation_pool c amb s.inner attestation
    generalize consumeAttestation c amb s.inner attestation = a at hgate
    obtain ⟨code | _, inner⟩ := a
    · exact .of_error hgate rfl
    · dsimp only
      have hpow := consumePow_pool c inner solution
      rw [show inner.pool = s.inner.pool from hgate] at hpow
      generalize consumePow c inner solution = r at hpow
      obtain ⟨verdict, inner'⟩ := r
      rcases hpow with ⟨hout, hpool⟩ | ⟨hverdict, hpool⟩
      · refine .spent solution hmsg hout ?_ ?_
        · rcases verdict with _ | _ | _
          · exact hpool
          · exact hpool
          · dsimp only
            cases freshQueueId amb inner' <;> exact hpool
        · rcases verdict with _ | _ | _
          · simp [Plan.reply]
          · simp [Plan.reply, challenged]
          · dsimp only
            cases freshQueueId amb inner' with
            | none => simp [Plan.reply]
            | some q =>
              obtain ⟨q', k, hq⟩ := hreply q
              simp [Plan.reply, hq, challenged]
      · obtain rfl : verdict = _ := hverdict
        exact .of_error hpool rfl

theorem pooling_plan (s : RelayState) (msg : ClientMessage) (pushTx : Option ChannelId) :
    Pooling s msg (plan c amb s msg pushTx) := by
  cases hpres : presented msg with
  | some =>
    cases msg with
    | createMailbox solution a => exact pooling_admitQueue c amb s a rfl (fun q => ⟨q, _, rfl⟩)
    | createGroupInbox solution epoch fanOutTo a =>
      exact pooling_admitQueue c amb s a rfl (fun q => ⟨q, _, rfl⟩)
    | _ => cases hpres
  | none =>
    by_cases hask : msg = .requestPowChallenge
    · subst hask
      rw [plan]
      split_ifs
      · exact .kept rfl (by simp [Plan.reply])
      · refine .issued amb.challenge ?_ rfl
        unfold issuePowChallenge
        rw [evictChallenges_eq]
        rfl
    · -- the other requests are answered without touching either guard
      refine .kept (Inner.pool_of_guards (plan_guards c amb hpres hask pushTx))
        (fun reply hreply => ?_)
      have hplan := planned_plan c amb s msg pushTx
      generalize plan c amb s msg pushTx = r at hplan hreply
      obtain ⟨t, p⟩ := r
      cases p with
      | panic | spin => cases hreply
      | answer =>
        cases hreply
        cases hplan.answers _ rfl with
        | challenge => exact absurd rfl hask
        | _ => exact ⟨rfl, rfl⟩
      | write m =>
        cases hreply
        cases hplan.admits m rfl with
        | createMailbox | createGroupInbox => cases hpres
        | _ => exact ⟨rfl, rfl⟩

end Request

def Service.challenges (s : Service) : List (Bytes 32) := s.log.filterMap challenged

def Service.redemptions (s : Service) : List (Bytes 32) := s.log.filterMap redeemed

theorem challenges_snoc (relay : RelayState) (log : List Exchange) (entry : Exchange) :
    Service.challenges ⟨relay, log ++ [entry]⟩ =
      log.filterMap challenged ++ (challenged entry).toList := by
  cases h : challenged entry <;> simp [Service.challenges, h]

theorem redemptions_snoc (relay : RelayState) (log : List Exchange) (entry : Exchange) :
    Service.redemptions ⟨relay, log ++ [entry]⟩ =
      log.filterMap redeemed ++ (redeemed entry).toList := by
  cases h : redeemed entry <;> simp [Service.redemptions, h]

/-- Everything one event can do to the challenges. -/
inductive PoolStep (s : Service) (ev : RelayEvent) (t : Service) : Prop where
  | kept (pool : t.relay.inner.pool = s.relay.inner.pool)
      (challenges : t.challenges = s.challenges) (redemptions : t.redemptions = s.redemptions)
  | issued (x : Bytes 32)
      (pool : t.relay.inner.pool =
        s.relay.inner.pool.issue maxOutstandingPowChallenges x queueCreationPowDifficulty)
      (told : ∃ msg, t.log = s.log ++ [(msg, .powChallenge ⟨x, queueCreationPowDifficulty⟩)])
      (challenges : t.challenges = s.challenges ++ [x])
      (redemptions : t.redemptions = s.redemptions)
  | spent (amb : Ambient) (msg : ClientMessage) (solution : PowSolution)
      (makes : ev.made = some (amb, msg)) (presents : solutionOf msg = some solution)
      (out : solution.challenge ∈ s.relay.inner.pool.live)
      (pool : t.relay.inner.pool = s.relay.inner.pool.spend solution.challenge)
      (challenges : t.challenges = s.challenges)
      (redemptions : t.redemptions = s.redemptions ∨
        t.redemptions = s.redemptions ++ [solution.challenge])
  | restarted (restarts : ev.restarts = true) (pool : t.relay.inner.pool = Pool.empty)
      (challenges : t.challenges = s.challenges)
      (redemptions : t.redemptions = s.redemptions ∨
        ∃ x ∈ s.relay.inner.pool.live, t.redemptions = s.redemptions ++ [x])

section Step
variable {s t : Service}

theorem redeemed_of_presents (h : solutionOf msg = some solution) (reply : ServerMessage) :
    redeemed (msg, reply) = none ∨ redeemed (msg, reply) = some solution.challenge := by
  cases reply with
  | queueCreated =>
    right
    simp [redeemed, h]
  | _ => exact .inl rfl

theorem step_request_log (h : Service.step c s (.request amb msg pushTx) = some t) :
    (t.log = s.log ∧ ∀ reply, (plan c amb s.relay msg pushTx).2 ≠ .answer reply) ∨
      ∃ reply ∈ (plan c amb s.relay msg pushTx).2.reply, t.log = s.log ++ [(msg, reply)] := by
  unfold Service.step at h
  dsimp only [handle] at h
  generalize plan c amb s.relay msg pushTx = p at h
  obtain ⟨u, p⟩ := p
  have hfin := @finish_reply amb u p
  cases hr : (finish amb u p).2 with
  | answered reply =>
    rw [show finish amb u p = ((finish amb u p).1, .answered reply) from Prod.ext rfl hr] at h
    cases h
    exact .inr ⟨reply, hfin hr, rfl⟩
  | panicked =>
    rw [show finish amb u p = ((finish amb u p).1, .panicked) from Prod.ext rfl hr] at h
    cases h
    refine .inl ⟨rfl, fun reply hp => ?_⟩
    obtain rfl : p = .answer reply := hp
    cases hr
  | spinning =>
    rw [show finish amb u p = ((finish amb u p).1, .spinning) from Prod.ext rfl hr] at h
    cases h

theorem poolStep_request (h : Service.step c s (.request amb msg pushTx) = some t) :
    PoolStep s (.request amb msg pushTx) t := by
  have hpool : t.relay.inner.pool = (plan c amb s.relay msg pushTx).1.inner.pool := by
    rw [step_request_relay h]
    exact Inner.pool_of_guards (finish_guards amb _ _)
  have hlog := step_request_log h
  obtain ⟨relay, log⟩ := t
  cases pooling_plan c amb s.relay msg pushTx with
  | kept pool plain =>
    rcases hlog with ⟨rfl, -⟩ | ⟨reply, hreply, rfl⟩
    · exact .kept (hpool.trans pool) rfl rfl
    · obtain ⟨hch, hred⟩ := plain reply hreply
      refine .kept (hpool.trans pool) ?_ ?_
      · rw [challenges_snoc, hch, toList_none, append_nil, Service.challenges]
      · rw [redemptions_snoc, hred, toList_none, append_nil, Service.redemptions]
  | issued x pool answer =>
    rcases hlog with ⟨-, hnone⟩ | ⟨reply, hreply, rfl⟩
    · exact absurd answer (hnone _)
    · rw [answer] at hreply
      cases hreply
      exact .issued x (hpool.trans pool) ⟨msg, rfl⟩ (challenges_snoc ..)
        ((redemptions_snoc ..).trans (append_nil _))
  | spent solution presents out pool plain =>
    rcases hlog with ⟨rfl, -⟩ | ⟨reply, hreply, rfl⟩
    · exact .spent amb msg solution rfl presents out (hpool.trans pool) rfl (.inl rfl)
    · refine .spent amb msg solution rfl presents out (hpool.trans pool) ?_ ?_
      · rw [challenges_snoc, plain reply hreply, toList_none, append_nil, Service.challenges]
      · rw [redemptions_snoc]
        rcases redeemed_of_presents presents reply with hr | hr
        · left
          rw [hr, toList_none, append_nil, Service.redemptions]
        · right
          rw [hr, toList_some, Service.redemptions]

theorem poolStep_restart {now : ℕ} {inFlight : Option (Ambient × ClientMessage)}
    (h : Service.step c s (.restart now inFlight) = some t) :
    PoolStep s (.restart now inFlight) t := by
  have hpool : t.relay.inner.pool = Pool.empty := by
    obtain ⟨db, ho⟩ := step_restart_reopens h
    obtain ⟨queues, used, hr⟩ := reopen_eq_some ho
    rw [hr]
    rfl
  rcases inFlight with _ | ⟨amb, msg⟩
  · obtain ⟨db, -, hdb⟩ := bind_eq_some_iff.mp h
    obtain ⟨u, -, rfl⟩ := map_eq_some_iff.mp hdb
    exact .restarted rfl hpool rfl (.inl rfl)
  · obtain ⟨⟨mid, m⟩, hm, hp⟩ := bind_eq_some_iff.mp h
    obtain ⟨db, -, hdb⟩ := bind_eq_some_iff.mp hp
    obtain ⟨u, -, rfl⟩ := map_eq_some_iff.mp hdb
    obtain ⟨s₁, -, -, -, -, hplan⟩ := midway_eq_some hm
    have hpooling := pooling_plan c amb s.relay msg none
    rw [hplan] at hpooling
    -- a queue made just before the crash has spent its challenge
    cases hpooling with
    | kept pool plain =>
      obtain ⟨hch, hred⟩ := plain m.reply rfl
      refine .restarted rfl hpool ?_ (.inl ?_)
      · rw [challenges_snoc, hch, toList_none, append_nil, Service.challenges]
      · rw [redemptions_snoc, hred, toList_none, append_nil, Service.redemptions]
    | issued x pool answer => cases answer
    | spent solution presents out pool plain =>
      refine .restarted rfl hpool ?_ ?_
      · rw [challenges_snoc, plain m.reply rfl, toList_none, append_nil, Service.challenges]
      · rw [redemptions_snoc]
        rcases redeemed_of_presents presents m.reply with hr | hr
        · left
          rw [hr, toList_none, append_nil, Service.redemptions]
        · right
          exact ⟨_, out, by rw [hr, toList_some, Service.redemptions]⟩

theorem poolStep_of_step (h : Service.step c s ev = some t) : PoolStep s ev t := by
  cases ev with
  | request => exact poolStep_request h
  | restart => exact poolStep_restart h
  | receivePush | hangUp | setAttestationKey =>
    cases h
    exact .kept rfl rfl rfl

end Step

/-! ## Over a whole run -/

section Run
variable {s t : Service} {x : Bytes 32} {v n : ℕ} {later : List RelayEvent}
  {challenge : PowChallenge}

/-- The pool keeps to its cap, and of each challenge no more were redeemed or are still
out than were issued. -/
structure Accounted (s : Service) : Prop where
  bounded : s.relay.inner.pool.Bounded maxOutstandingPowChallenges
  known : ∀ x ∈ s.relay.inner.pool.order, x ∈ s.challenges
  count : ∀ x, s.redemptions.count x + (if x ∈ s.relay.inner.pool.live then 1 else 0) ≤
    s.challenges.count x

theorem accounted_boot (persistent : Bool) : Accounted (Service.boot persistent) := by
  refine ⟨?_, ?_, fun x => ?_⟩
  · exact Pool.bounded_empty
  · exact fun x hx => absurd hx not_mem_nil
  · exact Nat.zero_le _

theorem Accounted.count_spent (h : Accounted s) (hx : x ∈ s.relay.inner.pool.live) (y : Bytes 32) :
    (s.redemptions ++ [x]).count y +
        (if y ∈ (s.relay.inner.pool.spend x).live then 1 else 0) ≤ s.challenges.count y := by
  have hy := h.count y
  rw [count_append]
  by_cases hyx : y = x
  · subst hyx
    have hgone : y ∉ (s.relay.inner.pool.spend y).live := fun hmem =>
      (Finmap.mem_erase.mp hmem).1 rfl
    rw [if_pos hx] at hy
    rw [if_neg hgone, count_singleton_self]
    exact hy
  · have hsame : y ∈ (s.relay.inner.pool.spend x).live ↔ y ∈ s.relay.inner.pool.live := by
      unfold Pool.spend
      rw [Finmap.mem_erase]
      exact and_iff_right hyx
    rw [count_singleton, if_neg (by simpa using Ne.symm hyx), Nat.add_zero]
    simpa only [hsame] using hy

theorem Accounted.step (h : Accounted s) (hstep : Service.step c s ev = some t) : Accounted t := by
  have hcap : 0 < maxOutstandingPowChallenges := by decide
  have fewer : ∀ {x : Bytes 32} {p : Prop} [Decidable p], (p → x ∈ s.relay.inner.pool.live) →
      s.redemptions.count x + (if p then 1 else 0) ≤ s.challenges.count x := by
    intro x p _ hp
    have hx := h.count x
    split_ifs with hq
    · rwa [if_pos (hp hq)] at hx
    · omega
  cases poolStep_of_step hstep with
  | kept pool challenges redemptions =>
    refine ⟨pool ▸ h.bounded, ?_, fun x => ?_⟩
    · rw [pool, challenges]
      exact h.known
    · rw [pool, challenges, redemptions]
      exact h.count x
  | issued x pool told challenges redemptions =>
    refine ⟨pool ▸ h.bounded.issue hcap x _, fun y hy => ?_, fun y => ?_⟩
    · rw [pool] at hy
      rw [challenges, mem_append, mem_singleton]
      exact (Pool.mem_order_of_mem_issue hy).imp_left (h.known y)
    · rw [pool, challenges, redemptions, count_append]
      by_cases hyx : y = x
      · subst hyx
        have hy := h.count y
        rw [count_singleton_self]
        split_ifs <;> omega
      · exact (fewer fun hy => (Pool.mem_of_mem_issue hy).resolve_left hyx).trans
          (Nat.le_add_right _ _)
  | spent amb msg solution makes presents out pool challenges redemptions =>
    refine ⟨pool ▸ h.bounded.spend _, ?_, fun y => ?_⟩
    · rw [pool, challenges]
      exact h.known
    · have hspent := h.count_spent out y
      rw [pool, challenges]
      rcases redemptions with hr | hr
      · rw [hr]
        exact fewer fun hy => (Finmap.mem_erase.mp hy).2
      · rw [hr]
        exact hspent
  | restarted restarts pool challenges redemptions =>
    refine ⟨pool ▸ Pool.bounded_empty, ?_, fun y => ?_⟩
    · rw [pool]
      exact fun x hx => absurd hx not_mem_nil
    · rw [pool, if_neg Pool.notMem_empty, challenges]
      rcases redemptions with hr | ⟨x, hx, hr⟩
      · rw [hr]
        have hy := h.count y
        omega
      · rw [hr]
        have hy := h.count_spent hx y
        omega

theorem run_accounted {persistent : Bool} {es : List RelayEvent}
    (hrun : run (Service.step c) (Service.boot persistent) es = some s) : Accounted s :=
  run_invariant (accounted_boot persistent) (fun _ _ _ h hs => h.step hs) hrun

/-- The event presents a solution for the challenge. -/
def RelayEvent.tries (x : Bytes 32) (ev : RelayEvent) : Prop :=
  ∃ r ∈ ev.made, ∃ solution ∈ solutionOf r.2, solution.challenge = x

/-- An untried challenge grows older by the challenges issued after it. -/
theorem waiting_step (hstep : Service.step c s ev = some t) (hone : ev.restarts = false)
    (huntried : ¬ ev.tries x)
    (hfew : n + t.challenges.length < s.challenges.length + maxOutstandingPowChallenges)
    (hdistinct : ∀ y, t.challenges = s.challenges ++ [y] → x ≠ y)
    (h : s.relay.inner.pool.Waiting x v n) :
    ∃ m, t.relay.inner.pool.Waiting x v m ∧
      m + s.challenges.length = n + t.challenges.length := by
  cases poolStep_of_step hstep with
  | kept pool challenges => exact ⟨n, pool ▸ h, by rw [challenges]⟩
  | issued y pool told challenges =>
    rw [challenges, length_append, length_singleton] at hfew
    refine ⟨n + 1, ?_, ?_⟩
    · rw [pool]
      exact h.issue (hdistinct y challenges) (by omega)
    · rw [challenges, length_append, length_singleton]
      omega
  | spent amb msg solution makes presents out pool challenges =>
    refine ⟨n, ?_, by rw [challenges]⟩
    rw [pool]
    exact h.spend fun hx => huntried ⟨_, makes, solution, presents, hx.symm⟩
  | restarted restarts => simp [hone] at restarts

theorem step_challenges (hstep : Service.step c s ev = some t) :
    ∃ new, t.challenges = s.challenges ++ new := by
  cases poolStep_of_step hstep with
  | issued x pool told challenges => exact ⟨[x], challenges⟩
  | kept pool challenges => exact ⟨[], by rw [challenges, append_nil]⟩
  | spent amb msg solution makes presents out pool challenges
  | restarted restarts pool challenges => exact ⟨[], by rw [challenges, append_nil]⟩

theorem run_challenges (hrun : run (Service.step c) s later = some t) :
    ∃ new, t.challenges = s.challenges ++ new := by
  refine run_invariant ⟨[], (append_nil _).symm⟩ (fun u _ v hu hstep => ?_) hrun
  obtain ⟨before, hbefore⟩ := hu
  obtain ⟨new, hnew⟩ := step_challenges hstep
  exact ⟨before ++ new, by rw [hnew, hbefore, append_assoc]⟩

/-- Untried, a challenge lasts while fewer than the cap are issued after it. -/
theorem waiting_run (hrun : run (Service.step c) s later = some t)
    (hone : ∀ ev ∈ later, ev.restarts = false) (huntried : ∀ ev ∈ later, ¬ ev.tries x)
    (hdistinct : t.challenges.Nodup)
    (hfew : t.challenges.length < s.challenges.length + maxOutstandingPowChallenges)
    (hx : x ∈ s.challenges) (h : s.relay.inner.pool.Waiting x v 0) :
    x ∈ t.challenges ∧ ∃ n, t.relay.inner.pool.Waiting x v n ∧
      n + s.challenges.length = t.challenges.length := by
  induction later using reverseRecOn generalizing t with
  | nil =>
    cases hrun
    exact ⟨hx, 0, h, Nat.zero_add _⟩
  | append_singleton later ev ih =>
    rw [run_snoc] at hrun
    obtain ⟨u, hu, hstep⟩ := bind_eq_some_iff.mp hrun
    obtain ⟨new, hnew⟩ := step_challenges hstep
    rw [hnew] at hdistinct hfew
    have hlen : u.challenges.length ≤ (u.challenges ++ new).length := by simp
    obtain ⟨hxu, n, hwait, hn⟩ := ih hu (fun e he => hone e (by simp [he]))
      (fun e he => huntried e (by simp [he])) hdistinct.of_append_left (hlen.trans_lt hfew)
    have hfresh : ∀ y, t.challenges = u.challenges ++ [y] → x ≠ y := by
      -- a draw that repeats the challenge would not be distinct
      intro y hy
      obtain rfl : new = [y] := append_cancel_left (hnew.symm.trans hy)
      exact (nodup_append.mp hdistinct).2.2 x hxu y (by simp)
    obtain ⟨m, hm, hmn⟩ := waiting_step hstep (hone ev (by simp)) (huntried ev (by simp))
      (by rw [hnew]; omega) hfresh hwait
    exact ⟨by rw [hnew]; exact mem_append_left _ hxu, m, hm, by omega⟩

theorem consumePow_waiting {inner : Inner} {nonce : UInt64}
    (h : inner.pool.Waiting challenge.challenge challenge.difficulty n)
    (hnonce : challenge.verify c ⟨challenge.challenge, nonce⟩ = some true) :
    (consumePow c inner ⟨challenge.challenge, nonce⟩).1 = some (.ok ()) := by
  unfold consumePow
  rw [show inner.outstandingChallenges.lookup challenge.challenge = some challenge.difficulty
    from h.live]
  dsimp only
  rw [hnonce]

theorem Plan.of_reply_error {p : Plan} (h : p.reply = some (.error code)) :
    p = .answer (.error code) := by
  cases p with
  | answer => exact congrArg Plan.answer (some.inj h)
  | write m => cases m <;> cases h
  | panic | spin => cases h

theorem admitQueue_solved {s : RelayState}
    (hsolved : ∀ inner : Inner, inner.pool = s.inner.pool →
      (consumePow c inner solution).1 = some (.ok ()))
    (attestation : Option AttestationToken) (mutation : QueueId → Mutation) :
    (admitQueue c amb s solution attestation mutation).2 ≠
      .answer (.error .invalidProofOfWork) := by
  unfold admitQueue
  split_ifs
  · simp
  · have hpool := consumeAttestation_pool c amb s.inner attestation
    have hcode := consumeAttestation_error_iff c amb s.inner attestation
    generalize consumeAttestation c amb s.inner attestation = a at hpool hcode
    obtain ⟨code | _, inner⟩ := a
    · obtain rfl : code = .invalidAttestation := by simpa using hcode
      simp
    · have hok := hsolved inner hpool
      dsimp only
      generalize consumePow c inner solution = r at hok
      obtain ⟨verdict, inner'⟩ := r
      obtain rfl : verdict = _ := hok
      dsimp only
      cases freshQueueId amb inner' <;> simp

theorem handle_solved {s : RelayState} (hmsg : solutionOf msg = some solution)
    (hsolved : ∀ inner : Inner, inner.pool = s.inner.pool →
      (consumePow c inner solution).1 = some (.ok ()))
    (pushTx : Option ChannelId) :
    (s.handle c amb msg pushTx).2 ≠ .answered (.error .invalidProofOfWork) := by
  intro hrefused
  have hplan := Plan.of_reply_error (finish_reply amb hrefused)
  cases msg with
  | createMailbox | createGroupInbox =>
    cases hmsg
    exact admitQueue_solved hsolved _ _ hplan
  | _ => cases hmsg

theorem waiting_issued
    (hstep : Service.step c s (.request amb .requestPowChallenge pushTx) = some t)
    (hlog : t.log = s.log ++ [(.requestPowChallenge, .powChallenge challenge)])
    (hknown : ∀ x ∈ s.relay.inner.pool.order, x ∈ s.challenges) (hdistinct : t.challenges.Nodup) :
    t.relay.inner.pool.Waiting challenge.challenge challenge.difficulty 0 := by
  have hch : t.challenges = s.challenges ++ [challenge.challenge] := by
    unfold Service.challenges
    rw [hlog, filterMap_append]
    rfl
  cases poolStep_of_step hstep with
  | issued x pool told challenges =>
    obtain ⟨msg, hmsg⟩ := told
    have hentry := append_cancel_left (hlog.symm.trans hmsg)
    obtain ⟨⟨-, rfl⟩, -⟩ := hentry
    rw [pool]
    refine Pool.waiting_issue (fun hx => ?_) _
    rw [challenges] at hdistinct
    exact (nodup_append.mp hdistinct).2.2 x (hknown x hx) x (by simp) rfl
  | kept pool challenges => simp [challenges] at hch
  | spent amb msg solution makes presents out pool challenges => simp [challenges] at hch
  | restarted restarts => cases restarts

end Run

/-- Over every run the challenges that are out and their queue keep to the cap, and every
challenge that is out is queued; of each challenge no more queues were created than it
was issued times; and in one process a challenge that nobody tries to redeem is accepted
with a correct nonce while fewer than the cap have been issued since. -/
theorem challenges_bounded_single_use_fair (c : Crypto) (persistent : Bool) (es : List RelayEvent)
    (s : Service) (hrun : run (Service.step c) (Service.boot persistent) es = some s) :
    (s.relay.inner.outstandingChallenges.keys.card ≤ maxOutstandingPowChallenges ∧
      s.relay.inner.challengeOrder.length ≤ maxOutstandingPowChallenges ∧
      ∀ x ∈ s.relay.inner.outstandingChallenges, x ∈ s.relay.inner.challengeOrder) ∧
    (∀ x, s.redemptions.count x ≤ s.challenges.count x) ∧
    ∀ (amb : Ambient) (pushTx : Option ChannelId) (challenge : PowChallenge) (t u : Service)
      (later : List RelayEvent),
      Service.step c s (.request amb .requestPowChallenge pushTx) = some t →
      t.log = s.log ++ [(.requestPowChallenge, .powChallenge challenge)] →
      run (Service.step c) t later = some u →
      (∀ ev ∈ later, ev.restarts = false) →
      (∀ ev ∈ later, ¬ ev.tries challenge.challenge) →
      u.challenges.Nodup →
      u.challenges.length < t.challenges.length + maxOutstandingPowChallenges →
      ∀ nonce, challenge.verify c ⟨challenge.challenge, nonce⟩ = some true →
        (consumePow c u.relay.inner ⟨challenge.challenge, nonce⟩).1 = some (.ok ()) ∧
        ∀ amb' msg pushTx', solutionOf msg = some ⟨challenge.challenge, nonce⟩ →
          (u.relay.handle c amb' msg pushTx').2 ≠ .answered (.error .invalidProofOfWork) := by
  have hs := run_accounted hrun
  refine ⟨⟨hs.bounded.card, hs.bounded.length, hs.bounded.listed⟩,
    fun x => (Nat.le_add_right _ _).trans (hs.count x), ?_⟩
  intro amb pushTx challenge t u later hstep hlog hlater hone huntried hdistinct hfew nonce hnonce
  obtain ⟨new, hnew⟩ := run_challenges hlater
  have hissued := waiting_issued hstep hlog hs.known (hnew ▸ hdistinct).of_append_left
  have hx : challenge.challenge ∈ t.challenges := by
    unfold Service.challenges
    rw [hlog, filterMap_append]
    exact mem_append_right _ (by simp [challenged])
  obtain ⟨-, n, hwait, -⟩ := waiting_run hlater hone huntried hdistinct hfew hx hissued
  refine ⟨consumePow_waiting hwait hnonce, fun amb' msg pushTx' hmsg => ?_⟩
  exact handle_solved hmsg (fun inner hpool => consumePow_waiting (hpool ▸ hwait) hnonce) pushTx'

/-- A client asks for a challenge, a stranger for another; the first is still good. -/
theorem challenges_bounded_single_use_fair_two :
    ∃ s t u, run (Service.step .plain) (Service.boot false) [] = some s ∧
      Service.step .plain s (.request (.fill 2) .requestPowChallenge none) = some t ∧
      run (Service.step .plain) t [.request (.fill 3) .requestPowChallenge none] = some u ∧
      (consumePow .plain u.relay.inner ⟨.fill 2, 0⟩).1 = some (.ok ()) := by
  obtain ⟨t, ht, hlog, u, hu, hdistinct, htwo, hone⟩ : ∃ t, Service.step .plain
    (Service.boot false) (.request (.fill 2) .requestPowChallenge none) = some t ∧
      t.log = (Service.boot false).log ++
        [(.requestPowChallenge, .powChallenge ⟨.fill 2, queueCreationPowDifficulty⟩)] ∧
      ∃ u, run (Service.step .plain) t [.request (.fill 3) .requestPowChallenge none] = some u ∧
        u.challenges.Nodup ∧ u.challenges.length = 2 ∧ t.challenges.length = 1 := by decide +kernel
  refine ⟨_, t, u, rfl, ht, hu, ?_⟩
  refine ((challenges_bounded_single_use_fair .plain false [] _ rfl).2.2 _ _ _ t u _ ht hlog hu
    (by simp [RelayEvent.restarts]) ?_ hdistinct ?_ 0 (by decide +kernel)).1
  · simp [RelayEvent.tries, RelayEvent.made, solutionOf]
  · rw [htwo, hone]
    decide

end Rosette.Relay
