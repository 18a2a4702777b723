import Rosette.Engine.Rules
import Rosette.Network.World

/-! # What one event can do

The events of one device are stretches of its engine or of its constructor; the rest
are moves of the network and of the relay. The inversions below say so once.
-/
namespace Rosette.Network
open Foundation Proto Rosette.Core Relay Engine List Option Function World

variable {mls : OpenMls} {ι : Type} {i : ι} {c : Crypto} {w' : World mls ι} {e : ChatEngine mls}
  {pc : Pc} {h : Happening mls ι}

namespace World
variable {k : ConnId}

section
variable (w : World mls ι)
include w

@[simp] theorem setConn_self (k : ConnId) (conn : Conn ι) :
    (w.setConn k conn).conns k = conn := update_self ..

theorem setConn_of_ne {k' : ConnId} (h : k' ≠ k) (conn : Conn ι) :
    (w.setConn k conn).conns k' = w.conns k' := update_of_ne h ..

@[simp] theorem setConn_nodes (k : ConnId) (conn : Conn ι) :
    (w.setConn k conn).nodes = w.nodes := rfl

@[simp] theorem setConn_service (k : ConnId) (conn : Conn ι) :
    (w.setConn k conn).service = w.service := rfl

@[simp] theorem setConn_nextConn (k : ConnId) (conn : Conn ι) :
    (w.setConn k conn).nextConn = w.nextConn := rfl

@[simp] theorem dial_self (owner : Option ι) :
    (w.dial owner).conns w.nextConn = .fresh owner := update_self ..

theorem dial_of_ne (h : k ≠ w.nextConn) (owner : Option ι) :
    (w.dial owner).conns k = w.conns k := update_of_ne h ..

@[simp] theorem send_nodes (f : Option (ConnId × ClientMessage)) :
    (w.send f).nodes = w.nodes := by
  rcases f with _ | ⟨k, msg⟩ <;> rfl

@[simp] theorem send_service (f : Option (ConnId × ClientMessage)) :
    (w.send f).service = w.service := by
  rcases f with _ | ⟨k, msg⟩ <;> rfl

@[simp] theorem send_nextConn (f : Option (ConnId × ClientMessage)) :
    (w.send f).nextConn = w.nextConn := by
  rcases f with _ | ⟨k, msg⟩ <;> rfl

theorem send_conns_of_ne {f : Option (ConnId × ClientMessage)} (h : ∀ msg, f ≠ some (k, msg)) :
    (w.send f).conns k = w.conns k := by
  rcases f with _ | ⟨k', msg⟩
  · rfl
  · refine w.setConn_of_ne (fun hk => h msg ?_) _
    rw [hk]

theorem send_conns_self (k : ConnId) (msg : ClientMessage) :
    (w.send (some (k, msg))).conns k = (w.conns k).write msg := w.setConn_self k _

theorem send_conn (f : Option (ConnId × ClientMessage)) (k : ConnId) :
    ∃ up rid, (w.send f).conns k = { w.conns k with up := up, nextCall := rid } := by
  by_cases h : ∃ msg, f = some (k, msg)
  · obtain ⟨msg, rfl⟩ := h
    exact ⟨_, _, w.send_conns_self k msg⟩
  · exact ⟨_, _, w.send_conns_of_ne (fun msg hf => h ⟨msg, hf⟩)⟩

@[simp] theorem send_owner (f : Option (ConnId × ClientMessage)) (k : ConnId) :
    ((w.send f).conns k).owner = (w.conns k).owner := by
  obtain ⟨up, rid, h⟩ := w.send_conn f k
  rw [h]

end

variable [DecidableEq ι]

variable (w : World mls ι)
include w

@[simp] theorem install_service (i : ι) (t : Turn mls) :
    (w.install i t).service = w.service := w.send_service t.frame

@[simp] theorem install_nextConn (i : ι) (t : Turn mls) :
    (w.install i t).nextConn = w.nextConn := w.send_nextConn t.frame

@[simp] theorem install_conns (i : ι) (t : Turn mls) :
    (w.install i t).conns = (w.send t.frame).conns := rfl

@[simp] theorem install_self (i : ι) (t : Turn mls) :
    (w.install i t).nodes i = { w.nodes i with
      process := .running t.engine t.pc
      results := (w.nodes i).results ++ t.result.toList } := update_self ..

theorem install_of_ne {j : ι} (h : j ≠ i) (t : Turn mls) : (w.install i t).nodes j = w.nodes j := by
  change update (w.send t.frame).nodes i _ j = _
  rw [update_of_ne h, send_nodes]

end World

/-- An engine goes on from an await point: the world just before it does, and its stretch. -/
inductive Resumed {mls : OpenMls} {ι : Type} [DecidableEq ι] (c : Crypto) (w : World mls ι) (i : ι)
    (e : ChatEngine mls) (pc : Pc) : Happening mls ι → World mls ι → Turn mls → Prop where
  | call {call d} (idle : pc = .idle) :
    Resumed c w i e pc (.call i call d) w (call.start c (w.link e.relay) d e)
  | contactLink {d} (idle : pc = .idle) :
    Resumed c w i e pc (.contactLink i d) w
      (finish (e.contactLink d.rand).1 (.link (e.contactLink d.rand).2))
  | attachStore {d} (idle : pc = .idle) :
    Resumed c w i e pc (.attachStore i d) w
      (finish (e.attachStore d.diskOk (w.nodes i).disk).1
        (.attached (e.attachStore d.diskOk (w.nodes i).disk).2))
  | push {r p rest d} (receiving : pc = .receiving r)
      (received : (w.conns e.relay).received = p :: rest) :
    Resumed c w i e pc (.push i d)
      (w.setConn e.relay { w.conns e.relay with received := rest })
      (onPush c (w.link e.relay) d e r p)
  | disconnected {r} (receiving : pc = .receiving r) (received : (w.conns e.relay).received = [])
      (closed : (w.conns e.relay).closed = true) :
    Resumed c w i e pc (.disconnected i) w (onDisconnected e r)
  | acked {r rid reply d} (acking : pc = .acking r rid)
      (answered : (rid, reply) ∈ (w.conns e.relay).answered) :
    Resumed c w i e pc (.replied i d) w (onAcked c (w.link e.relay) d e r reply)
  | sent {s rid reply d} (sending : pc = .sending s rid)
      (answered : (rid, reply) ∈ (w.conns e.relay).answered) :
    Resumed c w i e pc (.replied i d) w (onSent c (w.link e.relay) d e s reply)
  | subscribed {k conn rid reply d} (subscribing : pc = .subscribing k conn rid)
      (answered : (rid, reply) ∈ (w.conns conn).answered) :
    Resumed c w i e pc (.replied i d) w (onSubscribed c (w.link conn) d e k conn reply)
  | ackLost {r rid d} (acking : pc = .acking r rid) (closed : (w.conns e.relay).closed = true) :
    Resumed c w i e pc (.lost i d) w (afterAck c (w.link e.relay) d e r)
  | sendLost {s rid d} (sending : pc = .sending s rid) (closed : (w.conns e.relay).closed = true)
      (unanswered : ∀ reply, (rid, reply) ∉ (w.conns e.relay).answered) :
    Resumed c w i e pc (.lost i d) w (reconnect e (.sending s))
  | subscribeLost {k conn rid d} (subscribing : pc = .subscribing k conn rid)
      (closed : (w.conns conn).closed = true) :
    Resumed c w i e pc (.lost i d) w (finish e (k.failed .connectionClosed))
  | connected {k n} (connecting : pc = .connecting k n) :
    Resumed c w i e pc (.connected i) (w.dial (some i))
      (onConnected ((w.dial (some i)).link w.nextConn) e k w.nextConn)
  | connectFailed {k n} (connecting : pc = .connecting k n) :
    Resumed c w i e pc (.connectFailed i) w (onConnectFailed e k n)
  | drop (droppable : pc.droppable = true) : Resumed c w i e pc (.drop i) w (await e .idle)

section Inversion
variable {α : Type} {w : World mls ι} {l : List (ℕ × α)} {n : ℕ} {waits : Option (ConnId × ℕ)}

theorem mem_of_lookup {a : α} (h : l.lookup n = some a) : (n, a) ∈ l := by
  induction l with
  | nil => cases h
  | cons p l ih =>
    rw [lookup_cons] at h
    by_cases hn : n == p.1
    · simp only [hn] at h
      cases h
      rw [beq_iff_eq] at hn
      rw [hn]
      exact mem_cons_self
    · simp only [hn] at h
      exact mem_cons_of_mem _ (ih h)

theorem notMem_of_lookup (h : l.lookup n = none) (a : α) : (n, a) ∉ l := by
  intro ha
  rw [lookup_eq_none_iff] at h
  simpa using h _ ha

theorem World.answer_eq_some {conn : ConnId} {reply : ServerMessage}
    (h : w.answer waits = some (conn, reply)) :
    ∃ rid, waits = some (conn, rid) ∧ (rid, reply) ∈ (w.conns conn).answered := by
  obtain ⟨⟨k, rid⟩, hw, h⟩ := bind_eq_some_iff.mp h
  obtain ⟨r, hr, h⟩ := map_eq_some_iff.mp h
  cases h
  exact ⟨rid, hw, mem_of_lookup hr⟩

theorem World.abandoned_eq_true (h : w.abandoned waits = true) :
    ∃ conn rid, waits = some (conn, rid) ∧ (w.conns conn).closed = true ∧
      ∀ reply, (rid, reply) ∉ (w.conns conn).answered := by
  obtain ⟨⟨conn, rid⟩, hw, h⟩ := (any_eq_true _ _).mp h
  rw [Bool.and_eq_true, isNone_iff_eq_none] at h
  exact ⟨conn, rid, hw, h.1, notMem_of_lookup h.2⟩

variable [DecidableEq ι]

/-- A running engine goes on, or its process dies. -/
theorem stepEngine_cases (hi : h.node = some i) (hs : w.stepEngine c i e pc h = some w') :
    (∃ w₁ t, Resumed c w i e pc h w₁ t ∧ w' = w₁.install i t) ∨
    h = .crash i ∧ w' = w.setNode i
      { w.nodes i with process := .off, file := (w.nodes i).disk } := by
  cases h with
  | call j call =>
    cases hi
    simp only [World.stepEngine] at hs
    split_ifs at hs with hidle
    exact .inl ⟨_, _, .call hidle, (some.inj hs).symm⟩
  | contactLink =>
    cases hi
    simp only [World.stepEngine] at hs
    split_ifs at hs with hidle
    exact .inl ⟨_, _, .contactLink hidle, (some.inj hs).symm⟩
  | attachStore =>
    cases hi
    simp only [World.stepEngine] at hs
    split_ifs at hs with hidle
    exact .inl ⟨_, _, .attachStore hidle, (some.inj hs).symm⟩
  | push =>
    cases hi
    simp only [World.stepEngine] at hs
    split at hs
    · rename_i r p rest hr
      exact .inl ⟨_, _, .push rfl hr, (some.inj hs).symm⟩
    · cases hs
  | disconnected =>
    cases hi
    simp only [World.stepEngine] at hs
    split at hs
    · rename_i r hr
      split_ifs at hs with hc
      exact .inl ⟨_, _, .disconnected rfl hr hc, (some.inj hs).symm⟩
    · cases hs
  | replied =>
    cases hi
    obtain ⟨⟨conn, reply⟩, ha, hs⟩ := bind_eq_some_iff.mp hs
    obtain ⟨t, ht, rfl⟩ := map_eq_some_iff.mp hs
    obtain ⟨rid, hw, hm⟩ := answer_eq_some ha
    cases pc with
    | acking =>
      cases hw
      cases ht
      exact .inl ⟨_, _, .acked rfl hm, rfl⟩
    | sending =>
      cases hw
      cases ht
      exact .inl ⟨_, _, .sent rfl hm, rfl⟩
    | subscribing =>
      cases hw
      cases ht
      exact .inl ⟨_, _, .subscribed rfl hm, rfl⟩
    | _ => cases hw
  | lost =>
    cases hi
    simp only [World.stepEngine] at hs
    split_ifs at hs with hab
    obtain ⟨t, ht, rfl⟩ := map_eq_some_iff.mp hs
    obtain ⟨conn, rid, hw, hc, hm⟩ := abandoned_eq_true hab
    cases pc with
    | acking =>
      cases hw
      cases ht
      exact .inl ⟨_, _, .ackLost rfl hc, rfl⟩
    | sending =>
      cases hw
      cases ht
      exact .inl ⟨_, _, .sendLost rfl hc hm, rfl⟩
    | subscribing =>
      cases hw
      cases ht
      exact .inl ⟨_, _, .subscribeLost rfl hc, rfl⟩
    | _ => cases hw
  | connected =>
    cases hi
    simp only [World.stepEngine] at hs
    split at hs
    · exact .inl ⟨_, _, .connected rfl, (some.inj hs).symm⟩
    · cases hs
  | connectFailed =>
    cases hi
    simp only [World.stepEngine] at hs
    split at hs
    · exact .inl ⟨_, _, .connectFailed rfl, (some.inj hs).symm⟩
    · cases hs
  | drop =>
    cases hi
    simp only [World.stepEngine] at hs
    split_ifs at hs with hd
    exact .inl ⟨_, _, .drop hd, (some.inj hs).symm⟩
  | crash =>
    cases hi
    exact .inr ⟨rfl, (some.inj hs).symm⟩
  | _ => cases hs

end Inversion

section Stretch
variable [DecidableEq ι] {w w₁ : World mls ι} {t : Turn mls} {R : Regime mls} {rs : List Result}
  {q : QueueId} {s : Sending} {rid : ℕ}

/-- What a regime needs to know of the world to hold across the stretches of an engine whose
pushes come from the queue `q`. -/
structure Serves (c : Crypto) (R : Regime mls) (w : World mls ι) (i : ι) (e : ChatEngine mls)
    (pc : Pc) (rs : List Result) (q : QueueId) (h : Happening mls ι) : Prop where
  call : ∀ call d, h = .call i call d → R.permits call
  link : ∀ d, h = .contactLink i d →
    R.rest (e.contactLink d.rand).1 (rs ++ [.link (e.contactLink d.rand).2])
  attach : ∀ d, h = .attachStore i d → R.rest (e.attachStore d.diskOk (w.nodes i).disk).1
    (rs ++ [.attached (e.attachStore d.diskOk (w.nodes i).disk).2])
  push : ∀ p rest, (w.conns e.relay).received = p :: rest →
    p.1 = q ∧ (p.2.messageId ∉ e.seen → R.next e p.2)
  invited : ∀ p rest d, h = .push i d → pc = .receiving .awaitPairing →
    (w.conns e.relay).received = p :: rest → R.invites e p.2
  disk : ∀ d, h.draw = some d → R.writes d.diskOk
  reply : ∀ s rid reply, pc = .sending s rid → (rid, reply) ∈ (w.conns e.relay).answered →
    R.granted e s reply
  lost : ∀ s rid, pc = .sending s rid → (w.conns e.relay).closed = true →
    (∀ reply, (rid, reply) ∉ (w.conns e.relay).answered) → R.stalled e rs s
  moved : ∀ k conn rid d, h = .replied i d → pc = .subscribing k conn rid →
    R.waits { e with relay := conn } rs k

section
variable (hR : R.Closed c)
include hR

/-- Every stretch but the first on a new connection ends by the rules. -/
theorem meets_resumed (hh : R.holds e rs pc) (hw : Serves c R w i e pc rs q h)
    (hr : Resumed c w i e pc h w₁ t) (hc : h ≠ .connected i) :
    ∃ conn, Meets c R (w.link conn) q rs t ∧
      (conn = e.relay ∨ ∃ k rid d, h = .replied i d ∧ pc = .subscribing k conn rid) := by
  cases hr with
  | @call call d idle =>
    subst idle
    exact ⟨_, meets_start hR (hw.disk d rfl) (hw.call call d rfl) hh, .inl rfl⟩
  | @contactLink d => exact ⟨_, .finished (hw.link d rfl), .inl rfl⟩
  | @attachStore d => exact ⟨_, .finished (hw.attach d rfl), .inl rfl⟩
  | @push r p rest d receiving received =>
    subst receiving
    obtain ⟨rfl, hn⟩ := hw.push p rest received
    refine ⟨_, meets_onPush hR (hw.disk d rfl) hh.2 hn (fun hr => ?_) hh.1, .inl rfl⟩
    exact hw.invited p rest d rfl (by rw [hr]) received
  | disconnected receiving =>
    subst receiving
    exact ⟨_, meets_onDisconnected hR hh.2 hh.1, .inl rfl⟩
  | acked acking =>
    subst acking
    exact ⟨_, meets_onAcked hR hh.2 hh.1 _, .inl rfl⟩
  | @sent s rid reply d sending answered =>
    subst sending
    exact ⟨_, meets_onSent hR (hw.disk d rfl) hh (hw.reply _ _ _ rfl answered), .inl rfl⟩
  | subscribed subscribing =>
    subst subscribing
    exact ⟨_, meets_onSubscribed hR hh (hw.moved _ _ _ _ rfl rfl) _, .inr ⟨_, _, _, rfl, rfl⟩⟩
  | ackLost acking =>
    subst acking
    exact ⟨_, meets_afterAck hR hh.2 hh.1, .inl rfl⟩
  | sendLost sending closed unanswered =>
    subst sending
    exact ⟨e.relay, .reconnecting (hw.lost _ _ rfl closed unanswered), .inl rfl⟩
  | subscribeLost subscribing =>
    subst subscribing
    exact ⟨e.relay, meets_gaveUp hR hh _, .inl rfl⟩
  | connected => exact absurd rfl hc
  | connectFailed connecting =>
    subst connecting
    exact ⟨e.relay, meets_onConnectFailed hR hh _, .inl rfl⟩
  | drop droppable => exact ⟨e.relay, .dropped (Regime.rest_of_droppable hh droppable), .inl rfl⟩

theorem holds_resumed (hh : R.holds e rs pc) (hw : Serves c R w i e pc rs q h)
    (hr : Resumed c w i e pc h w₁ t) : R.holds t.engine (rs ++ t.result.toList) t.pc := by
  by_cases hc : h = .connected i
  · subst hc
    cases hr with
    | connected connecting =>
      subst connecting
      change R.waits e (rs ++ []) _
      rw [append_nil]
      exact hh
  · obtain ⟨conn, hm, -⟩ := meets_resumed hR hh hw hr hc
    exact hm.holds

theorem stalled_resumed (hh : R.holds e rs pc) (hw : Serves c R w i e pc rs q h)
    (hr : Resumed c w i e pc h w₁ t) (hpc : t.pc = .sending s rid) : R.stalled t.engine rs s := by
  by_cases hc : h = .connected i
  · subst hc
    cases hr
    cases hpc
  · obtain ⟨conn, hm, -⟩ := meets_resumed hR hh hw hr hc
    cases hm with
    | sending h =>
      cases hpc
      exact h
    | _ => cases hpc

theorem frame_meets (hh : R.holds e rs pc) (hw : Serves c R w i e pc rs q h)
    (hr : Resumed c w i e pc h w₁ t) {k : ConnId} {msg : ClientMessage}
    (hf : t.frame = some (k, msg)) :
    (∃ s, msg = s.request c ∧ R.stalled t.engine rs s) ∨ (∃ q id, msg = .ack q id) ∨
      ∃ ids, msg = .subscribe ids := by
  by_cases hc : h = .connected i
  · subst hc
    cases hr
    cases hf
    exact .inr (.inr ⟨_, rfl⟩)
  · obtain ⟨conn, hm, -⟩ := meets_resumed hR hh hw hr hc
    cases hm with
    | acking =>
      cases hf
      exact .inr (.inl ⟨_, _, rfl⟩)
    | sending h =>
      cases hf
      exact .inl ⟨_, rfl, h⟩
    | _ => cases hf

end

/-- The engine as a stretch finds it: a subscription that succeeded has switched its connection. -/
inductive Found (e : ChatEngine mls) (pc : Pc) : ChatEngine mls → Prop where
  | same : Found e pc e
  | switched {k conn rid} (subscribing : pc = .subscribing k conn rid) :
    Found e pc { e with relay := conn }

/-- No stretch changes an engine's mailbox or forgets what it has seen, and what it sends is a
group send or the ack of something seen. -/
theorem kept_resumed (hq : ∀ p rest, (w.conns e.relay).received = p :: rest → p.1 = q)
    (hr : Resumed c w i e pc h w₁ t) (hc : h ≠ .connected i) :
    ∃ e₁, Found e pc e₁ ∧ Meets c (Regime.kept e₁) (w.link e₁.relay) q [] t := by
  have hrefl : ∀ {e : ChatEngine mls}, (Regime.kept e).holds e [] pc := fun {e} =>
    Regime.holds_of_all (ChatEngine.Kept.refl e) (by rintro (_ | _ | _) <;> trivial)
      (fun _ => ChatEngine.Kept.refl e) (fun _ => ChatEngine.Kept.refl e) pc
  by_cases hsub : ∃ k conn rid d, h = .replied i d ∧ pc = .subscribing k conn rid
  · obtain ⟨k, conn, rid, d, rfl, rfl⟩ := hsub
    cases hr with
    | acked acking => cases acking
    | sent sending => cases sending
    | @subscribed k conn rid reply d subscribing =>
      cases subscribing
      cases reply with
      | ok => exact ⟨_, .switched rfl, meets_afterReconnect (Regime.kept_closed c _) hrefl⟩
      | error | powChallenge | queueCreated =>
        exact ⟨e, .same, meets_gaveUp (Regime.kept_closed c _) hrefl _⟩
  · have hs : Serves c (Regime.kept e) w i e pc [] q h :=
      { call := fun _ _ _ => trivial
        link := by
          intro d _
          rw [ChatEngine.contactLink_fst]
          exact ⟨rfl, rfl, Finset.Subset.refl _, prefix_rfl⟩
        attach := by
          intro d _
          have hs : e.Kept { e with store := some (w.nodes i).disk } :=
            ⟨rfl, rfl, Finset.Subset.refl _, prefix_rfl⟩
          exact hs.persist _ _
        push := fun p rest hp => ⟨hq p rest hp, fun _ => trivial⟩
        invited := fun _ _ _ _ _ _ => trivial
        disk := fun _ _ => trivial
        reply := fun _ _ _ _ _ => trivial
        lost := fun _ _ _ _ _ => ChatEngine.Kept.refl e
        moved := fun k conn rid d hd hp => absurd ⟨k, conn, rid, d, hd, hp⟩ hsub }
    obtain ⟨conn, hm, hconn⟩ := meets_resumed (Regime.kept_closed c e) hrefl hs hr hc
    refine ⟨e, .same, ?_⟩
    rcases hconn with rfl | ⟨k, rid, d, hd, hpc⟩
    · exact hm
    · exact absurd ⟨k, conn, rid, d, hd, hpc⟩ hsub

theorem exists_addressee (l : List (QueueId × Envelope)) : ∃ q, ∀ p rest, l = p :: rest →
    p.1 = q := by
  rcases l with _ | ⟨p, rest⟩
  · exact ⟨.fill 0, by rintro p rest ⟨⟩⟩
  · exact ⟨p.1, by rintro _ _ ⟨⟩; rfl⟩

theorem request_resumed (hr : Resumed c w i e pc h w₁ t) (hpc : t.pc = .sending s rid) :
    t.frame = some (t.engine.relay, s.request c) ∧
      rid = (w.conns t.engine.relay).nextCall ∧ (w.conns t.engine.relay).closed = false := by
  by_cases hc : h = .connected i
  · subst hc
    cases hr
    cases hpc
  · obtain ⟨q, hq⟩ := exists_addressee (w.conns e.relay).received
    obtain ⟨e₁, -, hm⟩ := kept_resumed hq hr hc
    cases hm with
    | sending h hout up =>
      cases hpc
      have hrelay := ChatEngine.Kept.relay h
      refine ⟨rfl, by rw [hrelay]; rfl, ?_⟩
      change (!(w.conns e₁.relay).closed && _) = true at up
      rw [Bool.and_eq_true] at up
      rw [hrelay]
      simpa using up.1
    | _ => cases hpc

end Stretch

/-- The connections a process holds. -/
def Process.Uses {mls : OpenMls} : Process mls → ConnId → Prop
  | .off, _ => False
  | .starting stage, k => ∃ rid, stage.awaits = some (k, rid)
  | .running e pc, k => k = e.relay ∨ ∃ caller rid, pc = .subscribing caller k rid

section Booting
variable [DecidableEq ι] {w : World mls ι} {b : Boot mls}

/-- A constructor goes on, on its connection or a new one, or its process dies. -/
theorem stepBoot_cases (hi : h.node = some i) (hs : w.stepBoot c i b h = some w') :
    (∃ bt d k rid reply, b.awaits = some (k, rid) ∧ (rid, reply) ∈ (w.conns k).answered ∧
      b.onReply c (w.link k) d reply = some bt ∧ w' = w.installBoot i bt) ∨
    (∃ o, b = .connecting o ∧ w' = (w.dial (some i)).installBoot i
      (Boot.onConnected ((w.dial (some i)).link w.nextConn) o w.nextConn)) ∨
    w' = w.setNode i { w.nodes i with process := .off } := by
  cases h with
  | connected =>
    simp only [World.stepBoot] at hs
    split at hs
    · cases hs
      exact .inr (.inl ⟨_, rfl, rfl⟩)
    · cases hs
  | connectFailed =>
    simp only [World.stepBoot] at hs
    split at hs
    · cases hs
      exact .inr (.inr rfl)
    · cases hs
  | replied j d =>
    obtain ⟨⟨conn, reply⟩, ha, hs⟩ := bind_eq_some_iff.mp hs
    obtain ⟨bt, ht, rfl⟩ := map_eq_some_iff.mp hs
    obtain ⟨rid, hw, hm⟩ := answer_eq_some ha
    exact .inl ⟨bt, d, conn, rid, reply, hw, hm, ht, rfl⟩
  | lost =>
    simp only [World.stepBoot] at hs
    split_ifs at hs
    cases hs
    exact .inr (.inr rfl)
  | crash =>
    cases hs
    exact .inr (.inr rfl)
  | _ => cases hs

end Booting

/-- The network's and the relay's own moves. -/
inductive Moved {mls : OpenMls} {ι : Type} (c : Crypto) (w : World mls ι) :
    Happening mls ι → World mls ι → Prop where
  | served {k amb rid msg rest t reply} (serving : (w.conns k).serving = true)
      (up : (w.conns k).up = (rid, msg) :: rest)
      (handled : w.service.relay.handle c amb msg (some k) = (t, .answered reply)) :
    Moved c w (.serve k amb) { w.setConn k { w.conns k with
      up := rest
      replies := (w.conns k).replies ++ [(rid, reply)] } with
      service := ⟨t, w.service.log ++ [(msg, reply)]⟩ }
  | died {k amb rid msg rest t} (serving : (w.conns k).serving = true)
      (up : (w.conns k).up = (rid, msg) :: rest)
      (handled : w.service.relay.handle c amb msg (some k) = (t, .panicked)) :
    Moved c w (.serve k amb) { w.setConn k { w.conns k with up := rest, serving := false } with
      service := ⟨t, w.service.log⟩ }
  | replied {k r rest} (closed : (w.conns k).closed = false)
      (replies : (w.conns k).replies = r :: rest) :
    Moved c w (.reply k) (w.setConn k { w.conns k with
      replies := rest
      answered := (w.conns k).answered ++ [r] })
  | delivered {k q id envelope rest} (closed : (w.conns k).closed = false)
      (queue : (w.service.relay.channels k).queue = (q, id, envelope) :: rest) :
    Moved c w (.deliver k) { w.setConn k { w.conns k with
      received := (w.conns k).received ++ [(q, envelope)] } with
      service := { w.service with relay := w.service.relay.receivePush k } }
  | severed {k} : Moved c w (.sever k) (w.setConn k { w.conns k with closed := true })
  | broken {k} : Moved c w (.breakWriter k) (w.setConn k { w.conns k with writable := false })
  | hungUp {k} : Moved c w (.hangUp k)
      { w with service := { w.service with relay := w.service.relay.hangUp k } }
  | dialled : Moved c w .dial (w.dial none)
  | outside {k msg} (opened : k < w.nextConn) (owner : (w.conns k).owner = none) :
    Moved c w (.outside k msg) (w.setConn k ((w.conns k).write msg))
  | restarted {now db t} (file : w.service.relay.inner.db = some db)
      (reopened : RelayState.reopen now db = some t) :
    Moved c w (.restart now none) { w with
      service := { w.service with relay := t }
      conns := fun k => { w.conns k with serving := false } }
  | restartedMidway {now k amb rid msg rest mid m db t} (serving : (w.conns k).serving = true)
      (up : (w.conns k).up = (rid, msg) :: rest)
      (inFlight : w.service.relay.midway c amb msg = some (mid, m))
      (file : mid.inner.db = some db) (reopened : RelayState.reopen now db = some t) :
    Moved c w (.restart now (some (k, amb))) { w with
      service := ⟨t, w.service.log ++ [(msg, m.reply)]⟩
      conns := fun k => { w.conns k with serving := false } }

theorem moved_of_stepNetwork {w w' : World mls ι} {h : Happening mls ι}
    (hs : w.stepNetwork c h = some w') : Moved c w h w' := by
  cases h with
  | serve =>
    simp only [World.stepNetwork] at hs
    split at hs
    · rename_i rid msg rest hserving hup
      unfold World.serve at hs
      split at hs
      · rename_i t reply hh
        cases hs
        exact .served hserving hup hh
      · rename_i t hh
        cases hs
        exact .died hserving hup hh
      · cases hs
    · cases hs
  | reply =>
    simp only [World.stepNetwork] at hs
    split at hs
    · rename_i r rest hc hr
      cases hs
      exact .replied hc hr
    · cases hs
  | deliver =>
    simp only [World.stepNetwork] at hs
    split at hs
    · rename_i q id envelope rest hc hq
      cases hs
      exact .delivered hc hq
    · cases hs
  | sever =>
    cases hs
    exact .severed
  | breakWriter =>
    cases hs
    exact .broken
  | hangUp =>
    cases hs
    exact .hungUp
  | dial =>
    cases hs
    exact .dialled
  | outside =>
    simp only [World.stepNetwork] at hs
    split_ifs at hs with ho
    cases hs
    exact .outside ho.1 (isNone_iff_eq_none.mp ho.2)
  | restart now inFlight =>
    cases inFlight with
    | none =>
      obtain ⟨service, hservice, rfl⟩ := map_eq_some_iff.mp hs
      obtain ⟨db, hdb, hr⟩ := bind_eq_some_iff.mp hservice
      obtain ⟨u, hu, rfl⟩ := map_eq_some_iff.mp hr
      exact .restarted hdb hu
    | some p =>
      simp only [World.stepNetwork] at hs
      split at hs
      · rename_i rid msg rest hserving hup
        obtain ⟨service, hservice, rfl⟩ := map_eq_some_iff.mp hs
        obtain ⟨⟨mid, m⟩, hm, hr⟩ := bind_eq_some_iff.mp hservice
        obtain ⟨db, hdb, hr⟩ := bind_eq_some_iff.mp hr
        obtain ⟨u, hu, rfl⟩ := map_eq_some_iff.mp hr
        exact .restartedMidway hserving hup hm hdb hu
      · cases hs
  | _ => cases hs

end Rosette.Network
