import Rosette.Engine.RelayClient
import Rosette.Network.Steps
import Rosette.Relay.Push

/-! # Order among connections

What every event of every world keeps: the relay's record explains its ledger, a
process holds only connections it opened, a connection not yet opened has no trace
anywhere, and the number of a call is not reused.
-/
namespace Rosette.Network
open Foundation Proto Rosette.Core Relay Engine List Function World

variable {mls : OpenMls} {ι : Type} {c : Crypto} {rid : ℕ} {msg : ClientMessage}
  {w w' w₁ : World mls ι} {k : ConnId} {i : ι} {e : ChatEngine mls} {pc : Pc} {h : Happening mls ι}
  {t : Turn mls} {f : ℕ × ClientMessage} {q : QueueId}

/-- The numbers of the requests under way and of the replies to requests. -/
def Conn.rids (k : Conn ι) : List ℕ :=
  k.up.map Prod.fst ++ (k.replies.map Prod.fst ++ k.answered.map Prod.fst)

def Conn.requestIds (k : Conn ι) : List RequestId := k.rids.map UInt64.ofNat

/-- Numbers have been given out in order, and each is that of one request or of one reply. -/
structure Conn.Numbered (k : Conn ι) : Prop where
  below : ∀ n ∈ k.rids, n < k.nextCall
  nodup : k.rids.Nodup

namespace Conn.Numbered
variable {k k' : Conn ι}

theorem of_subperm (h : k.Numbered) (hs : List.Subperm k'.rids k.rids)
    (hn : k'.nextCall = k.nextCall) : k'.Numbered := by
  refine ⟨fun n hm => hn ▸ h.below n (hs.subset hm), ?_⟩
  obtain ⟨l, hp, hl⟩ := hs
  exact hp.nodup_iff.mp (h.nodup.sublist hl)

theorem write (h : k.Numbered) (msg : ClientMessage) : (k.write msg).Numbered := by
  have hp : (k.write msg).rids.Perm (k.nextCall :: k.rids) := by
    rw [perm_iff_count]
    simp only [rids, Conn.write, map_append, map_cons, map_nil, count_append, count_cons, count_nil]
    omega
  refine ⟨fun n hn => ?_, hp.nodup_iff.mpr (nodup_cons.mpr ⟨fun hm => ?_, h.nodup⟩)⟩
  · rcases mem_cons.mp (hp.subset hn) with rfl | hn
    · exact Nat.lt_succ_self _
    · exact Nat.lt_succ_of_lt (h.below n hn)
  · exact absurd (h.below _ hm) (lt_irrefl _)

/-- Up to the wrap of the counter no two of them carry one id. -/
theorem requestIds_nodup (h : k.Numbered) (hk : k.nextCall ≤ 2 ^ 64) : k.requestIds.Nodup := by
  refine h.nodup.map_on fun m hm n hn heq => ?_
  have hmod := congrArg UInt64.toNat heq
  rwa [UInt64.toNat_ofNat', UInt64.toNat_ofNat', Nat.mod_eq_of_lt ((h.below m hm).trans_le hk),
    Nat.mod_eq_of_lt ((h.below n hn).trans_le hk)] at hmod

theorem unanswered (h : k.Numbered) (hm : (rid, msg) ∈ k.up) (reply : ServerMessage) :
    (rid, reply) ∉ k.replies ∧ (rid, reply) ∉ k.answered := by
  have hd := disjoint_of_nodup_append h.nodup
  constructor
  · exact fun hr => hd (mem_map_of_mem hm)
      (mem_append_left _ (mem_map_of_mem hr))
  · exact fun hr => hd (mem_map_of_mem hm)
      (mem_append_right _ (mem_map_of_mem hr))

theorem head_unique (h : k.Numbered) {msg' : ClientMessage} {rest : List (ℕ × ClientMessage)}
    (hu : k.up = (rid, msg) :: rest) : (rid, msg') ∉ rest := by
  have hd := (nodup_append.mp h.nodup).1
  rw [hu, map_cons, nodup_cons] at hd
  intro hm
  exact hd.1 (mem_map.mpr ⟨_, hm, rfl⟩)

end Conn.Numbered

structure Orderly (c : Crypto) (w : World mls ι) : Prop where
  explains : Explains c w.service.log w.service.relay.ledger
  consistent : Consistent w.service.relay
  owned : ∀ j k, (w.nodes j).process.Uses k → (w.conns k).owner = some j ∧ k < w.nextConn
  unopened : ∀ k, w.nextConn ≤ k → (w.conns k).up = [] ∧
    (w.service.relay.channels k).queue = [] ∧ ∀ q, k ∉ w.service.relay.inner.subscribers q
  numbered : ∀ k, (w.conns k).Numbered

namespace Orderly

theorem ne_nextConn (h : Orderly c w) {j : ι} (hk : (w.nodes j).process.Uses k) :
    k ≠ w.nextConn := ne_of_lt (h.owned j k hk).2

/-- A connection keeps its opener, and only an opened one carries requests. -/
theorem setConn (h : Orderly c w) (conn : Conn ι) (ho : conn.owner = (w.conns k).owner)
    (hn : conn.Numbered) (hu : w.nextConn ≤ k → conn.up = []) : Orderly c (w.setConn k conn) where
  explains := h.explains
  consistent := h.consistent
  owned j k' hk' := by
    by_cases hk : k' = k
    · subst hk
      rw [setConn_self, ho]
      exact h.owned j k' hk'
    · rw [setConn_of_ne w hk]
      exact h.owned j k' hk'
  unopened k' hk' := by
    by_cases hk : k' = k
    · subst hk
      rw [setConn_self]
      exact ⟨hu hk', (h.unopened k' hk').2⟩
    · rw [setConn_of_ne w hk]
      exact h.unopened k' hk'
  numbered k' := by
    by_cases hk : k' = k
    · subst hk
      rw [setConn_self]
      exact hn
    · rw [setConn_of_ne w hk]
      exact h.numbered k'

theorem write (h : Orderly c w) (hk : k < w.nextConn) (msg : ClientMessage) :
    Orderly c (w.setConn k ((w.conns k).write msg)) :=
  h.setConn _ rfl ((h.numbered k).write msg) (fun hle => absurd hk (Nat.not_lt.mpr hle))

theorem send (h : Orderly c w) {f : Option (ConnId × ClientMessage)}
    (hf : ∀ k msg, f = some (k, msg) → k < w.nextConn) : Orderly c (w.send f) := by
  rcases f with _ | ⟨k, msg⟩
  · exact h
  · exact h.write (hf k msg rfl) msg

theorem dial (h : Orderly c w) (owner : Option ι) : Orderly c (w.dial owner) where
  explains := h.explains
  consistent := h.consistent
  owned j k hk := by
    change (update w.conns w.nextConn _ k).owner = _ ∧ k < w.nextConn + 1
    rw [update_of_ne (h.ne_nextConn hk)]
    exact ⟨(h.owned j k hk).1, Nat.lt_succ_of_lt (h.owned j k hk).2⟩
  unopened k hk := by
    have hlt : w.nextConn < k := hk
    change (update w.conns w.nextConn _ k).up = [] ∧ _
    rw [update_of_ne (ne_of_gt hlt)]
    exact h.unopened k hlt.le
  numbered k := by
    change (update w.conns w.nextConn _ k).Numbered
    by_cases hk : k = w.nextConn
    · subst hk
      rw [update_self]
      exact ⟨by rintro n ⟨⟩, nodup_nil⟩
    · rw [update_of_ne hk]
      exact h.numbered k

theorem setNode [DecidableEq ι] (h : Orderly c w) {n : Node mls}
    (hn : ∀ k, n.process.Uses k → (w.conns k).owner = some i ∧ k < w.nextConn) :
    Orderly c (w.setNode i n) where
  explains := h.explains
  consistent := h.consistent
  owned j k hk := by
    change ((update w.nodes i n) j).process.Uses k at hk
    by_cases hj : j = i
    · subst hj
      rw [update_self] at hk
      exact hn k hk
    · rw [update_of_ne hj] at hk
      exact h.owned j k hk
  unopened := h.unopened
  numbered := h.numbered

end Orderly

section Stretch
variable [DecidableEq ι]

section
variable (hr : Resumed c w i e pc h w₁ t)
include hr

theorem before_resumed : w₁ = w ∨
    (∃ d p rest, h = .push i d ∧ (w.conns e.relay).received = p :: rest ∧
      w₁ = w.setConn e.relay { w.conns e.relay with received := rest }) ∨
    h = .connected i ∧ w₁ = w.dial (some i) := by
  cases hr with
  | push receiving received => exact .inr (.inl ⟨_, _, _, rfl, received, rfl⟩)
  | connected => exact .inr (.inr ⟨rfl, rfl⟩)
  | _ => exact .inl rfl

theorem nodes_resumed : w₁.nodes = w.nodes := by
  rcases before_resumed hr with rfl | ⟨d, p, rest, -, -, rfl⟩ | ⟨-, rfl⟩ <;> rfl

theorem service_resumed :
    (w₁.install i t).service = w.service := by
  rw [install_service]
  rcases before_resumed hr with rfl | ⟨d, p, rest, -, -, rfl⟩ | ⟨-, rfl⟩ <;> rfl

theorem before_resumed_conn (hc : h ≠ .connected i) (k : ConnId) :
    ∃ received, w₁.conns k = { w.conns k with received := received } := by
  rcases before_resumed hr with rfl | ⟨d, p, rest, -, -, rfl⟩ | ⟨hh, -⟩
  · exact ⟨_, rfl⟩
  · by_cases hk : k = e.relay
    · subst hk
      exact ⟨rest, w.setConn_self _ _⟩
    · exact ⟨_, w.setConn_of_ne hk _⟩
  · exact absurd hh hc

/-- What is under way after a stretch was under way before it, or is its request. -/
theorem up_resumed (hf : f ∈ ((w₁.install i t).conns k).up) :
    f ∈ (w.conns k).up ∨ t.frame = some (k, f.2) ∧ f.1 = (w₁.conns k).nextCall := by
  have hbefore : ∀ g, g ∈ (w₁.conns k).up → g ∈ (w.conns k).up := by
    intro g hg
    by_cases hc : h = .connected i
    · subst hc
      cases hr
      by_cases hk : k = w.nextConn
      · subst hk
        rw [dial_self] at hg
        cases hg
      · rwa [dial_of_ne w hk] at hg
    · obtain ⟨received, hconn⟩ := before_resumed_conn hr hc k
      rw [hconn] at hg
      exact hg
  by_cases hframe : ∃ msg, t.frame = some (k, msg)
  · obtain ⟨msg, hframe⟩ := hframe
    rw [install_conns, hframe, send_conns_self] at hf
    rcases mem_append.mp hf with hf | hf
    · exact .inl (hbefore f hf)
    · rw [mem_singleton.mp hf]
      exact .inr ⟨hframe, rfl⟩
  · rw [install_conns, send_conns_of_ne w₁ (fun msg hm => hframe ⟨msg, hm⟩)] at hf
    exact .inl (hbefore f hf)

/-- After a stretch an engine holds a connection it held before, or one it has just opened. -/
theorem uses_resumed (hk : (Process.running t.engine t.pc).Uses k) :
    (Process.running e pc).Uses k ∨ h = .connected i ∧ k = w.nextConn := by
  by_cases hc : h = .connected i
  · subst hc
    cases hr
    rcases hk with rfl | ⟨caller, rid, hpc⟩
    · exact .inl (.inl rfl)
    · cases hpc
      exact .inr ⟨rfl, rfl⟩
  · obtain ⟨q, hq⟩ := exists_addressee (w.conns e.relay).received
    obtain ⟨e₁, hf, hm⟩ := kept_resumed hq hr hc
    have hpc : ∀ caller rid, t.pc ≠ .subscribing caller k rid := by cases hm <;> rintro _ _ ⟨⟩
    left
    rcases hk with rfl | ⟨caller, rid, ht⟩
    · cases hf with
      | same => exact .inl hm.kept.relay
      | @switched caller conn rid subscribing =>
        rw [show t.engine.relay = conn from hm.kept.relay]
        exact .inr ⟨caller, rid, subscribing⟩
    · exact absurd ht (hpc caller rid)

theorem frame_resumed (hf : t.frame = some (k, msg)) :
    (Process.running t.engine t.pc).Uses k := by
  by_cases hc : h = .connected i
  · subst hc
    cases hr
    cases hf
    exact .inr ⟨_, _, rfl⟩
  · obtain ⟨q, hq⟩ := exists_addressee (w.conns e.relay).received
    obtain ⟨e₁, -, hm⟩ := kept_resumed hq hr hc
    cases hm with
    | acking | sending =>
      cases hf
      exact .inl rfl
    | _ => cases hf

end

/-- What a stretch leaves of its engine, and what it can send. -/
theorem resumed_sends (hq : ∀ p rest, (w.conns e.relay).received = p :: rest → p.1 = q)
    (hr : Resumed c w i e pc h w₁ t) :
    t.engine.mailboxQid = e.mailboxQid ∧ e.seen ⊆ t.engine.seen ∧
    ∀ k msg, t.frame = some (k, msg) → (∃ id ∈ t.engine.seen, msg = .ack q id) ∨
      (∃ s : Sending, msg = s.request c) ∨
      h = .connected i ∧ k = w.nextConn ∧ msg = .subscribe [e.mailboxQid] := by
  by_cases hc : h = .connected i
  · subst hc
    cases hr
    refine ⟨rfl, Finset.Subset.refl _, fun k msg hf => .inr (.inr ?_)⟩
    cases hf
    exact ⟨rfl, rfl, rfl⟩
  · obtain ⟨e₁, hfound, hm⟩ := kept_resumed hq hr hc
    have hkept := hm.kept
    have hsame : e₁.mailboxQid = e.mailboxQid ∧ e₁.seen = e.seen := by
      cases hfound <;> exact ⟨rfl, rfl⟩
    refine ⟨hkept.mailboxQid.trans hsame.1, hsame.2 ▸ hkept.seen, fun k msg hf => ?_⟩
    cases hm with
    | acking h hr up id_mem =>
      cases hf
      exact .inl ⟨_, id_mem, rfl⟩
    | sending =>
      cases hf
      exact .inr (.inl ⟨_, rfl⟩)
    | _ => cases hf

end Stretch

theorem launch_awaits {file : Store mls} {launch : Launch mls} {stage : Boot mls}
    (h : launch.boot file = .ok stage) : stage.awaits = none := by
  cases launch with
  | connect => cases h; rfl
  | pair =>
    simp only [Launch.boot, pairWithLinkUsing] at h
    repeat' split at h
    all_goals cases h
    rfl
  | resume =>
    simp only [Launch.boot, Engine.resume] at h
    repeat' split at h
    all_goals cases h
    rfl

namespace Orderly

theorem opened (ho : Orderly c w) (hf : f ∈ (w.conns k).up) : k < w.nextConn := by
  by_contra hk
  simp [(ho.unopened k (Nat.le_of_not_lt hk)).1] at hf

theorem setService (ho : Orderly c w) {service : Service} (hs : Stepped c w.service service)
    (hu : ∀ k, w.nextConn ≤ k → (service.relay.channels k).queue = [] ∧
      ∀ q, k ∉ service.relay.inner.subscribers q) : Orderly c { w with service := service } where
  explains := (step_explains ho.explains ho.consistent hs).1
  consistent := (step_explains ho.explains ho.consistent hs).2
  owned := ho.owned
  unopened k hk := ⟨(ho.unopened k hk).1, hu k hk⟩
  numbered := ho.numbered

theorem unopened_told (ho : Orderly c w) {k' : ConnId} {t : RelayState} {news : List Envelope}
    (hk' : w.nextConn ≤ k') (ht : RelayState.Told w.service.relay t k' q news) :
    (t.channels k').queue = [] ∧ ∀ q, k' ∉ t.inner.subscribers q := by
  obtain ⟨-, hq, hsub⟩ := ho.unopened k' hk'
  obtain ⟨hq', hsub'⟩ := ht.idle hsub
  exact ⟨hq'.trans hq, hsub'⟩

theorem moved (ho : Orderly c w) (hm : Moved c w h w') : Orderly c w' := by
  cases hm with
  | @served k amb rid msg rest t reply serving up handled =>
    have hk : k < w.nextConn := ho.opened (f := (rid, msg)) (by rw [up]; exact mem_cons_self)
    have hnum := ho.numbered k
    have hs : Stepped c w.service ⟨t, w.service.log ++ [(msg, reply)]⟩ :=
      stepped_of_step (e := .request amb msg (some k)) (by simp [Service.step, handled])
    have ho₁ : Orderly c { w with service := ⟨t, w.service.log ++ [(msg, reply)]⟩ } := by
      refine ho.setService hs (fun k' hk' => ?_)
      have hne : k' = k → ∀ ids, msg ≠ .subscribe ids :=
        fun he => absurd hk (by rw [← he]; exact Nat.not_lt.mpr hk')
      obtain ⟨news, ht, -⟩ := RelayState.told_answered
        (RelayState.Tuned.of_idle (ho.unopened k' hk').2.2 (.fill 0)) hne handled
      exact ho.unopened_told hk' ht
    refine ho₁.setConn { w.conns k with
      up := rest
      replies := (w.conns k).replies ++ [(rid, reply)] } rfl
      (hnum.of_subperm (Perm.subperm ?_) rfl) (fun hle => absurd hk (Nat.not_lt.mpr hle))
    rw [perm_iff_count]
    simp only [Conn.rids, up, map_append, map_cons, map_nil, count_append, count_cons, count_nil]
    omega
  | @died k amb rid msg rest t serving up handled =>
    have hk : k < w.nextConn := ho.opened (f := (rid, msg)) (by rw [up]; exact mem_cons_self)
    have hnum := ho.numbered k
    have hs : Stepped c w.service ⟨t, w.service.log⟩ :=
      stepped_of_step (e := .request amb msg (some k)) (by simp [Service.step, handled])
    have ho₁ : Orderly c { w with service := ⟨t, w.service.log⟩ } :=
      ho.setService hs (fun k' hk' => ho.unopened_told (q := .fill 0) hk'
        (RelayState.told_panicked handled))
    refine ho₁.setConn { w.conns k with up := rest, serving := false } rfl
      (hnum.of_subperm (Sublist.subperm ?_) rfl) (fun hle => absurd hk (Nat.not_lt.mpr hle))
    rw [Conn.rids, Conn.rids, up]
    exact sublist_cons_self _ _
  | @replied k r rest closed replies =>
    have hnum := ho.numbered k
    refine ho.setConn _ rfl (hnum.of_subperm (Perm.subperm ?_) rfl)
      (fun hle => (ho.unopened k hle).1)
    rw [perm_iff_count]
    intro a
    simp only [Conn.rids, replies, map_append, map_cons, map_nil, count_append,
      count_cons, count_nil]
    omega
  | @delivered k q id envelope rest closed queue =>
    have hs : Stepped c w.service { w.service with relay := w.service.relay.receivePush k } :=
      stepped_of_step (e := .receivePush k) rfl
    have hk : k < w.nextConn := by
      by_contra hk
      simp [(ho.unopened k (Nat.le_of_not_lt hk)).2.1] at queue
    have ho₁ : Orderly c
        { w with service := { w.service with relay := w.service.relay.receivePush k } } := by
      refine ho.setService hs (fun k' hk' => ?_)
      have hne : k' ≠ k := fun he => absurd hk (by rw [← he]; exact Nat.not_lt.mpr hk')
      change (update w.service.relay.channels k _ k').queue = [] ∧ _
      rw [update_of_ne hne]
      exact (ho.unopened k' hk').2
    exact ho₁.setConn _ rfl ((ho.numbered k).of_subperm (Subperm.refl _) rfl)
      (fun hle => absurd hk (Nat.not_lt.mpr hle))
  | @severed k | @broken k =>
    exact ho.setConn _ rfl ((ho.numbered k).of_subperm (Subperm.refl _) rfl)
      (fun hle => (ho.unopened k hle).1)
  | @hungUp k =>
    have hs : Stepped c w.service { w.service with relay := w.service.relay.hangUp k } :=
      stepped_of_step (e := .hangUp k) rfl
    refine ho.setService hs (fun k' hk' => ?_)
    refine ⟨?_, (ho.unopened k' hk').2.2⟩
    rw [← (ho.unopened k' hk').2.1]
    change (update w.service.relay.channels k _ k').queue = _
    by_cases hkk : k' = k
    · subst hkk
      rw [update_self]
    · rw [update_of_ne hkk]
  | dialled => exact ho.dial none
  | @outside k msg opened => exact ho.write opened msg
  | @restarted now db t file reopened =>
    have ho₁ : Orderly c { w with service := { w.service with relay := t } } :=
      ho.setService (.restarted file reopened) (fun _ _ => RelayState.reopen_fresh reopened)
    exact ⟨ho₁.explains, ho₁.consistent, ho₁.owned, ho₁.unopened,
      fun k => (ho₁.numbered k).of_subperm (Subperm.refl _) rfl⟩
  | @restartedMidway now k amb rid msg rest mid m db t serving up inFlight file reopened =>
    have ho₁ : Orderly c { w with service := ⟨t, w.service.log ++ [(msg, m.reply)]⟩ } :=
      ho.setService (.restartedMidway inFlight file reopened)
        (fun _ _ => RelayState.reopen_fresh reopened)
    exact ⟨ho₁.explains, ho₁.consistent, ho₁.owned, ho₁.unopened,
      fun k => (ho₁.numbered k).of_subperm (Subperm.refl _) rfl⟩

variable [DecidableEq ι]

section
variable (ho : Orderly c w)
include ho

theorem resumed (hp : (w.nodes i).process = .running e pc) (hr : Resumed c w i e pc h w₁ t) :
    Orderly c (w₁.install i t) := by
  have ho₁ : Orderly c w₁ := by
    rcases before_resumed hr with rfl | ⟨d, p, rest, -, -, rfl⟩ | ⟨-, rfl⟩
    · exact ho
    · exact ho.setConn _ rfl ((ho.numbered e.relay).of_subperm (Subperm.refl _) rfl)
        (fun hle => (ho.unopened _ hle).1)
    · exact ho.dial (some i)
  have hused : ∀ k, (Process.running t.engine t.pc).Uses k →
      (w₁.conns k).owner = some i ∧ k < w₁.nextConn := by
    intro k hk
    rcases uses_resumed hr hk with hk | ⟨rfl, rfl⟩
    · rw [← hp] at hk
      have hown := ho.owned i k hk
      rcases before_resumed hr with rfl | ⟨d, p, rest, -, -, rfl⟩ | ⟨-, rfl⟩
      · exact hown
      · by_cases hke : k = e.relay
        · subst hke
          rw [setConn_self]
          exact hown
        · rw [setConn_of_ne w hke]
          exact hown
      · change (update w.conns w.nextConn _ k).owner = _ ∧ k < w.nextConn + 1
        rw [update_of_ne (ho.ne_nextConn hk)]
        exact ⟨hown.1, Nat.lt_succ_of_lt hown.2⟩
    · cases hr
      change (update w.conns w.nextConn _ w.nextConn).owner = _ ∧ _
      rw [update_self]
      exact ⟨rfl, Nat.lt_succ_self _⟩
  have hsent : Orderly c (w₁.send t.frame) :=
    ho₁.send (fun k msg hf => (hused k (frame_resumed hr hf)).2)
  refine hsent.setNode (fun k hk => ?_)
  rw [send_nextConn, send_owner]
  exact hused k hk

theorem installBoot {bt : BootTurn mls} {box : Option QueueId} (hb : bt.On k rid box)
    (hk : (w.conns k).owner = some i ∧ k < w.nextConn) :
    Orderly c (w.installBoot i bt) := by
  cases bt with
  | await stage frame =>
    obtain ⟨hs, hf, -⟩ := hb
    have hsent : Orderly c (w.send (some frame)) :=
      ho.send (fun k' msg hf' => by cases hf'; cases hf; exact hk.2)
    refine hsent.setNode (fun k' hk' => ?_)
    obtain ⟨rid', hs'⟩ := hk'
    rw [hs] at hs'
    cases hs'
    rw [send_owner]
    exact hk
  | up =>
    refine ho.setNode (fun k' hk' => ?_)
    rcases hk' with rfl | ⟨caller, rid, hpc⟩
    · exact hb.1 ▸ hk
    · cases hpc
  | failed => exact ho.setNode (fun k' hk' => hk'.elim)

theorem boot {b : Boot mls} (hp : (w.nodes i).process = .starting b) (hi : h.node = some i)
    (hs : w.stepBoot c i b h = some w') : Orderly c w' := by
  rcases stepBoot_cases hi hs with ⟨bt, d, k, rid, reply, hk, -, hbt, rfl⟩ | ⟨o, -, rfl⟩ | rfl
  · exact ho.installBoot (on_onReply hk hbt) (ho.owned i k (by rw [hp]; exact ⟨rid, hk⟩))
  · refine (ho.dial (some i)).installBoot (on_onConnected _ _ _) ⟨?_, Nat.lt_succ_self _⟩
    exact congrArg Conn.owner (w.setConn_self w.nextConn _)
  · exact ho.setNode (fun k hk => hk.elim)

end

theorem step (ho : Orderly c w) (hs : w.step c h = some w') : Orderly c w' := by
  unfold World.step at hs
  split at hs
  · exact ho.moved (moved_of_stepNetwork hs)
  · rename_i i hi
    split at hs
    · rename_i hp
      cases h with
      | start =>
        simp only [World.stepOff] at hs
        split at hs
        · rename_i stage hstage
          cases hs
          refine ho.setNode (fun k hk => ?_)
          obtain ⟨rid, hk⟩ := hk
          simp [launch_awaits hstage] at hk
        · cases hs
          exact ho
      | _ => cases hs
    · rename_i stage hp
      exact ho.boot hp hi hs
    · rename_i e pc hp
      rcases stepEngine_cases hi hs with ⟨w₁, t, hr, rfl⟩ | ⟨rfl, rfl⟩
      · exact ho.resumed hp hr
      · exact ho.setNode (fun k hk => hk.elim)

end Orderly
end Rosette.Network
