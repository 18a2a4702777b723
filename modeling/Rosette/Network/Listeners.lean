import Rosette.Network.Listening

/-! # Engines that listen side by side

What one device does leaves every other device and its connections alone, and its
acks go where its own pushes came from. So engines with mailboxes of their own go on
listening, each through its own stretches and through everything else.
-/
namespace Rosette.Network
open Foundation Proto Rosette.Core Relay Engine Function World

variable {mls : OpenMls} {ι : Type} {c : Crypto} {A : QueueId → Prop} {w w' w₁ : World mls ι}
  {j i : ι} {k : ConnId} {h : Happening mls ι} {t : Turn mls}

/-- What an event of device `j` leaves alone. The acks it sends are on queues in `A`. -/
structure Aside (A : QueueId → Prop) (w w' : World mls ι) (j : ι) : Prop where
  service : w'.service = w.service
  nextConn : w.nextConn ≤ w'.nextConn
  nodes : ∀ i, i ≠ j → w'.nodes i = w.nodes i
  conns : ∀ k, k < w.nextConn → (w.conns k).owner ≠ some j → w'.conns k = w.conns k
  acks : ∀ k rid q id, (rid, .ack q id) ∈ (w'.conns k).up →
    (rid, .ack q id) ∈ (w.conns k).up ∨ A q

namespace Aside
variable {w'' : World mls ι}

theorem refl (w : World mls ι) (j : ι) : Aside A w w j :=
  ⟨rfl, le_rfl, fun _ _ => rfl, fun _ _ _ => rfl, fun _ _ _ _ hm => .inl hm⟩

theorem mono {B : QueueId → Prop} (h : Aside A w w' j) (hAB : ∀ p, A p → B p) : Aside B w w' j :=
  ⟨h.service, h.nextConn, h.nodes, h.conns,
    fun k rid q id hm => (h.acks k rid q id hm).imp_right (hAB q)⟩

theorem trans (h : Aside A w w' j) (h' : Aside A w' w'' j) : Aside A w w'' j where
  service := h'.service.trans h.service
  nextConn := h.nextConn.trans h'.nextConn
  nodes i hi := (h'.nodes i hi).trans (h.nodes i hi)
  conns k hk ho := by
    have hc := h.conns k hk ho
    rw [← hc] at ho
    exact (h'.conns k (hk.trans_le h.nextConn) ho).trans hc
  acks k rid q id hm := (h'.acks k rid q id hm).elim (h.acks k rid q id) .inr

theorem setNode [DecidableEq ι] (w : World mls ι) (j : ι) (n : Node mls) :
    Aside A w (w.setNode j n) j :=
  ⟨rfl, le_rfl, fun _ hi => update_of_ne hi .., fun _ _ _ => rfl,
    fun _ _ _ _ hm => .inl hm⟩

theorem dial (w : World mls ι) (j : ι) : Aside A w (w.dial (some j)) j := by
  refine ⟨rfl, Nat.le_succ _, fun _ _ => rfl, fun k hk _ => w.dial_of_ne (ne_of_lt hk) _,
    fun k rid q id hm => ?_⟩
  by_cases hk : k = w.nextConn
  · subst hk
    rw [dial_self] at hm
    cases hm
  · rw [dial_of_ne w hk] at hm
    exact .inl hm

theorem setConn (w : World mls ι) {conn : Conn ι} (ho : (w.conns k).owner = some j)
    (hu : ∀ rid q id, (rid, .ack q id) ∈ conn.up → (rid, .ack q id) ∈ (w.conns k).up ∨ A q) :
    Aside A w (w.setConn k conn) j := by
  refine ⟨rfl, le_rfl, fun _ _ => rfl, fun k' _ ho' => w.setConn_of_ne (fun hk => ho' ?_) _,
    fun k' rid q id hm => ?_⟩
  · rw [hk, ho]
  · by_cases hk : k' = k
    · subst hk
      rw [setConn_self] at hm
      exact hu rid q id hm
    · rw [setConn_of_ne w hk] at hm
      exact .inl hm

theorem send (w : World mls ι) {f : Option (ConnId × ClientMessage)}
    (hf : ∀ k msg, f = some (k, msg) → (w.conns k).owner = some j ∧ ∀ q id, msg = .ack q id → A q) :
    Aside A w (w.send f) j := by
  rcases f with _ | ⟨k, msg⟩
  · exact refl w j
  · obtain ⟨hown, hack⟩ := hf k msg rfl
    refine setConn w hown (fun rid q id hm => ?_)
    rcases List.mem_append.mp hm with hm | hm
    · exact .inl hm
    · cases List.mem_singleton.mp hm
      exact .inr (hack q id rfl)

end Aside

section Others
variable {e : ChatEngine mls} {pc : Pc}

theorem Listening.aside (hl : Listening w i e pc) (ho : Orderly c w) (ho' : Orderly c w')
    (ha : Aside A w w' j) (hij : i ≠ j) (hA : ¬ A e.mailboxQid) : Listening w' i e pc := by
  refine hl.keep ho ho' (ha.nodes i hij) (.inl (congrArg Service.log ha.service))
    (fun k f hf => ?_) (fun k hk => ?_)
  · by_cases hack : ∃ id, f.2 = .ack e.mailboxQid id
    · obtain ⟨id, hid⟩ := hack
      have hf' : (f.1, ClientMessage.ack e.mailboxQid id) ∈ (w'.conns k).up := by
        rw [← hid]
        exact hf
      refine (ha.acks k _ _ _ hf').imp (fun hm => ?_) (fun hq => absurd hq hA)
      rw [← hid] at hm
      exact hm
    · exact .inr fun id hid => hack ⟨id, hid⟩
  · obtain ⟨hown, hlt⟩ := ho.owned i k (by rw [hl.running]; exact hk)
    refine (hl.attached k hk).same ha.service (ha.conns k hlt ?_)
    rw [hown]
    exact fun he => hij (Option.some.inj he)

variable [DecidableEq ι]

/-- A stretch touches its own device and connections, and acks where its pushes came from. -/
theorem aside_resumed {q : QueueId} (ho : Orderly c w) (hp : (w.nodes j).process = .running e pc)
    (hq : ∀ p rest, (w.conns e.relay).received = p :: rest → p.1 = q)
    (hr : Resumed c w j e pc h w₁ t) : Aside (fun p => p = q) w (w₁.install j t) j := by
  have hrelay : (w.conns e.relay).owner = some j :=
    (ho.owned j e.relay (by rw [hp]; exact .inl rfl)).1
  have hbefore : Aside (fun p => p = q) w w₁ j := by
    rcases before_resumed hr with rfl | ⟨d, p, rest, -, -, rfl⟩ | ⟨-, rfl⟩
    · exact .refl _ _
    · exact .setConn w hrelay (fun _ _ _ hm => .inl hm)
    · exact .dial w j
  refine hbefore.trans ((Aside.send w₁ fun k msg hf => ⟨?_, ?_⟩).trans (.setNode _ j _))
  · have hown := (ho.resumed hp hr).owned j k (by
      rw [install_self]
      exact frame_resumed hr hf)
    rw [install_conns, send_owner] at hown
    exact hown.1
  · rintro p id rfl
    rcases (resumed_sends hq hr).2.2 k _ hf with ⟨id', -, ⟨⟩⟩ | ⟨s, ⟨⟩⟩ | ⟨-, -, ⟨⟩⟩
    rfl

theorem aside_installBoot {bt : BootTurn mls} {rid : ℕ} {box : Option QueueId}
    (hon : bt.On k rid box) (hown : (w.conns k).owner = some j) :
    Aside (fun _ => False) w (w.installBoot j bt) j := by
  cases bt with
  | await =>
    obtain ⟨-, hk, hack, -⟩ := hon
    refine (Aside.send w fun k' msg hf => ?_).trans (.setNode _ j _)
    cases hf
    exact ⟨by rw [← hown, ← hk], fun q id hm => hack q id hm⟩
  | up | failed => exact .setNode w j _

theorem aside_boot {b : Boot mls} (ho : Orderly c w) (hp : (w.nodes j).process = .starting b)
    (hj : h.node = some j) (hs : w.stepBoot c j b h = some w') : Aside (fun _ => False) w w' j := by
  rcases stepBoot_cases hj hs with ⟨bt, d, k, rid, reply, hk, -, hbt, rfl⟩ | ⟨o, -, rfl⟩ | rfl
  · exact aside_installBoot (on_onReply hk hbt) (ho.owned j k (by rw [hp]; exact ⟨rid, hk⟩)).1
  · refine (Aside.dial w j).trans (aside_installBoot (on_onConnected _ _ _) ?_)
    rw [dial_self]
    rfl
  · exact .setNode w j _

theorem aside_off (hs : w.stepOff j h = some w') : Aside (fun _ => False) w w' j := by
  cases h with
  | start =>
    simp only [World.stepOff] at hs
    split at hs
    · cases hs
      exact .setNode w j _
    · cases hs
      exact .refl w j
  | _ => cases hs

end Others

/-- Every device runs an engine that listens to a mailbox of its own. -/
structure Listeners (c : Crypto) (w : World mls ι) (e : ι → ChatEngine mls) (pc : ι → Pc) :
    Prop where
  orderly : Orderly c w
  apart : ∀ i j, (e i).mailboxQid = (e j).mailboxQid → i = j
  listening : ∀ i, Listening w i (e i) (pc i)

namespace Listeners
variable {e : ι → ChatEngine mls} {pc : ι → Pc}

theorem moved (hL : Listeners c w e pc) (hm : Moved c w h w')
    (hout : ∀ k i id, h ≠ .outside k (.ack (e i).mailboxQid id)) : Listeners c w' e pc :=
  ⟨hL.orderly.moved hm, hL.apart, fun i =>
    (hL.listening i).moved hL.orderly hm (fun k id => hout k i id)⟩

theorem addressed (hL : Listeners c w e pc) (i : ι) (p : QueueId × Envelope)
    (rest : List (QueueId × Envelope)) (hp : (w.conns (e i).relay).received = p :: rest) :
    p.1 = (e i).mailboxQid :=
  ((hL.listening i).attached _ (.inl rfl)).addressed hp

variable [DecidableEq ι]

theorem resumed (hL : Listeners c w e pc) (hr : Resumed c w i (e i) (pc i) h w₁ t)
    (hpair : pc i ≠ .receiving .awaitPairing) :
    Listeners c (w₁.install i t) (update e i t.engine) (update pc i t.pc) := by
  have hrun := (hL.listening i).running
  have hbox := (resumed_sends (hL.addressed i) hr).1
  have hself := (hL.listening i).pumped hL.orderly hr hpair
  refine ⟨hL.orderly.resumed hrun hr, fun j j' hjj => hL.apart j j' ?_, fun j => ?_⟩
  · have hq : ∀ j, (update e i t.engine j).mailboxQid = (e j).mailboxQid := by
      intro j
      by_cases hj : j = i
      · subst hj
        rw [update_self, hbox]
      · rw [update_of_ne hj]
    rw [← hq j, ← hq j', hjj]
  · by_cases hj : j = i
    · subst hj
      rw [update_self, update_self]
      exact hself
    · rw [update_of_ne hj, update_of_ne hj]
      refine (hL.listening j).aside hL.orderly (hL.orderly.resumed hrun hr)
        (aside_resumed hL.orderly hrun (hL.addressed i) hr) hj (fun hq => hj (hL.apart j i hq))

theorem step (hL : Listeners c w e pc) (hs : w.step c h = some w') (hcrash : ∀ i, h ≠ .crash i) :
    h.node = none ∧ Moved c w h w' ∨
    ∃ i w₁ t, h.node = some i ∧ Resumed c w i (e i) (pc i) h w₁ t ∧ w' = w₁.install i t := by
  unfold World.step at hs
  split at hs
  · rename_i hn
    exact .inl ⟨hn, moved_of_stepNetwork hs⟩
  · rename_i i hi
    rw [(hL.listening i).running] at hs
    rcases stepEngine_cases hi hs with ⟨w₁, t, hr, rfl⟩ | ⟨hc, -⟩
    · exact .inr ⟨i, w₁, t, hi, hr, rfl⟩
    · exact absurd hc (hcrash i)

end Listeners
end Rosette.Network
