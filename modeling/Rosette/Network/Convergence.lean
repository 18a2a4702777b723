import Rosette.Engine.Committing
import Rosette.Network.Listeners
import Rosette.Network.Requests
import Rosette.Relay.Landings

/-! # Members of one group converge

Engines that share an inbox commit against each other. The relay accepts one commit an
epoch; the accepted ones form a chain, every member has merged an initial part of it,
and a member whose own commit is in the chain past that part is about to read so.
-/
namespace Rosette.Network
open Foundation Proto Rosette.Core Relay Engine List Function World

variable {mls : OpenMls} {ι : Type} {P : Party mls ι} {w : World mls ι} {pc : ι → Pc}
  {chain : List (Landed ι)} {h : Happening mls ι} {c : Crypto}

/-- The only calls are commits and waits for events, and there are no other clients. -/
def OnlyCommits : Happening mls ι → Prop
  | .call _ call _ => call = .nextEvent ∨ call = .commitSelfUpdate
  | .contactLink _ _ => False
  | .attachStore _ _ => False
  | .crash _ => False
  | .outside _ _ => False
  | _ => True

instance : (h : Happening mls ι) → Decidable (OnlyCommits h)
  | .call _ call _ => inferInstanceAs (Decidable (call = .nextEvent ∨ call = .commitSelfUpdate))
  | .contactLink _ _ | .attachStore _ _ | .crash _ | .outside _ _ => isFalse id
  | .push _ _ | .disconnected _ | .replied _ _ | .lost _ _ | .connected _ | .connectFailed _
  | .drop _ | .start _ _ | .serve _ _ | .reply _ | .deliver _ | .sever _ | .breakWriter _
  | .hangUp _ | .dial | .restart _ _ => isTrue trivial

/-- The acceptance of a commit reaches its engine: a commit is accepted only while its engine
still waits on that connection, and the connection is not lost before the reply is read. -/
def Unbroken (c : Crypto) (x : QueueId) (w : World mls ι) : Happening mls ι → Prop
  | .serve k amb => ∀ rid target tag envelope rest t,
      (w.conns k).up = (rid, .sendToGroupInbox x (.commit target) tag envelope) :: rest →
      w.service.relay.handle c amb (.sendToGroupInbox x (.commit target) tag envelope) (some k) =
        (t, .answered .ok) →
      (w.conns k).closed = false ∧
        ∃ i e s, (w.nodes i).process = .running e (.sending s rid) ∧ e.relay = k
  | .sever k => ∀ i e s rid, (w.nodes i).process = .running e (.sending s rid) → e.relay = k →
      (rid, .ok) ∉ (w.conns k).replies
  | .restart _ (some (k, _)) => ∀ rid target tag envelope rest,
      (w.conns k).up ≠ (rid, .sendToGroupInbox x (.commit target) tag envelope) :: rest
  | _ => True

/-- Distinct commits have distinct ids, and none has one seen before. -/
structure DistinctIds (P : Party mls ι) (w : World mls ι) : Prop where
  apart : ∀ a b, a ∈ commitsVia P.inbox.1 w.service.log → b ∈ commitsVia P.inbox.1 w.service.log →
    a.2.messageId = b.2.messageId → a.2 = b.2
  fresh : ∀ a ∈ commitsVia P.inbox.1 w.service.log, ∀ i, a.2.messageId ∉ P.old i

/-- What the relay has said about a send that waits for its reply. -/
structure Pledged (c : Crypto) (chain : List (Landed ι)) (w : World mls ι) (i : ι)
    (e : ChatEngine mls) (s : Sending) (rid : ℕ) : Prop where
  asked : ∀ m, (rid, m) ∈ (w.conns e.relay).up →
    m = s.request c ∧ Party.Unlanded chain i e.trace.merged.length
  replied : ∀ r, (rid, r) ∈ (w.conns e.relay).replies ∨ (rid, r) ∈ (w.conns e.relay).answered →
    (r = .ok ↔ ¬ Party.Unlanded chain i e.trace.merged.length)
  kept : ¬ Party.Unlanded chain i e.trace.merged.length → (rid, .ok) ∈ (w.conns e.relay).answered ∨
    (rid, .ok) ∈ (w.conns e.relay).replies ∧ (w.conns e.relay).closed = false

/-- All members have merged initial parts of one chain, and hear of the rest. -/
structure Converging (P : Party mls ι) (w : World mls ι) (e : ι → ChatEngine mls) (pc : ι → Pc)
    (chain : List (Landed ι)) : Prop where
  listeners : Listeners P.crypto w e pc
  chained : P.Chained chain
  created : CreatedWith P.inbox.1 P.base w.service.log
  sent : commitsVia P.inbox.1 w.service.log = chain.map (fun b => (b.epoch, b.envelope))
  roster : ∃ roster, rosterIn w.service.log P.inbox.1 = some roster ∧
    ∀ i, roster.count (e i).mailboxQid = 1
  arrived : ∀ i, ∃ past : List Envelope, (∀ a ∈ past, a.messageId ∈ P.old i) ∧
    arrivals (e i).mailboxQid w.service.log = past ++ chain.map Landed.envelope
  holds : ∀ i, (P.regime chain i).holds (e i) (w.nodes i).results (pc i)
  frames : ∀ k f, f ∈ (w.conns k).up →
    (∃ target tag envelope, f.2 = .sendToGroupInbox P.inbox.1 (.commit target) tag envelope) ∨
    (∃ q id, f.2 = .ack q id) ∨ ∃ ids, f.2 = .subscribe ids
  pledged : ∀ i s rid, pc i = .sending s rid → Pledged P.crypto chain w i (e i) s rid

section Moves
variable {w' : World mls ι} {e : ι → ChatEngine mls} {i : ι} {s : Sending} {rid : ℕ}

theorem Pledged.same {e : ChatEngine mls} (hp : Pledged c chain w i e s rid)
    (hu : (w'.conns e.relay).up = (w.conns e.relay).up)
    (hr : (w'.conns e.relay).replies = (w.conns e.relay).replies)
    (ha : (w'.conns e.relay).answered = (w.conns e.relay).answered)
    (hc : (w'.conns e.relay).closed = (w.conns e.relay).closed) : Pledged c chain w' i e s rid :=
  ⟨hu ▸ hp.asked, hr ▸ ha ▸ hp.replied, hr ▸ ha ▸ hc ▸ hp.kept⟩

theorem Pledged.carried {e : ChatEngine mls} (hp : Pledged c chain w i e s rid)
    (hm : Carried c w h w' e.relay)
    (hserve : w'.service.log ≠ w.service.log ++ [(s.request c, .ok)])
    (hsever : h = .sever e.relay → (rid, .ok) ∉ (w.conns e.relay).replies) :
    Pledged c chain w' i e s rid := by
  cases hm with
  | same up replies answered closed => exact hp.same up replies answered closed
  | @served amb rid' msg rest t reply event head handled log up replies answered closed =>
    refine ⟨fun m hm => ?_, fun r hr => ?_, fun hl => ?_⟩
    · rw [up] at hm
      exact hp.asked m (by rw [head]; exact mem_cons_of_mem _ hm)
    · rw [replies, answered, mem_append, mem_singleton] at hr
      rcases hr with (hr | hr) | hr
      · exact hp.replied r (.inl hr)
      · cases hr
        obtain ⟨rfl, hu⟩ := hp.asked msg (by rw [head]; exact mem_cons_self)
        refine ⟨?_, fun hl => absurd hu hl⟩
        rintro rfl
        exact absurd log hserve
      · exact hp.replied r (.inr hr)
    · rw [replies, answered, closed]
      exact (hp.kept hl).imp_right fun hk => ⟨mem_append_left _ hk.1, hk.2⟩
  | died head up replies answered closed =>
    refine ⟨fun m hm => ?_, ?_, ?_⟩
    · rw [up] at hm
      exact hp.asked m (by rw [head]; exact mem_cons_of_mem _ hm)
    · rw [replies, answered]
      exact hp.replied
    · rw [replies, answered, closed]
      exact hp.kept
  | @replied r rest isOpen head up replies answered closed =>
    have hiff : ∀ r', ((rid, r') ∈ rest ∨ (rid, r') ∈ (w.conns e.relay).answered ++ [r]) ↔
        ((rid, r') ∈ (w.conns e.relay).replies ∨ (rid, r') ∈ (w.conns e.relay).answered) := by
      simp only [head, mem_append, mem_cons]
      tauto
    refine ⟨?_, fun r' hr => ?_, fun hl => ?_⟩
    · rw [up]
      exact hp.asked
    · rw [replies, answered] at hr
      exact hp.replied r' ((hiff r').mp hr)
    · rw [replies, answered, closed]
      rcases (hiff .ok).mpr ((hp.kept hl).elim .inr (fun hk => .inl hk.1)) with hr | hr
      · exact .inr ⟨hr, rfl⟩
      · exact .inl hr
  | severed event up replies answered =>
    refine ⟨?_, ?_, fun hl => .inl ?_⟩
    · rw [up]
      exact hp.asked
    · rw [replies, answered]
      exact hp.replied
    · rw [answered]
      exact (hp.kept hl).resolve_right fun hk => hsever event hk.1

theorem createdWith_append {x : QueueId} {base : UInt64} {log : List Exchange}
    (h : CreatedWith x base log) (more : List Exchange) :
    CreatedWith x base (log ++ more) := by
  obtain ⟨solution, roster, attestation, k, hm⟩ := h
  exact ⟨solution, roster, attestation, k, mem_append_left _ hm⟩

namespace Converging

variable (hC : Converging P w e pc chain)
include hC

theorem relay_owned (i : ι) :
    (w.conns (e i).relay).owner = some i ∧ (e i).relay < w.nextConn :=
  hC.listeners.orderly.owned i _ (by rw [(hC.listeners.listening i).running]; exact .inl rfl)

theorem keep (hL : Listeners P.crypto w' e pc) (hn : w'.nodes = w.nodes) {more : List Exchange}
    (hlog : w'.service.log = w.service.log ++ more)
    (hsent : commitsVia P.inbox.1 w'.service.log = commitsVia P.inbox.1 w.service.log)
    (harr : ∀ i, arrivals (e i).mailboxQid w'.service.log =
      arrivals (e i).mailboxQid w.service.log)
    (hframes : ∀ k f, f ∈ (w'.conns k).up → f ∈ (w.conns k).up)
    (hpl : ∀ i s rid, pc i = .sending s rid → Pledged P.crypto chain w' i (e i) s rid) :
    Converging P w' e pc chain where
  listeners := hL
  chained := hC.chained
  created := hlog ▸ createdWith_append hC.created more
  sent := hsent.trans hC.sent
  roster := by
    obtain ⟨roster, hr, hq⟩ := hC.roster
    exact ⟨roster, hlog ▸ rosterIn_append hr, hq⟩
  arrived i := by
    obtain ⟨past, hp, ha⟩ := hC.arrived i
    exact ⟨past, hp, (harr i).trans ha⟩
  holds i := hn ▸ hC.holds i
  frames k f hf := hC.frames k f (hframes k f hf)
  pledged := hpl

theorem unlanded {k : ConnId} {f : ℕ × ClientMessage} (hf : f ∈ (w.conns k).up)
    {reply : ServerMessage} (hl : landing P.inbox.1 (f.2, reply) = none) :
    commitsVia P.inbox.1 (w.service.log ++ [(f.2, reply)]) =
      commitsVia P.inbox.1 w.service.log ∧
    ∀ i, arrivals (e i).mailboxQid (w.service.log ++ [(f.2, reply)]) =
      arrivals (e i).mailboxQid w.service.log := by
  refine ⟨by rw [commitsVia_snoc, hl]; exact append_nil _, fun i => ?_⟩
  rcases hC.frames k f hf with ⟨target, tag, envelope, hm⟩ | ⟨q, id, hm⟩ | ⟨ids, hm⟩
  · rw [hm] at hl ⊢
    refine arrivals_refused ?_
    rintro rfl
    simp [landing] at hl
  · rw [hm]
    exact arrivals_ack q id reply
  · rw [hm]
    exact arrivals_subscribe ids reply

theorem landed (hL : Listeners P.crypto w' e pc) {k : ConnId} {rid : ℕ} {target : UInt64}
    {tag : AuthTag} {envelope : Envelope} {rest : List (ℕ × ClientMessage)} {t : RelayState}
    (hup : (w.conns k).up =
      (rid, .sendToGroupInbox P.inbox.1 (.commit target) tag envelope) :: rest)
    (hw : w' = { w.setConn k { w.conns k with
      up := rest
      replies := (w.conns k).replies ++ [(rid, .ok)] } with
      service := ⟨t, w.service.log ++
        [(.sendToGroupInbox P.inbox.1 (.commit target) tag envelope, .ok)]⟩ })
    (hopen : (w.conns k).closed = false) {i : ι} {s : Sending} (hpc : pc i = .sending s rid)
    (hk : (e i).relay = k) : ∃ chain', Converging P w' e pc chain' := by
  have hlog : w'.service.log = w.service.log ++
      [(.sendToGroupInbox P.inbox.1 (.commit target) tag envelope, .ok)] := by rw [hw]
  have hself : w'.conns k = { w.conns k with
      up := rest
      replies := (w.conns k).replies ++ [(rid, .ok)] } := by
    rw [hw]
    exact w.setConn_self k _
  have hother : ∀ k', k' ≠ k → w'.conns k' = w.conns k' := by
    intro k' hne
    rw [hw]
    exact w.setConn_of_ne hne _
  have hnodes : w'.nodes = w.nodes := by rw [hw]; rfl
  have hnum := hC.listeners.orderly.numbered k
  have hhead : (rid, ClientMessage.sendToGroupInbox P.inbox.1 (.commit target) tag envelope) ∈
      (w.conns k).up := by
    rw [hup]
    exact mem_cons_self
  obtain ⟨hreq, hu⟩ := (hC.pledged i s rid hpc).asked _ (by rw [hk]; exact hhead)
  simp only [Sending.request, ClientMessage.sendToGroupInbox.injEq] at hreq
  obtain ⟨-, hkind, -, rfl⟩ := hreq
  have hout := hC.holds i
  rw [hpc] at hout
  have htarget := hL.orderly.explains
  rw [hlog] at htarget
  have htarget := epoch_of_landing htarget hC.created
  rw [hC.sent, length_map] at htarget
  obtain ⟨wire, hchain, hout, hlanded, -⟩ := Party.out_lands hC.chained hout hu hkind.symm htarget
  refine ⟨chain ++ [⟨i, target, wire, s.envelope⟩], hL, hchain,
    hlog ▸ createdWith_append hC.created _,
    ?_, ?_, fun j => ?_, fun j => ?_, fun k' f hf => ?_, fun j s' rid' hpc' => ?_⟩
  · rw [hlog, commitsVia_snoc, hC.sent]
    simp [landing]
  · obtain ⟨roster, hr, hq⟩ := hC.roster
    exact ⟨roster, hlog ▸ rosterIn_append hr, hq⟩
  · obtain ⟨roster, hr, hq⟩ := hC.roster
    obtain ⟨past, hp, ha⟩ := hC.arrived j
    have hbox : mailboxIn w.service.log (e j).mailboxQid = true := by
      rw [(explains_boxesTell hC.listeners.orderly.explains).mailbox]
      exact (hC.listeners.listening j).mailbox
    refine ⟨past, hp, ?_⟩
    rw [hlog, arrivals_groupSend hr (hq j) hbox, ha, map_append, append_assoc]
    rfl
  · rw [hnodes]
    by_cases hj : j = i
    · subst hj
      rw [hpc]
      exact hout
    · exact Party.holds_grow (Ne.symm hj) (hC.holds j)
  · refine hC.frames k' f ?_
    by_cases hkk : k' = k
    · subst hkk
      rw [hself] at hf
      rw [hup]
      exact mem_cons_of_mem _ hf
    · rwa [hother k' hkk] at hf
  · by_cases hj : j = i
    · subst hj
      rw [hpc] at hpc'
      cases hpc'
      refine ⟨fun m hm => ?_, fun r hr => ?_, fun _ => .inr ?_⟩
      · rw [hk, hself] at hm
        exact absurd hm (hnum.head_unique hup)
      · refine ⟨fun _ => hlanded, fun _ => ?_⟩
        rw [hk, hself] at hr
        have hun := hnum.unanswered hhead r
        rcases hr with hr | hr
        · rcases mem_append.mp hr with hr | hr
          · exact absurd hr hun.1
          · cases mem_singleton.mp hr
            rfl
        · exact absurd hr hun.2
      · rw [hk, hself]
        exact ⟨mem_append_right _ (mem_singleton.mpr rfl), hopen⟩
    · have hpl := hC.pledged j s' rid' hpc'
      have hkj : (e j).relay ≠ k := by
        intro hkj
        have hown := (hC.relay_owned j).1
        rw [hkj, ← hk, (hC.relay_owned i).1] at hown
        exact hj (Option.some.inj hown).symm
      have hgrow : Party.Unlanded (chain ++ [⟨i, target, wire, s.envelope⟩]) j
          (e j).trace.merged.length ↔ Party.Unlanded chain j (e j).trace.merged.length :=
        Party.unlanded_grow (Ne.symm hj)
      refine ⟨?_, ?_, ?_⟩ <;> rw [hother _ hkj, hgrow]
      · exact hpl.asked
      · exact hpl.replied
      · exact hpl.kept

theorem request_landing {i : ι} {s : Sending} {rid : ℕ} (hpc : pc i = .sending s rid) :
    landing P.inbox.1 (s.request P.crypto, .ok) ≠ none := by
  have hout := hC.holds i
  rw [hpc] at hout
  obtain ⟨-, n, wire, ha, -⟩ := hout
  rw [ha.sending]
  simp [landing, Sending.request, Sending.inbox, Sending.kind]

theorem quiet (hm : Moved P.crypto w h w') (honly : OnlyCommits h)
    (hlog : w'.service.log = w.service.log ∨ ∃ k f reply, f ∈ (w.conns k).up ∧
      w'.service.log = w.service.log ++ [(f.2, reply)] ∧ landing P.inbox.1 (f.2, reply) = none)
    (hsever : ∀ i s rid, pc i = .sending s rid → h = .sever (e i).relay →
      (rid, .ok) ∉ (w.conns (e i).relay).replies) : Converging P w' e pc chain := by
  have hout : ∀ k msg, h ≠ .outside k msg := by
    rintro k msg rfl
    exact honly
  have hL := hC.listeners.moved hm (fun k i id => hout k _)
  have hframes : ∀ k f, f ∈ (w'.conns k).up → f ∈ (w.conns k).up := fun k f hf =>
    (hm.grows.2.2 k f hf).resolve_right (hout k _)
  have hpl : ∀ i s rid, pc i = .sending s rid → Pledged P.crypto chain w' i (e i) s rid := by
    intro i s rid hpc
    obtain ⟨hown, hlt⟩ := hC.relay_owned i
    refine (hC.pledged i s rid hpc).carried (hm.carried hlt (by rw [hown]; rfl)) (fun hl => ?_)
      (hsever i s rid hpc)
    rcases hlog with hlog | ⟨k, f, reply, -, hlog, hnone⟩
    · rw [hl] at hlog
      simp at hlog
    · rw [hl] at hlog
      have heq := (cons.inj (append_cancel_left hlog)).1
      rw [← heq] at hnone
      exact hC.request_landing hpc hnone
  rcases hlog with hlog | ⟨k, f, reply, hf, hlog, hnone⟩
  · have hnil : w'.service.log = w.service.log ++ [] := by rw [hlog, append_nil]
    exact hC.keep hL hm.grows.1 hnil (by rw [hlog]) (fun i => by rw [hlog]) hframes hpl
  · obtain ⟨hsent, harr⟩ := hC.unlanded hf hnone
    exact hC.keep hL hm.grows.1 hlog (hlog ▸ hsent) (fun i => hlog ▸ harr i) hframes hpl

theorem moved (hm : Moved P.crypto w h w') (honly : OnlyCommits h)
    (hkept : Unbroken P.crypto P.inbox.1 w h) : ∃ chain', Converging P w' e pc chain' := by
  have hno : ∀ {h' : Happening mls ι}, h = h' → (∀ k, h' ≠ .sever k) →
      ∀ i s rid, pc i = .sending s rid → h = .sever (e i).relay →
        (rid, .ok) ∉ (w.conns (e i).relay).replies :=
    fun hh hne i _ _ _ hs => absurd (hh.symm.trans hs) (hne _)
  have hL := hC.listeners.moved hm (fun k i id hh => by rw [hh] at honly; exact honly)
  cases hm with
  | @served k amb rid msg rest t reply serving up handled =>
    cases hl : landing P.inbox.1 (msg, reply) with
    | none =>
      refine ⟨chain, hC.quiet (.served serving up handled) honly
        (.inr ⟨k, (rid, msg), reply, ?_, rfl, hl⟩) (hno rfl (by rintro _ ⟨⟩))⟩
      rw [up]
      exact mem_cons_self
    | some p =>
      obtain ⟨tag, heq⟩ := landing_eq_some hl
      cases heq
      obtain ⟨hopen, i, e', s, hrun, hk⟩ := hkept rid p.1 tag p.2 rest t up handled
      rw [(hC.listeners.listening i).running] at hrun
      obtain ⟨rfl, hpc⟩ := Process.running.inj hrun
      exact hC.landed hL up rfl hopen hpc hk
  | @restartedMidway now k amb rid msg rest mid m db t serving up inFlight file reopened =>
    refine ⟨chain, hC.quiet (.restartedMidway serving up inFlight file reopened) honly
      (.inr ⟨k, (rid, msg), m.reply, ?_, rfl, ?_⟩) (hno rfl (by rintro _ ⟨⟩))⟩
    · rw [up]
      exact mem_cons_self
    · cases hl : landing P.inbox.1 (msg, m.reply) with
      | none => rfl
      | some p =>
        obtain ⟨tag, heq⟩ := landing_eq_some hl
        obtain ⟨rfl, -⟩ := Prod.mk.inj heq
        exact absurd up (hkept rid p.1 tag p.2 rest)
  | severed =>
    refine ⟨chain, hC.quiet .severed honly (.inl rfl) fun i s rid hpc hs => ?_⟩
    cases hs
    exact hkept i (e i) s rid (by rw [(hC.listeners.listening i).running, hpc]) rfl
  | died serving up handled =>
    exact ⟨chain, hC.quiet (.died serving up handled) honly (.inl rfl) (hno rfl (by rintro _ ⟨⟩))⟩
  | replied closed replies =>
    exact ⟨chain, hC.quiet (.replied closed replies) honly (.inl rfl) (hno rfl (by rintro _ ⟨⟩))⟩
  | delivered closed queue =>
    exact ⟨chain, hC.quiet (.delivered closed queue) honly (.inl rfl) (hno rfl (by rintro _ ⟨⟩))⟩
  | broken => exact ⟨chain, hC.quiet .broken honly (.inl rfl) (hno rfl (by rintro _ ⟨⟩))⟩
  | hungUp => exact ⟨chain, hC.quiet .hungUp honly (.inl rfl) (hno rfl (by rintro _ ⟨⟩))⟩
  | dialled => exact ⟨chain, hC.quiet .dialled honly (.inl rfl) (hno rfl (by rintro _ ⟨⟩))⟩
  | outside => exact honly.elim
  | restarted file reopened =>
    exact ⟨chain, hC.quiet (.restarted file reopened) honly (.inl rfl) (hno rfl (by rintro _ ⟨⟩))⟩

end Converging
end Moves

section Stretches
variable {w₁ : World mls ι} {e : ι → ChatEngine mls} {i : ι} {t : Turn mls}

theorem member_of_holds {e : ChatEngine mls} {rs : List Result} {pc : Pc}
    (h : (P.regime chain i).holds e rs pc) :
    Party.Honest chain i rs ∧ ∃ n pending, P.Member chain i n pending e := by
  rcases Regime.holds_cases h with ⟨hr, n, pending, hm, -⟩ | ⟨s, hr, n, wire, ha, -⟩ |
    ⟨s, hr, n, wire, ha, -⟩
  · exact ⟨hr, n, pending, hm⟩
  · exact ⟨hr, n, _, ha.member⟩
  · exact ⟨hr, n, _, ha.member⟩

/-- A member has seen nothing of the chain past what it has merged. -/
theorem Converging.unseen_chain (hC : Converging P w e pc chain) (hids : DistinctIds P w) {n : ℕ}
    {pending : Option Wire} (hm : P.Member chain i n pending (e i)) :
    unseen Envelope.messageId (e i).seen (arrivals (e i).mailboxQid w.service.log) =
      (chain.drop n).map Landed.envelope := by
  have hin : ∀ b ∈ chain, (b.epoch, b.envelope) ∈ commitsVia P.inbox.1 w.service.log := by
    intro b hb
    rw [hC.sent]
    exact mem_map_of_mem hb
  have hfresh : ∀ b ∈ chain.drop n, b.envelope.messageId ∉ (e i).seen := by
    intro b hb hseen
    obtain ⟨m, hm'⟩ := mem_iff_getElem?.mp hb
    rw [getElem?_drop] at hm'
    have hbc : b ∈ chain := mem_of_getElem? hm'
    rcases (hm.seen _).mp hseen with hold | ⟨b', hb', hid⟩
    · exact hids.fresh _ (hin b hbc) i hold
    · obtain ⟨m', hm''⟩ := mem_iff_getElem?.mp hb'
      rw [getElem?_take] at hm''
      split_ifs at hm'' with hlt
      have hbc' : b' ∈ chain := mem_of_getElem? hm''
      have henv : b'.envelope = b.envelope := hids.apart _ _ (hin b' hbc') (hin b hbc) hid
      have hpad := wrap_padded (hC.chained.wrapped b hbc)
      have hpad' := wrap_padded (hC.chained.wrapped b' hbc')
      rw [henv] at hpad'
      -- equal bytes would be built on equally many commits
      have hlen := congrArg length (P.laws.tells (hC.chained.commits _ b' hm'')
        (hC.chained.commits _ b hm') (hpad'.trans hpad.symm) (by rw [hpad']; rfl)).2
      have hle := (List.getElem?_eq_some_iff.mp hm').1
      simp only [length_map, length_take] at hlen
      omega
  obtain ⟨past, hp, ha⟩ := hC.arrived i
  have hpast : unseen Envelope.messageId (e i).seen past = [] :=
    unseen_eq_nil.mpr fun a hmem => (hm.seen _).mpr (.inl (hp a hmem))
  have htake : unseen Envelope.messageId (e i).seen ((chain.take n).map Landed.envelope) = [] := by
    refine unseen_eq_nil.mpr fun a hmem => (hm.seen _).mpr (.inr ?_)
    obtain ⟨b, hb, rfl⟩ := mem_map.mp hmem
    exact ⟨b, hb, rfl⟩
  have hdrop : unseen Envelope.messageId (e i).seen ((chain.drop n).map Landed.envelope) =
      (chain.drop n).map Landed.envelope := by
    refine unseen_eq_self fun a hmem => ?_
    obtain ⟨b, hb, rfl⟩ := mem_map.mp hmem
    exact hfresh b hb
  rw [ha, unseen_append, hpast, nil_append, ← take_append_drop n chain, map_append,
    unseen_append, htake, nil_append, take_append_drop, hdrop]

theorem Converging.next_push (hC : Converging P w e pc chain) (hids : DistinctIds P w)
    {p : QueueId × Envelope} {rest : List (QueueId × Envelope)}
    (hp : (w.conns (e i).relay).received = p :: rest) (hfresh : p.2.messageId ∉ (e i).seen) :
    (P.regime chain i).next (e i) p.2 := by
  obtain ⟨-, n, pending, hm⟩ := member_of_holds (hC.holds i)
  have htrails := ((hC.listeners.listening i).attached _ (.inl rfl)).trails
  rw [World.stream, hp] at htrails
  obtain ⟨more, hmore⟩ := htrails.head hfresh
  rw [hC.unseen_chain hids hm] at hmore
  obtain ⟨b, others, hb, henv, -⟩ := map_eq_cons_iff.mp hmore
  refine ⟨b, ?_, henv⟩
  rw [hm.length_merged]
  have hhead := congrArg head? hb
  rwa [head?_drop] at hhead

theorem Converging.serves (hC : Converging P w e pc chain) (hids : DistinctIds P w)
    (honly : OnlyCommits h) : Serves P.crypto (P.regime chain i) w i (e i) (pc i)
      (w.nodes i).results (e i).mailboxQid h where
  call call d hh := by
    rw [hh] at honly
    exact honly
  link d hh := by
    rw [hh] at honly
    exact honly.elim
  attach d hh := by
    rw [hh] at honly
    exact honly.elim
  push p rest hp := ⟨hC.listeners.addressed i p rest hp, hC.next_push hids hp⟩
  invited _ _ _ _ _ _ := trivial
  disk _ _ := trivial
  reply s rid reply hpc hr := (hC.pledged i s rid hpc).replied reply (.inr hr)
  lost s rid hpc hclosed hun := by
    have hout := hC.holds i
    rw [hpc] at hout
    obtain ⟨hr, n, wire, ha, -⟩ := hout
    refine ⟨hr, n, wire, ha, ?_⟩
    rw [← ha.member.length_merged]
    by_contra hl
    rcases (hC.pledged i s rid hpc).kept hl with hk | hk
    · exact hun .ok hk
    · rw [hclosed] at hk
      cases hk.2
  moved k conn rid d _ hpc := by
    have hw := hC.holds i
    rw [hpc] at hw
    cases k with
    | receiving =>
      obtain ⟨⟨hr, n, pending, hm, hu⟩, hrec⟩ := hw
      exact ⟨⟨hr, n, pending, ⟨hm.le, hm.inbox, hm.merged, hm.seen, hm.holds, hm.calls⟩, hu⟩, hrec⟩
    | sending =>
      obtain ⟨hr, n, wire, ha, hu⟩ := hw
      have hm := ha.member
      exact ⟨hr, n, wire, ⟨⟨hm.le, hm.inbox, hm.merged, hm.seen, hm.holds, hm.calls⟩,
        ha.commits, ha.wrapped, ha.sending⟩, hu⟩

variable [DecidableEq ι]

theorem Pledged.made {e : ChatEngine mls} {pc : Pc} {s : Sending} {rid : ℕ}
    (hr : Resumed c w i e pc h w₁ t) (ho : Orderly c w) (hpc : t.pc = .sending s rid)
    (hu : Party.Unlanded chain i t.engine.trace.merged.length) :
    Pledged c chain (w₁.install i t) i t.engine s rid := by
  obtain ⟨hframe, rfl, -⟩ := request_resumed hr hpc
  have hc : h ≠ .connected i := by
    rintro rfl
    cases hr
    cases hpc
  obtain ⟨received, hconn⟩ := before_resumed_conn hr hc t.engine.relay
  have hnum := ho.numbered t.engine.relay
  have hnew : ∀ n, n ∈ (w.conns t.engine.relay).rids → n ≠ (w.conns t.engine.relay).nextCall :=
    fun n hn => ne_of_lt (hnum.below n hn)
  have hconn' : (w₁.install i t).conns t.engine.relay =
      ({ w.conns t.engine.relay with received := received } : Conn ι).write (s.request c) := by
    rw [install_conns, hframe, send_conns_self, hconn]
  refine ⟨fun m hm => ⟨?_, hu⟩, fun r hr => ?_, fun hl => absurd hu hl⟩
  · rw [hconn'] at hm
    rcases mem_append.mp hm with hm | hm
    · exact absurd rfl (hnew _ (mem_append_left _ (mem_map_of_mem hm)))
    · cases mem_singleton.mp hm
      rfl
  · rw [hconn'] at hr
    have hmem : (w.conns t.engine.relay).nextCall ∈ (w.conns t.engine.relay).rids := by
      refine mem_append_right _ ?_
      rcases hr with hr | hr
      · exact mem_append_left _ (mem_map_of_mem hr)
      · exact mem_append_right _ (mem_map_of_mem hr)
    exact absurd rfl (hnew _ hmem)

theorem Converging.resumed (hC : Converging P w e pc chain) (hids : DistinctIds P w)
    (honly : OnlyCommits h) (hr : Resumed P.crypto w i (e i) (pc i) h w₁ t) :
    Converging P (w₁.install i t) (update e i t.engine) (update pc i t.pc)
      chain := by
  have hclosed := Party.regime_closed (i := i) hC.chained
  have hserves := hC.serves (i := i) hids honly
  have hrun := (hC.listeners.listening i).running
  have hpair : pc i ≠ .receiving .awaitPairing := by
    intro hpc
    have hh := hC.holds i
    rw [hpc] at hh
    rcases hh.2 with hp | hp <;> cases hp
  have hservice := service_resumed hr
  have hbox : ∀ j, (update e i t.engine j).mailboxQid = (e j).mailboxQid := by
    intro j
    by_cases hj : j = i
    · subst hj
      rw [update_self, (resumed_sends (hC.listeners.addressed j) hr).1]
    · rw [update_of_ne hj]
  have haside := aside_resumed hC.listeners.orderly hrun (hC.listeners.addressed i) hr
  refine ⟨hC.listeners.resumed hr hpair, hC.chained, hservice ▸ hC.created, hservice ▸ hC.sent,
    ?_, fun j => ?_, fun j => ?_, fun k f hf => ?_, fun j s rid hpc => ?_⟩
  · obtain ⟨roster, hr, hq⟩ := hC.roster
    exact ⟨roster, hservice ▸ hr, fun j => by rw [hbox]; exact hq j⟩
  · rw [hbox, hservice]
    exact hC.arrived j
  · by_cases hj : j = i
    · subst hj
      rw [update_self, update_self, install_self]
      rw [nodes_resumed hr]
      exact holds_resumed hclosed (hC.holds j) hserves hr
    · rw [update_of_ne hj, update_of_ne hj, haside.nodes j hj]
      exact hC.holds j
  · rcases up_resumed hr hf with hf | ⟨hframe, -⟩
    · exact hC.frames k f hf
    · rcases frame_meets hclosed (hC.holds i) hserves hr hframe with ⟨s, hs, hst⟩ | hack | hsub
      · obtain ⟨-, n, wire, ha, -⟩ := hst
        refine .inl ⟨P.epoch n, computeTag P.crypto P.inbox.2 P.inbox.1 s.envelope, s.envelope, ?_⟩
        rw [hs, ha.sending]
        rfl
      · exact .inr (.inl hack)
      · exact .inr (.inr hsub)
  · by_cases hj : j = i
    · subst hj
      rw [update_self] at hpc ⊢
      obtain ⟨-, n, wire, ha, hu⟩ := stalled_resumed hclosed (hC.holds j) hserves hr hpc
      rw [← ha.member.length_merged] at hu
      exact .made hr hC.listeners.orderly hpc hu
    · rw [update_of_ne hj] at hpc ⊢
      obtain ⟨hown, hlt⟩ := hC.relay_owned j
      have hsame := haside.conns (e j).relay hlt (by
        rw [hown]
        exact fun he => hj (Option.some.inj he))
      exact (hC.pledged j s rid hpc).same (by rw [hsame]) (by rw [hsame]) (by rw [hsame])
        (by rw [hsame])

end Stretches
end Rosette.Network
