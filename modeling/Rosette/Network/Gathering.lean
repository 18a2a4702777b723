import Rosette.Network.Convergence
import Rosette.Network.Reached

/-! # Runs of committing engines

Engines that share an inbox and have nothing of it left to read commit as they like.
As long as no acceptance is lost on its way back, every one of them merges the commits
the relay accepted, in order. Without losses none ever is.
-/
namespace Rosette.Network
open Foundation Proto Rosette.Core Relay Engine List Function World

variable {mls : OpenMls} {ι : Type} {P : Party mls ι} {w : World mls ι} {e : ι → ChatEngine mls}
  {pc : ι → Pc} {chain : List (Landed ι)} {h : Happening mls ι} {es : List (Happening mls ι)}
  {c : Crypto} {x : QueueId}

/-- Engines at the start: idle, in one group at its base epoch, with nothing under way and
nothing unread. -/
structure Gathered [DecidableEq ι] (P : Party mls ι) (w : World mls ι) (e : ι → ChatEngine mls) :
    Prop where
  reached : Reached P.crypto w
  running : ∀ i, (w.nodes i).process = .running (e i) .idle
  apart : ∀ i j, (e i).mailboxQid = (e j).mailboxQid → i = j
  mailbox : ∀ i, w.service.relay.ledger.isMailbox (e i).mailboxQid = true
  inbox : ∀ i, (e i).inbox = some P.inbox
  created : CreatedWith P.inbox.1 P.base w.service.log
  uncommitted : commitsVia P.inbox.1 w.service.log = []
  roster : ∃ roster, rosterIn w.service.log P.inbox.1 = some roster ∧
    ∀ i, roster.count (e i).mailboxQid = 1
  session : ∀ i, P.laws.Holds i (e i).session [] none P.base
  seen : ∀ i, (e i).seen = P.old i
  arrived : ∀ i, ∀ a ∈ arrivals (e i).mailboxQid w.service.log, a.messageId ∈ (e i).seen
  streamed : ∀ i, ∀ a ∈ w.stream (e i).relay, a.messageId ∈ (e i).seen
  acked : ∀ i id, .acked id ∈ boxHistory (e i).mailboxQid w.service.log → id ∈ (e i).seen
  still : ∀ k, (w.conns k).up = []
  merged : ∀ i, (e i).trace.merged = []
  calls : ∀ i, ∀ p ∈ (e i).calls, ¬ P.Own i p.2
  results : ∀ i envelope epoch, .committed envelope (.ok epoch) ∉ (w.nodes i).results

section Start
variable [DecidableEq ι]

theorem Gathered.listening (h : Gathered P w e) (i : ι) : Listening w i (e i) .idle where
  running := h.running i
  mailbox := h.mailbox i
  attached k hk := by
    obtain rfl : k = (e i).relay := by
      rcases hk with hk | ⟨_, _, hpc⟩
      · exact hk
      · cases hpc
    have hsolo := h.reached.sound.solo i (e i).relay (by rw [h.running i]; exact .inl rfl)
    rw [h.running i] at hsolo
    have hstream : unseen Envelope.messageId (e i).seen (w.stream (e i).relay) = [] :=
      unseen_eq_nil.mpr (h.streamed i)
    have harr : unseen Envelope.messageId (e i).seen
        (arrivals (e i).mailboxQid w.service.log) = [] := unseen_eq_nil.mpr (h.arrived i)
    have hcovers : Covers Envelope.messageId (e i).seen (w.stream (e i).relay)
        (arrivals (e i).mailboxQid w.service.log) := hstream.trans harr.symm
    exact ⟨hsolo, hcovers.trails, fun _ _ => hcovers⟩
  acked := h.acked i
  acking k rid id hm := by simp [h.still k] at hm

theorem Gathered.converging (h : Gathered P w e) : Converging P w e (fun _ => .idle) [] where
  listeners := ⟨h.reached.sound.orderly, h.apart, h.listening⟩
  chained := ⟨by rintro n b ⟨⟩, by rintro b ⟨⟩, by rintro n b ⟨⟩⟩
  created := h.created
  sent := h.uncommitted
  roster := h.roster
  arrived i := ⟨_, fun a ha => h.seen i ▸ h.arrived i a ha, (append_nil _).symm⟩
  holds i := by
    refine ⟨fun envelope epoch hm => absurd hm (h.results i envelope epoch), 0, none,
      ⟨le_rfl, h.inbox i, h.merged i, fun id => ?_, ?_, h.calls i⟩, by rintro m b _ ⟨⟩⟩
    · rw [h.seen i]
      simp
    · rw [show P.epoch 0 = P.base from UInt64.add_zero _]
      exact h.session i
  frames k f hf := by simp [h.still k] at hf
  pledged i s rid hpc := by cases hpc

end Start

section Runs
variable {w' : World mls ι}

theorem DistinctIds.back {more : List Exchange} (hlog : w'.service.log = w.service.log ++ more)
    (hids : DistinctIds P w') : DistinctIds P w := by
  have hsub : ∀ a, a ∈ commitsVia P.inbox.1 w.service.log →
      a ∈ commitsVia P.inbox.1 w'.service.log := by
    intro a ha
    rw [hlog, commitsVia, filterMap_append]
    exact mem_append_left _ ha
  exact ⟨fun a b ha hb => hids.apart a b (hsub a ha) (hsub b hb),
    fun a ha => hids.fresh a (hsub a ha)⟩

theorem Converging.member (hC : Converging P w e pc chain) (hids : DistinctIds P w) (i : ι) :
    (w.nodes i).process = .running (e i) (pc i) ∧
    (e i).trace.merged <+: (commitsVia P.inbox.1 w.service.log).map Prod.snd ∧
    (∀ built epoch, .committed built (.ok epoch) ∈ (w.nodes i).results →
      ∃ target envelope, built = some envelope ∧ P.Own i envelope ∧ epoch = target + 1 ∧
        (target, envelope) ∈ commitsVia P.inbox.1 w.service.log) ∧
    (∀ p ∈ (e i).calls, ¬ P.Own i p.2) ∧
    (CaughtUp w (e i) → (e i).trace.merged = (commitsVia P.inbox.1 w.service.log).map Prod.snd ∧
      ∃ epoch, w.service.relay.ledger.epoch P.inbox.1 = some epoch ∧
        (e i).session.epoch = .ok epoch) := by
  obtain ⟨hhonest, n, pending, hm⟩ := member_of_holds (hC.holds i)
  have hsent : (commitsVia P.inbox.1 w.service.log).map Prod.snd = chain.map Landed.envelope := by
    rw [hC.sent, map_map]
    rfl
  refine ⟨(hC.listeners.listening i).running, ?_, fun built epoch hres => ?_, hm.calls,
    fun hup => ?_⟩
  · rw [hm.merged, hsent]
    exact .map _ <| take_prefix n chain
  · obtain ⟨b, hb, rfl, rfl, rfl⟩ := hhonest built epoch hres
    obtain ⟨m, hat⟩ := mem_iff_getElem?.mp hb
    refine ⟨b.epoch, b.envelope, rfl, ⟨_, _, hC.chained.commits m b hat, hC.chained.wrapped b hb⟩,
      rfl, ?_⟩
    rw [hC.sent]
    exact mem_map_of_mem hb
  · have hdrop := hC.unseen_chain hids hm
    rw [unseen_eq_nil.mpr hup] at hdrop
    have hn : n = chain.length := by
      have hlen := congrArg length hdrop
      rw [length_map, length_drop, length_nil] at hlen
      have := hm.le
      omega
    subst hn
    refine ⟨?_, ?_⟩
    · rw [hm.merged, take_length, hsent]
    · obtain ⟨epoch, hep, hnat⟩ := epoch_of_commits hC.listeners.orderly.explains hC.created
      refine ⟨epoch, hep, ?_⟩
      rw [hC.sent, length_map] at hnat
      rw [hm.holds.epoch_eq, Except.ok.injEq, ← UInt64.toNat_inj,
        P.epoch_toNat (by rw [← hnat]; exact epoch.toNat_lt), hnat]

variable [DecidableEq ι]

theorem Converging.step (hC : Converging P w e pc chain) (hids : DistinctIds P w)
    (honly : OnlyCommits h) (hkept : Unbroken P.crypto P.inbox.1 w h)
    (hs : w.step P.crypto h = some w') : ∃ e' pc' chain', Converging P w' e' pc' chain' := by
  rcases hC.listeners.step hs (by rintro i rfl; exact honly) with
    ⟨-, hm⟩ | ⟨i, w₁, t, -, hr, rfl⟩
  · obtain ⟨chain', hC'⟩ := hC.moved hm honly hkept
    exact ⟨e, pc, chain', hC'⟩
  · exact ⟨_, _, chain, hC.resumed hids honly hr⟩

theorem run_converges (hg : Gathered P w e) (honly : ∀ h ∈ es, OnlyCommits h)
    (hkept : Along (World.step P.crypto) (Unbroken P.crypto P.inbox.1) w es)
    (hrun : run (World.step P.crypto) w es = some w') (hids : DistinctIds P w') :
    ∃ e' pc chain, Converging P w' e' pc chain := by
  refine run_invariant_under (P := fun w => ∃ e pc chain, Converging P w e pc chain)
    (C := fun w h => OnlyCommits h ∧ Unbroken P.crypto P.inbox.1 w h)
    ⟨e, _, [], hg.converging⟩ (fun w h w' _ hs hids => ?_) (fun w h w' hC hids hc hs => ?_)
    (along_iff.mpr fun pre h post t hes ht => ⟨honly h (by rw [hes]; simp),
      along_iff.mp hkept pre h post t hes ht⟩) hrun hids
  · obtain ⟨more, hlog⟩ := step_log hs
    exact hids.back hlog
  · obtain ⟨e, pc, chain, hC⟩ := hC
    obtain ⟨more, hlog⟩ := step_log hs
    exact hC.step (hids.back hlog) hc.1 hc.2 hs

/-- As long as no acceptance is lost on its way back, an engine that has no call in progress and
nothing left to read is where the relay is. -/
theorem caughtUp_matches_relay (hg : Gathered P w e) {es : List (Happening mls ι)}
    (honly : ∀ h ∈ es, OnlyCommits h)
    (hkept : Along (World.step P.crypto) (Unbroken P.crypto P.inbox.1) w es)
    (hrun : run (World.step P.crypto) w es = some w') (hids : DistinctIds P w') (i : ι)
    {e' : ChatEngine mls} (hidle : (w'.nodes i).process = .running e' .idle)
    (hup : CaughtUp w' e') :
    (∃ epoch, w'.service.relay.ledger.epoch P.inbox.1 = some epoch ∧
      e'.session.epoch = .ok epoch) ∧
    e'.trace.merged = (commitsVia P.inbox.1 w'.service.log).map Prod.snd := by
  obtain ⟨e₁, pc, chain, hC⟩ := run_converges hg honly hkept hrun hids
  obtain ⟨hproc, -, -, -, hcaught⟩ := hC.member hids i
  rw [hidle] at hproc
  obtain ⟨rfl, -⟩ := Process.running.inj hproc
  obtain ⟨hm, hepoch⟩ := hcaught hup
  exact ⟨hepoch, hm⟩

end Runs

/-! ## Without losses -/

/-- No connection is lost. -/
def Unlost : Happening mls ι → Prop
  | .sever _ => False
  | .breakWriter _ => False
  | .hangUp _ => False
  | .restart _ _ => False
  | _ => True

instance : (h : Happening mls ι) → Decidable (Unlost h)
  | .sever _ | .breakWriter _ | .hangUp _ | .restart _ _ => isFalse id
  | .call _ _ _ | .contactLink _ _ | .attachStore _ _ | .push _ _ | .disconnected _ | .replied _ _
  | .lost _ _ | .connected _ | .connectFailed _ | .drop _ | .crash _ | .start _ _ | .serve _ _
  | .reply _ | .deliver _ | .dial | .outside _ _ => isTrue trivial

/-- Every commit under way has its engine waiting for it, on a connection that is up. -/
structure Faithful (w : World mls ι) (e : ι → ChatEngine mls) (pc : ι → Pc) : Prop where
  isOpen : ∀ i k, (Process.running (e i) (pc i)).Uses k → (w.conns k).closed = false
  waited : ∀ k rid x target tag envelope,
    (rid, .sendToGroupInbox x (.commit target) tag envelope) ∈ (w.conns k).up →
    ∃ i s, pc i = .sending s rid ∧ (e i).relay = k

section Losses
variable {w' w₁ : World mls ι} {k : ConnId}

theorem Faithful.unbroken (hf : Faithful w e pc)
    (hrun : ∀ i, (w.nodes i).process = .running (e i) (pc i)) (hh : Unlost h) :
    Unbroken c x w h := by
  cases h with
  | serve k =>
    intro rid target tag envelope rest t hup _
    obtain ⟨i, s, hpc, hk⟩ := hf.waited k rid x target tag envelope
      (by rw [hup]; exact mem_cons_self)
    exact ⟨hf.isOpen i k (.inl hk.symm), i, e i, s, by rw [hrun, hpc], hk⟩
  | sever | restart => exact hh.elim
  | _ => trivial

theorem Faithful.moved (hf : Faithful w e pc) (ho : Orderly c w)
    (hrun : ∀ i, (w.nodes i).process = .running (e i) (pc i)) (hm : Moved c w h w') (hh : Unlost h)
    (honly : OnlyCommits h) : Faithful w' e pc := by
  refine ⟨fun i k hk => ?_, fun k rid x target tag envelope hin => ?_⟩
  · obtain ⟨hown, hlt⟩ := ho.owned i k (by rw [hrun]; exact hk)
    have hopen := hf.isOpen i k hk
    cases hm.carried hlt (by rw [hown]; rfl) with
    | same up replies answered closed | served event head handled log up replies answered closed
    | died head up replies answered closed => rw [closed, hopen]
    | replied isOpen head up replies answered closed => exact closed
    | severed event =>
      rw [event] at hh
      exact hh.elim
  · rcases hm.grows.2.2 k _ hin with hin | rfl
    · exact hf.waited k rid x target tag envelope hin
    · exact honly.elim

variable [DecidableEq ι] {i : ι} {t : Turn mls}

theorem sending_of_frame {e : ChatEngine mls} {pc : Pc} (hr : Resumed c w i e pc h w₁ t)
    {kind : GroupSendKind} {tag : AuthTag} {envelope : Envelope}
    (hf : t.frame = some (k, .sendToGroupInbox x kind tag envelope)) :
    ∃ s, t.pc = .sending s (w₁.conns k).nextCall ∧ t.engine.relay = k := by
  by_cases hc : h = .connected i
  · subst hc
    cases hr
    cases hf
  · obtain ⟨q, hq⟩ := exists_addressee (w.conns e.relay).received
    obtain ⟨e₁, -, hm⟩ := kept_resumed hq hr hc
    cases hm with
    | sending h =>
      cases hf
      refine ⟨_, congrArg (Pc.sending _) ?_, rfl⟩
      obtain ⟨received, hconn⟩ := before_resumed_conn hr hc e₁.relay
      rw [ChatEngine.Kept.relay h, hconn]
      rfl
    | _ => cases hf

theorem closed_resumed {e : ChatEngine mls} {pc : Pc} (hr : Resumed c w i e pc h w₁ t)
    (hk : (w.conns k).closed = false) : ((w₁.install i t).conns k).closed = false := by
  have hbefore : (w₁.conns k).closed = false := by
    rcases before_resumed hr with rfl | ⟨d, p, rest, -, -, rfl⟩ | ⟨-, rfl⟩
    · exact hk
    · by_cases hke : k = e.relay
      · subst hke
        rw [setConn_self]
        exact hk
      · rw [setConn_of_ne w hke]
        exact hk
    · by_cases hkn : k = w.nextConn
      · subst hkn
        rw [dial_self]
        rfl
      · rw [dial_of_ne w hkn]
        exact hk
  obtain ⟨up, rid, hconn⟩ := w₁.send_conn t.frame k
  rw [install_conns, hconn]
  exact hbefore

theorem sending_resumed {e : ChatEngine mls} {s : Sending} {rid : ℕ}
    (hr : Resumed c w i e (.sending s rid) h w₁ t) :
    (∃ reply, (rid, reply) ∈ (w.conns e.relay).answered) ∨ (w.conns e.relay).closed = true := by
  cases hr with
  | sent sending answered =>
    cases sending
    exact .inl ⟨_, answered⟩
  | sendLost sending closed => exact .inr closed
  | drop droppable => cases droppable
  | _ => contradiction

theorem Faithful.resumed (hf : Faithful w e pc) (ho : Orderly c w)
    (hr : Resumed c w i (e i) (pc i) h w₁ t) :
    Faithful (w₁.install i t) (update e i t.engine) (update pc i t.pc) := by
  refine ⟨fun j k hk => ?_, fun k rid x target tag envelope hin => ?_⟩
  · by_cases hj : j = i
    · subst hj
      rw [update_self, update_self] at hk
      rcases uses_resumed hr hk with hk | ⟨rfl, rfl⟩
      · exact closed_resumed hr (hf.isOpen j k hk)
      · cases hr
        obtain ⟨up, rid, hconn⟩ := (w.dial (some j)).send_conn (onConnected
          ((w.dial (some j)).link w.nextConn) (e j) _ w.nextConn).frame w.nextConn
        rw [install_conns, hconn, dial_self]
        rfl
    · rw [update_of_ne hj, update_of_ne hj] at hk
      exact closed_resumed hr (hf.isOpen j k hk)
  · rcases up_resumed hr hin with hold | ⟨hframe, hrid⟩
    · obtain ⟨j, s, hpc, hk⟩ := hf.waited k rid x target tag envelope hold
      by_cases hj : j = i
      · -- the frame would have been answered, or its connection lost
        subst hj
        rw [hpc] at hr
        rcases sending_resumed hr with ⟨reply, hrep⟩ | hclosed
        · rw [hk] at hrep
          exact absurd hrep ((ho.numbered k).unanswered hold reply).2
        · simp [hf.isOpen j _ (.inl rfl)] at hclosed
      · exact ⟨j, s, by rw [update_of_ne hj, hpc], by rw [update_of_ne hj, hk]⟩
    · obtain ⟨s, hpc, hk⟩ := sending_of_frame hr hframe
      rw [← hrid] at hpc
      exact ⟨i, s, by rw [update_self, hpc], by rw [update_self, hk]⟩

theorem run_faithful (hg : Gathered P w e) (hopen : ∀ i, (w.conns (e i).relay).closed = false)
    (honly : ∀ h ∈ es, OnlyCommits h ∧ Unlost h) (hrun : run (World.step P.crypto) w es = some w')
    (hids : DistinctIds P w') : ∃ e' pc chain, Converging P w' e' pc chain ∧ Faithful w' e' pc := by
  refine run_invariant_under
    (P := fun w => ∃ e pc chain, Converging P w e pc chain ∧ Faithful w e pc)
    ⟨e, _, [], hg.converging, fun i k hk => ?_, fun k rid x target tag envelope hin => ?_⟩
    (fun w h w' _ hs hids => ?_) (fun w h w' hC hids hc hs => ?_)
    (along_of_forall _ fun _ h hh => honly h hh) hrun hids
  · rcases hk with rfl | ⟨_, _, hpc⟩
    · exact hopen i
    · cases hpc
  · simp [hg.still k] at hin
  · obtain ⟨more, hlog⟩ := step_log hs
    exact hids.back hlog
  · obtain ⟨e, pc, chain, hC, hf⟩ := hC
    have hrun := fun i => (hC.listeners.listening i).running
    have ho := hC.listeners.orderly
    obtain ⟨more, hlog⟩ := step_log hs
    rcases hC.listeners.step hs (by rintro i rfl; exact hc.1) with
      ⟨-, hm⟩ | ⟨i, w₁, t, -, hr, rfl⟩
    · obtain ⟨chain', hC'⟩ := hC.moved hm hc.1 (hf.unbroken hrun hc.2)
      exact ⟨e, pc, chain', hC', hf.moved ho hrun hm hc.2 hc.1⟩
    · exact ⟨_, _, chain, hC.resumed (hids.back hlog) hc.1 hr, hf.resumed ho hr⟩

/-- Without losses: what each member has merged is an initial part of what the relay accepted, and
all of it once the member is idle with nothing left to read; the commits reported as landed are
the member's own, accepted for the epoch before the one reported; and no session is handed a
commit of its own. -/
theorem merged_is_accepted (hg : Gathered P w e) (hopen : ∀ i, (w.conns (e i).relay).closed = false)
    {es : List (Happening mls ι)} (honly : ∀ h ∈ es, OnlyCommits h ∧ Unlost h)
    (hrun : run (World.step P.crypto) w es = some w') (hids : DistinctIds P w') (i : ι) :
    ∃ e' pc, (w'.nodes i).process = .running e' pc ∧
      e'.trace.merged <+: (commitsVia P.inbox.1 w'.service.log).map Prod.snd ∧
      (∀ built epoch, .committed built (.ok epoch) ∈ (w'.nodes i).results →
        ∃ target envelope, built = some envelope ∧ P.Own i envelope ∧ epoch = target + 1 ∧
          (target, envelope) ∈ commitsVia P.inbox.1 w'.service.log) ∧
      (∀ p ∈ e'.calls, ¬ P.Own i p.2) ∧
      (pc = .idle → CaughtUp w' e' →
        e'.trace.merged = (commitsVia P.inbox.1 w'.service.log).map Prod.snd) := by
  obtain ⟨e', pc, chain, hC, -⟩ := run_faithful hg hopen honly hrun hids
  obtain ⟨hproc, hmerged, hresults, hcalls, hcaught⟩ := hC.member hids i
  exact ⟨e' i, pc i, hproc, hmerged, hresults, hcalls, fun _ hup => (hcaught hup).1⟩

end Losses

/-! ## Two devices that have just paired -/
section Sample

theorem named_pair : Named (fun i : Bool => if i then 8 else 7) [8] :=
  ⟨by decide, by decide, by decide⟩

def plainParty : Party OpenMls.plain Bool where
  laws := .plain named_pair
  crypto := .plain
  inbox := (.fill 3, .fill 3)
  base := 1
  old i := (pairedEngine i).seen

theorem paired_engines :
    (∀ i j, (pairedEngine i).mailboxQid = (pairedEngine j).mailboxQid → i = j) ∧
    ∀ i, pairedWorld.service.relay.ledger.isMailbox (pairedEngine i).mailboxQid = true ∧
      (pairedEngine i).inbox = some plainParty.inbox ∧
      count (pairedEngine i).mailboxQid [.fill 2, .fill 1] = 1 ∧
      (∀ a ∈ arrivals (pairedEngine i).mailboxQid pairedWorld.service.log,
        a.messageId ∈ (pairedEngine i).seen) ∧
      (∀ a ∈ pairedWorld.stream (pairedEngine i).relay, a.messageId ∈ (pairedEngine i).seen) ∧
      ((boxHistory (pairedEngine i).mailboxQid pairedWorld.service.log).all fun b => match b with
        | .acked id => id ∈ (pairedEngine i).seen
        | .arrive _ _ => true) = true ∧
      (pairedEngine i).trace.merged = [] ∧ (pairedEngine i).calls.isEmpty = true ∧
      ((pairedWorld.nodes i).results.all fun r => match r with
        | .committed _ (.ok _) => false
        | _ => true) = true ∧
      ((pairedEngine i).session.group.any fun g : PlainGroup =>
        g.me = (if i then 8 else 7) ∧ g.pending = false ∧ g.history = [8]) = true ∧
      (pairedWorld.conns (pairedEngine i).relay).closed = false := by
  decide +kernel

theorem paired_relay : commitsVia plainParty.inbox.1 pairedWorld.service.log = [] ∧
    rosterIn pairedWorld.service.log plainParty.inbox.1 = some [Bytes.fill 2, Bytes.fill 1] ∧
    (∀ k < pairedWorld.nextConn, (pairedWorld.conns k).up = []) ∧
    (pairedWorld.service.log.any fun p => match p with
      | (.createGroupInbox _ i _ _, .queueCreated x _) =>
        i = plainParty.base ∧ x = plainParty.inbox.1
      | _ => false) = true := by
  decide +kernel

theorem paired_created :
    CreatedWith plainParty.inbox.1 plainParty.base pairedWorld.service.log := by
  obtain ⟨⟨request, reply⟩, hm, hp⟩ := List.any_eq_true.mp paired_relay.2.2.2
  split at hp
  · rename_i solution i roster attestation x k heq
    cases heq
    obtain ⟨rfl, rfl⟩ := of_decide_eq_true hp
    exact ⟨solution, roster, attestation, k, hm⟩
  · cases hp

theorem paired_gathered : Gathered plainParty pairedWorld pairedEngine := by
  obtain ⟨hapart, hengines⟩ := paired_engines
  choose hbox hinbox hroster harrived hstreamed hacked hmerged hcalls hresults hsession _
    using hengines
  refine ⟨paired_reached, paired_running, hapart, hbox, hinbox, paired_created, paired_relay.1,
    ⟨_, paired_relay.2.1, hroster⟩, fun i => ?_, fun _ => rfl, harrived, hstreamed,
    fun i id hid => of_decide_eq_true (all_eq_true.mp (hacked i) _ hid), fun k => ?_, hmerged,
    fun i p hp => ?_, fun i envelope epoch hr => ?_⟩
  · obtain ⟨g, hg, hs⟩ := (Option.any_eq_true _ _).mp (hsession i)
    obtain ⟨hme, hpending, hhistory⟩ := of_decide_eq_true hs
    refine ⟨g, hg, ⟨hme, ?_, [], not_mem_nil, hhistory, rfl⟩, ?_⟩
    · rw [if_neg (by rw [hpending]; decide)]
    · change UInt64.ofNat (PlainGroup.history g).length = 1
      rw [hhistory]
      rfl
  · by_cases hk : k < pairedWorld.nextConn
    · exact paired_relay.2.2.1 k hk
    · exact (paired_reached.sound.orderly.unopened k (Nat.le_of_not_lt hk)).1
  · simp [isEmpty_iff.mp (hcalls i)] at hp
  · cases all_eq_true.mp (hresults i) _ hr

/-- A sufficient test for a step that loses no acceptance. -/
def keepsAcceptance (x : QueueId) (w : World OpenMls.plain Bool) :
    Happening OpenMls.plain Bool → Bool
  | .serve k _ => match (w.conns k).up with
    | (rid, .sendToGroupInbox y (.commit _) _ _) :: _ => y ≠ x ∨ (w.conns k).closed = false ∧
        ∃ i, (match (w.nodes i).process with
          | .running e (.sending _ rid') => rid' = rid ∧ e.relay = k
          | _ => false) = true
    | _ => true
  | .sever k => ∀ i, (match (w.nodes i).process with
      | .running e (.sending _ rid) => e.relay ≠ k ∨ (rid, .ok) ∉ (w.conns k).replies
      | _ => true) = true
  | .restart _ (some _) => false
  | _ => true

variable {w : World OpenMls.plain Bool}

theorem unbroken_of_keepsAcceptance {h : Happening OpenMls.plain Bool}
    (hk : keepsAcceptance x w h = true) : Unbroken c x w h := by
  cases h with
  | serve =>
    intro rid target tag envelope rest t hup _
    simp only [keepsAcceptance, hup] at hk
    obtain ⟨hopen, i, hi⟩ := (of_decide_eq_true hk).resolve_left (not_not.mpr rfl)
    split at hi
    · rename_i e s rid' hp
      obtain ⟨rfl, hrelay⟩ := of_decide_eq_true hi
      exact ⟨hopen, i, e, s, hp, hrelay⟩
    · cases hi
  | sever =>
    intro i e s rid hp hrelay
    have hi := of_decide_eq_true hk i
    simp only [hp] at hi
    exact (of_decide_eq_true hi).resolve_left (not_not.mpr hrelay)
  | restart now inFlight =>
    cases inFlight with
    | none => trivial
    | some => cases hk
  | _ => trivial

/-- The listener loses its connection while the scanner commits, and catches up on a new one. -/
def missedCommit : List (Happening OpenMls.plain Bool) :=
  [.call false .nextEvent ⟨0, true⟩, .sever 0, .disconnected false, .connected false,
    .call true .commitSelfUpdate ⟨0, true⟩] ++ exchange true 1 (.fill 0) ++
    exchange false 2 (.fill 0) ++ [.call false .nextEvent ⟨0, true⟩,
    .call false .nextEvent ⟨0, true⟩, .deliver 2, .push false ⟨0, true⟩] ++
    exchange false 2 (.fill 0)

/-- What a run from the paired devices shows of one of them. -/
def caughtUpAt (i : Bool) (w : World OpenMls.plain Bool) (p : ChatEngine OpenMls.plain → Bool) :
    Bool :=
  (w.nodes i).process.idleEngine.any (fun e => p e ∧
    ∀ a ∈ arrivals e.mailboxQid w.service.log, a.messageId ∈ e.seen) ∧
  (∀ a ∈ commitsVia plainParty.inbox.1 w.service.log,
    ∀ b ∈ commitsVia plainParty.inbox.1 w.service.log, a.2.messageId = b.2.messageId → a.2 = b.2) ∧
  ∀ a ∈ commitsVia plainParty.inbox.1 w.service.log, ∀ i, a.2.messageId ∉ plainParty.old i

theorem caughtUp_of_caughtUpAt {i : Bool} {P : ChatEngine OpenMls.plain → Prop} [DecidablePred P]
    (h : caughtUpAt i w (fun e => P e) = true) :
    DistinctIds plainParty w ∧ ∃ e, (w.nodes i).process = .running e .idle ∧ CaughtUp w e ∧
      P e := by
  obtain ⟨he, hapart, hfresh⟩ := of_decide_eq_true h
  obtain ⟨e, hp, he⟩ := (Option.any_eq_true _ _).mp he
  obtain ⟨hpe, hup⟩ := of_decide_eq_true he
  exact ⟨⟨fun a b ha hb => hapart a ha b hb, hfresh⟩, e, Process.eq_of_idleEngine hp, hup,
    of_decide_eq_true hpe⟩

theorem caughtUp_matches_relay_missedCommit : ∃ w e,
    run (World.step .plain) pairedWorld missedCommit = some w ∧
    (w.nodes false).process = .running e .idle ∧ CaughtUp w e ∧
    e.trace.merged = (commitsVia plainParty.inbox.1 w.service.log).map Prod.snd ∧
    e.trace.merged ≠ [] := by
  obtain ⟨w, hw, h⟩ : ∃ w, run (World.step .plain) pairedWorld missedCommit = some w ∧
      caughtUpAt false w (fun e => e.trace.merged ≠ []) := by decide +kernel
  obtain ⟨hids, e, hidle, hup, hne⟩ := caughtUp_of_caughtUpAt h
  have hkept : Along (World.step .plain) (Unbroken .plain plainParty.inbox.1) pairedWorld
      missedCommit :=
    along_mono (fun _ _ => unbroken_of_keepsAcceptance) (show Along (World.step .plain)
      (fun w h => keepsAcceptance plainParty.inbox.1 w h = true) pairedWorld missedCommit by
        decide +kernel)
  have honly : ∀ h ∈ missedCommit, OnlyCommits h := by decide
  exact ⟨w, e, hw, hidle, hup,
    (caughtUp_matches_relay paired_gathered honly hkept hw hids false hidle hup).2, hne⟩

/-- The scanner's commit is accepted and the reply is lost. It reconnects, sends the commit again,
is told that its epoch is over, drops the commit, and fails on its own echo. -/
def lostReply : List (Happening OpenMls.plain Bool) :=
  [.call true .commitSelfUpdate ⟨0, true⟩, .serve 1 (.fill 0), .sever 1, .lost true ⟨0, true⟩,
    .connected true] ++ exchange true 2 (.fill 0) ++ exchange true 2 (.fill 0) ++
    [.deliver 2, .push true ⟨0, true⟩]

theorem lostReply_forks : ∃ w e, (∀ h ∈ lostReply, OnlyCommits h) ∧
    run (World.step .plain) pairedWorld lostReply = some w ∧ DistinctIds plainParty w ∧
    (w.nodes true).process = .running e .idle ∧ CaughtUp w e ∧
    e.session.epoch = .ok 1 ∧ w.service.relay.ledger.epoch plainParty.inbox.1 = some 2 ∧
    e.trace.merged = [] ∧ (commitsVia plainParty.inbox.1 w.service.log).length = 1 := by
  obtain ⟨w, hw, h⟩ : ∃ w, run (World.step .plain) pairedWorld lostReply = some w ∧
      caughtUpAt true w (fun e => e.session.epoch.toOption = some 1 ∧ e.trace.merged = [] ∧
        w.service.relay.ledger.epoch plainParty.inbox.1 = some 2 ∧
        (commitsVia plainParty.inbox.1 w.service.log).length = 1) := by decide +kernel
  obtain ⟨hids, e, hidle, hup, hepoch, hmerged, hrelay, hlanded⟩ := caughtUp_of_caughtUpAt h
  refine ⟨w, e, by decide, hw, hids, hidle, hup, ?_, hrelay,
    hmerged, hlanded⟩
  cases hs : e.session.epoch with
  | error => simp [hs, Except.toOption] at hepoch
  | ok =>
    rw [hs] at hepoch
    rw [Option.some.inj hepoch]

/-- Both commit at once: the scanner wins, the listener merges the winner and commits again. -/
def racingCommits : List (Happening OpenMls.plain Bool) :=
  [.call false .commitSelfUpdate ⟨0, true⟩, .call true .commitSelfUpdate ⟨0, true⟩] ++
    exchange true 1 (.fill 0) ++ exchange false 0 (.fill 0) ++
    [.deliver 0, .push false ⟨0, true⟩] ++ exchange false 0 (.fill 0) ++ exchange false 0 (.fill 0)

theorem merged_is_accepted_racingCommits : ∃ w e,
    run (World.step .plain) pairedWorld racingCommits = some w ∧
    (w.nodes false).process = .running e .idle ∧
    e.trace.merged = (commitsVia plainParty.inbox.1 w.service.log).map Prod.snd ∧
    e.trace.merged.length = 2 := by
  obtain ⟨w, hw, h⟩ : ∃ w, run (World.step .plain) pairedWorld racingCommits = some w ∧
      caughtUpAt false w (fun e => e.trace.merged.length = 2) := by decide +kernel
  obtain ⟨hids, e, hidle, hup, hlen⟩ := caughtUp_of_caughtUpAt h
  have hopen : ∀ i, (pairedWorld.conns (pairedEngine i).relay).closed = false :=
    fun i => (paired_engines.2 i).2.2.2.2.2.2.2.2.2.2
  have honly : ∀ h ∈ racingCommits, OnlyCommits h ∧ Unlost h := by decide
  obtain ⟨e', pc, hp, -, -, -, hmerged⟩ :=
    merged_is_accepted paired_gathered hopen honly hw hids false
  rw [hidle] at hp
  obtain ⟨rfl, rfl⟩ := Process.running.inj hp
  exact ⟨w, e, hw, hidle, hmerged rfl hup, hlen⟩

end Sample
end Rosette.Network
