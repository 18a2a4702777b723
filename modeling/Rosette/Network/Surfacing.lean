import Rosette.Engine.Reading
import Rosette.Network.Devices
import Rosette.Network.Gathering

/-! # Messages surface once and in order

Pushes are lost with their connections and replayed on the next one, resends arrive
twice, and a caller drops its future wherever it waits. The messages of others that
have reached the mailbox, each at its first arrival, are what the engine's calls
return, in that order.
-/
namespace Rosette.Network
open Foundation Proto Rosette.Core Relay Engine List World

variable {mls : OpenMls} {ι : Type} {c : Crypto} {w w' : World mls ι} {i : ι} {e : ChatEngine mls}
  {pc : Pc} {h : Happening mls ι} {O : Outset mls} {n : ℕ}

def Happening.acksOn : Happening mls ι → Option QueueId
  | .outside _ (.ack q _) => some q
  | _ => none

/-- The mailbox is the device's alone: no one else acks there. -/
structure Private (i : ι) (q : QueueId) (w : World mls ι) (h : Happening mls ι) : Prop where
  acks : h.acksOn ≠ some q
  apart : ∀ j, j ≠ i → (w.nodes j).process.mailboxQid ≠ some q

instance [DecidableEq ι] [Fintype ι] (i : ι) (q : QueueId) (w : World mls ι)
    (h : Happening mls ι) : Decidable (Private i q w h) :=
  decidable_of_iff (h.acksOn ≠ some q ∧ ∀ j, j ≠ i → (w.nodes j).process.mailboxQid ≠ some q)
    ⟨fun hp => ⟨hp.1, hp.2⟩, fun hp => ⟨hp.acks, hp.apart⟩⟩

section Listening
variable [DecidableEq ι] {j : ι}

theorem Sound.step_aside (hS : Sound c w) (hj : h.node = some j) (hs : w.step c h = some w') :
    Aside (fun p => (w.nodes j).process.mailboxQid = some p) w w' j := by
  unfold World.step at hs
  rw [hj] at hs
  dsimp only at hs
  split at hs
  · exact (aside_off hs).mono fun _ hp => hp.elim
  · rename_i stage hp
    exact (aside_boot hS.orderly hp hj hs).mono fun _ hp => hp.elim
  · rename_i e pc hp
    rcases stepEngine_cases hj hs with ⟨w₁, t, hr, rfl⟩ | ⟨-, rfl⟩
    · have hsolo := hS.solo j e.relay (by rw [hp]; exact .inl rfl)
      rw [hp] at hsolo
      refine (aside_resumed hS.orderly hp (fun p rest hrec => hsolo.addressed hrec) hr).mono ?_
      rintro p rfl
      rw [hp]
      rfl
    · exact .setNode w j _

theorem Listening.step (hl : Listening w i e pc) (hS : Sound c w) (hp : Private i e.mailboxQid w h)
    (hcrash : h ≠ .crash i) (hpair : pc ≠ .receiving .awaitPairing) (hs : w.step c h = some w') :
    w'.nodes i = w.nodes i ∧ Listening w' i e pc ∨
    ∃ w₁ t, Resumed c w i e pc h w₁ t ∧ w' = w₁.install i t ∧
      Listening w' i t.engine t.pc := by
  cases hn : h.node with
  | none =>
    have hm : Moved c w h w' := by
      rw [World.step, hn] at hs
      exact moved_of_stepNetwork hs
    refine .inl ⟨congrFun hm.grows.1 i, hl.moved hS.orderly hm fun k id hh => hp.acks ?_⟩
    rw [hh]
    rfl
  | some j =>
    by_cases hj : i = j
    · subst hj
      rw [World.step, hn] at hs
      dsimp only at hs
      rw [hl.running] at hs
      rcases stepEngine_cases hn hs with ⟨w₁, t, hr, rfl⟩ | ⟨hc, -⟩
      · exact .inr ⟨w₁, t, hr, rfl, hl.pumped hS.orderly hr hpair⟩
      · exact absurd hc hcrash
    · have ha := hS.step_aside hn hs
      exact .inl ⟨ha.nodes i hj,
        hl.aside hS.orderly (hS.step hs).orderly ha hj (hp.apart j (Ne.symm hj))⟩

end Listening

def Process.engine : Process mls → Option (ChatEngine mls)
  | .running e _ => some e
  | _ => none

/-- A message the device builds has an id that nothing which arrived before has. -/
def NewIds [DecidableEq ι] (c : Crypto) (i : ι) (w : World mls ι) (h : Happening mls ι) : Prop :=
  ∀ w' ∈ w.step c h, ∀ e ∈ (w.nodes i).process.engine, ∀ e' ∈ (w'.nodes i).process.engine,
    ∀ a ∈ e'.trace.authored, a ∈ e.trace.authored ∨
      ∀ b ∈ arrivals e.mailboxQid w.service.log, b.messageId ≠ a.messageId

instance [DecidableEq ι] (i : ι) (w : World mls ι) (h : Happening mls ι) :
    Decidable (NewIds c i w h) :=
  inferInstanceAs (Decidable (∀ w' ∈ w.step c h, _))

/-- The messages of others that have reached the engine's mailbox, each at its first arrival. -/
def World.foreign (w : World mls ι) (old : Finset MessageId) (e : ChatEngine mls) : List Envelope :=
  firsts Envelope.messageId (old ∪ (e.trace.authored.map Envelope.messageId).toFinset)
    (arrivals e.mailboxQid w.service.log)

theorem authored_stable (c : Crypto) (base : List Envelope) :
    Stable c (Surroundings.any mls) (fun e => base <+: e.trace.authored) where
  events _ h := h
  relay _ h := h
  refused h _ ha := by
    obtain ⟨s, -, rfl⟩ := absorb_refused ha
    exact h
  taken _ h _ ha := by
    obtain ⟨s, merged, -, rfl⟩ := absorb_taken ha
    obtain ⟨store, hs⟩ := ChatEngine.persist_eq _ _ _
    rw [hs]
    exact h
  unjoined h _ _ _ := h
  joined _ h _ _ _ := by
    obtain ⟨store, hs⟩ := ChatEngine.persist_eq _ _ _
    rw [hs]
    exact h
  unencrypted _ _ h _ := h
  encrypted _ h _ _ := by
    obtain ⟨store, hs⟩ := ChatEngine.persist_eq _ _ _
    rw [hs]
    exact h.trans (prefix_append _ _)
  unbuilt _ _ h _ := h
  built _ h _ _ := h.trans (prefix_append _ _)
  unmerged _ _ h _ := h
  merged _ _ _ h _ := by
    obtain ⟨store, hs⟩ := ChatEngine.persist_eq _ _ _
    rw [hs]
    exact h
  discarded _ h := h

section Growth
variable [DecidableEq ι] {w₁ : World mls ι} {t : Turn mls}

theorem authored_resumed (hp : (w.nodes i).process = .running e pc) (hi : h.node = some i)
    (hr : Resumed c w i e pc h w₁ t) : e.trace.authored <+: t.engine.trace.authored := by
  have hA : Stable c (Surroundings.any mls) (fun e' => e.trace.authored <+: e'.trace.authored) :=
    authored_stable c e.trace.authored
  have hh : ((Surroundings.any mls).regime fun e' => e.trace.authored <+: e'.trace.authored).holds
      e [] pc := by
    refine Regime.holds_of_all prefix_rfl (by rintro (_ | _ | _) <;> trivial)
      (fun _ => ?_) (fun _ => ?_) pc <;> exact ⟨prefix_rfl, fun _ _ _ _ => trivial⟩
  have hg : Grants (Surroundings.any mls)
      (fun e' => e.trace.authored <+: e'.trace.authored) w i h :=
    { call := fun _ _ _ => trivial
      link := by
        intro e _ d _ _ hA
        rw [ChatEngine.contactLink_fst]
        exact hA
      attach := by
        intro e' _ d _ _ hA
        obtain ⟨store, hs⟩ := ChatEngine.persist_eq { e' with store := some (w.nodes i).disk }
          d.diskOk e'.seen
        rw [ChatEngine.attachStore, hs]
        exact hA
      invited := fun _ _ _ _ _ _ _ => trivial
      disk := fun _ _ _ => trivial
      start := by
        rintro launch rfl
        cases hr }
  obtain ⟨q, hs⟩ := serves_of_stable hA hg hi hp hh
  exact Surroundings.holds_condition (holds_resumed (Surroundings.regime_closed hA) hh hs hr)

theorem foreign_step (hnew : NewIds c i w h) (hcrash : h ≠ .crash i)
    (hp : (w.nodes i).process = .running e pc) (hs : w.step c h = some w')
    (old : Finset MessageId) : ∃ e' pc', (w'.nodes i).process = .running e' pc' ∧
      w.foreign old e <+: w'.foreign old e' := by
  obtain ⟨more, hlog⟩ := step_log hs
  have hgrow : ∀ q, arrivals q w.service.log <+: arrivals q w'.service.log := by
    intro q
    rw [hlog]
    exact arrivals_grow q _ _
  by_cases hi : h.node = some i
  · have hs' := hs
    rw [World.step, hi] at hs'
    dsimp only at hs'
    rw [hp] at hs'
    rcases stepEngine_cases hi hs' with ⟨w₁, t, hr, rfl⟩ | ⟨hc, -⟩
    · have hrun : ((w₁.install i t).nodes i).process = .running t.engine t.pc := by
        rw [install_self]
      obtain ⟨q, hq⟩ := exists_addressee (w.conns e.relay).received
      refine ⟨t.engine, t.pc, hrun, ?_⟩
      have hfresh := hnew _ hs e (by rw [hp]; rfl) t.engine (by rw [hrun]; rfl)
      obtain ⟨later, harr⟩ := hgrow e.mailboxQid
      rw [World.foreign, World.foreign, (resumed_sends hq hr).1, ← harr]
      refine IsPrefix.trans ?_ (firsts_grow _ _ _)
      rw [firsts_congr]
      intro b hb
      simp only [Finset.mem_union, mem_toFinset, mem_map]
      refine or_congr_right ⟨?_, ?_⟩
      · rintro ⟨a, ha, hid⟩
        exact ⟨a, (authored_resumed hp hi hr).subset ha, hid⟩
      · rintro ⟨a, ha, hid⟩
        exact ⟨a, (hfresh a ha).resolve_right fun hne => hne b hb hid.symm, hid⟩
    · exact absurd hc hcrash
  · refine ⟨e, pc, by rw [step_nodes_of_ne hs hi, hp], ?_⟩
    obtain ⟨later, harr⟩ := hgrow e.mailboxQid
    rw [World.foreign, World.foreign, ← harr]
    exact firsts_grow _ _ _

end Growth

/-- The device's calls are waits for events and sends, and its process lives. -/
def Reads (i : ι) : Happening mls ι → Prop
  | .call j call _ => j = i → call ≠ .awaitPairing ∧ call ≠ .commitSelfUpdate
  | .crash j => j ≠ i
  | _ => True

instance [DecidableEq ι] (i : ι) : (h : Happening mls ι) → Decidable (Reads i h)
  | .call j call _ =>
    inferInstanceAs (Decidable (j = i → call ≠ .awaitPairing ∧ call ≠ .commitSelfUpdate))
  | .crash j => inferInstanceAs (Decidable (j ≠ i))
  | .contactLink _ _ | .attachStore _ _ | .push _ _ | .disconnected _ | .replied _ _ | .lost _ _
  | .connected _ | .connectFailed _ | .drop _ | .start _ _ | .serve _ _ | .reply _ | .deliver _
  | .sever _ | .breakWriter _ | .hangUp _ | .dial | .outside _ _ | .restart _ _ => isTrue trivial

section Plan

theorem foreign_drop (hr : O.Reader (w.foreign O.old e) n e) :
    firsts Envelope.messageId e.seen (arrivals e.mailboxQid w.service.log) =
      (w.foreign O.old e).drop n := by
  refine firsts_drop n fun id => ?_
  rw [hr.seen]
  simp only [Finset.mem_union, mem_toFinset, mem_map]
  rw [or_assoc, or_congr_right (or_comm)]
  rfl

theorem foreign_next (hl : Listening w i e pc) (hr : O.Reader (w.foreign O.old e) n e)
    {p : QueueId × Envelope} {rest : List (QueueId × Envelope)}
    (hp : (w.conns e.relay).received = p :: rest) (hfresh : p.2.messageId ∉ e.seen) :
    (w.foreign O.old e)[e.calls.length]? = some p.2 := by
  have htrails := (hl.attached _ (.inl rfl)).trails
  rw [World.stream, hp] at htrails
  obtain ⟨more, hmore⟩ := htrails.head hfresh
  obtain ⟨others, hothers⟩ := firsts_of_unseen hmore
  rw [foreign_drop hr] at hothers
  have hhead := congrArg head? hothers
  rw [head?_drop] at hhead
  rw [hr.length_calls]
  exact hhead

theorem foreign_caughtUp (hr : O.Reader (w.foreign O.old e) n e) (hup : CaughtUp w e) :
    (w.foreign O.old e).take n = w.foreign O.old e := by
  have hdrop := foreign_drop hr
  rw [firsts_eq_nil.mpr hup] at hdrop
  exact take_of_length_le (drop_eq_nil_iff.mp hdrop.symm)

end Plan

/-- An engine through a run: it listens, and it reads what the others have sent. -/
structure Surfacing (O : Outset mls) (i : ι) (q : QueueId) (rs : List Result) (w : World mls ι)
    (e : ChatEngine mls) (pc : Pc) : Prop where
  sound : Sound O.crypto w
  listening : Listening w i e pc
  mailbox : e.mailboxQid = q
  holds : (O.regime (w.foreign O.old e)).holds e (w.nodes i).results pc
  results : rs <+: (w.nodes i).results

namespace Surfacing
variable {q : QueueId} {rs : List Result}

theorem serves (hS : Surfacing O i q rs w e pc) (hreads : Reads i h) :
    Serves O.crypto (O.regime (w.foreign O.old e)) w i e pc (w.nodes i).results q h := by
  have hrests := Outset.rests_of_holds hS.holds
  refine ⟨fun call d hh => ?_, fun d hh => ?_, fun d hh => ?_, fun p rest hp => ?_,
    fun _ _ _ _ _ _ => trivial, fun _ _ => trivial, fun _ _ _ _ _ => trivial,
    fun s rid hpc _ _ => ?_, fun k conn rid d _ hpc => ?_⟩
  · subst hh
    obtain ⟨hpair, hcommit⟩ := hreads rfl
    cases call with
    | nextEvent => exact .inl rfl
    | sendMessage plaintext => exact .inr ⟨plaintext, rfl⟩
    | awaitPairing => exact absurd rfl hpair
    | commitSelfUpdate => exact absurd rfl hcommit
  · exact Outset.Rests.snoc (hrests.linked d.rand) rfl
  · exact Outset.Rests.snoc (hrests.attached _ _) rfl
  · obtain ⟨n, ms, hr, -, -⟩ := hrests
    refine ⟨?_, foreign_next hS.listening hr hp⟩
    rw [← hS.mailbox]
    exact (hS.listening.attached _ (.inl rfl)).addressed hp
  · have hout := hS.holds
    rw [hpc] at hout
    exact hout
  · have hw := hS.holds
    rw [hpc] at hw
    cases k with
    | receiving | sending => exact ⟨hw.1.congr rfl rfl rfl rfl rfl, hw.2⟩

variable [DecidableEq ι]

theorem step (hS : Surfacing O i q rs w e pc) (hl : O.Legible (w.foreign O.old e))
    (hreads : Reads i h) (hpriv : Private i q w h) (hnew : NewIds O.crypto i w h)
    (hs : w.step O.crypto h = some w') : ∃ e' pc', Surfacing O i q rs w' e' pc' := by
  have hcrash : h ≠ .crash i := by
    rintro rfl
    exact hreads rfl
  have hpair : pc ≠ .receiving .awaitPairing := by
    rintro rfl
    exact Outset.not_permits (.inl rfl) hS.holds.2
  obtain ⟨e₂, pc₂, hrun, hgrow⟩ := foreign_step hnew hcrash hS.listening.running hs O.old
  obtain ⟨more, hmore⟩ := hgrow
  rw [← hS.mailbox] at hpriv
  rcases hS.listening.step hS.sound hpriv hcrash hpair hs with ⟨hn, hlist⟩ | ⟨w₁, t, hr, rfl, hlist⟩
  · rw [hlist.running] at hrun
    obtain ⟨rfl, rfl⟩ := Process.running.inj hrun
    refine ⟨e, pc, hS.sound.step hs, hlist, hS.mailbox, ?_, ?_⟩
    · rw [← hmore, hn]
      exact Outset.holds_append hS.holds more
    · rw [hn]
      exact hS.results
  · rw [hlist.running] at hrun
    obtain ⟨rfl, rfl⟩ := Process.running.inj hrun
    have hserves := hS.serves hreads
    refine ⟨t.engine, t.pc, hS.sound.step hs, hlist, ?_, ?_, ?_⟩
    · rw [← hS.mailbox]
      exact (resumed_sends (fun p rest hp => (hserves.push p rest hp).1) hr).1
    · rw [← hmore, install_self, nodes_resumed hr]
      exact Outset.holds_append (holds_resumed (Outset.regime_closed hl) hS.holds hserves hr) more
    · rw [install_self, nodes_resumed hr]
      exact hS.results.trans (prefix_append _ _)

end Surfacing

/-- An engine that is about to read: it is in a group, listens to its mailbox, and has nothing
left to report. -/
structure Poised [DecidableEq ι] (c : Crypto) (L : ReadLaws mls) (past : List (List UInt8))
    (w : World mls ι) (i : ι) (e : ChatEngine mls) : Prop where
  reached : Reached c w
  listening : Listening w i e .idle
  session : ∃ sent, L.Holds e.session past sent
  authored : ∀ a ∈ e.trace.authored, a.messageId ∈ e.seen
  calls : e.calls = []
  waiting : e.waiting = []

section Runs
variable [DecidableEq ι] {L : ReadLaws mls} {past : List (List UInt8)} {es : List (Happening mls ι)}
  {sent : List Wire}

def outset (c : Crypto) (L : ReadLaws mls) (past : List (List UInt8)) (wires : List Wire)
    (w : World mls ι) (i : ι) (e : ChatEngine mls) : Outset mls :=
  ⟨L, c, past, wires, e.seen, e.trace.authored, surfaced (w.nodes i).results⟩

theorem Poised.surfacing (hw : Poised c L past w i e) (hh : L.Holds e.session past sent) :
    Surfacing (outset c L past sent w i e) i e.mailboxQid (w.nodes i).results w e .idle := by
  refine ⟨hw.reached.sound, hw.listening, rfl, ⟨0, [], ⟨Nat.zero_le _, ?_, fun id => ?_, ?_⟩,
    .nil, ?_⟩, prefix_rfl⟩
  · refine ⟨[], ?_, (append_nil _).symm⟩
    rw [take_zero, Outset.handed, map_nil, append_nil, append_nil]
    exact hh
  · refine ⟨.inl, ?_⟩
    rintro (hid | ⟨a, ha, -⟩ | ⟨a, ha, rfl⟩)
    · exact hid
    · cases ha
    · exact hw.authored a ha
  · rw [hw.calls]
    rfl
  · rw [hw.waiting]
    rfl

/-- The engine reads on through every run whose messages are legible. -/
theorem run_surfacing (hw : Poised c L past w i e) (hh : L.Holds e.session past sent)
    (hreads : ∀ h ∈ es, Reads i h) (hpriv : Along (World.step c) (Private i e.mailboxQid) w es)
    (hnew : Along (World.step c) (NewIds c i) w es) (hrun : run (World.step c) w es = some w')
    (hl : ∀ e' pc, (w'.nodes i).process = .running e' pc →
      (outset c L past sent w i e).Legible (w'.foreign e.seen e')) :
    ∃ e' pc, Surfacing (outset c L past sent w i e) i e.mailboxQid
      (w.nodes i).results w' e' pc := by
  refine run_invariant_under
    (H := fun w' => ∀ e' pc, (w'.nodes i).process = .running e' pc →
      (outset c L past sent w i e).Legible (w'.foreign e.seen e'))
    (P := fun w' => ∃ e' pc, Surfacing (outset c L past sent w i e) i e.mailboxQid
      (w.nodes i).results w' e' pc)
    (C := fun w h => Reads i h ∧ Private i e.mailboxQid w h ∧ NewIds c i w h)
    ⟨e, .idle, hw.surfacing hh⟩ ?_ ?_ (along_iff.mpr fun pre h post t hes ht =>
      ⟨hreads h (by rw [hes]; simp), along_iff.mp hpriv pre h post t hes ht,
        along_iff.mp hnew pre h post t hes ht⟩) hrun hl
  · rintro u h v ⟨hr, -, hn⟩ hs hv e₁ pc₁ hp
    obtain ⟨e₂, pc₂, hp₂, more, hmore⟩ := foreign_step hn (by rintro rfl; exact hr rfl) hp hs e.seen
    have hl₂ := hv e₂ pc₂ hp₂
    rw [← hmore] at hl₂
    exact hl₂.of_append
  · rintro u h v ⟨e₁, pc₁, hS⟩ hv ⟨hr, hp, hn⟩ hs
    obtain ⟨e₂, pc₂, hp₂, more, hmore⟩ := foreign_step hn (by rintro rfl; exact hr rfl)
      hS.listening.running hs e.seen
    have hl₂ := hv e₂ pc₂ hp₂
    rw [← hmore] at hl₂
    exact hS.step hl₂.of_append hr hp hn hs

/-- Through every loss, replay, resend and dropped future, the messages an engine's calls have
returned are an initial part of those of others that have reached its mailbox, each once and
in the order of their first arrival, and all of them once every push has been handled and
every event taken. No id is given to the session twice. -/
theorem messages_surface_once (hw : Poised c L past w i e) (hreads : ∀ h ∈ es, Reads i h)
    (hpriv : Along (World.step c) (Private i e.mailboxQid) w es)
    (hnew : Along (World.step c) (NewIds c i) w es) (hrun : run (World.step c) w es = some w')
    (hturn : ∀ e' pc, (w'.nodes i).process = .running e' pc →
      ∀ n a, (w'.foreign e.seen e')[n]? = some a →
        L.Follows (past ++ ((w'.foreign e.seen e').take n).map Envelope.paddedCiphertext)
          a.paddedCiphertext) :
    ∃ e' pc ms, (w'.nodes i).process = .running e' pc ∧
      surfaced (w'.nodes i).results = surfaced (w.nodes i).results ++ ms ∧
      ms <+: (w'.foreign e.seen e').map (fun a => (L.content a.paddedCiphertext, a)) ∧
      (CaughtUp w' e' → e'.waiting = [] →
        ms = (w'.foreign e.seen e').map (fun a => (L.content a.paddedCiphertext, a))) ∧
      ((w'.foreign e.seen e').map Envelope.messageId).Nodup ∧
      (∀ a ∈ w'.foreign e.seen e', ∀ b ∈ e'.trace.authored, a.messageId ≠ b.messageId) ∧
      (e'.calls.map (fun p => p.2.messageId)).Nodup := by
  obtain ⟨sent, hh⟩ := hw.session
  obtain ⟨e', pc, hS⟩ := run_surfacing hw hh hreads hpriv hnew hrun
    (fun e' pc hp n a ha => Or.inl (hturn e' pc hp n a ha))
  have hp := hS.listening.running
  obtain ⟨n, ms, hr, hshown, hall⟩ := Outset.rests_of_holds hS.holds
  have hms : ms = ((w'.foreign e.seen e').take n).map (outset c L past sent w i e).tells := by
    have hall := hshown.filter_eq (p := fun _ => true) fun m a ha _ => ?_
    · rwa [filter_true, filter_true] at hall
    · have hmn : m < n := by
        have hlt := (List.getElem?_eq_some_iff.mp ha).1
        rw [length_take] at hlt
        omega
      rw [getElem?_take_of_lt hmn] at ha
      rw [take_take, min_eq_left hmn.le]
      exact hturn e' pc hp m a ha
  -- what was reported before the run stands at the front on both sides
  obtain ⟨more, hmore⟩ := hS.results
  have hsplit : surfaced (w'.nodes i).results =
      surfaced (w.nodes i).results ++ surfaced more := by
    rw [← hmore, surfaced, filterMap_append]
    rfl
  have hrest : surfaced more ++ e'.waiting = ms := by
    rw [hsplit, append_assoc] at hall
    exact append_cancel_left hall
  refine ⟨e', pc, surfaced more, hp, hsplit, ?_, fun hup hwait => ?_, firsts_nodup _ _,
    fun a ha b hb hid => ?_, ?_⟩
  · have hpre : surfaced more <+: ms := ⟨_, hrest⟩
    rw [hms] at hpre
    exact hpre.trans (.map _ <| take_prefix n _)
  · rw [hwait, append_nil] at hrest
    have htake : (w'.foreign e.seen e').take n = w'.foreign e.seen e' := foreign_caughtUp hr hup
    rw [hrest, hms, htake]
    rfl
  · have hkey := (mem_firsts_key.mp (mem_map_of_mem ha)).2
    refine hkey (Finset.mem_union_right _ (mem_toFinset.mpr ?_))
    rw [hid]
    exact mem_map_of_mem hb
  · have hcalls : e'.calls.map (fun p => p.2.messageId) =
        ((w'.foreign e.seen e').take n).map Envelope.messageId := by
      have hread : e'.calls.map Prod.snd = (w'.foreign e.seen e').take n := hr.calls
      rw [← hread, map_map]
      rfl
    rw [hcalls]
    exact (firsts_nodup _ _).sublist ((take_sublist n _).map _)

end Runs
/-! ## A message pushed twice -/
section Sample

theorem paired_listener : ((pairedEngine false).session.group.any fun g : PlainGroup =>
      g.me = 7 ∧ g.history = [8] ∧ g.sent = 0 ∧ ∀ n : Fin 256, g.heard (UInt8.ofNat n) = 0) = true ∧
    (pairedEngine false).trace.authored = [] ∧ (pairedEngine false).calls.isEmpty = true ∧
    (pairedEngine false).waiting = [] := by
  decide +kernel

theorem paired_poised : Poised .plain (.plain 7 [8]) [] pairedWorld false (pairedEngine false) := by
  obtain ⟨hgroup, hauthored, hcalls, hwaiting⟩ := paired_listener
  refine ⟨paired_reached, paired_gathered.listening false, ⟨[], ?_⟩, fun a ha => ?_,
    isEmpty_iff.mp hcalls, hwaiting⟩
  · obtain ⟨g, hg, hs⟩ := (Option.any_eq_true _ _).mp hgroup
    obtain ⟨hme, hhistory, hsent, hheard⟩ := of_decide_eq_true hs
    refine ⟨g, hg, hme, hhistory, funext fun sender => ?_, hsent, by rintro n wire ⟨⟩⟩
    rw [← UInt8.ofNat_toNat (x := sender)]
    exact hheard ⟨sender.toNat, sender.toNat_lt⟩
  · simp [hauthored] at ha

/-- The scanner sends; the listener reads and its caller drops the wait for the ack, which is lost
with the connection. The message is pushed again on the next one, and a second one follows. -/
def pushedTwice : List (Happening OpenMls.plain Bool) :=
  [.call true (.sendMessage [104, 105]) ⟨0, true⟩] ++ exchange true 1 (.fill 0) ++
    [.call false .nextEvent ⟨0, true⟩, .deliver 0, .push false ⟨0, true⟩, .drop false, .sever 0,
      .call false .nextEvent ⟨0, true⟩, .call false .nextEvent ⟨0, true⟩, .disconnected false,
      .connected false] ++ exchange false 2 (.fill 0) ++
    [.call false .nextEvent ⟨0, true⟩, .call false .nextEvent ⟨0, true⟩, .deliver 2,
      .push false ⟨0, true⟩] ++ exchange false 2 (.fill 0) ++
    [.call true (.sendMessage [106]) ⟨0, true⟩] ++ exchange true 1 (.fill 0) ++
    [.deliver 2, .push false ⟨0, true⟩] ++ exchange false 2 (.fill 0)

/-- What a run from the paired devices shows of the listener: the messages of others come in
their turn. -/
def inTurnAt (w : World OpenMls.plain Bool) : Bool :=
  (w.nodes false).process.engine.all (fun e =>
    (range (w.foreign (pairedEngine false).seen e).length).all fun n =>
      (w.foreign (pairedEngine false).seen e)[n]?.all fun a => plainFollows 7 1
        (((w.foreign (pairedEngine false).seen e).take n).map Envelope.paddedCiphertext)
        a.paddedCiphertext)

theorem follows_of_inTurnAt {w : World OpenMls.plain Bool} (h : inTurnAt w = true)
    {e : ChatEngine OpenMls.plain} (hp : (w.nodes false).process = .running e pc) {a : Envelope}
    (ha : (w.foreign (pairedEngine false).seen e)[n]? = some a) :
    (ReadLaws.plain 7 [8]).Follows ([] ++ ((w.foreign (pairedEngine false).seen e).take n).map
      Envelope.paddedCiphertext) a.paddedCiphertext := by
  rw [inTurnAt, hp] at h
  have hn := all_eq_true.mp h n (mem_range.mpr (List.getElem?_eq_some_iff.mp ha).1)
  rw [ha] at hn
  exact ReadLaws.plain_follows hn

theorem messages_surface_once_pushedTwice : ∃ w e ms,
    run (World.step .plain) pairedWorld pushedTwice = some w ∧
    (w.nodes false).process = .running e .idle ∧
    (surfaced (w.nodes false).results).map Prod.fst = [[104, 105], [106]] ∧
    surfaced (w.nodes false).results = surfaced (pairedWorld.nodes false).results ++ ms ∧
    ms <+: (w.foreign (pairedEngine false).seen e).map
      (fun a => (plainContent a.paddedCiphertext, a)) := by
  obtain ⟨w, hw, hturn, hidle, hshown⟩ :
      ∃ w, run (World.step .plain) pairedWorld pushedTwice = some w ∧ inTurnAt w ∧
      (w.nodes false).process.idleEngine.isSome = true ∧
      (surfaced (w.nodes false).results).map Prod.fst = [[104, 105], [106]] := by decide +kernel
  obtain ⟨e, he⟩ := Option.isSome_iff_exists.mp hidle
  have hp := Process.eq_of_idleEngine he
  have hreads : ∀ h ∈ pushedTwice, Reads false h := by decide +kernel
  have hpriv : Along (World.step .plain) (Private false (pairedEngine false).mailboxQid) pairedWorld
      pushedTwice := by decide +kernel
  have hnew : Along (World.step .plain) (NewIds .plain false) pairedWorld pushedTwice := by
    decide +kernel
  obtain ⟨e', pc, ms, hp', hsplit, hms,
      -⟩ := messages_surface_once paired_poised hreads hpriv hnew hw
    (fun _ _ hp n a ha => follows_of_inTurnAt hturn hp ha)
  rw [hp] at hp'
  obtain ⟨rfl, rfl⟩ := Process.running.inj hp'
  exact ⟨w, e, ms, hw, hp, hshown, hsplit, hms⟩

end Sample
end Rosette.Network
