import Rosette.Engine.Conditions
import Rosette.Ffi.Actor

/-! # The loop of an actor

With a conversation the loop receives events and sends messages; without one it waits for a
pairing. A stretch of its engine keeps what such calls keep, pairs the engine, or fails to.
-/
namespace Rosette.Ffi
open Foundation Proto Rosette.Core Engine Option

variable {mls : OpenMls} {c : Crypto} {next : ChatEngine mls → Envelope → Prop}
  {A : ChatEngine mls → Prop} {e : ChatEngine mls} {pc : Pc} {t t' : Turn mls} {w : Wake}
  {st : Store mls}

/-! ## Receiving and sending -/

/-- The group send under way at an await point. -/
def Pc.sends : Pc → Option Sending
  | .sending s _ => some s
  | .connecting (.sending s) _ => some s
  | .subscribing (.sending s) _ _ => some s
  | _ => none

/-- Waiting for an event, or sending a message. -/
structure Looping (pc : Pc) : Prop where
  receiver : ∀ r, pc.receiver = some r → r = .nextEvent
  sends : ∀ s, Pc.sends pc = some s →
    ∃ inbox plaintext envelope, s = .message inbox plaintext envelope

/-- A condition of an engine that only receives and sends messages. -/
structure Steady (c : Crypto) (next : ChatEngine mls → Envelope → Prop)
    (A : ChatEngine mls → Prop) : Prop where
  events : ∀ {e} events, A e → A { e with pendingEvents := events }
  relay : ∀ {e} conn, A e → A { e with relay := conn }
  refused : ∀ {e envelope e' err}, A e → next e envelope → envelope.messageId ∉ e.seen →
    absorb (e.called envelope) envelope = (e', .error err) → A e'
  taken : ∀ {e envelope e' event diskOk}, A e → next e envelope → envelope.messageId ∉ e.seen →
    absorb (e.called envelope) envelope = (e', .ok event) →
    A (e'.persist diskOk {envelope.messageId}).1
  unencrypted : ∀ {e} rand plaintext, A e →
    A { e with session := (e.session.encryptApplication rand plaintext).1 }
  encrypted : ∀ {e rand plaintext s wire envelope} diskOk, A e →
    e.session.encryptApplication rand plaintext = (s, .ok wire) → wrap c wire = some envelope →
    A (((e.author s envelope).note envelope.messageId).persist diskOk {envelope.messageId}).1

/-- The regime of such a condition: there are neither commits nor pairings. -/
def looping (next : ChatEngine mls → Envelope → Prop) (A : ChatEngine mls → Prop) :
    Regime mls where
  rest e _ := A e
  out e _ s := A e ∧ ∃ inbox plaintext envelope, s = .message inbox plaintext envelope
  stalled e _ s := A e ∧ ∃ inbox plaintext envelope, s = .message inbox plaintext envelope
  next := next
  granted _ _ _ := True
  permits call := call = .nextEvent ∨ ∃ plaintext, call = .sendMessage plaintext
  commits _ := False
  invites _ _ := False
  writes _ := True

section Loops

theorem looping_closed (hA : Steady c next A) : (looping next A).Closed c where
  queue _ h := hA.events _ h
  pop h _ := hA.events _ h
  failed _ h _ := h
  refused h hn hs ha := hA.refused h hn hs ha
  taken _ h hn hs ha := by
    rw [Surroundings.persist_queue]
    exact hA.events _ (hA.taken h hn hs ha)
  unjoined hp := by rcases hp with ⟨⟨⟩⟩ | ⟨_, ⟨⟩⟩
  joined _ hp := by rcases hp with ⟨⟨⟩⟩ | ⟨_, ⟨⟩⟩
  paired hp := by rcases hp with ⟨⟨⟩⟩ | ⟨_, ⟨⟩⟩
  sends := {
    send := fun h => h
    gaveUp := fun _ h => h.1
    rejected := fun _ h _ _ => h.1
    delivered := fun h _ => h.1
    unsent := fun _ _ h => h
    unencrypted := fun rand _ h _ => hA.unencrypted rand _ h
    encrypted := fun {_ _ _ _ _ _ _ _ diskOk _} _ _ h _ hs hw hp => by
      have hkept := hA.encrypted diskOk h hs hw
      rw [hp] at hkept
      exact ⟨hkept, _, _, _, rfl⟩
    unwritten := fun {_ _ _ _ _ _ _ _ diskOk _ _} _ _ h _ hs hw hp => by
      have hkept := hA.encrypted diskOk h hs hw
      rw [hp] at hkept
      exact hkept }
  commits := {
    inbox := fun hp _ _ => by rcases hp with ⟨⟨⟩⟩ | ⟨_, ⟨⟩⟩
    uncommitted := fun _ hp _ => by rcases hp with ⟨⟨⟩⟩ | ⟨_, ⟨⟩⟩
    unbuilt := fun _ hc => hc.elim
    built := fun hc => hc.elim
    unmerged := fun h => by obtain ⟨-, _, _, _, ⟨⟩⟩ := h
    merged := fun _ h => by obtain ⟨-, _, _, _, ⟨⟩⟩ := h
    unrecorded := fun _ h => by obtain ⟨-, _, _, _, ⟨⟩⟩ := h
    undiscarded := fun h => by obtain ⟨-, _, _, _, ⟨⟩⟩ := h
    discarded := fun h => by obtain ⟨-, _, _, _, ⟨⟩⟩ := h }

theorem looping_lenient (hA : Steady c next A) : (looping next A).Lenient where
  writes _ := trivial
  granted _ _ _ := trivial
  relay e k conn h := by
    cases k with
    | receiving | sending => exact ⟨hA.relay conn h.1, h.2⟩
  lost _ _ h := h
  invites hp := by rcases hp with ⟨⟨⟩⟩ | ⟨_, ⟨⟩⟩

theorem looping_receives {r : Receiver} : (looping next A).receives r ↔ r = .nextEvent := by
  cases r with
  | nextEvent => exact ⟨fun _ => rfl, fun _ => trivial⟩
  | drain => exact ⟨fun h => h.elim, by rintro ⟨⟩⟩
  | awaitPairing => exact ⟨fun h => by rcases h with ⟨⟨⟩⟩ | ⟨_, ⟨⟩⟩, by rintro ⟨⟩⟩

theorem looping_holds {rs : List Result} : (looping next A).holds e rs pc ↔ A e ∧ Looping pc := by
  have hreceiving : ∀ {pc r}, pc.receiver = some r → Pc.sends pc = none →
      (A e ∧ (looping next A).receives r ↔ A e ∧ Looping pc) := by
    intro pc r hr hs
    rw [looping_receives]
    refine and_congr_right fun _ => ⟨fun h => ⟨?_, ?_⟩, fun h => h.receiver r hr⟩
    · intro r' hr'
      obtain rfl := mem_unique hr hr'
      exact h
    · intro s hs'
      cases hs.symm.trans hs'
  have hsending : ∀ {pc s}, pc.receiver = none → Pc.sends pc = some s →
      ((looping next A).out e rs s ↔ A e ∧ Looping pc) := by
    intro pc s hr hs
    refine and_congr_right fun _ => ⟨fun h => ⟨?_, ?_⟩, fun h => h.sends s hs⟩
    · intro r hr'
      cases hr.symm.trans hr'
    · intro s' hs'
      obtain rfl := mem_unique hs hs'
      exact h
  cases pc with
  | idle => exact (and_iff_left ⟨by rintro _ ⟨⟩, by rintro _ ⟨⟩⟩).symm
  | receiving | acking => exact hreceiving rfl rfl
  | sending => exact hsending rfl rfl
  | connecting k | subscribing k =>
    cases k with
    | receiving => exact hreceiving rfl rfl
    | sending => exact hsending rfl rfl

/-- A stretch of a call of the loop. -/
structure Loops (A : ChatEngine mls → Prop) (t : Turn mls) : Prop where
  engine : A t.engine
  pc : Looping t.pc

theorem loops_start (hA : Steady c next A) (link : Link) (d : Draw) (h : A e) {call : Call}
    (hc : call = .nextEvent ∨ ∃ plaintext, call = .sendMessage plaintext) :
    Loops A (call.start c link d e) := by
  have hm : Meets c (looping next A) link (.fill 0) [] (call.start c link d e) :=
    meets_start (looping_closed hA) trivial hc h
  obtain ⟨hengine, hpc⟩ := looping_holds.mp hm.holds
  exact ⟨hengine, hpc⟩

theorem loops_wake (hA : Steady c next A) (h : Loops A t)
    (hn : ∀ p link d, w = .push p link d → next t.engine p.2) (ht : t.wake c w = some t') :
    Loops A t' := by
  have hholds : (looping next A).holds t.engine [] t.pc := looping_holds.mpr ⟨h.engine, h.pc⟩
  obtain ⟨rs, hafter⟩ := Regime.holds_wake (looping_closed hA) (looping_lenient hA) hn hholds ht
  obtain ⟨hengine, hpc⟩ := looping_holds.mp hafter
  exact ⟨hengine, hpc⟩

end Loops

/-! ## Pairing -/

def Pursued (t : Turn mls) : Prop := t.result = none → t.pc.receiver = some .awaitPairing

/-- An engine that has joined the group of a payload and has written so. -/
def Joins (e e' : ChatEngine mls) : Prop :=
  ∃ envelope payload s, e.session.joinFromWelcome payload.welcomeWire payload.treeWire =
    (s, .ok ()) ∧
    e' = ((e.joined s envelope payload).persist true {envelope.messageId}).1

/-- A payload pairs the engine and its record, or the call fails and the record is as before. -/
theorem pairPush_cases (c : Crypto) (link : Link) (d : Draw) (hst : e.store = some st) (q : QueueId)
    (envelope : Envelope) :
    ((pairPush c link d e q envelope).result = none →
      ∃ rid, (pairPush c link d e q envelope).pc = .acking .awaitPairing rid) ∧
    (Joins e (pairPush c link d e q envelope).engine ∨
      (pairPush c link d e q envelope).engine.store = e.store ∧
      ∃ err, (pairPush c link d e q envelope).result = some (.paired (.error err))) := by
  unfold pairPush
  split
  · exact ⟨by rintro ⟨⟩, .inr ⟨rfl, _, rfl⟩⟩
  · rename_i payload hdec
    split
    · exact ⟨by rintro ⟨⟩, .inr ⟨rfl, _, rfl⟩⟩
    · rename_i s _ hs
      have hjoined : (e.joined s envelope payload).store = some st := hst
      cases hd : d.diskOk with
      | false =>
        simp only [ChatEngine.persist, hjoined]
        exact ⟨by rintro ⟨⟩, .inr ⟨rfl, _, rfl⟩⟩
      | true =>
        have hjoins : Joins e ((e.joined s envelope payload).persist true {envelope.messageId}).1 :=
          ⟨envelope, payload, s, hs, rfl⟩
        simp only [ChatEngine.persist, hjoined] at hjoins
        simp only [ChatEngine.persist, hjoined, if_true, tryAck]
        split_ifs
        · exact ⟨fun _ => ⟨_, rfl⟩, .inl hjoins⟩
        · exact ⟨by rintro ⟨⟩, .inl hjoins⟩

/-- While a call waits for pairing, a push is a payload, and nothing else concerns the engine. -/
theorem pairing_wake (hpc : t.pc.receiver = some .awaitPairing) (ht : t.wake c w = some t') :
    (t.pc = .receiving .awaitPairing ∧ ∃ (p : QueueId × Envelope) (link : Link) (d : Draw),
        t' = pairPush c link d t.engine p.1 p.2) ∨
      (∃ relay, t'.engine = { t.engine with relay := relay }) ∧ Pursued t' ∧
        ∀ r rid, t.pc = .acking r rid → t'.result ≠ none := by
  obtain ⟨e, pc, frame, result⟩ := t
  cases pc with
  | receiving =>
    cases hpc
    cases w with
    | push p link d =>
      cases ht
      exact .inl ⟨rfl, p, link, d, rfl⟩
    | disconnected =>
      cases ht
      exact .inr ⟨⟨e.relay, rfl⟩, fun _ => rfl, by rintro _ _ ⟨⟩⟩
    | _ => cases ht
  | acking =>
    cases hpc
    cases w with
    | replied reply =>
      cases ht
      cases reply <;> exact .inr ⟨⟨e.relay, rfl⟩, by rintro ⟨⟩, by rintro _ _ - ⟨⟩⟩
    | closed =>
      cases ht
      exact .inr ⟨⟨e.relay, rfl⟩, by rintro ⟨⟩, by rintro _ _ - ⟨⟩⟩
    | _ => cases ht
  | connecting k =>
    cases k with
    | sending => cases hpc
    | receiving =>
      cases hpc
      cases w with
      | connected =>
        cases ht
        exact .inr ⟨⟨e.relay, rfl⟩, fun _ => rfl, by rintro _ _ ⟨⟩⟩
      | connectFailed =>
        simp only [Turn.wake, onConnectFailed] at ht
        cases ht
        split_ifs
        · exact .inr ⟨⟨e.relay, rfl⟩, fun _ => rfl, by rintro _ _ ⟨⟩⟩
        · exact .inr ⟨⟨e.relay, rfl⟩, by rintro ⟨⟩, by rintro _ _ - ⟨⟩⟩
      | _ => cases ht
  | subscribing k conn =>
    cases k with
    | sending => cases hpc
    | receiving =>
      cases hpc
      cases w with
      | replied reply =>
        cases ht
        cases reply with
        | ok => exact .inr ⟨⟨conn, rfl⟩, fun _ => rfl, by rintro _ _ ⟨⟩⟩
        | _ => exact .inr ⟨⟨e.relay, rfl⟩, by rintro ⟨⟩, by rintro _ _ - ⟨⟩⟩
      | closed =>
        cases ht
        exact .inr ⟨⟨e.relay, rfl⟩, by rintro ⟨⟩, by rintro _ _ - ⟨⟩⟩
      | _ => cases ht
  | _ => cases hpc

/-! ## Stretches -/

/-- With a conversation the loop receives and sends. Without one it waits for pairing, and has
only to ack once that has come. -/
def Phase.Suits (conversation paired : Bool) : Phase → Prop
  | .top => True
  | .selecting pc =>
    if conversation then Looping pc
    else pc = .idle ∧ paired = false ∨
      pc.receiver = some .awaitPairing ∧ (paired = true → ∃ r rid, pc = .acking r rid)
  | .sending _ pc => paired = true ∧ Looping pc

/-- How a stretch of the engine ends: its condition is kept, it has paired, or a pairing has
failed. -/
inductive Actor.Ends (A : ChatEngine mls → Prop) (disk : Database mls) (a a' : Actor mls)
    (t : Turn mls) : Prop where
  | kept (engine : A t.engine) (phase : t.result = none →
      (a'.phase.goTo t.pc).Suits a.conversation.isSome a.core.isPaired)
  | joined (unpaired : a.core.isPaired = false) (joins : Joins (onDisk disk a.core) t.engine)
      (phase : t.result = none → (a'.phase.goTo t.pc).Suits a.conversation.isSome true)
  | failed {err} (store : t.engine.store = (onDisk disk a.core).store)
      (result : t.result = some (.paired (.error err)))

section Stretches
variable {h : Host mls} {disk : Database mls} {a a' : Actor mls} {m : ThreadMove}

theorem looping_idle : Looping .idle := ⟨by rintro _ ⟨⟩, by rintro _ ⟨⟩⟩

theorem Actor.Turns.conversation (ht : a.Turns h disk m a' t) :
    a'.conversation = a.conversation := by
  cases ht <;> rfl

theorem Actor.ends_pairing (hA : Steady h.crypto next A) (hcore : A (onDisk disk a.core))
    (hst : (onDisk disk a.core).store = some st) (hnone : a.conversation.isSome = false)
    (hphase : a.phase = .selecting pc) (hpc : pc.receiver = some .awaitPairing)
    (hack : a.core.isPaired = true → ∃ r rid, pc = .acking r rid)
    (hw : Turn.wake h.crypto ⟨onDisk disk a.core, pc, none, none⟩ w = some t) :
    a.Ends A disk a t := by
  rcases pairing_wake hpc hw with
    ⟨rfl, push, link, d, rfl⟩ | ⟨⟨relay, he⟩, hpursued, hdone⟩
  · have hun : a.core.isPaired = false := by
      by_contra hp
      obtain ⟨_, _, ⟨⟩⟩ := hack (Bool.eq_true_of_not_eq_false hp)
    obtain ⟨hpairing, hj | ⟨hstore, err, hr⟩⟩ := pairPush_cases h.crypto link d hst push.1 push.2
    · refine .joined hun hj fun hr => ?_
      obtain ⟨rid, hpc⟩ := hpairing hr
      rw [hphase, hnone, hpc]
      exact .inr ⟨rfl, fun _ => ⟨_, _, rfl⟩⟩
    · exact .failed hstore hr
  · refine .kept (he ▸ hA.relay relay hcore) fun hr => ?_
    rw [hphase, hnone]
    refine .inr ⟨hpursued hr, fun hp => ?_⟩
    obtain ⟨r, rid, rfl⟩ := hack hp
    exact absurd hr (hdone r rid rfl)

theorem Actor.Turns.ends (hA : Steady h.crypto next A) (hcore : A (onDisk disk a.core))
    (hst : (onDisk disk a.core).store = some st)
    (hphase : a.phase.Suits a.conversation.isSome a.core.isPaired)
    (hn : ∀ push link d now uiOk, m = .wake (.push push link d) now uiOk →
      next (onDisk disk a.core) push.2) (ht : a.Turns h disk m a' t) : a.Ends A disk a' t := by
  cases ht with
  | @poll link d phase =>
    rw [phase] at hphase
    cases hc : a.conversation.isSome with
    | true =>
      have hl := loops_start hA link d hcore (.inl rfl)
      refine .kept hl.engine fun _ => ?_
      rw [phase, hc]
      exact hl.pc
    | false =>
      rw [hc] at hphase
      refine .kept hcore fun _ => ?_
      rw [phase, hc]
      refine .inr ⟨rfl, fun hp => ?_⟩
      rcases hphase with ⟨-, hun⟩ | ⟨⟨⟩, -⟩
      cases hun.symm.trans hp
  | @wake pc w t move phase woke =>
    have hnext : ∀ push link d, w = .push push link d → next (onDisk disk a.core) push.2 := by
      rintro push link d rfl
      obtain ⟨now, uiOk, hmove⟩ := move
      exact hn push link d now uiOk hmove
    rcases phase with phase | ⟨body, phase⟩
    · rw [phase] at hphase
      cases hc : a.conversation.isSome with
      | true =>
        rw [hc] at hphase
        have hl := loops_wake hA (t := ⟨onDisk disk a.core, pc, none, none⟩) ⟨hcore, hphase⟩ hnext
          woke
        refine .kept hl.engine fun _ => ?_
        rw [phase, hc]
        exact hl.pc
      | false =>
        rw [hc] at hphase
        rcases hphase with ⟨rfl, -⟩ | ⟨hpc, hack⟩
        · cases w <;> cases woke
        · exact a.ends_pairing hA hcore hst hc phase hpc hack woke
    · rw [phase] at hphase
      have hl := loops_wake hA ⟨hcore, hphase.2⟩ hnext
        woke
      refine .kept hl.engine fun _ => ?_
      rw [phase]
      exact ⟨hphase.1, hl.pc⟩
  | @send body link d paired =>
    have hl := loops_start hA link d hcore (.inr ⟨body.toUTF8.toList, rfl⟩)
    exact .kept hl.engine fun _ => ⟨paired, hl.pc⟩

theorem Outcome.After.unwritten {p : Process mls} {o : Outcome mls} {core : ChatEngine mls}
    (ho : o.After p disk a t) (hst : t.engine.store = (onDisk disk core).store) :
    o.disk.engine = disk.engine := by
  rw [ho.engine, Database.written, hst, onDisk]
  cases core.store <;> rfl

theorem suits_checked (hcheck : ¬ (a.conversation.isNone && a.core.isPaired) = true) :
    (Phase.selecting .idle).Suits a.conversation.isSome a.core.isPaired := by
  change (if a.conversation.isSome = true then _ else _)
  split_ifs with hc
  · exact looping_idle
  · refine .inl ⟨rfl, ?_⟩
    rw [Bool.and_eq_true, not_and] at hcheck
    rw [not_isSome_iff_eq_none] at hc
    exact Bool.eq_false_of_not_eq_true (hcheck (by rw [hc]; rfl))

end Stretches
end Rosette.Ffi
