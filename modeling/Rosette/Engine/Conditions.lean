import Rosette.Engine.Rules

/-! # One condition at every await point

Most of what is said about an engine does not depend on where it stands. Such a
condition is stable if it survives the few updates a stretch can make, under given
assumptions on the calls, the envelopes that reach the pairing and the writes to the
store. A stable condition is a closed regime.
-/
namespace Rosette.Engine
open Foundation Proto Rosette.Core

variable {mls : OpenMls} {e e' : ChatEngine mls} {envelope : Envelope}

theorem processIncoming_group {s s' : ChatSession mls} {bytes : List UInt8} {r : Incoming}
    (h : s.processIncoming bytes = (s', .ok r)) : ∃ g, s'.group = some g := by
  have hgroup : ∀ {α : Type} {s s' : ChatSession mls}
      {f : mls.Provider × mls.Group → (mls.Provider × mls.Group) × Except String α}
      {r : Except SessionError α}, s.withGroup f = (s', r) → s.group.isSome →
      ∃ g, s'.group = some g := by
    intro α s s' f r hf hs
    obtain ⟨g, hg⟩ := Option.isSome_iff_exists.mp hs
    rw [ChatSession.withGroup, hg] at hf
    cases hf
    exact ⟨_, rfl⟩
  unfold ChatSession.processIncoming at h
  split at h
  · cases h
  · rename_i g hg
    split at h
    · cases h
    · split at h
      · cases h
      · rename_i hm
        cases h
        exact hgroup hm (by rw [hg]; rfl)
      · rename_i hm
        obtain ⟨g', hg'⟩ := hgroup hm (by rw [hg]; rfl)
        split at h
        · cases h
        · rename_i hm'
          cases h
          exact hgroup hm' (by rw [hg']; rfl)
      · cases h
    · cases h

theorem absorb_refused {err : EngineError} (h : absorb e envelope = (e', .error err)) :
    ∃ s, (e.session.processIncoming envelope.paddedCiphertext).1 = s ∧
      e' = { e with session := s } := by
  unfold absorb at h
  split at h
  · rename_i s err' hs
    cases h
    exact ⟨s, by rw [hs], rfl⟩
  · cases h
  · rename_i s hs
    obtain ⟨g, hg⟩ := processIncoming_group hs
    simp only [ChatSession.epoch, hg] at h
    cases h

theorem absorb_taken {event : Event} (h : absorb e envelope = (e', .ok event)) :
    ∃ s merged, (e.session.processIncoming envelope.paddedCiphertext).1 = s ∧
      e' = { e with
        session := s
        trace := ⟨e.trace.consumed ++ [envelope], e.trace.authored, merged⟩ } := by
  unfold absorb at h
  split at h
  · cases h
  · rename_i s bytes hs
    cases h
    exact ⟨s, _, by rw [hs], rfl⟩
  · rename_i s hs
    split at h
    · cases h
    · cases h
      exact ⟨s, _, by rw [hs], rfl⟩

theorem ChatEngine.persist_stored {st : Store mls} (h : e.store = some st)
    (ids : Finset MessageId) :
    (e.persist true ids).1 =
      { e with store := some (st.commit e.record e.session.snapshot e.trace ids) } := by
  simp only [ChatEngine.persist, h, if_true]

def Pc.receiver : Pc → Option Receiver
  | .receiving r => some r
  | .acking r _ => some r
  | .connecting (.receiving r) _ => some r
  | .subscribing (.receiving r) _ _ => some r
  | _ => none

/-- A regime that minds neither how a write ends, nor what a send is answered, nor over which
connection the engine goes on. -/
structure Regime.Lenient {mls : OpenMls} (R : Regime mls) : Prop where
  writes : ∀ ok, R.writes ok
  granted : ∀ e s reply, R.granted e s reply
  relay : ∀ e k conn, R.waits e [] k → R.waits { e with relay := conn } [] k
  lost : ∀ e s, R.out e [] s → R.stalled e [] s
  invites : R.permits .awaitPairing → ∀ e envelope, R.invites e envelope

theorem Regime.holds_wake {c : Crypto} {R : Regime mls} (hR : R.Closed c) (hL : R.Lenient)
    {t t' : Turn mls} {w : Wake} (hn : ∀ p link d, w = .push p link d → R.next t.engine p.2)
    (h : R.holds t.engine [] t.pc) (ht : t.wake c w = some t') :
    ∃ rs, R.holds t'.engine rs t'.pc := by
  have hends : ∀ link q, Meets c R link q [] t' → ∃ rs, R.holds t'.engine rs t'.pc :=
    fun _ _ hm => ⟨_, hm.holds⟩
  cases w with
  | push p link d =>
    simp only [Turn.wake] at ht
    split at ht
    · rename_i r hpc
      cases ht
      rw [hpc] at h
      refine hends link p.1 (meets_onPush hR (hL.writes _) h.2 (fun _ => hn p link d rfl) ?_ h.1)
      rintro rfl
      exact hL.invites h.2 _ _
    · cases ht
  | disconnected =>
    simp only [Turn.wake] at ht
    split at ht
    · rename_i r hpc
      cases ht
      rw [hpc] at h
      exact hends ⟨false, 0⟩ (.fill 0) (meets_onDisconnected hR h.2 h.1)
    · cases ht
  | replied reply link =>
    simp only [Turn.wake] at ht
    cases hpc : t.pc with
    | acking =>
      rw [hpc] at h ht
      cases ht
      exact hends link (.fill 0) (meets_onAcked hR h.2 h.1 reply)
    | sending =>
      rw [hpc] at h ht
      cases ht
      exact hends link (.fill 0) (meets_onSent hR (hL.writes _) h (hL.granted _ _ _))
    | subscribing k conn =>
      rw [hpc] at h ht
      cases ht
      exact hends link (.fill 0) (meets_onSubscribed hR h (hL.relay _ k conn h) reply)
    | _ =>
      rw [hpc] at ht
      cases ht
  | closed link =>
    simp only [Turn.wake] at ht
    cases hpc : t.pc with
    | acking =>
      rw [hpc] at h ht
      cases ht
      exact hends link (.fill 0) (meets_afterAck hR h.2 h.1)
    | sending s =>
      rw [hpc] at h ht
      cases ht
      exact ⟨[], hL.lost _ s h⟩
    | subscribing =>
      rw [hpc] at h ht
      cases ht
      exact hends link (.fill 0) (meets_gaveUp hR h _)
    | _ =>
      rw [hpc] at ht
      cases ht
  | connected =>
    simp only [Turn.wake] at ht
    split at ht
    · rename_i k n hpc
      cases ht
      rw [hpc] at h
      exact ⟨[], h⟩
    · cases ht
  | connectFailed =>
    simp only [Turn.wake] at ht
    split at ht
    · rename_i k n hpc
      cases ht
      rw [hpc] at h
      exact hends ⟨false, 0⟩ (.fill 0) (meets_onConnectFailed hR h n)
    · cases ht

/-- What is assumed of the surroundings of an engine. -/
structure Surroundings (mls : OpenMls) where
  /-- The application makes such calls. -/
  permits : Call → Prop
  /-- The envelope may be handed to the pairing. -/
  invites : ChatEngine mls → Envelope → Prop
  /-- A write to the store may end like this. -/
  writes : Bool → Prop

/-- The condition survives every update of an engine. -/
structure Stable {mls : OpenMls} (c : Crypto) (S : Surroundings mls) (A : ChatEngine mls → Prop) :
    Prop where
  events : ∀ {e} events, A e → A { e with pendingEvents := events }
  relay : ∀ {e} conn, A e → A { e with relay := conn }
  refused : ∀ {e envelope e' err}, A e → envelope.messageId ∉ e.seen →
    absorb (e.called envelope) envelope = (e', .error err) → A e'
  taken : ∀ {e envelope e' event diskOk}, S.writes diskOk → A e → envelope.messageId ∉ e.seen →
    absorb (e.called envelope) envelope = (e', .ok event) →
    A (e'.persist diskOk {envelope.messageId}).1
  unjoined : ∀ {e envelope payload s err}, A e → S.invites e envelope →
    decodeFrom BootstrapPayload.codec envelope.paddedCiphertext = some payload →
    e.session.joinFromWelcome payload.welcomeWire payload.treeWire = (s, .error err) →
    A { e with session := s }
  joined : ∀ {e envelope payload s diskOk}, S.writes diskOk → A e → S.invites e envelope →
    decodeFrom BootstrapPayload.codec envelope.paddedCiphertext = some payload →
    e.session.joinFromWelcome payload.welcomeWire payload.treeWire = (s, .ok ()) →
    A ((e.joined s envelope payload).persist diskOk {envelope.messageId}).1
  unencrypted : ∀ {e} rand plaintext, A e →
    (∀ wire, (e.session.encryptApplication rand plaintext).2 = .ok wire → wrap c wire = none) →
    A { e with session := (e.session.encryptApplication rand plaintext).1 }
  encrypted : ∀ {e rand plaintext s wire envelope diskOk}, S.writes diskOk → A e →
    e.session.encryptApplication rand plaintext = (s, .ok wire) → wrap c wire = some envelope →
    A (((e.author s envelope).note envelope.messageId).persist diskOk {envelope.messageId}).1
  unbuilt : ∀ {e} rand, S.permits .commitSelfUpdate → A e →
    (∀ wire, (e.session.selfUpdate rand).2 = .ok wire → wrap c wire = none) →
    A { e with session := (e.session.selfUpdate rand).1 }
  built : ∀ {e rand s wire envelope}, S.permits .commitSelfUpdate → A e →
    e.session.selfUpdate rand = (s, .ok wire) → wrap c wire = some envelope →
    A (e.author s envelope)
  unmerged : ∀ {e s err} id, S.permits .commitSelfUpdate → A e →
    e.session.mergePendingCommit = (s, .error err) → A { e.note id with session := s }
  merged : ∀ {e s diskOk} envelope, S.writes diskOk → S.permits .commitSelfUpdate → A e →
    e.session.mergePendingCommit = (s, .ok ()) →
    A (((e.note envelope.messageId).merge s envelope).persist diskOk {envelope.messageId}).1
  discarded : ∀ {e}, S.permits .commitSelfUpdate → A e →
    A { e with session := e.session.discardPendingCommit.1 }

theorem Stable.and {c : Crypto} {S : Surroundings mls} {A B : ChatEngine mls → Prop}
    (hA : Stable c S A) (hB : Stable c S B) : Stable c S (fun e => A e ∧ B e) where
  events es h := ⟨hA.events es h.1, hB.events es h.2⟩
  relay conn h := ⟨hA.relay conn h.1, hB.relay conn h.2⟩
  refused h hn ha := ⟨hA.refused h.1 hn ha, hB.refused h.2 hn ha⟩
  taken hd h hn ha := ⟨hA.taken hd h.1 hn ha, hB.taken hd h.2 hn ha⟩
  unjoined h hi hp hs := ⟨hA.unjoined h.1 hi hp hs, hB.unjoined h.2 hi hp hs⟩
  joined hd h hi hp hs := ⟨hA.joined hd h.1 hi hp hs, hB.joined hd h.2 hi hp hs⟩
  unencrypted rand p h hw := ⟨hA.unencrypted rand p h.1 hw, hB.unencrypted rand p h.2 hw⟩
  encrypted hd h hs hw := ⟨hA.encrypted hd h.1 hs hw, hB.encrypted hd h.2 hs hw⟩
  unbuilt rand hp h hw := ⟨hA.unbuilt rand hp h.1 hw, hB.unbuilt rand hp h.2 hw⟩
  built hp h hs hw := ⟨hA.built hp h.1 hs hw, hB.built hp h.2 hs hw⟩
  unmerged id hp h hm := ⟨hA.unmerged id hp h.1 hm, hB.unmerged id hp h.2 hm⟩
  merged a hd hp h hm := ⟨hA.merged a hd hp h.1 hm, hB.merged a hd hp h.2 hm⟩
  discarded hp h := ⟨hA.discarded hp h.1, hB.discarded hp h.2⟩

namespace Surroundings
variable {mls : OpenMls} (S : Surroundings mls) (A : ChatEngine mls → Prop)

/-- The regime of one condition. Without commits, none is ever under way. -/
def regime : Regime mls where
  rest e _ := A e
  out e _ s := A e ∧ (∀ ib epoch envelope, s = .commit ib epoch envelope →
    S.permits .commitSelfUpdate)
  stalled e _ s := A e ∧ (∀ ib epoch envelope, s = .commit ib epoch envelope →
    S.permits .commitSelfUpdate)
  next _ _ := True
  granted _ _ _ := True
  permits := S.permits
  commits _ := S.permits .commitSelfUpdate
  invites := S.invites
  writes := S.writes

variable {S A} {c : Crypto} {e : ChatEngine mls} {pc : Pc}

theorem persist_queue (e : ChatEngine mls) (event : Event) (diskOk : Bool)
    (ids : Finset MessageId) :
    ((e.queue event).persist diskOk ids).1 =
      { (e.persist diskOk ids).1 with pendingEvents := e.pendingEvents ++ [event] } := by
  rcases e with ⟨_, _, _, _, _, _, _, _, _, _, store, _, _, _⟩
  cases store with
  | none => rfl
  | some => cases diskOk <;> rfl

theorem regime_receives (hA : Stable c S A) : (S.regime A).Receives where
  queue _ h := hA.events _ h
  pop h _ := hA.events _ h
  failed _ h _ := h
  refused h _ hs ha := hA.refused h hs ha
  taken hd h _ hs ha := by
    rw [persist_queue]
    exact hA.events _ (hA.taken hd h hs ha)

theorem regime_pairs (hA : Stable c S A) : (S.regime A).Pairs where
  unjoined _ h hi hdec hj := hA.unjoined h hi hdec hj
  joined hd _ h hi hdec hj := hA.joined hd h hi hdec hj
  paired _ h := h

theorem regime_sends (hA : Stable c S A) : (S.regime A).Sends c where
  send h := h
  gaveUp _ h := h.1
  rejected _ h _ _ := h.1
  delivered h _ := h.1
  unsent _ _ h := h
  unencrypted rand _ h hw := hA.unencrypted rand _ h hw
  encrypted hd _ h _ hs hw hp := by
    have := hA.encrypted hd h hs hw
    rw [hp] at this
    exact ⟨this, by rintro _ _ _ ⟨⟩⟩
  unwritten hd _ h _ hs hw hp := by
    have := hA.encrypted hd h hs hw
    rw [hp] at this
    exact this

theorem regime_commits (hA : Stable c S A) : (S.regime A).Commits c where
  inbox hp _ _ := hp
  uncommitted _ _ h := h
  unbuilt rand hp h hw := hA.unbuilt rand hp h hw
  built hp h _ hs hw := ⟨hA.built hp h hs hw, fun _ _ _ _ => hp⟩
  unmerged h _ hm := hA.unmerged _ (h.2 _ _ _ rfl) h.1 hm
  merged {_ _ _ _ envelope _ _ _} hd h _ hm hp := by
    have := hA.merged envelope hd (h.2 _ _ _ rfl) h.1 hm
    rw [hp] at this
    exact this
  unrecorded {_ _ _ _ envelope _ _ _ _} hd h _ hm hp := by
    have := hA.merged envelope hd (h.2 _ _ _ rfl) h.1 hm
    rw [hp] at this
    exact this
  undiscarded h _ hm := by
    have := hA.discarded (h.2 _ _ _ rfl) h.1
    rw [hm] at this
    exact this
  discarded h _ hm := by
    have := hA.discarded (h.2 _ _ _ rfl) h.1
    rw [hm] at this
    exact ⟨h.2 _ _ _ rfl, this⟩

theorem regime_closed (hA : Stable c S A) : (S.regime A).Closed c :=
  { regime_receives hA, regime_pairs hA with
    sends := regime_sends hA
    commits := regime_commits hA }

theorem holds_condition {rs : List Result} (h : (S.regime A).holds e rs pc) : A e := by
  rcases Regime.holds_cases h with h | ⟨s, h⟩ | ⟨s, h⟩
  · exact h
  · exact h.1
  · exact h.1

theorem holds_of_receives (h : A e) (hc : S.permits .commitSelfUpdate)
    (hr : ∀ r, pc.receiver = some r → (S.regime A).receives r) : (S.regime A).holds e [] pc := by
  have hout : ∀ s, (S.regime A).out e [] s := fun _ => ⟨h, fun _ _ _ _ => hc⟩
  have hwaits : ∀ k, (∀ r, k = .receiving r → (S.regime A).receives r) →
      (S.regime A).waits e [] k := by
    intro k hk
    cases k with
    | receiving r => exact ⟨h, hk r rfl⟩
    | sending s => exact hout s
  cases pc with
  | idle => exact h
  | receiving r | acking r => exact ⟨h, hr r rfl⟩
  | sending s => exact hout s
  | connecting k | subscribing k => exact hwaits k (by rintro r rfl; exact hr r rfl)

theorem regime_lenient (hA : Stable c S A) (hw : ∀ ok, S.writes ok)
    (hi : S.permits .awaitPairing → ∀ e envelope, S.invites e envelope) :
    (S.regime A).Lenient where
  writes := hw
  granted _ _ _ := trivial
  relay e k conn h := by
    cases k with
    | receiving | sending => exact ⟨hA.relay conn h.1, h.2⟩
  lost _ _ h := h
  invites := hi

def any (mls : OpenMls) : Surroundings mls where
  permits _ := True
  invites _ _ := True
  writes _ := True

end Surroundings

section Anyhow
variable {mls : OpenMls} {c : Crypto} {A : ChatEngine mls → Prop}

theorem Stable.start (hA : Stable c (.any mls) A) {link : Link} {d : Draw} {e : ChatEngine mls}
    (call : Call) (h : A e) : A (call.start c link d e).engine := by
  have hm : Meets c ((Surroundings.any mls).regime A) link (.fill 0) [] (call.start c link d e) :=
    meets_start (Surroundings.regime_closed hA) trivial trivial h
  exact Surroundings.holds_condition hm.holds

theorem Stable.wake (hA : Stable c (.any mls) A) {t t' : Turn mls} {w : Wake} (h : A t.engine)
    (ht : t.wake c w = some t') : A t'.engine := by
  have hholds : ((Surroundings.any mls).regime A).holds t.engine [] t.pc :=
    Surroundings.holds_of_receives h trivial fun r _ => by cases r <;> trivial
  have hL := Surroundings.regime_lenient hA (fun _ => trivial) (fun _ _ _ => trivial)
  obtain ⟨rs, hafter⟩ := Regime.holds_wake (Surroundings.regime_closed hA) hL
    (fun _ _ _ _ => trivial) hholds ht
  exact Surroundings.holds_condition hafter

end Anyhow
end Rosette.Engine
