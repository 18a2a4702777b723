import Rosette.Engine.Conditions

/-! # Writes that fail

Every write of an engine replaces the stored session by the present one and adds the id
of one message to the stored table. If the write of one message fails and that of a later
one succeeds, the session with both is stored beside the id of the second alone.

An engine is complete if the table holds the ids of all messages its session has been
through. It stays so as long as its writes succeed. After a failed write it is merely
settled: what was stored before still fits together.
-/
namespace Rosette.Engine
open Foundation Proto Rosette.Core List

variable {mls : OpenMls} {c : Crypto}

/-- Some session builds the envelope as a commit. -/
def IsCommit (mls : OpenMls) (c : Crypto) (a : Envelope) : Prop :=
  ∃ (s s' : ChatSession mls) (rand : ℕ) (wire : List UInt8),
    s.selfUpdate rand = (s', .ok wire) ∧ wrap c wire = some a

/-- A session with this past carries the effect of the message: it took the message in, or
merged it, or authored it other than as a commit. -/
inductive Effect (mls : OpenMls) (c : Crypto) (t : Trace) (a : Envelope) : Prop where
  | consumed (h : a ∈ t.consumed)
  | merged (h : a ∈ t.merged)
  | authored (h : a ∈ t.authored) (message : ¬ IsCommit mls c a)

/-- The ids of all messages whose effect is there are in the table. -/
def Remembers (mls : OpenMls) (c : Crypto) (ids : Finset MessageId) (t : Trace) : Prop :=
  ∀ a, Effect mls c t a → a.messageId ∈ ids

def Store.Whole (c : Crypto) (st : Store mls) : Prop := Remembers mls c st.seen st.trace

/-- What the session has been through is in the engine's own table and was never handed to the
session again, and what is stored fits together. -/
structure Settled (c : Crypto) (e : ChatEngine mls) : Prop where
  seen : Remembers mls c e.seen e.trace
  calls : ∀ p ∈ e.calls, ∀ a, Effect mls c p.1 a → a.messageId ≠ p.2.messageId
  stored : ∀ st, e.store = some st → st.Whole c

/-- Beyond that, the stored table covers the session in memory. -/
structure Complete (c : Crypto) (e : ChatEngine mls) : Prop extends Settled c e where
  table : ∀ st, e.store = some st → Remembers mls c st.seen e.trace

section Updates
variable {e e' : ChatEngine mls} {a : Envelope} {diskOk : Bool}

theorem Settled.congr (h : Settled c e) (hst : e'.store = e.store) (ht : e'.trace = e.trace)
    (hs : e'.seen = e.seen) (hc : e'.calls = e.calls) : Settled c e' :=
  ⟨hs ▸ ht ▸ h.seen, hc ▸ h.calls, hst ▸ h.stored⟩

theorem Complete.congr (h : Complete c e) (hst : e'.store = e.store) (ht : e'.trace = e.trace)
    (hs : e'.seen = e.seen) (hc : e'.calls = e.calls) : Complete c e' :=
  ⟨h.toSettled.congr hst ht hs hc, hst ▸ ht ▸ h.table⟩

/-- The engine has been through one message more, and has noted its id. -/
structure Noted (c : Crypto) (e : ChatEngine mls) (a : Envelope) (e' : ChatEngine mls) : Prop where
  store : e'.store = e.store
  seen : e'.seen = insert a.messageId e.seen
  effects : ∀ b, Effect mls c e'.trace b → Effect mls c e.trace b ∨ b = a
  calls : e'.calls = e.calls ∨ a.messageId ∉ e.seen ∧ e'.calls = e.calls ++ [(e.trace, a)]

theorem Settled.handed (h : Settled c e) (hc : e'.calls = e.calls ∨
    ∃ a, a.messageId ∉ e.seen ∧ e'.calls = e.calls ++ [(e.trace, a)]) :
    ∀ p ∈ e'.calls, ∀ b, Effect mls c p.1 b → b.messageId ≠ p.2.messageId := by
  intro p hp b hb
  rcases hc with hc | ⟨a, hnew, hc⟩
  · rw [hc] at hp
    exact h.calls p hp b hb
  · rw [hc] at hp
    rcases mem_append.mp hp with hp | hp
    · exact h.calls p hp b hb
    · obtain rfl := mem_singleton.mp hp
      exact fun he => hnew (he ▸ h.seen b hb)

theorem Settled.noted (h : Settled c e) (hn : Noted c e a e') : Settled c e' := by
  refine ⟨fun b hb => ?_, h.handed (hn.calls.imp_right fun hc => ⟨a, hc⟩), hn.store ▸ h.stored⟩
  rw [hn.seen, Finset.mem_insert]
  rcases hn.effects b hb with hb | rfl
  · exact .inr (h.seen b hb)
  · exact .inl rfl

theorem Settled.unwritten (h : Settled c e) (hn : Noted c e a e') (hd : diskOk = false) :
    Settled c (e'.persist diskOk {a.messageId}).1 := by
  subst hd
  have hsame : (e'.persist false {a.messageId}).1 = e' := by
    unfold ChatEngine.persist
    split <;> rfl
  rw [hsame]
  exact h.noted hn

theorem Complete.written (h : Complete c e) (hn : Noted c e a e') (hd : diskOk = true) :
    Complete c (e'.persist diskOk {a.messageId}).1 := by
  subst hd
  have hset := h.toSettled.noted hn
  cases hst : e.store with
  | none =>
    have hsame : (e'.persist true {a.messageId}).1 = e' := by
      simp only [ChatEngine.persist, hn.store, hst]
    rw [hsame]
    refine ⟨hset, fun st hst' => ?_⟩
    simp [hn.store, hst] at hst'
  | some st =>
    have hcovers : Remembers mls c (st.seen ∪ {a.messageId}) e'.trace := by
      intro b hb
      rw [Finset.mem_union, Finset.mem_singleton]
      rcases hn.effects b hb with hb | rfl
      · exact .inl (h.table st hst b hb)
      · exact .inr rfl
    rw [ChatEngine.persist_stored (hn.store.trans hst)]
    refine ⟨⟨hset.seen, hset.calls, ?_⟩, ?_⟩
    · rintro _ ⟨⟩
      exact hcovers
    · rintro _ ⟨⟩
      exact hcovers

theorem effects_grown {t t' : Trace} (hc : t'.consumed <+: t.consumed ++ [a])
    (ha : t'.authored <+: t.authored ++ [a]) (hm : t'.merged <+: t.merged ++ [a]) (b : Envelope)
    (hb : Effect mls c t' b) : Effect mls c t b ∨ b = a := by
  have hgrown : ∀ {l l' : List Envelope}, l' <+: l ++ [a] → b ∈ l' → b ∈ l ∨ b = a := by
    intro l l' hl hb
    rcases mem_append.mp (hl.subset hb) with hb | hb
    · exact .inl hb
    · exact .inr (mem_singleton.mp hb)
  rcases hb with hb | hb | ⟨hb, hmessage⟩
  · exact (hgrown hc hb).imp_left .consumed
  · exact (hgrown hm hb).imp_left .merged
  · exact (hgrown ha hb).imp_left fun hb => .authored hb hmessage

theorem noted_taken {event : Event} (hn : a.messageId ∉ e.seen)
    (ha : absorb (e.called a) a = (e', .ok event)) : Noted c e a e' := by
  unfold absorb at ha
  split at ha
  · cases ha
  · cases ha
    exact ⟨rfl, rfl, effects_grown prefix_rfl (prefix_append _ _)
      (prefix_append _ _), .inr ⟨hn, rfl⟩⟩
  · split at ha
    · cases ha
    · cases ha
      exact ⟨rfl, rfl, effects_grown prefix_rfl (prefix_append _ _) prefix_rfl, .inr ⟨hn, rfl⟩⟩

theorem noted_joined (s : ChatSession mls) (payload : BootstrapPayload) :
    Noted c e a (e.joined s a payload) :=
  ⟨rfl, rfl, effects_grown prefix_rfl (prefix_append _ _) (prefix_append _ _),
    .inl rfl⟩

theorem noted_encrypted (s : ChatSession mls) :
    Noted c e a ((e.author s a).note a.messageId) :=
  ⟨rfl, rfl, effects_grown (prefix_append _ _) prefix_rfl (prefix_append _ _),
    .inl rfl⟩

theorem noted_merged (s : ChatSession mls) :
    Noted c e a ((e.note a.messageId).merge s a) :=
  ⟨rfl, rfl, effects_grown (prefix_append _ _) (prefix_append _ _) prefix_rfl,
    .inl rfl⟩

/-- An id is noted, or a message handed over and refused, and nothing comes of it. -/
structure Unmoved (e e' : ChatEngine mls) : Prop where
  store : e'.store = e.store
  trace : e'.trace = e.trace
  seen : e.seen ⊆ e'.seen
  calls : e'.calls = e.calls ∨ ∃ a, a.messageId ∉ e.seen ∧ e'.calls = e.calls ++ [(e.trace, a)]

theorem Settled.unmoved (h : Settled c e) (hu : Unmoved e e') : Settled c e' := by
  refine ⟨fun b hb => ?_, h.handed hu.calls, hu.store ▸ h.stored⟩
  rw [hu.trace] at hb
  exact hu.seen (h.seen b hb)

theorem Complete.unmoved (h : Complete c e) (hu : Unmoved e e') : Complete c e' := by
  refine ⟨h.toSettled.unmoved hu, ?_⟩
  rw [hu.store, hu.trace]
  exact h.table

theorem unmoved_refused {err : EngineError} (hn : a.messageId ∉ e.seen)
    (ha : absorb (e.called a) a = (e', .error err)) : Unmoved e e' := by
  obtain ⟨s, -, rfl⟩ := absorb_refused ha
  exact ⟨rfl, rfl, Finset.subset_insert _ _, .inr ⟨a, hn, rfl⟩⟩

theorem unmoved_note (id : MessageId) (s : ChatSession mls) :
    Unmoved e { e.note id with session := s } :=
  ⟨rfl, rfl, Finset.subset_insert _ _, .inl rfl⟩

theorem effect_built {s : ChatSession mls} {b : Envelope} (ha : IsCommit mls c a)
    (hb : Effect mls c (e.author s a).trace b) : Effect mls c e.trace b := by
  rcases hb with hb | hb | ⟨hb, hm⟩
  · exact .consumed hb
  · exact .merged hb
  · rcases mem_append.mp hb with hb | hb
    · exact .authored hb hm
    · obtain rfl := mem_singleton.mp hb
      exact absurd ha hm

theorem Settled.built (h : Settled c e) (s : ChatSession mls) (ha : IsCommit mls c a) :
    Settled c (e.author s a) :=
  ⟨fun b hb => h.seen b (effect_built ha hb), h.calls, h.stored⟩

theorem Complete.built (h : Complete c e) (s : ChatSession mls) (ha : IsCommit mls c a) :
    Complete c (e.author s a) :=
  ⟨h.toSettled.built s ha, fun st hst b hb => h.table st hst b (effect_built ha hb)⟩

end Updates

/-- Any calls and any payloads; every write ends alike. -/
def Surroundings.writing (mls : OpenMls) (diskOk : Bool) : Surroundings mls where
  permits _ := True
  invites _ _ := True
  writes b := b = diskOk

theorem complete_stable (c : Crypto) : Stable c (.writing mls true) (Complete c) where
  events _ h := h.congr rfl rfl rfl rfl
  relay _ h := h.congr rfl rfl rfl rfl
  refused h hn ha := h.unmoved (unmoved_refused hn ha)
  taken hd h hn ha := h.written (noted_taken hn ha) hd
  unjoined h _ _ _ := h.congr rfl rfl rfl rfl
  joined hd h _ _ _ := h.written (noted_joined _ _) hd
  unencrypted _ _ h _ := h.congr rfl rfl rfl rfl
  encrypted hd h _ _ := h.written (noted_encrypted _) hd
  unbuilt _ _ h _ := h.congr rfl rfl rfl rfl
  built _ h hu hw := h.built _ ⟨_, _, _, _, hu, hw⟩
  unmerged id _ h _ := h.unmoved (unmoved_note id _)
  merged _ hd _ h _ := h.written (noted_merged _) hd
  discarded _ h := h.congr rfl rfl rfl rfl

theorem settled_stable (c : Crypto) : Stable c (.writing mls false) (Settled c) where
  events _ h := h.congr rfl rfl rfl rfl
  relay _ h := h.congr rfl rfl rfl rfl
  refused h hn ha := h.unmoved (unmoved_refused hn ha)
  taken hd h hn ha := h.unwritten (noted_taken hn ha) hd
  unjoined h _ _ _ := h.congr rfl rfl rfl rfl
  joined hd h _ _ _ := h.unwritten (noted_joined _ _) hd
  unencrypted _ _ h _ := h.congr rfl rfl rfl rfl
  encrypted hd h _ _ := h.unwritten (noted_encrypted _) hd
  unbuilt _ _ h _ := h.congr rfl rfl rfl rfl
  built _ h hu hw := h.built _ ⟨_, _, _, _, hu, hw⟩
  unmerged id _ h _ := h.unmoved (unmoved_note id _)
  merged _ hd _ h _ := h.unwritten (noted_merged _) hd
  discarded _ h := h.congr rfl rfl rfl rfl

/-! ## What hangs on a write

A stretch makes at most one write. If it makes none, it does not matter how one would
have ended; if it makes one, a failure ends the call with it.
-/

def Result.failure : Result → Option EngineError
  | .event (.error err) => some err
  | .paired (.error err) => some err
  | .sent _ _ (.error err) => some err
  | .committed _ (.error err) => some err
  | .link (.error err) => some err
  | .attached (.error err) => some err
  | _ => none

theorem Receiver.failed_failure (r : Receiver) (err : EngineError) :
    (r.failed err).failure = some err := by
  cases r <;> rfl

/-- Two ends of one stretch, with a write that succeeds and with one that fails. -/
structure Hinges (e : ChatEngine mls) (written failed : Turn mls) : Prop where
  refused : ∃ r, failed.result = some r ∧ r.failure = some .storeFailed
  wrote : ∃ st st', e.store = some st ∧ written.engine.store = some st' ∧
    st'.revision = st.revision + 1

section Hinges
variable {e : ChatEngine mls} {link : Link} {rand : ℕ}

theorem persist_cases (e : ChatEngine mls) (ids : Finset MessageId) :
    (∀ diskOk, e.persist diskOk ids = (e, .ok ())) ∨ ∃ st st', e.store = some st ∧
      e.persist true ids = ({ e with store := some st' }, .ok ()) ∧
      st'.revision = st.revision + 1 ∧ e.persist false ids = (e, .error .storeFailed) := by
  cases hst : e.store with
  | none =>
    refine .inl fun diskOk => ?_
    simp only [ChatEngine.persist, hst]
  | some st =>
    refine .inr ⟨st, st.commit e.record e.session.snapshot e.trace ids, rfl, ?_, rfl, ?_⟩
    · simp only [ChatEngine.persist, hst, if_true]
    · simp only [ChatEngine.persist, hst, Bool.false_eq_true, if_false]

/-- Where no write is made, the store stays. -/
def Surroundings.unwriting (mls : OpenMls) : Surroundings mls where
  permits _ := True
  invites _ _ := True
  writes _ := False

theorem store_stable (c : Crypto) (store : Option (Store mls)) :
    Stable c (.unwriting mls) (fun e => e.store = store) where
  events _ h := h
  relay _ h := h
  refused h _ ha := by
    obtain ⟨s, -, rfl⟩ := absorb_refused ha
    exact h
  taken hd := hd.elim
  unjoined h _ _ _ := h
  joined hd := hd.elim
  unencrypted _ _ h _ := h
  encrypted hd := hd.elim
  unbuilt _ _ h _ := h
  built _ h _ _ := h
  unmerged _ _ h _ := h
  merged _ hd := hd.elim
  discarded _ h := h

theorem tryAck_store {d : Draw} {r : Receiver} {q : QueueId} {id : MessageId} (hid : id ∈ e.seen) :
    (tryAck c link d e r q id).engine.store = e.store := by
  have hm : Meets c ((Surroundings.unwriting mls).regime (fun e' => e'.store = e.store)) link q []
      (tryAck c link d e r q id) :=
    meets_tryAck (Surroundings.regime_closed (store_stable c e.store)) (by cases r <;> trivial)
      hid rfl
  exact Surroundings.holds_condition hm.holds

theorem hinges_pumpFresh (r : Receiver) (q : QueueId) (a : Envelope) :
    pumpFresh c link ⟨rand, true⟩ e r q a = pumpFresh c link ⟨rand, false⟩ e r q a ∨
      Hinges e (pumpFresh c link ⟨rand, true⟩ e r q a)
        (pumpFresh c link ⟨rand, false⟩ e r q a) := by
  unfold pumpFresh
  rcases ha : absorb (e.called a) a with ⟨e₁, err | event⟩
  · exact .inl rfl
  · obtain ⟨session, trace, heq⟩ := absorb_eq (e.called a) a
    rw [ha] at heq
    obtain rfl : e₁ = _ := heq
    dsimp only
    generalize hq : ChatEngine.queue _ event = e₂
    have hstore : e₂.store = e.store := by rw [← hq]; rfl
    have hseen : a.messageId ∈ e₂.seen := by
      rw [← hq]
      exact Finset.mem_insert_self _ _
    rcases persist_cases e₂ {a.messageId} with hp | ⟨st, st', hst, ht, hrev, hf⟩
    · rw [hp, hp]
      exact .inl rfl
    · rw [ht, hf]
      refine .inr ⟨⟨_, rfl, r.failed_failure _⟩, st, st', hstore ▸ hst, ?_, hrev⟩
      exact tryAck_store hseen

variable (c e link rand) in
theorem hinges_onPush (r : Receiver) (p : QueueId × Envelope) :
    onPush c link ⟨rand, true⟩ e r p = onPush c link ⟨rand, false⟩ e r p ∨
      Hinges e (onPush c link ⟨rand, true⟩ e r p) (onPush c link ⟨rand, false⟩ e r p) := by
  have hpump : ∀ r, pumpPush c link ⟨rand, true⟩ e r p.1 p.2 =
      pumpPush c link ⟨rand, false⟩ e r p.1 p.2 ∨
      Hinges e (pumpPush c link ⟨rand, true⟩ e r p.1 p.2)
        (pumpPush c link ⟨rand, false⟩ e r p.1 p.2) := by
    intro r
    unfold pumpPush
    split_ifs
    · exact .inl rfl
    · exact hinges_pumpFresh r p.1 p.2
  cases r with
  | nextEvent => exact hpump .nextEvent
  | drain ib staleEpoch => exact hpump (.drain ib staleEpoch)
  | awaitPairing =>
    change pairPush c link ⟨rand, true⟩ e p.1 p.2 = pairPush c link ⟨rand, false⟩ e p.1 p.2 ∨
      Hinges e (pairPush c link ⟨rand, true⟩ e p.1 p.2) (pairPush c link ⟨rand, false⟩ e p.1 p.2)
    unfold pairPush
    split
    · exact .inl rfl
    · rename_i payload hdec
      rcases hj : e.session.joinFromWelcome payload.welcomeWire payload.treeWire with ⟨s, err | _⟩
      · exact .inl rfl
      · dsimp only
        rcases persist_cases (e.joined s p.2 payload) {p.2.messageId} with
          hp | ⟨st, st', hst, ht, hrev, hf⟩
        · rw [hp, hp]
          exact .inl rfl
        · rw [ht, hf]
          refine .inr ⟨⟨_, rfl, rfl⟩, st, st', hst, ?_, hrev⟩
          exact tryAck_store (Finset.mem_insert_self _ _)

theorem hinges_onSent (s : Sending) (reply : ServerMessage) :
    onSent c link ⟨rand, true⟩ e s reply = onSent c link ⟨rand, false⟩ e s reply ∨
      Hinges e (onSent c link ⟨rand, true⟩ e s reply) (onSent c link ⟨rand, false⟩ e s reply) := by
  unfold onSent
  split
  · exact .inl rfl
  · rename_i envelope
    unfold mergeOwn
    rcases hm : (e.note envelope.messageId).session.mergePendingCommit with ⟨s, err | _⟩
    · exact .inl rfl
    · dsimp only
      rcases persist_cases ((e.note envelope.messageId).merge s envelope) {envelope.messageId} with
        hp | ⟨st, st', hst, ht, hrev, hf⟩
      · rw [hp, hp]
        exact .inl rfl
      · rw [ht, hf]
        exact .inr ⟨⟨_, rfl, rfl⟩, st, st', hst, rfl, hrev⟩
  · exact .inl rfl
  · exact .inl rfl
  · exact .inl rfl

variable (c e link rand) in
theorem hinges_start (call : Call) :
    call.start c link ⟨rand, true⟩ e = call.start c link ⟨rand, false⟩ e ∨
      Hinges e (call.start c link ⟨rand, true⟩ e) (call.start c link ⟨rand, false⟩ e) := by
  cases call with
  | nextEvent | awaitPairing | commitSelfUpdate => exact .inl rfl
  | sendMessage plaintext =>
    change sendMessage c link ⟨rand, true⟩ e plaintext =
        sendMessage c link ⟨rand, false⟩ e plaintext ∨
      Hinges e (sendMessage c link ⟨rand, true⟩ e plaintext)
        (sendMessage c link ⟨rand, false⟩ e plaintext)
    unfold sendMessage
    split
    · exact .inl rfl
    · rename_i ib hib
      rcases hu : e.session.encryptApplication rand plaintext with ⟨s, err | wire⟩
      · exact .inl rfl
      · dsimp only
        cases hw : wrap c wire with
        | none => exact .inl rfl
        | some a =>
          dsimp only
          rcases persist_cases ((e.author s a).note a.messageId) {a.messageId} with
            hp | ⟨st, st', hst, ht, hrev, hf⟩
          · rw [hp, hp]
            exact .inl rfl
          · rw [ht, hf]
            refine .inr ⟨⟨_, rfl, rfl⟩, st, st', hst, ?_, hrev⟩
            unfold sendToGroupInbox
            split_ifs <;> rfl

variable (c e link rand) in
theorem hinges_onReply (reply : ServerMessage) (pc : Pc) :
    onReply c link ⟨rand, true⟩ e reply pc = onReply c link ⟨rand, false⟩ e reply pc ∨
      ∃ written failed, onReply c link ⟨rand, true⟩ e reply pc = some written ∧
        onReply c link ⟨rand, false⟩ e reply pc = some failed ∧ Hinges e written failed := by
  cases pc with
  | sending s =>
    rcases hinges_onSent s reply with h | h
    · exact .inl (congrArg some h)
    · exact .inr ⟨_, _, rfl, rfl, h⟩
  | _ => exact .inl rfl

end Hinges
end Rosette.Engine
