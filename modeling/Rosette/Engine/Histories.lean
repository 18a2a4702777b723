import Rosette.Engine.Conditions

/-! # What a session has lived through

An engine records what its session takes in, builds and merges, and stores the record beside the
session. Nothing reads the record. It is a true one: the session in memory, and the one in the
store, have come from the first by just these messages.
-/
namespace Rosette.Engine
open Foundation Proto Rosette.Core

variable {mls : OpenMls} {c : Crypto} {s₀ : ChatSession mls}

/-- The session has come from `s₀` by the messages of the trace. Beside them it may have made key
packages, refused messages, failed to build any, and been stored and restored. -/
inductive Lived (c : Crypto) (s₀ : ChatSession mls) : ChatSession mls → Trace → Prop where
  | start : Lived c s₀ s₀ .empty
  | restored {s s' t} (h : Lived c s₀ s t) (hs : ChatSession.restore s.snapshot = .ok s') :
    Lived c s₀ s' t
  | keyPackage {s t} (h : Lived c s₀ s t) (rand : ℕ) : Lived c s₀ (s.generateKeyPackage rand).1 t
  | refused {s s' t bytes err} (h : Lived c s₀ s t)
      (hs : s.processIncoming bytes = (s', .error err)) : Lived c s₀ s' t
  | read {s s' t bytes} {a : Envelope} (h : Lived c s₀ s t)
      (hs : s.processIncoming a.paddedCiphertext = (s', .ok (.application bytes))) :
    Lived c s₀ s' { t with consumed := t.consumed ++ [a] }
  | applied {s s' t} {a : Envelope} (h : Lived c s₀ s t)
      (hs : s.processIncoming a.paddedCiphertext = (s', .ok .commitApplied)) :
    Lived c s₀ s' { t with consumed := t.consumed ++ [a], merged := t.merged ++ [a] }
  | unjoined {s s' t welcome tree err} (h : Lived c s₀ s t)
      (hs : s.joinFromWelcome welcome tree = (s', .error err)) : Lived c s₀ s' t
  | joined {s s' t payload} {a : Envelope} (h : Lived c s₀ s t)
      (hp : decodeFrom BootstrapPayload.codec a.paddedCiphertext = some payload)
      (hs : s.joinFromWelcome payload.welcomeWire payload.treeWire = (s', .ok ())) :
    Lived c s₀ s' { t with consumed := t.consumed ++ [a] }
  | unsent {s t rand plaintext} (h : Lived c s₀ s t)
      (hs : ∀ wire, (s.encryptApplication rand plaintext).2 = .ok wire → wrap c wire = none) :
    Lived c s₀ (s.encryptApplication rand plaintext).1 t
  | sent {s s' t rand plaintext wire a} (h : Lived c s₀ s t)
      (hs : s.encryptApplication rand plaintext = (s', .ok wire)) (hw : wrap c wire = some a) :
    Lived c s₀ s' { t with authored := t.authored ++ [a] }
  | unbuilt {s t rand} (h : Lived c s₀ s t)
      (hs : ∀ wire, (s.selfUpdate rand).2 = .ok wire → wrap c wire = none) :
    Lived c s₀ (s.selfUpdate rand).1 t
  | built {s s' t rand wire a} (h : Lived c s₀ s t) (hs : s.selfUpdate rand = (s', .ok wire))
      (hw : wrap c wire = some a) : Lived c s₀ s' { t with authored := t.authored ++ [a] }
  | unmerged {s s' t err} (h : Lived c s₀ s t) (hs : s.mergePendingCommit = (s', .error err)) :
    Lived c s₀ s' t
  | merged {s s' t} (a : Envelope) (h : Lived c s₀ s t)
      (hs : s.mergePendingCommit = (s', .ok ())) :
    Lived c s₀ s' { t with merged := t.merged ++ [a] }
  | discarded {s t} (h : Lived c s₀ s t) : Lived c s₀ s.discardPendingCommit.1 t

/-- The stored trace is that of the stored session. -/
def Store.Tells (c : Crypto) (s₀ : ChatSession mls) (st : Store mls) : Prop :=
  ∀ snap, st.session = some snap → ∃ s, s.snapshot = snap ∧ Lived c s₀ s st.trace

/-- The engine's trace is that of its session, also at each message it handed over, and what it has
stored fits together. -/
structure Told (c : Crypto) (s₀ : ChatSession mls) (e : ChatEngine mls) : Prop where
  session : Lived c s₀ e.session e.trace
  calls : ∀ p ∈ e.calls, ∃ s, Lived c s₀ s p.1
  stored : ∀ st, e.store = some st → st.Tells c s₀

section Updates
variable {e e' : ChatEngine mls} {a : Envelope}

theorem Told.persist (h : Told c s₀ e) (diskOk : Bool) (ids : Finset MessageId) :
    Told c s₀ (e.persist diskOk ids).1 := by
  unfold ChatEngine.persist
  split
  · exact h
  · split_ifs
    · refine ⟨h.session, h.calls, ?_⟩
      rintro _ ⟨⟩ _ ⟨⟩
      exact ⟨e.session, rfl, h.session⟩
    · exact h

theorem Told.called (h : Told c s₀ e) (a : Envelope) : Told c s₀ (e.called a) := by
  refine ⟨h.session, fun p hp => ?_, h.stored⟩
  rcases List.mem_append.mp hp with hp | hp
  · exact h.calls p hp
  · rw [List.mem_singleton.mp hp]
    exact ⟨e.session, h.session⟩

theorem Told.absorbed (h : Told c s₀ e) {r : Except EngineError Event} (ha : absorb e a = (e', r)) :
    Told c s₀ e' := by
  unfold absorb at ha
  split at ha
  · rename_i hs
    cases ha
    exact ⟨.refused h.session hs, h.calls, h.stored⟩
  · rename_i hs
    cases ha
    exact ⟨.read h.session hs, h.calls, h.stored⟩
  · rename_i hs
    split at ha <;> cases ha <;> exact ⟨.applied h.session hs, h.calls, h.stored⟩

theorem Told.linked (h : Told c s₀ e) (rand : ℕ) : Told c s₀ (e.contactLink rand).1 := by
  rw [ChatEngine.contactLink_fst]
  exact ⟨.keyPackage h.session rand, h.calls, h.stored⟩

end Updates

/-- Whatever surrounds the engine, its trace stays true. -/
theorem told_stable (c : Crypto) (S : Surroundings mls) (s₀ : ChatSession mls) :
    Stable c S (Told c s₀) where
  events _ h := ⟨h.session, h.calls, h.stored⟩
  relay _ h := ⟨h.session, h.calls, h.stored⟩
  refused h _ ha := (h.called _).absorbed ha
  taken _ h _ ha := ((h.called _).absorbed ha).persist _ _
  unjoined h _ _ hs := ⟨.unjoined h.session hs, h.calls, h.stored⟩
  joined _ h _ hp hs := by
    apply Told.persist
    exact ⟨.joined h.session hp hs, h.calls, h.stored⟩
  unencrypted _ _ h hs := ⟨.unsent h.session hs, h.calls, h.stored⟩
  encrypted _ h hs hw := by
    apply Told.persist
    exact ⟨.sent h.session hs hw, h.calls, h.stored⟩
  unbuilt _ _ h hs := ⟨.unbuilt h.session hs, h.calls, h.stored⟩
  built _ h hs hw := ⟨.built h.session hs hw, h.calls, h.stored⟩
  unmerged _ _ h hs := ⟨.unmerged h.session hs, h.calls, h.stored⟩
  merged a _ _ h hs := by
    apply Told.persist
    exact ⟨.merged a h.session hs, h.calls, h.stored⟩
  discarded _ h := ⟨.discarded h.session, h.calls, h.stored⟩

end Rosette.Engine
