import Rosette.Core.Reading
import Rosette.Engine.Rules
import Rosette.Foundation.Replay

/-! # An engine that reads

The messages of others that come to an engine for the first time, in order, are the plan.
The engine has been through an initial part of the plan, and what it has reported, with
what it has queued to report, is what that part says. Messages that come too late may be
missing there.
-/
namespace Rosette.Engine
open Foundation Proto Rosette.Core List

/-- What an event tells the user, and the envelope it came in. -/
def Event.shown : Event → Option (List UInt8 × Envelope)
  | .message bytes source => some (bytes, source)
  | _ => none

def Result.shown : Result → Option (List UInt8 × Envelope)
  | .event (.ok told) => told.shown
  | _ => none

def surfaced (rs : List Result) : List (List UInt8 × Envelope) := rs.filterMap Result.shown

def ChatEngine.waiting {mls : OpenMls} (e : ChatEngine mls) : List (List UInt8 × Envelope) :=
  e.pendingEvents.filterMap Event.shown

theorem surfaced_snoc (rs : List Result) (r : Result) :
    surfaced (rs ++ [r]) = surfaced rs ++ r.shown.toList := by
  cases h : r.shown with
  | none | some => simp [surfaced, h]

theorem ChatEngine.waiting_queue {mls : OpenMls} (e : ChatEngine mls) (event : Event) :
    (e.queue event).waiting = e.waiting ++ event.shown.toList := by
  rw [queue]
  cases h : event.shown with
  | none | some => simp [waiting, h]

/-- Where an engine starts to read: what its session has been handed and has built before, the
ids it has seen, and the messages it has sent and reported. -/
structure Outset (mls : OpenMls) where
  laws : ReadLaws mls
  crypto : Crypto
  past : List (List UInt8)
  wires : List Wire
  old : Finset MessageId
  built : List Envelope
  told : List (List UInt8 × Envelope)

namespace Outset
variable {mls : OpenMls} (O : Outset mls)

def handed (read : List Envelope) : List (List UInt8) :=
  O.past ++ read.map Envelope.paddedCiphertext

/-- The message comes in its turn after these. -/
def InTurn (read : List Envelope) (a : Envelope) : Prop :=
  O.laws.Follows (O.handed read) a.paddedCiphertext

/-- Each message of the plan comes in its turn, or too late. -/
def Legible (plan : List Envelope) : Prop :=
  ∀ n a, plan[n]? = some a → O.InTurn (plan.take n) a ∨
    O.laws.Late (O.handed (plan.take n)) a.paddedCiphertext

def tells (a : Envelope) : List UInt8 × Envelope := (O.laws.content a.paddedCiphertext, a)

/-- What the messages have told, the late ones perhaps left out. -/
inductive Shown : List Envelope → List (List UInt8 × Envelope) → Prop where
  | nil : Shown [] []
  | read {l ms} (a : Envelope) (h : Shown l ms) : Shown (l ++ [a]) (ms ++ [O.tells a])
  | late {l ms a} (h : Shown l ms) (turn : ¬ O.InTurn l a) : Shown (l ++ [a]) ms

/-- The session stands after what it was handed, and what was built since is on record. -/
def Abreast (past : List (List UInt8)) (s : ChatSession mls) (authored : List Envelope) : Prop :=
  ∃ new, O.laws.Holds s past (O.wires ++ new) ∧
    authored = O.built ++ new.filterMap (wrap O.crypto)

/-- The engine has been through the first `n` messages of the plan. -/
structure Reader (plan : List Envelope) (n : ℕ) (e : ChatEngine mls) : Prop where
  le : n ≤ plan.length
  session : O.Abreast (O.handed (plan.take n)) e.session e.trace.authored
  seen : ∀ id, id ∈ e.seen ↔ id ∈ O.old ∨ (∃ a ∈ plan.take n, a.messageId = id) ∨
    ∃ a ∈ e.trace.authored, a.messageId = id
  calls : e.calls.map Prod.snd = plan.take n

/-- At rest: what has been read is what is reported or queued. -/
def Rests (plan : List Envelope) (e : ChatEngine mls) (rs : List Result) : Prop :=
  ∃ n ms, O.Reader plan n e ∧ O.Shown (plan.take n) ms ∧ surfaced rs ++ e.waiting = O.told ++ ms

/-- The regime of a reader. It reads and sends, and makes no commits. -/
def regime (plan : List Envelope) : Regime mls where
  rest := O.Rests plan
  out e rs s := O.Rests plan e rs ∧ ∃ ib plaintext a, s = .message ib plaintext a
  stalled e rs s := O.Rests plan e rs ∧ ∃ ib plaintext a, s = .message ib plaintext a
  next e a := plan[e.calls.length]? = some a
  granted _ _ _ := True
  permits call := call = .nextEvent ∨ ∃ plaintext, call = .sendMessage plaintext
  commits _ := False

variable {O} {plan : List Envelope} {n rand : ℕ} {e e' : ChatEngine mls} {rs : List Result}
  {s : ChatSession mls} {a : Envelope} {plaintext : List UInt8} {pc : Pc}

theorem Reader.length_calls (h : O.Reader plan n e) : e.calls.length = n := by
  have hlen := congrArg length h.calls
  rwa [length_map, length_take, min_eq_left h.le] at hlen

theorem Reader.congr (h : O.Reader plan n e) (hs : e'.session = e.session)
    (hseen : e'.seen = e.seen) (ht : e'.trace.authored = e.trace.authored)
    (hc : e'.calls = e.calls) :
    O.Reader plan n e' :=
  ⟨h.le, hs ▸ ht ▸ h.session, hseen ▸ ht ▸ h.seen, hc ▸ h.calls⟩

section
variable (h : O.Rests plan e rs)
include h

theorem Rests.congr {rs' : List Result} (hs : e'.session = e.session) (hseen : e'.seen = e.seen)
    (ht : e'.trace.authored = e.trace.authored) (hc : e'.calls = e.calls)
    (hw : surfaced rs' ++ e'.waiting = surfaced rs ++ e.waiting) : O.Rests plan e' rs' := by
  obtain ⟨n, ms, hr, hm, hall⟩ := h
  exact ⟨n, ms, hr.congr hs hseen ht hc, hm, hw.trans hall⟩

theorem Rests.snoc {r : Result} (hr : r.shown = none) :
    O.Rests plan e (rs ++ [r]) := by
  refine h.congr rfl rfl rfl rfl ?_
  rw [surfaced_snoc, hr, Option.toList_none, append_nil]

theorem Rests.persist (diskOk : Bool) (ids : Finset MessageId) :
    O.Rests plan (e.persist diskOk ids).1 rs := by
  obtain ⟨store, hs⟩ := e.persist_eq diskOk ids
  rw [hs]
  exact h.congr rfl rfl rfl rfl rfl

theorem Rests.persisted {diskOk : Bool} {ids : Finset MessageId} {p : ChatEngine mls}
    {r : Except EngineError Unit} (hp : e.persist diskOk ids = (p, r)) :
    O.Rests plan p rs := by
  have := h.persist diskOk ids
  rwa [hp] at this

theorem Rests.resession
    (hs : ∀ past sent, O.laws.Holds e.session past sent →
      ∃ more, O.laws.Holds s past (sent ++ more) ∧ more.filterMap (wrap O.crypto) = []) :
    O.Rests plan { e with session := s } rs := by
  obtain ⟨n, ms, hr, hm, hall⟩ := h
  obtain ⟨new, hh, hb⟩ := hr.session
  obtain ⟨more, hh', hnone⟩ := hs _ _ hh
  refine ⟨n, ms, ⟨hr.le, ⟨new ++ more, ?_, ?_⟩, hr.seen, hr.calls⟩, hm, hall⟩
  · rw [← append_assoc]
    exact hh'
  · rw [filterMap_append, hnone, append_nil]
    exact hb

theorem Rests.linked (rand : ℕ) :
    O.Rests plan (e.contactLink rand).1 rs := by
  rw [ChatEngine.contactLink_fst]
  refine h.resession fun past sent hh => ⟨[], ?_, rfl⟩
  rw [append_nil]
  exact hh.generateKeyPackage rand

theorem Rests.attached (diskOk : Bool) (disk : Store mls) :
    O.Rests plan (e.attachStore diskOk disk).1 rs := by
  have hstored : O.Rests plan { e with store := some disk } rs := h.congr rfl rfl rfl rfl rfl
  exact hstored.persist _ _

end

theorem Reader.advance (h : O.Reader plan n e) (ha : plan[n]? = some a)
    (hs : e'.seen = insert a.messageId e.seen) (ht : e'.trace.authored = e.trace.authored)
    (hc : e'.calls = e.calls ++ [(e.trace, a)])
    (hh : O.Abreast (O.handed (plan.take n) ++ [a.paddedCiphertext]) e'.session
      e.trace.authored) :
    O.Reader plan (n + 1) e' := by
  have hn := take_succ_of_getElem? ha
  refine ⟨(List.getElem?_eq_some_iff.mp ha).1, ?_, fun id => ?_, ?_⟩
  · rw [handed, hn, map_append, ← append_assoc, ht]
    exact hh
  · rw [hs, Finset.mem_insert, h.seen, ht, hn]
    simp only [mem_append, mem_singleton, or_and_right, exists_or, exists_eq_left]
    generalize (∃ b ∈ plan.take n, b.messageId = id) = P
    generalize (∃ b ∈ e.trace.authored, b.messageId = id) = Q
    tauto
  · rw [hc, map_append, h.calls, hn]
    rfl

theorem Reader.absorbed (hl : O.Legible plan) (h : O.Reader plan n e) (ha : plan[n]? = some a)
    {r : Except EngineError Event} (hab : absorb (e.called a) a = (e', r)) :
    O.Reader plan (n + 1) e' ∧ e'.pendingEvents = e.pendingEvents ∧
    ((∃ err, r = .error err) ∧ ¬ O.InTurn (plan.take n) a ∨
      r = .ok (.message (O.laws.content a.paddedCiphertext) a)) := by
  obtain ⟨new, hh, hb⟩ := h.session
  have hcalled : (e.called a).session = e.session := rfl
  have hread : ∀ s', e.session.processIncoming a.paddedCiphertext =
        (s', .ok (.application (O.laws.content a.paddedCiphertext))) →
      O.laws.Holds s' (O.handed (plan.take n) ++ [a.paddedCiphertext]) (O.wires ++ new) →
      O.Reader plan (n + 1) e' ∧ e'.pendingEvents = e.pendingEvents ∧
        r = .ok (.message (O.laws.content a.paddedCiphertext) a) := by
    intro s' hp hh'
    rw [absorb, hcalled, hp] at hab
    cases hab
    exact ⟨h.advance ha rfl rfl rfl ⟨new, hh', hb⟩, rfl, rfl⟩
  by_cases hturn : O.InTurn (plan.take n) a
  · obtain ⟨s', hp, hh'⟩ := hh.read hturn
    obtain ⟨hr, hq, hok⟩ := hread s' hp hh'
    exact ⟨hr, hq, .inr hok⟩
  · obtain ⟨s', r', hp, hh', ⟨err, rfl⟩ | rfl⟩ := hh.late ((hl n a ha).resolve_left hturn)
    · rw [absorb, hcalled, hp] at hab
      cases hab
      exact ⟨h.advance ha rfl rfl rfl ⟨new, hh', hb⟩, rfl, .inl ⟨⟨_, rfl⟩, hturn⟩⟩
    · obtain ⟨hr, hq, hok⟩ := hread s' hp hh'
      exact ⟨hr, hq, .inr hok⟩

theorem regime_receives (hl : O.Legible plan) : (O.regime plan).Receives where
  queue online h := by
    refine h.congr rfl rfl rfl rfl ?_
    rw [ChatEngine.waiting_queue]
    exact congrArg _ (append_nil _)
  pop {e rs event events} h hp := by
    refine h.congr rfl rfl rfl rfl ?_
    rw [surfaced_snoc, append_assoc]
    congr 1
    rw [ChatEngine.waiting, ChatEngine.waiting, hp]
    cases hs : event.shown with
    | none | some => simp [Result.shown, hs]
  failed {e rs r} err h hr := by
    refine Rests.snoc h ?_
    cases r <;> rfl
  refused h hn _ hab := by
    obtain ⟨n, ms, hr, hm, hall⟩ := h
    change plan[_]? = _ at hn
    rw [hr.length_calls] at hn
    obtain ⟨hr', hq, ⟨-, hturn⟩ | hok⟩ := hr.absorbed hl hn hab
    · refine ⟨n + 1, ms, hr', ?_, ?_⟩
      · rw [take_succ_of_getElem? hn]
        exact hm.late hturn
      · rw [ChatEngine.waiting, hq]
        exact hall
    · cases hok
  taken {e rs a e' event diskOk} _ h hn _ hab := by
    obtain ⟨n, ms, hr, hm, hall⟩ := h
    change plan[_]? = _ at hn
    rw [hr.length_calls] at hn
    obtain ⟨hr', hq, ⟨⟨err, herr⟩, -⟩ | hok⟩ := hr.absorbed hl hn hab
    · cases herr
    · cases hok
      have hq' : (e'.queue (.message (O.laws.content a.paddedCiphertext) a)).waiting =
          e.waiting ++ [O.tells a] := by
        rw [ChatEngine.waiting_queue, ChatEngine.waiting, hq]
        rfl
      have hrests : O.Rests plan
          (e'.queue (.message (O.laws.content a.paddedCiphertext) a)) rs := by
        refine ⟨n + 1, ms ++ [O.tells a], hr'.congr rfl rfl rfl rfl, ?_, ?_⟩
        · rw [take_succ_of_getElem? hn]
          exact hm.read a
        · rw [hq', ← append_assoc, hall, append_assoc]
      exact hrests.persist _ _

theorem not_permits {call : Call} (hc : call = .awaitPairing ∨ call = .commitSelfUpdate) :
    ¬ (call = .nextEvent ∨ ∃ plaintext, call = .sendMessage plaintext) := by
  rintro (hp | ⟨plaintext, hp⟩) <;> rcases hc with hc | hc <;> rw [hc] at hp <;> cases hp

theorem regime_pairs (plan : List Envelope) : (O.regime plan).Pairs where
  unjoined hp := absurd hp (not_permits (.inl rfl))
  joined _ hp := absurd hp (not_permits (.inl rfl))
  paired hp := absurd hp (not_permits (.inl rfl))

theorem Rests.authored (h : O.Rests plan e rs) {wire : Wire}
    (hs : e.session.encryptApplication rand plaintext = (s, .ok wire))
    (hw : wrap O.crypto wire = some a) : O.Rests plan ((e.author s a).note a.messageId) rs := by
  obtain ⟨n, ms, hr, hm, hall⟩ := h
  obtain ⟨new, hh, hb⟩ := hr.session
  refine ⟨n, ms, ⟨hr.le, ⟨new ++ [wire], ?_, ?_⟩, fun id => ?_, hr.calls⟩, hm, hall⟩
  · rw [← append_assoc]
    exact ((hh.encryptApplication hs).2 wire rfl).1
  · change e.trace.authored ++ [a] = _
    rw [hb]
    simp [hw]
  · change id ∈ insert a.messageId e.seen ↔ _ ∨ _ ∨ ∃ b ∈ e.trace.authored ++ [a], b.messageId = id
    rw [Finset.mem_insert, hr.seen]
    simp only [mem_append, mem_singleton, or_and_right, exists_or, exists_eq_left]
    generalize (∃ b ∈ plan.take n, b.messageId = id) = P
    generalize (∃ b ∈ e.trace.authored, b.messageId = id) = Q
    tauto

theorem Rests.unencrypted (h : O.Rests plan e rs)
    (hw : ∀ wire, (e.session.encryptApplication rand plaintext).2 = .ok wire →
      wrap O.crypto wire = none) :
    O.Rests plan { e with session := (e.session.encryptApplication rand plaintext).1 } rs := by
  refine h.resession fun past sent hh => ?_
  rcases hs : e.session.encryptApplication rand plaintext with ⟨s, err | wire⟩
  · exact ⟨[], by rw [append_nil]; exact (hh.encryptApplication hs).1 err rfl, rfl⟩
  · rw [hs] at hw
    exact ⟨[wire], ((hh.encryptApplication hs).2 wire rfl).1, by simp [hw wire rfl]⟩

theorem regime_sends (plan : List Envelope) : (O.regime plan).Sends O.crypto where
  send h := h
  gaveUp {e rs s} err h := by
    obtain ⟨hr, ib, plaintext, a, rfl⟩ := h
    exact Rests.snoc hr rfl
  rejected {e rs s reply} err h _ _ := by
    obtain ⟨hr, ib, plaintext, a, rfl⟩ := h
    exact Rests.snoc hr rfl
  delivered h _ := Rests.snoc h.1 rfl
  unsent _ _ h := Rests.snoc h rfl
  unencrypted rand _ h hw := Rests.unencrypted h hw
  encrypted _ _ h _ hs hw hp := ⟨(Rests.authored h hs hw).persisted hp, _, _, _, rfl⟩
  unwritten _ _ h _ hs hw hp := Rests.snoc ((Rests.authored h hs hw).persisted hp) rfl

theorem regime_commits (c : Crypto) (plan : List Envelope) : (O.regime plan).Commits c where
  inbox hp := absurd hp (not_permits (.inr rfl))
  uncommitted _ hp := absurd hp (not_permits (.inr rfl))
  unbuilt _ hib := hib.elim
  built hib := hib.elim
  unmerged h := by obtain ⟨-, _, _, _, ⟨⟩⟩ := h
  merged _ h := by obtain ⟨-, _, _, _, ⟨⟩⟩ := h
  unrecorded _ h := by obtain ⟨-, _, _, _, ⟨⟩⟩ := h
  undiscarded h := by obtain ⟨-, _, _, _, ⟨⟩⟩ := h
  discarded h := by obtain ⟨-, _, _, _, ⟨⟩⟩ := h

theorem regime_closed (hl : O.Legible plan) : (O.regime plan).Closed O.crypto :=
  { regime_receives hl, regime_pairs plan with
    sends := regime_sends plan
    commits := regime_commits O.crypto plan }

theorem Legible.of_append {more : List Envelope} (h : O.Legible (plan ++ more)) :
    O.Legible plan := by
  intro n a ha
  have hn : n < plan.length := (List.getElem?_eq_some_iff.mp ha).1
  have hall := h n a (by rw [getElem?_append_left hn]; exact ha)
  rwa [take_append_of_le_length hn.le] at hall

theorem Rests.append (h : O.Rests plan e rs) (more : List Envelope) :
    O.Rests (plan ++ more) e rs := by
  obtain ⟨n, ms, hr, hm, hall⟩ := h
  have htake : (plan ++ more).take n = plan.take n := take_append_of_le_length hr.le
  refine ⟨n, ms, ⟨?_, htake ▸ hr.session, htake ▸ hr.seen, htake ▸ hr.calls⟩, htake ▸ hm, hall⟩
  rw [length_append]
  exact Nat.le_add_right_of_le hr.le

theorem holds_append (h : (O.regime plan).holds e rs pc) (more : List Envelope) :
    (O.regime (plan ++ more)).holds e rs pc := by
  refine Regime.holds_mono (fun h => ?_) (fun r hr => ?_) (fun s h => ?_) (fun s h => ?_) h
  · exact Rests.append h more
  · cases r <;> exact hr
  · exact ⟨Rests.append h.1 more, h.2⟩
  · exact ⟨Rests.append h.1 more, h.2⟩

/-- Of the messages that come in their turn all are shown. -/
theorem Shown.filter_eq {l : List Envelope} {ms : List (List UInt8 × Envelope)} (h : O.Shown l ms)
    {p : List UInt8 × Envelope → Bool}
    (hl : ∀ n a, l[n]? = some a → p (O.tells a) = true → O.InTurn (l.take n) a) :
    ms.filter p = (l.map O.tells).filter p := by
  have hback : ∀ {l : List Envelope} {a : Envelope},
      (∀ n b, (l ++ [a])[n]? = some b → p (O.tells b) = true → O.InTurn ((l ++ [a]).take n) b) →
      (∀ n b, l[n]? = some b → p (O.tells b) = true → O.InTurn (l.take n) b) ∧
        (p (O.tells a) = true → O.InTurn l a) := by
    intro l a hla
    refine ⟨fun n b hb => ?_, ?_⟩
    · have hn : n < l.length := (List.getElem?_eq_some_iff.mp hb).1
      have hall := hla n b (by rw [getElem?_append_left hn]; exact hb)
      rwa [take_append_of_le_length hn.le] at hall
    · have hall := hla l.length a (by simp)
      rwa [take_left] at hall
  induction h with
  | nil => rfl
  | read a h ih =>
    rw [map_append, filter_append, filter_append, ih (hback hl).1]
    rfl
  | @late l ms a h turn ih =>
    have hp : p (O.tells a) = false := by
      rw [Bool.eq_false_iff]
      exact fun hp => turn ((hback hl).2 hp)
    rw [ih (hback hl).1]
    simp [hp]

theorem rests_of_holds (h : (O.regime plan).holds e rs pc) : O.Rests plan e rs := by
  rcases Regime.holds_cases h with h | ⟨s, h⟩ | ⟨s, h⟩
  · exact h
  · exact h.1
  · exact h.1

end Outset
end Rosette.Engine
