import Rosette.Core.Plain
import Rosette.Engine.Machine
import Rosette.Foundation.Trace

/-! # Commits that fail

A call of `commit_self_update` from its start to its end, whatever the relay and the
network do in between. While its commit is with the relay, or on its way there, the
commit is pending in the session; while the call waits for the winner of a lost race,
none is.

Two kinds of failure end the call for the relay's sake. One that ends it in the drain
leaves the session free for another commit, at an epoch that counts the winners merged
so far. One that ends it while the commit is out leaves the commit pending: the code
discards a commit only after an epoch conflict.
-/
namespace Rosette.Engine
open Foundation Proto Rosette.Core List

variable {mls : OpenMls} {κ : Type} {c : Crypto} {d : Draw} {epoch : UInt64} {envelope : Envelope}
  {pending : Option Wire} {t t' : Turn mls} {w : Wake}

/-- The wake that ends a call for the relay's sake: a rejection that is no lost race, or the
last failure of a reconnect. -/
inductive GivesUp : Pc → Wake → Prop where
  | rejected {ib epoch envelope rid code link d} (h : code ≠ .epochConflict) :
    GivesUp (.sending (.commit ib epoch envelope) rid) (.replied (.error code) link d)
  | unreachable {k n} (h : attempts ≤ n) : GivesUp (.connecting k n) .connectFailed
  | unsubscribed {k conn rid reply link d} (h : reply ≠ .ok) :
    GivesUp (.subscribing k conn rid) (.replied reply link d)
  | cut {k conn rid link d} : GivesUp (.subscribing k conn rid) (.closed link d)

/-- A reconnect for the wait after a lost race. -/
def Pc.draining : Pc → Bool
  | .connecting (.receiving (.drain _ _)) _ => true
  | .subscribing (.receiving (.drain _ _)) _ _ => true
  | _ => false

/-- Where a member stands when it makes the call. -/
structure Standing (mls : OpenMls) (κ : Type) where
  laws : CommitLaws mls κ
  member : κ
  inbox : Option (QueueId × SendKey)
  merged : List Wire
  epoch : UInt64
  past : List Envelope

namespace Standing
variable (B : Standing mls κ) (e : ChatEngine mls)

def won : ℕ := e.trace.merged.length - B.past.length

/-- The session holds this commit, at this epoch: the one it stood at, and one more for each
commit merged since. -/
structure Keeps (pending : Option Wire) (epoch : UInt64) : Prop where
  inbox : e.inbox = B.inbox
  past : B.past.length ≤ e.trace.merged.length
  moved : epoch = B.epoch + UInt64.ofNat (B.won e)
  session : ∃ merged, B.laws.Holds B.member e.session merged pending epoch ∧
    (B.won e = 0 → merged = B.merged)

def Clear : Prop := ∃ epoch, B.Keeps e none epoch

def Built (epoch : UInt64) : Prop := ∃ wire, B.Keeps e (some wire) epoch

/-- What holds while the call waits for a connection. -/
def waits : Caller → Prop
  | .receiving (.drain _ _) => B.Clear e
  | .sending (.commit _ epoch _) => B.Built e epoch
  | _ => False

/-- What holds at the await points of the call. -/
def holds : Pc → Prop
  | .idle => True
  | .receiving (.drain _ _) => B.Clear e
  | .acking (.drain _ _) _ => B.Clear e
  | .sending (.commit _ epoch _) _ => B.Built e epoch
  | .connecting k _ => B.waits e k
  | .subscribing k _ _ => B.waits e k
  | _ => False

variable {B e} {link : Link} {e' : ChatEngine mls} {ib : QueueId × SendKey} {staleEpoch : UInt64}

theorem Keeps.congr (h : B.Keeps e pending epoch) (hinbox : e'.inbox = e.inbox)
    (hsession : e'.session = e.session) (hmerged : e'.trace.merged = e.trace.merged) :
    B.Keeps e' pending epoch := by
  have hwon : B.won e' = B.won e := by rw [won, hmerged, won]
  exact ⟨hinbox.trans h.inbox, hmerged ▸ h.past, hwon ▸ h.moved, hsession ▸ hwon ▸ h.session⟩

theorem Clear.congr (h : B.Clear e) (hinbox : e'.inbox = e.inbox)
    (hsession : e'.session = e.session) (hmerged : e'.trace.merged = e.trace.merged) :
    B.Clear e' := by
  obtain ⟨epoch, h⟩ := h
  exact ⟨epoch, h.congr hinbox hsession hmerged⟩

theorem Clear.persisted (h : B.Clear e) {ids : Finset MessageId} {r : Except EngineError Unit}
    (hp : e.persist d.diskOk ids = (e', r)) : B.Clear e' := by
  obtain ⟨store, hs⟩ := e.persist_eq d.diskOk ids
  rw [hp] at hs
  obtain rfl : e' = _ := hs
  exact h.congr rfl rfl rfl

section Stretches

theorem holds_send (h : B.Built e epoch) :
    B.holds (sendToGroupInbox c link e (.commit ib epoch envelope)).engine
      (sendToGroupInbox c link e (.commit ib epoch envelope)).pc := by
  unfold sendToGroupInbox
  split_ifs
  · exact h
  · exact h

theorem holds_attempt (h : B.Clear e) :
    B.holds (commitAttempt c link d e ib).engine (commitAttempt c link d e ib).pc := by
  obtain ⟨epoch, hinbox, hpast, hepoch, merged, hs, heq⟩ := h
  unfold commitAttempt
  rw [hs.epoch_eq]
  rcases hu : e.session.selfUpdate d.rand with ⟨s, err | wire⟩
  · exact trivial
  · dsimp only
    cases hw : wrap c wire with
    | none => exact trivial
    | some =>
      exact holds_send ⟨wire, hinbox, hpast, hepoch, merged, ((hs.selfUpdate hu).2 wire rfl).1, heq⟩

theorem holds_drainLoop (h : B.Clear e) :
    B.holds (drainLoop c link d e ib staleEpoch).engine
      (drainLoop c link d e ib staleEpoch).pc := by
  unfold drainLoop
  split
  · exact trivial
  · split_ifs
    · exact h
    · exact holds_attempt h

variable {q : QueueId} {k : Caller}

theorem holds_tryAck {id : MessageId} (h : B.Clear e) :
    B.holds (tryAck c link d e (.drain ib staleEpoch) q id).engine
      (tryAck c link d e (.drain ib staleEpoch) q id).pc := by
  unfold tryAck
  split_ifs
  · exact h
  · exact holds_drainLoop h

theorem Clear.absorbed (hL : B.laws.AtWork) (h : B.Clear e) {event : Event}
    (ha : absorb (e.called envelope) envelope = (e', .ok event)) : B.Clear e' := by
  obtain ⟨epoch, hinbox, hpast, hepoch, merged, hs, heq⟩ := h
  unfold absorb at ha
  split at ha
  · cases ha
  · rename_i s bytes hp
    cases ha
    exact ⟨epoch, hinbox, hpast, hepoch, merged, (hs.incoming hL hp).1 bytes rfl, heq⟩
  · rename_i s hp
    split at ha
    · cases ha
    · cases ha
      obtain ⟨merged', hs'⟩ := (hs.incoming hL hp).2 rfl
      have hwon : ∀ e' : ChatEngine mls, e'.trace.merged = e.trace.merged ++ [envelope] →
          B.won e' = B.won e + 1 := by
        intro e' he'
        rw [won, he', length_append, length_singleton, won]
        omega
      refine ⟨epoch + 1, hinbox, ?_, ?_, merged', hs', fun hnone => ?_⟩
      · exact hpast.trans (prefix_append _ [envelope]).length_le
      · rw [hwon _ rfl, UInt64.ofNat_add, ← UInt64.add_assoc, ← hepoch]
        rfl
      · rw [hwon _ rfl] at hnone
        cases hnone

theorem holds_pumpPush (hL : B.laws.AtWork) (h : B.Clear e) :
    B.holds (pumpPush c link d e (.drain ib staleEpoch) q envelope).engine
      (pumpPush c link d e (.drain ib staleEpoch) q envelope).pc := by
  unfold pumpPush
  split_ifs
  · exact holds_tryAck h
  · unfold pumpFresh
    rcases ha : absorb (e.called envelope) envelope with ⟨e₁, err | event⟩
    · exact trivial
    · dsimp only
      have h₁ : B.Clear (e₁.queue event) := (h.absorbed hL ha).congr rfl rfl rfl
      rcases hp : (e₁.queue event).persist d.diskOk {envelope.messageId} with ⟨e₂, err | _⟩
      · exact trivial
      · exact holds_tryAck (h₁.persisted hp)

theorem holds_onSent (h : B.Built e epoch) (reply : ServerMessage) :
    B.holds (onSent c link d e (.commit ib epoch envelope) reply).engine
      (onSent c link d e (.commit ib epoch envelope) reply).pc := by
  have hmerge : (mergeOwn d e envelope).pc = .idle := by
    unfold mergeOwn
    split
    · rfl
    · split <;> rfl
  unfold onSent
  split
  · exact trivial
  · rename_i heq
    cases heq
    rw [hmerge]
    exact trivial
  · rename_i heq
    obtain ⟨wire, hinbox, hpast, hepoch, merged, hs, hstood⟩ := h
    obtain ⟨s, hd, hs'⟩ := hs.discardPendingCommit
    unfold yieldEpoch
    rw [hd]
    exact holds_drainLoop ⟨epoch, hinbox, hpast, hepoch, merged, hs', hstood⟩
  · exact trivial
  · exact trivial

theorem holds_afterReconnect (h : B.waits e k) :
    B.holds (afterReconnect c link d e k).engine (afterReconnect c link d e k).pc := by
  cases k with
  | receiving r =>
    cases r with
    | drain => exact holds_drainLoop (Clear.congr h rfl rfl rfl)
    | _ => cases h
  | sending s =>
    cases s with
    | commit => exact holds_send h
    | message => cases h

theorem waits_relay (h : B.waits e k) (conn : ConnId) : B.waits { e with relay := conn } k := by
  cases k with
  | receiving r =>
    cases r with
    | drain => exact Clear.congr h rfl rfl rfl
    | _ => cases h
  | sending s =>
    cases s with
    | commit =>
      obtain ⟨wire, h⟩ := h
      exact ⟨wire, h.congr rfl rfl rfl⟩
    | message => cases h

end Stretches

theorem holds_wake (hL : B.laws.AtWork) (h : B.holds t.engine t.pc) (hw : t.wake c w = some t') :
    B.holds t'.engine t'.pc := by
  rcases t with ⟨e, pc, frame, result⟩
  cases w with
  | push =>
    cases pc with
    | receiving r =>
      cases hw
      cases r with
      | drain => exact holds_pumpPush hL h
      | _ => cases h
    | _ => cases hw
  | disconnected =>
    cases pc with
    | receiving r =>
      cases hw
      cases r with
      | drain => exact Clear.congr h rfl rfl rfl
      | _ => cases h
    | _ => cases hw
  | replied reply =>
    cases pc with
    | acking r =>
      cases hw
      cases r with
      | drain =>
        unfold onAcked
        split
        · exact holds_drainLoop h
        · exact trivial
      | _ => cases h
    | sending s =>
      cases hw
      cases s with
      | commit => exact holds_onSent h reply
      | message => cases h
    | subscribing k conn =>
      cases hw
      unfold onSubscribed
      split
      · exact holds_afterReconnect (waits_relay h conn)
      · exact trivial
    | _ => cases hw
  | closed =>
    cases pc with
    | acking r =>
      cases hw
      cases r with
      | drain => exact holds_drainLoop h
      | _ => cases h
    | sending s =>
      cases hw
      cases s with
      | commit => exact h
      | message => cases h
    | subscribing =>
      cases hw
      exact trivial
    | _ => cases hw
  | connected =>
    cases pc with
    | connecting =>
      cases hw
      exact h
    | _ => cases hw
  | connectFailed =>
    cases pc with
    | connecting =>
      cases hw
      unfold onConnectFailed
      split_ifs
      · exact h
      · exact trivial
    | _ => cases hw

theorem holds_start (h : B.Keeps e pending epoch) :
    B.holds (commitSelfUpdate c link d e).engine (commitSelfUpdate c link d e).pc := by
  unfold commitSelfUpdate
  split
  · exact trivial
  · cases pending with
    | none => exact holds_attempt ⟨epoch, h⟩
    | some =>
      obtain ⟨-, -, -, merged, hs, -⟩ := h
      obtain ⟨s, err, hu⟩ := hs.busy d.rand
      unfold commitAttempt
      rw [hu]
      split <;> exact trivial

theorem holds_call (hL : B.laws.AtWork) (h : B.Keeps e pending epoch) {ws : List Wake}
    (hrun : run (Turn.wake c) (commitSelfUpdate c link d e) ws = some t) : B.holds t.engine t.pc :=
  run_invariant (holds_start h)
    (fun _ _ _ ht hw => holds_wake hL ht hw) hrun

end Standing

section Calls
variable {L : CommitLaws mls κ} {i : κ} {e : ChatEngine mls} {merged : List Wire} {wire : Wire}

def Standing.of (L : CommitLaws mls κ) (i : κ) (e : ChatEngine mls) (merged : List Wire)
    (epoch : UInt64) : Standing mls κ :=
  ⟨L, i, e.inbox, merged, epoch, e.trace.merged⟩

theorem Standing.keeps_of (h : L.Holds i e.session merged pending epoch) :
    (Standing.of L i e merged epoch).Keeps e pending epoch := by
  have hwon : (Standing.of L i e merged epoch).won e = 0 := Nat.sub_self _
  exact ⟨rfl, le_rfl, by rw [hwon]; exact (UInt64.add_zero _).symm, merged, h, fun _ => rfl⟩

/-- A commit call of the engine gets to its send if its commit fits an envelope, and returns the
next epoch if that send is accepted and the write succeeds. -/
def CanCommit (c : Crypto) (e : ChatEngine mls) : Prop :=
  ∀ link d, (∀ s wire, e.session.selfUpdate d.rand = (s, .ok wire) → (wrap c wire).isSome) →
    (commitSelfUpdate c link d e).result = none ∧
    ∀ ws t ib epoch envelope rid link' d',
      run (Turn.wake c) (commitSelfUpdate c link d e) ws = some t →
      t.pc = .sending (.commit ib epoch envelope) rid → d'.diskOk = true →
      ∃ t', t.wake c (.replied .ok link' d') = some t' ∧
        t'.result = some (.committed (some envelope) (.ok (epoch + 1)))

theorem mergeOwn_result (hd : d.diskOk = true) (h : L.Holds i e.session merged (some wire) epoch) :
    (mergeOwn d e envelope).result = some (.committed (some envelope) (.ok (epoch + 1))) := by
  obtain ⟨s, hm, hs⟩ := h.mergePendingCommit
  have hm' : (e.note envelope.messageId).session.mergePendingCommit = (s, .ok ()) := hm
  unfold mergeOwn
  rw [hm', hd]
  dsimp only
  have hwrite : ∀ e : ChatEngine mls, ∀ ids, (e.persist true ids).2 = .ok () := by
    intro e ids
    unfold ChatEngine.persist
    split
    · rfl
    · rfl
  obtain ⟨store, hp⟩ := ((e.note envelope.messageId).merge s envelope).persist_eq true
    {envelope.messageId}
  have hok := hwrite ((e.note envelope.messageId).merge s envelope) {envelope.messageId}
  rcases hq : ((e.note envelope.messageId).merge s envelope).persist true {envelope.messageId}
    with ⟨p, r⟩
  rw [hq] at hp hok
  obtain rfl : p = _ := hp
  obtain rfl : r = _ := hok
  have hep : ({ (e.note envelope.messageId).merge s envelope with store := store } :
      ChatEngine mls).session.epoch = .ok (epoch + 1) := hs.epoch_eq
  simp only [finish, hep, Except.mapError]

theorem canCommit_of_holds (hL : L.AtWork) (hp : e.isPaired = true)
    (h : L.Holds i e.session merged none epoch) : CanCommit c e := by
  intro link d hfits
  refine ⟨?_, fun ws t ib epoch' envelope rid link' d' hrun hpc hd => ?_⟩
  · obtain ⟨ib, hib⟩ := Option.isSome_iff_exists.mp hp
    obtain ⟨s, wire, hu⟩ := h.builds hL d.rand
    obtain ⟨envelope, hw⟩ := Option.isSome_iff_exists.mp (hfits s wire hu)
    simp only [commitSelfUpdate, hib, commitAttempt, h.epoch_eq, hu, hw, sendToGroupInbox]
    split_ifs
    · rfl
    · rfl
  · have hheld := Standing.holds_call hL (Standing.keeps_of h) hrun
    rcases t with ⟨e₁, pc, frame, result⟩
    obtain rfl : pc = _ := hpc
    obtain ⟨wire, -, -, -, merged', hs, -⟩ := hheld
    exact ⟨_, rfl, mergeOwn_result hd hs⟩

theorem commitSelfUpdate_busy (h : L.Holds i e.session merged (some wire) epoch) (link : Link)
    (d : Draw) :
    ∃ err, (commitSelfUpdate c link d e).result = some (.committed none (.error err)) := by
  obtain ⟨s, err, hu⟩ := h.busy d.rand
  unfold commitSelfUpdate
  split
  · exact ⟨_, rfl⟩
  · unfold commitAttempt
    rw [hu]
    split <;> exact ⟨_, rfl⟩

theorem not_canCommit (h : L.Holds i e.session merged (some wire) epoch) : ¬ CanCommit c e := by
  intro hcan
  obtain ⟨s, err, hu⟩ := h.busy 0
  obtain ⟨hnone, -⟩ := hcan ⟨true, 0⟩ ⟨0, true⟩ (by rw [hu]; rintro _ _ ⟨⟩)
  obtain ⟨err', hsome⟩ := commitSelfUpdate_busy h ⟨true, 0⟩ ⟨0, true⟩
  cases hnone.symm.trans hsome

theorem GivesUp.ends (hf : GivesUp t.pc w) (hw : t.wake c w = some t') : t'.engine = t.engine := by
  rcases t with ⟨e, pc, frame, result⟩
  cases hf with
  | @rejected ib epoch envelope rid code link d h =>
    cases hw
    cases code <;> first | rfl | exact absurd rfl h
  | @unreachable k n h =>
    cases hw
    unfold onConnectFailed
    rw [if_neg (Nat.not_lt.mpr h)]
    rfl
  | @unsubscribed k conn rid reply link d h =>
    cases hw
    cases reply <;> first | rfl | exact absurd rfl h
  | cut =>
    cases hw
    rfl

/-- Wherever the call fails for the relay's sake, its commit is pending or none is. -/
theorem GivesUp.leaves {B : Standing mls κ} (hf : GivesUp t.pc w) (h : B.holds t.engine t.pc) :
    t.pc.draining = true ∧ B.Clear t.engine ∨
      t.pc.draining = false ∧ ∃ epoch, B.Built t.engine epoch := by
  have hwaits : ∀ k, B.waits t.engine k →
      ((∃ ib stale, k = .receiving (.drain ib stale)) ∧ B.Clear t.engine) ∨
      ((∃ s, k = .sending s) ∧ ∃ epoch, B.Built t.engine epoch) := by
    intro k hk
    cases k with
    | receiving r =>
      cases r with
      | drain ib stale => exact .inl ⟨⟨ib, stale, rfl⟩, hk⟩
      | _ => cases hk
    | sending s =>
      cases s with
      | commit => exact .inr ⟨⟨_, rfl⟩, _, hk⟩
      | message => cases hk
  rcases t with ⟨e, pc, frame, result⟩
  cases hf with
  | rejected => exact .inr ⟨rfl, _, h⟩
  | unreachable | unsubscribed | cut =>
    rcases hwaits _ h with ⟨⟨ib, stale, rfl⟩, hc⟩ | ⟨⟨s, rfl⟩, hb⟩
    · exact .inl ⟨rfl, hc⟩
    · exact .inr ⟨rfl, hb⟩

/-- No commit is pending, the epoch is this one, and the engine can commit. -/
def Unharmed (L : CommitLaws mls κ) (i : κ) (c : Crypto) (epoch : UInt64) (e : ChatEngine mls) :
    Prop :=
  (∃ merged, L.Holds i e.session merged none epoch) ∧ CanCommit c e

/-- A call that fails for the relay's sake while it drains leaves no commit pending and an engine
that can commit again, at the epoch it found and one more for each winner it has merged. A call that
fails while its commit is out leaves the commit behind, and the next call fails whatever the relay
would say. So it has done no harm exactly if it fails while it drains and has merged nothing. -/
theorem failed_commit_can_be_repeated (hL : L.AtWork) (hp : e.isPaired = true)
    (hs : L.Holds i e.session merged pending epoch) {link : Link} {d : Draw} {ws : List Wake}
    {t t' : Turn mls} {w : Wake}
    (hrun : run (Turn.wake c) (commitSelfUpdate c link d e) ws = some t) (hf : GivesUp t.pc w)
    (hw : t.wake c w = some t') {won : ℕ}
    (hwon : won = t.engine.trace.merged.length - e.trace.merged.length) :
    (t.pc.draining = true → CanCommit c t'.engine ∧ ∃ merged',
      L.Holds i t'.engine.session merged' none (epoch + UInt64.ofNat won) ∧
      (won = 0 → merged' = merged)) ∧
    (t.pc.draining = false → ∀ link' d', ∃ err,
      (commitSelfUpdate c link' d' t'.engine).result = some (.committed none (.error err))) ∧
    (won < 2 ^ 64 → (Unharmed L i c epoch t'.engine ↔ t.pc.draining = true ∧ won = 0)) := by
  have hheld := Standing.holds_call hL (Standing.keeps_of hs) hrun
  rw [hf.ends hw]
  rcases hf.leaves hheld with ⟨hpc, epoch₁, hinbox, -, hepoch, merged₁, hs₁, hsame⟩ |
    ⟨hpc, epoch₁, wire, -, -, -, merged₁, hs₁, -⟩
  · obtain rfl : epoch₁ = epoch + UInt64.ofNat won := by rw [hepoch, hwon]; rfl
    have hcan : CanCommit c t.engine := by
      refine canCommit_of_holds hL ?_ hs₁
      rw [ChatEngine.isPaired, hinbox]
      exact hp
    have hfree : ∃ merged', L.Holds i t.engine.session merged' none (epoch + UInt64.ofNat won) ∧
        (won = 0 → merged' = merged) := ⟨merged₁, hs₁, fun h0 => hsame (hwon.symm.trans h0)⟩
    refine ⟨fun _ => ⟨hcan, hfree⟩, by simp [hpc], fun hlt => ⟨?_, ?_⟩⟩
    · rintro ⟨⟨merged', hs'⟩, -⟩
      have heq := Except.ok.inj (hs'.epoch_eq.symm.trans hs₁.epoch_eq)
      refine ⟨hpc, ?_⟩
      have hnat := congrArg UInt64.toNat heq
      rw [UInt64.toNat_add, UInt64.toNat_ofNat'] at hnat
      omega
    · rintro ⟨-, h0⟩
      obtain ⟨merged', hs', -⟩ := hfree
      exact ⟨⟨merged', by simpa [h0] using hs'⟩, hcan⟩
  · refine ⟨by simp [hpc], fun _ link' d' => commitSelfUpdate_busy hs₁ link' d',
      fun _ => iff_of_false ?_ (by simp [hpc])⟩
    rintro ⟨-, hcan⟩
    exact not_canCommit hs₁ hcan

end Calls

section Instances

/-- A paired engine whose group has seen one commit. -/
def joinedEngine : ChatEngine OpenMls.plain where
  displayName := "listener"
  session :=
    let g : PlainGroup := ⟨7, [8], false, 0, fun _ => 0⟩
    ⟨⟨[], some g⟩, (7 : UInt8), some g⟩
  relay := 0
  relayAddr := "relay"
  relayFingerprint := .fill 0
  mailboxQid := .fill 1
  mailboxKey := .fill 1
  inbox := some (.fill 2, .fill 2)
  seen := ∅
  pendingEvents := []
  store := none
  attestationTokens := []
  trace := .empty
  calls := []

theorem named_listener : Named (fun _ : Unit => 7) [8] := ⟨fun _ _ _ => rfl, by decide, by decide⟩

theorem joinedEngine_holds :
    (CommitLaws.plain named_listener).Holds () joinedEngine.session [] none 1 :=
  ⟨_, rfl, ⟨rfl, rfl, [], by decide, rfl, rfl⟩, rfl⟩

/-- The race is lost, and the connection with it; the next one dies under its subscription. -/
theorem failed_commit_can_be_repeated_lostRace : ∃ t t' : Turn OpenMls.plain,
    run (Turn.wake .plain) (commitSelfUpdate .plain ⟨true, 0⟩ ⟨0, true⟩ joinedEngine)
      [.replied (.error .epochConflict) ⟨true, 1⟩ ⟨0, true⟩, .disconnected,
        .connected 1 ⟨true, 0⟩] = some t ∧
    t.wake .plain (.closed ⟨false, 1⟩ ⟨0, true⟩) = some t' ∧
    Unharmed (CommitLaws.plain named_listener) () .plain 1 t'.engine := by
  have hrun : run (Turn.wake .plain) (commitSelfUpdate .plain ⟨true, 0⟩ ⟨0, true⟩ joinedEngine)
      [.replied (.error .epochConflict) ⟨true, 1⟩ ⟨0, true⟩, .disconnected,
        .connected 1 ⟨true, 0⟩] = some _ := rfl
  have hfree := failed_commit_can_be_repeated (w := .closed ⟨false, 1⟩ ⟨0, true⟩)
    (CommitLaws.plain_atWork named_listener) rfl joinedEngine_holds hrun .cut rfl rfl
  exact ⟨_, _, hrun, rfl, (hfree.2.2 (by decide)).mpr ⟨rfl, rfl⟩⟩

/-- The relay limits the rate. It would take the next commit, but there is none: the one it
refused is still pending. -/
theorem rejected_commit_blocks_the_next : ∃ t t' : Turn OpenMls.plain,
    joinedEngine.isPaired = true ∧
    (CommitLaws.plain named_listener).Holds () joinedEngine.session [] none 1 ∧
    commitSelfUpdate .plain ⟨true, 0⟩ ⟨0, true⟩ joinedEngine = t ∧
    GivesUp t.pc (.replied (.error .rateLimited) ⟨true, 1⟩ ⟨0, true⟩) ∧
    t.wake .plain (.replied (.error .rateLimited) ⟨true, 1⟩ ⟨0, true⟩) = some t' ∧
    ¬ CanCommit .plain t'.engine ∧
    (commitSelfUpdate .plain ⟨true, 1⟩ ⟨0, true⟩ t'.engine).result =
      some (.committed none (.error (.session (.mls "pending commit")))) := by
  refine ⟨_, _, rfl, joinedEngine_holds, rfl, .rejected (by decide), rfl, fun h => ?_, rfl⟩
  have hnone := (h ⟨true, 1⟩ ⟨0, true⟩ (by rintro s wire ⟨⟩)).1
  cases hnone

end Instances
end Rosette.Engine
