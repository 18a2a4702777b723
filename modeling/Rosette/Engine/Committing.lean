import Rosette.Core.Commits
import Rosette.Engine.Rules
import Rosette.Foundation.Replay

/-! # An engine among committing members

The commits a relay has accepted for one inbox form a chain, each built on all before
it. A member has merged an initial part of the chain. The regime below says so at every
await point, and what a member's own commit has to do with the chain while it is out.
-/
namespace Rosette.Engine
open Foundation Proto Rosette.Core List

variable {n : ℕ} {s : Sending} {wire : Wire}

structure Landed (κ : Type) where
  author : κ
  epoch : UInt64
  wire : Wire
  envelope : Envelope

/-- What the members of one group share, and the ids each had seen when they started. -/
structure Party (mls : OpenMls) (κ : Type) where
  laws : CommitLaws mls κ
  crypto : Crypto
  inbox : QueueId × SendKey
  base : UInt64
  old : κ → Finset MessageId

namespace Party
variable {mls : OpenMls} {κ : Type} (P : Party mls κ) (chain : List (Landed κ)) (i : κ)

def epoch (n : ℕ) : UInt64 := P.base + UInt64.ofNat n

@[simp] theorem epoch_succ (n : ℕ) : P.epoch n + 1 = P.epoch (n + 1) := by
  rw [epoch, epoch, UInt64.ofNat_add, UInt64.add_assoc]
  rfl

theorem epoch_toNat (h : P.base.toNat + n < 2 ^ 64) : (P.epoch n).toNat = P.base.toNat + n := by
  rw [epoch, UInt64.toNat_add, UInt64.toNat_ofNat']
  omega

/-- Each commit of the chain is built on those before it. -/
structure Chained : Prop where
  commits : ∀ n b, chain[n]? = some b →
    P.laws.Commits b.author ((chain.take n).map Landed.wire) b.wire
  wrapped : ∀ b ∈ chain, wrap P.crypto b.wire = some b.envelope
  epochs : ∀ n b, chain[n]? = some b → b.epoch = P.epoch n

def Own (envelope : Envelope) : Prop :=
  ∃ merged wire, P.laws.Commits i merged wire ∧ wrap P.crypto wire = some envelope

/-- A member that has merged the first `n` commits of the chain. -/
structure Member (n : ℕ) (pending : Option Wire) (e : ChatEngine mls) : Prop where
  le : n ≤ chain.length
  inbox : e.inbox = some P.inbox
  merged : e.trace.merged = (chain.take n).map Landed.envelope
  seen : ∀ id, id ∈ e.seen ↔ id ∈ P.old i ∨ ∃ b ∈ chain.take n, b.envelope.messageId = id
  holds : P.laws.Holds i e.session ((chain.take n).map Landed.wire) pending (P.epoch n)
  calls : ∀ p ∈ e.calls, ¬ P.Own i p.2

def Unlanded (n : ℕ) : Prop := ∀ m b, n ≤ m → chain[m]? = some b → b.author ≠ i

/-- The member's own pending commit, and the send that carries it. -/
structure Attempt (e : ChatEngine mls) (s : Sending) (n : ℕ) (wire : Wire) : Prop where
  member : P.Member chain i n (some wire) e
  commits : P.laws.Commits i ((chain.take n).map Landed.wire) wire
  wrapped : wrap P.crypto wire = some s.envelope
  sending : s = .commit P.inbox (P.epoch n) s.envelope

/-- Every commit reported as landed is the member's and in the chain, at the epoch before the
one reported. -/
def Honest (rs : List Result) : Prop :=
  ∀ envelope epoch, .committed envelope (.ok epoch) ∈ rs →
    ∃ b ∈ chain, envelope = some b.envelope ∧ b.author = i ∧ epoch = b.epoch + 1

def regime : Regime mls where
  rest e rs := Honest chain i rs ∧ ∃ n pending, P.Member chain i n pending e ∧ Unlanded chain i n
  out e rs s := Honest chain i rs ∧ ∃ n wire, P.Attempt chain i e s n wire ∧
    ∀ m b, n ≤ m → chain[m]? = some b → b.author = i →
      m = n ∧ b.wire = wire ∧ b.envelope = s.envelope
  stalled e rs s := Honest chain i rs ∧ ∃ n wire, P.Attempt chain i e s n wire ∧ Unlanded chain i n
  next e envelope := ∃ b, chain[e.trace.merged.length]? = some b ∧ b.envelope = envelope
  granted e _ reply := reply = .ok ↔ ¬ Unlanded chain i e.trace.merged.length
  permits call := call = .nextEvent ∨ call = .commitSelfUpdate
  commits ib := ib = P.inbox

variable {P chain i} {pending : Option Wire} {e e' : ChatEngine mls} {rs : List Result}
  {b : Landed κ}

theorem Member.length_merged (h : P.Member chain i n pending e) : e.trace.merged.length = n := by
  rw [h.merged, length_map, length_take, min_eq_left h.le]

theorem Honest.snoc (h : Honest chain i rs) {r : Result}
    (hr : ∀ envelope epoch, r ≠ .committed envelope (.ok epoch)) :
    Honest chain i (rs ++ [r]) := by
  intro envelope epoch hm
  rcases mem_append.mp hm with hm | hm
  · exact h envelope epoch hm
  · exact absurd (mem_singleton.mp hm).symm (hr envelope epoch)

theorem Member.persist (h : P.Member chain i n pending e) (diskOk : Bool) (ids : Finset MessageId) :
    P.Member chain i n pending (e.persist diskOk ids).1 := by
  obtain ⟨store, hs⟩ := e.persist_eq diskOk ids
  rw [hs]
  exact ⟨h.le, h.inbox, h.merged, h.seen, h.holds, h.calls⟩

theorem Member.persisted (h : P.Member chain i n pending e) {diskOk : Bool} {ids : Finset MessageId}
    {p : ChatEngine mls} {r : Except EngineError Unit} (hp : e.persist diskOk ids = (p, r)) :
    P.Member chain i n pending p := by
  have := h.persist diskOk ids
  rwa [hp] at this

theorem Unlanded.succ (h : Unlanded chain i n) : Unlanded chain i (n + 1) := by
  intro m b hm
  exact h m b (Nat.le_of_succ_le hm)

theorem Member.advance (h : P.Member chain i n pending e) (hb : chain[n]? = some b)
    (hi : e'.inbox = e.inbox) (hm : e'.trace.merged = e.trace.merged ++ [b.envelope])
    (hs : e'.seen = insert b.envelope.messageId e.seen)
    (hh : P.laws.Holds i e'.session ((chain.take n).map Landed.wire ++ [b.wire]) none
      (P.epoch n + 1))
    (hc : ∀ p ∈ e'.calls, p ∈ e.calls ∨ ¬ P.Own i p.2) : P.Member chain i (n + 1) none e' := by
  have ht := take_succ_of_getElem? hb
  refine ⟨?_, hi.trans h.inbox, ?_, fun id => ?_, ?_, fun p hp => (hc p hp).elim (h.calls p) id⟩
  · exact (List.getElem?_eq_some_iff.mp hb).1
  · rw [hm, h.merged, ht, map_append]
    rfl
  · rw [hs, Finset.mem_insert, h.seen, ht]
    simp only [mem_append, mem_singleton]
    constructor
    · rintro (rfl | hid | ⟨b', hb', hid⟩)
      · exact .inr ⟨b, .inr rfl, rfl⟩
      · exact .inl hid
      · exact .inr ⟨b', .inl hb', hid⟩
    · rintro (hid | ⟨b', hb' | rfl, hid⟩)
      · exact .inr (.inl hid)
      · exact .inr (.inr ⟨b', hb', hid⟩)
      · exact .inl hid.symm
  · rw [ht, map_append, ← epoch_succ]
    exact hh

theorem Chained.not_own (hc : P.Chained chain) (hb : b ∈ chain) (hne : b.author ≠ i) :
    ¬ P.Own i b.envelope := by
  rintro ⟨merged, wire, hcommits, hwrap⟩
  obtain ⟨m, hat⟩ := mem_iff_getElem?.mp hb
  have hpad := wrap_padded hwrap
  have hpad' := wrap_padded (hc.wrapped b hb)
  exact hne (P.laws.tells (hc.commits m b hat) hcommits (hpad'.trans hpad.symm)
    (by rw [hpad']; rfl)).1

theorem Member.absorbed (hc : P.Chained chain) (h : P.Member chain i n pending e)
    (hu : Unlanded chain i n) (hb : chain[n]? = some b) {r : Except EngineError Event}
    (ha : absorb (e.called b.envelope) b.envelope = (e', r)) :
    r = .ok (.epochAdvanced (P.epoch (n + 1))) ∧ P.Member chain i (n + 1) none e' := by
  have hne : b.author ≠ i := hu n b le_rfl hb
  obtain ⟨s', hp, hh⟩ := h.holds.processIncoming (hc.commits n b hb) hne
    (wrap_padded (hc.wrapped b (mem_of_getElem? hb)))
  have hp' : (e.called b.envelope).session.processIncoming b.envelope.paddedCiphertext =
      (s', .ok .commitApplied) := hp
  rw [absorb, hp'] at ha
  simp only [hh.epoch_eq, epoch_succ] at ha
  cases ha
  refine ⟨rfl, h.advance hb rfl rfl rfl hh (fun p hp => ?_)⟩
  rcases mem_append.mp hp with hp | hp
  · exact .inl hp
  · rw [mem_singleton.mp hp]
    exact .inr (hc.not_own (mem_of_getElem? hb) hne)

section Closure
variable (hc : P.Chained chain)
include hc

theorem regime_receives : (P.regime chain i).Receives where
  queue _ h := by
    obtain ⟨hr, n, pending, hm, hu⟩ := h
    exact ⟨hr, n, pending, ⟨hm.le, hm.inbox, hm.merged, hm.seen, hm.holds, hm.calls⟩, hu⟩
  pop h _ := by
    obtain ⟨hr, n, pending, hm, hu⟩ := h
    exact ⟨hr.snoc (by rintro _ _ ⟨⟩), n, pending,
      ⟨hm.le, hm.inbox, hm.merged, hm.seen, hm.holds, hm.calls⟩, hu⟩
  failed {e rs r} err h _ := by
    obtain ⟨hr, hm⟩ := h
    exact ⟨hr.snoc (by cases r <;> rintro _ _ ⟨⟩), hm⟩
  refused h hn _ ha := by
    obtain ⟨hr, n, pending, hm, hu⟩ := h
    obtain ⟨b, hb, rfl⟩ := hn
    rw [hm.length_merged] at hb
    cases (hm.absorbed hc hu hb ha).1
  taken _ h hn _ ha := by
    obtain ⟨hr, n, pending, hm, hu⟩ := h
    obtain ⟨b, hb, rfl⟩ := hn
    rw [hm.length_merged] at hb
    have hm' := (hm.absorbed hc hu hb ha).2
    refine ⟨hr, n + 1, none, Member.persist ?_ _ _, hu.succ⟩
    exact ⟨hm'.le, hm'.inbox, hm'.merged, hm'.seen, hm'.holds, hm'.calls⟩

omit hc in
theorem regime_sends : (P.regime chain i).Sends P.crypto where
  send h := by
    obtain ⟨hr, n, wire, ha, hu⟩ := h
    exact ⟨hr, n, wire, ha, fun m b hm hb hi => absurd hi (hu m b hm hb)⟩
  gaveUp {e rs s} err h := by
    obtain ⟨hr, n, wire, ha, hu⟩ := h
    refine ⟨hr.snoc ?_, n, some wire, ha.member, hu⟩
    cases s <;> rintro _ _ ⟨⟩
  rejected {e rs s reply} err h hg hne := by
    obtain ⟨hr, n, wire, ha, -⟩ := h
    have hu := not_not.mp (fun hl => hne (hg.mpr hl))
    rw [ha.member.length_merged] at hu
    refine ⟨hr.snoc ?_, n, some wire, ha.member, hu⟩
    cases s <;> rintro _ _ ⟨⟩
  delivered h _ := by
    obtain ⟨-, n, wire, ha, -⟩ := h
    cases ha.sending
  unsent _ hp _ := by rcases hp with hp | hp <;> cases hp
  unencrypted _ hp _ _ := by rcases hp with hp | hp <;> cases hp
  encrypted _ hp _ _ _ _ _ := by rcases hp with hp | hp <;> cases hp
  unwritten _ hp _ _ _ _ _ := by rcases hp with hp | hp <;> cases hp

omit hc in
theorem regime_pairs : (P.regime chain i).Pairs where
  unjoined hp _ _ _ _ := by rcases hp with hp | hp <;> cases hp
  joined _ hp _ _ _ _ := by rcases hp with hp | hp <;> cases hp
  paired hp _ := by rcases hp with hp | hp <;> cases hp

omit hc in
/-- The own commit is the next one of the chain: merging it keeps in step. -/
theorem Attempt.merges (ha : P.Attempt chain i e s n wire)
    (hown : ∀ m b, n ≤ m → chain[m]? = some b → b.author = i → m = n ∧ b.wire = wire ∧
      b.envelope = s.envelope)
    (hg : ¬ Unlanded chain i e.trace.merged.length) {s' : ChatSession mls}
    {r : Except SessionError Unit}
    (hm : (e.note s.envelope.messageId).session.mergePendingCommit = (s', r)) :
    r = .ok () ∧ P.Member chain i (n + 1) none ((e.note s.envelope.messageId).merge s' s.envelope) ∧
    s'.epoch = .ok (P.epoch (n + 1)) ∧ Unlanded chain i (n + 1) ∧
    ∃ b ∈ chain, b.envelope = s.envelope ∧ b.author = i ∧ chain[n]? = some b := by
  rw [ha.member.length_merged, Unlanded] at hg
  push Not at hg
  obtain ⟨m, b, hle, hat, hi⟩ := hg
  obtain ⟨rfl, hwire, henv⟩ := hown m b hle hat hi
  obtain ⟨s'', hs, hh⟩ := ha.member.holds.mergePendingCommit
  have hs' : (s', r) = (s'', .ok ()) := hm.symm.trans hs
  cases hs'
  have hepoch := hh.epoch_eq
  rw [epoch_succ] at hepoch
  rw [← hwire] at hh
  refine ⟨rfl, ha.member.advance hat rfl ?_ ?_ hh (fun p hp => .inl hp), hepoch,
    fun m' b' hle' hat' hi' => ?_, b, mem_of_getElem? hat, henv, hi, hat⟩
  · rw [henv]
    rfl
  · rw [henv]
    rfl
  · have := (hown m' b' (Nat.le_of_succ_le hle') hat' hi').1
    omega

theorem regime_commits : (P.regime chain i).Commits P.crypto where
  inbox _ h hib := by
    obtain ⟨-, n, pending, hm, -⟩ := h
    exact Option.mem_unique hib hm.inbox
  uncommitted _ _ h := ⟨h.1.snoc (by rintro _ _ ⟨⟩), h.2⟩
  unbuilt {e rs ib} rand _ h hw := by
    obtain ⟨hr, n, pending, hm, hu⟩ := h
    rcases hs : e.session.selfUpdate rand with ⟨s', r⟩
    obtain ⟨herr, hok⟩ := hm.holds.selfUpdate hs
    cases r with
    | error err =>
      exact ⟨hr, n, pending, ⟨hm.le, hm.inbox, hm.merged, hm.seen, herr err rfl, hm.calls⟩, hu⟩
    | ok wire =>
      exact ⟨hr, n, some wire,
        ⟨hm.le, hm.inbox, hm.merged, hm.seen, (hok wire rfl).1, hm.calls⟩, hu⟩
  built {e rs ib rand epoch s wire envelope} hib h hep hs hw := by
    obtain ⟨hr, n, pending, hm, hu⟩ := h
    obtain ⟨hh, hcommits⟩ := (hm.holds.selfUpdate hs).2 wire rfl
    have hepoch : epoch = P.epoch n := Except.ok.inj (hep.symm.trans hm.holds.epoch_eq)
    refine ⟨hr, n, wire, ⟨⟨hm.le, hm.inbox, hm.merged, hm.seen, hh, hm.calls⟩, hcommits, hw, ?_⟩,
      hu⟩
    rw [hepoch, show ib = P.inbox from hib]
    rfl
  unmerged h hg hm := by
    obtain ⟨-, n, wire, ha, hown⟩ := h
    cases (ha.merges hown (hg.mp rfl) hm).1
  merged {e rs ib epoch envelope s diskOk p} _ h hg hm hp := by
    obtain ⟨hr, n, wire, ha, hown⟩ := h
    obtain ⟨-, hmem, hepoch, hu, b, hb, henv, hi, hat⟩ := ha.merges hown (hg.mp rfl) hm
    refine ⟨fun envelope' epoch' hin => ?_, n + 1, none, hmem.persisted hp, hu⟩
    rcases mem_append.mp hin with hin | hin
    · exact hr envelope' epoch' hin
    · have heq := mem_singleton.mp hin
      rw [(hmem.persisted hp).holds.epoch_eq] at heq
      cases heq
      refine ⟨b, hb, congrArg some henv.symm, hi, ?_⟩
      rw [hc.epochs n b hat, epoch_succ]
  unrecorded {e rs ib epoch envelope s diskOk p err} _ h hg hm hp := by
    obtain ⟨hr, n, wire, ha, hown⟩ := h
    obtain ⟨-, hmem, -, hu, -⟩ := ha.merges hown (hg.mp rfl) hm
    exact ⟨hr.snoc (by rintro _ _ ⟨⟩), n + 1, none, hmem.persisted hp, hu⟩
  undiscarded h _ hm := by
    obtain ⟨-, n, wire, ha, -⟩ := h
    obtain ⟨s', hs, -⟩ := ha.member.holds.discardPendingCommit
    simp [hs] at hm
  discarded {e rs ib epoch envelope s} h hg hm := by
    obtain ⟨hr, n, wire, ha, -⟩ := h
    have hu := not_not.mp (fun hl => by cases hg.mpr hl)
    rw [ha.member.length_merged] at hu
    obtain ⟨s', hs, hh⟩ := ha.member.holds.discardPendingCommit
    rw [hs] at hm
    cases hm
    have hm := ha.member
    refine ⟨?_, hr, n, none, ⟨hm.le, hm.inbox, hm.merged, hm.seen, hh, hm.calls⟩, hu⟩
    have hs := ha.sending
    simp only [Sending.commit.injEq] at hs
    exact hs.1

theorem regime_closed : (P.regime chain i).Closed P.crypto :=
  { regime_receives hc, regime_pairs with
    sends := regime_sends
    commits := regime_commits hc }

end Closure

/-! ## The chain grows -/

section Growth
variable {b : Landed κ}

theorem take_append_of_le (h : n ≤ chain.length) : (chain ++ [b]).take n = chain.take n := by
  rw [take_append_of_le_length h]

theorem getElem?_snoc {m : ℕ} {b' : Landed κ} (h : (chain ++ [b])[m]? = some b') :
    chain[m]? = some b' ∨ m = chain.length ∧ b' = b := by
  by_cases hm : m < chain.length
  · rw [getElem?_append_left hm] at h
    exact .inl h
  · rw [getElem?_append_right (Nat.le_of_not_lt hm), getElem?_singleton] at h
    split_ifs at h with h0
    exact .inr ⟨by omega, (Option.some.inj h).symm⟩

theorem Chained.snoc (hc : P.Chained chain) {envelope : Envelope}
    (hw : P.laws.Commits i (chain.map Landed.wire) wire) (he : wrap P.crypto wire = some envelope) :
    P.Chained (chain ++ [⟨i, P.epoch chain.length, wire, envelope⟩]) := by
  refine ⟨fun n b hb => ?_, fun b hb => ?_, fun n b hb => ?_⟩
  · rcases getElem?_snoc hb with hb | ⟨rfl, rfl⟩
    · rw [take_append_of_le (List.getElem?_eq_some_iff.mp hb).1.le]
      exact hc.commits n b hb
    · rw [take_append_of_le le_rfl, take_length]
      exact hw
  · rcases mem_append.mp hb with hb | hb
    · exact hc.wrapped b hb
    · rw [mem_singleton.mp hb]
      exact he
  · rcases getElem?_snoc hb with hb | ⟨rfl, rfl⟩
    · exact hc.epochs n b hb
    · rfl

theorem Member.grow (h : P.Member chain i n pending e) : P.Member (chain ++ [b]) i n pending e := by
  have ht := take_append_of_le (b := b) h.le
  refine ⟨?_, h.inbox, ht ▸ h.merged, ht ▸ h.seen, ht ▸ h.holds, h.calls⟩
  rw [length_append]
  exact Nat.le_add_right_of_le h.le

theorem Attempt.grow (h : P.Attempt chain i e s n wire) : P.Attempt (chain ++ [b]) i e s n wire :=
  ⟨h.member.grow, by rw [take_append_of_le h.member.le]; exact h.commits, h.wrapped, h.sending⟩

theorem Honest.grow (h : Honest chain i rs) : Honest (chain ++ [b]) i rs := by
  intro envelope epoch hm
  obtain ⟨b', hb', he⟩ := h envelope epoch hm
  exact ⟨b', mem_append_left _ hb', he⟩

theorem unlanded_grow (hb : b.author ≠ i) : Unlanded (chain ++ [b]) i n ↔ Unlanded chain i n := by
  constructor
  · intro h m b' hm hb'
    refine h m b' hm ?_
    rw [getElem?_append_left (List.getElem?_eq_some_iff.mp hb').1]
    exact hb'
  · intro h m b' hm hb'
    rcases getElem?_snoc hb' with hb' | ⟨-, rfl⟩
    · exact h m b' hm hb'
    · exact hb

theorem holds_grow {pc : Pc} (hb : b.author ≠ i) (h : (P.regime chain i).holds e rs pc) :
    (P.regime (chain ++ [b]) i).holds e rs pc := by
  refine Regime.holds_mono ?_ (fun r hr => ?_) (fun s hs => ?_) (fun s hs => ?_) h
  · rintro ⟨hr, n, pending, hm, hu⟩
    exact ⟨hr.grow, n, pending, hm.grow, (unlanded_grow hb).mpr hu⟩
  · cases r <;> exact hr
  · obtain ⟨hr, n, wire, ha, hown⟩ := hs
    refine ⟨hr.grow, n, wire, ha.grow, fun m b' hm hb' hi => ?_⟩
    rcases getElem?_snoc hb' with hb' | ⟨-, rfl⟩
    · exact hown m b' hm hb' hi
    · exact absurd hi hb
  · obtain ⟨hr, n, wire, ha, hu⟩ := hs
    exact ⟨hr.grow, n, wire, ha.grow, (unlanded_grow hb).mpr hu⟩

/-- The member's own commit lands: it is the next of the chain, and the only one of its own. -/
theorem out_lands (hc : P.Chained chain) (h : (P.regime chain i).out e rs s)
    (hu : Unlanded chain i e.trace.merged.length) {target : UInt64} (hk : s.kind = .commit target)
    (ht : target.toNat = P.base.toNat + chain.length) :
    ∃ wire, P.Chained (chain ++ [⟨i, target, wire, s.envelope⟩]) ∧
      (P.regime (chain ++ [⟨i, target, wire, s.envelope⟩]) i).out e rs s ∧
      ¬ Unlanded (chain ++ [⟨i, target, wire, s.envelope⟩]) i e.trace.merged.length ∧
      e.trace.merged.length = chain.length := by
  obtain ⟨hr, n, wire, ha, -⟩ := h
  rw [ha.member.length_merged] at hu ⊢
  have hepoch : target = P.epoch n := by
    rw [ha.sending] at hk
    exact (GroupSendKind.commit.inj hk).symm
  have hn : n = chain.length := by
    have hlt := target.toNat_lt
    have hle := ha.member.le
    have hn := P.epoch_toNat (n := n) (by omega)
    rw [← hepoch] at hn
    omega
  subst hn
  have hcommits := ha.commits
  rw [take_length] at hcommits
  rw [hepoch]
  refine ⟨wire, hc.snoc hcommits ha.wrapped, ⟨hr.grow, _, wire, ha.grow, fun m b' hm hb' hi => ?_⟩,
    fun hun => hun chain.length ⟨i, P.epoch chain.length, wire, s.envelope⟩ le_rfl
      (by simp) rfl, rfl⟩
  rcases getElem?_snoc hb' with hb' | ⟨rfl, rfl⟩
  · exact absurd hi (hu m b' hm hb')
  · exact ⟨rfl, rfl, rfl⟩

end Growth
end Party
end Rosette.Engine
