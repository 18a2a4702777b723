import Rosette.Network.Devices
import Rosette.Network.Reached

/-! # The stored session and the stored ids agree

An engine writes its session and the ids of what the session has been through in one
transaction. Every message a session takes in or builds is written before anything else
can happen to it, so whichever moment a crash picks, the file a resume finds tells of
exactly the messages its session knows. A crash inside a stretch finds the file as it
was at the one or the other end of it: a stretch makes at most one write.
-/
namespace Rosette.Network
open Foundation Proto Rosette.Core Relay Engine List

variable {mls : OpenMls} {ι : Type} {c : Crypto} {t base : Trace} {a : Envelope} {x : MessageId}
  {w w' : World mls ι} {i : ι} {e : ChatEngine mls} {s₀ : ChatSession mls}

/-- The seen table holds the ids of what the session beside it has consumed or authored. -/
def Tallies (st : Store mls) : Prop :=
  st.session.isSome ∧ ∀ id, id ∈ st.seen ↔ id ∈ st.trace.ids

/-- The engine's memory and its store tell the same, but for messages its session refused.
The session goes back at least to `base`. -/
structure Agrees (base : Trace) (e : ChatEngine mls) : Prop where
  stored : ∃ st, e.store = some st ∧ st.trace = e.trace ∧ Tallies st
  seen : ∀ id, id ∈ e.seen ↔ id ∈ e.trace.ids ∨ ∃ p ∈ e.calls, p.2.messageId = id
  calls : ∀ p ∈ e.calls, p.2.messageId ∉ p.1.ids ∧ base.ids ⊆ p.1.ids
  base : base.ids ⊆ e.trace.ids

theorem exists_call_snoc {calls : List (Trace × Envelope)} :
    (∃ p ∈ calls ++ [(t, a)], p.2.messageId = x) ↔
      (∃ p ∈ calls, p.2.messageId = x) ∨ x = a.messageId := by
  simp only [mem_append, mem_singleton, or_and_right, exists_or, exists_eq_left]
  rw [eq_comm]

namespace Agrees
variable {e' : ChatEngine mls}

theorem congr (h : Agrees base e) (hst : e'.store = e.store) (ht : e'.trace = e.trace)
    (hs : e'.seen = e.seen) (hc : e'.calls = e.calls) : Agrees base e' :=
  ⟨hst ▸ ht ▸ h.stored, hs ▸ ht ▸ hc ▸ h.seen, hc ▸ h.calls, ht ▸ h.base⟩

theorem written (h : Agrees base e) {id : MessageId} (hst : e'.store = e.store)
    (ht : ∀ x, x ∈ e'.trace.ids ↔ x ∈ e.trace.ids ∨ x = id) (hs : e'.seen = insert id e.seen)
    (hc : e'.calls = e.calls ∨ ∃ a : Envelope, a.messageId = id ∧ id ∉ e.seen ∧
      e'.calls = e.calls ++ [(e.trace, a)]) :
    Agrees base (e'.persist true {id}).1 := by
  obtain ⟨st, hst', htrace, htally⟩ := h.stored
  rw [ChatEngine.persist_stored (hst.trans hst')]
  have hnew : id ∉ e.seen → id ∉ e.trace.ids := fun hn ht => hn ((h.seen id).mpr (.inl ht))
  refine ⟨⟨_, rfl, rfl, rfl, fun x => ?_⟩, fun x => ?_, ?_,
    fun x hx => (ht x).mpr (.inl (h.base hx))⟩
  · change x ∈ st.seen ∪ {id} ↔ x ∈ e'.trace.ids
    rw [Finset.mem_union, Finset.mem_singleton, htally.2, htrace]
    exact (ht x).symm
  · rw [hs, Finset.mem_insert, h.seen, ht]
    rcases hc with hc | ⟨a, ha, -, hc⟩
    · rw [hc]
      tauto
    · rw [hc, exists_call_snoc, ha]
      generalize (∃ p ∈ e.calls, p.2.messageId = x) = P
      tauto
  · rcases hc with hc | ⟨a, rfl, hn, hc⟩
    · rw [hc]
      exact h.calls
    · intro p hp
      rw [hc] at hp
      rcases mem_append.mp hp with hp | hp
      · exact h.calls p hp
      · rw [mem_singleton.mp hp]
        exact ⟨hnew hn, h.base⟩

end Agrees

/-- No commits, and every write succeeds. -/
def calm (mls : OpenMls) : Surroundings mls where
  permits call := call ≠ .commitSelfUpdate
  invites _ _ := True
  writes diskOk := diskOk = true

theorem mem_ids_consume {merged : List Envelope} :
    x ∈ Trace.ids ⟨t.consumed ++ [a], t.authored, merged⟩ ↔ x ∈ t.ids ∨ x = a.messageId := by
  simp only [Trace.ids, map_append, mem_append, map_cons, map_nil, mem_singleton]
  tauto

theorem mem_ids_author :
    x ∈ Trace.ids { t with authored := t.authored ++ [a] } ↔ x ∈ t.ids ∨ x = a.messageId := by
  simp only [Trace.ids, map_append, mem_append, map_cons, map_nil, mem_singleton]
  tauto

theorem agrees_stable (c : Crypto) (base : Trace) : Stable c (calm mls) (Agrees base) where
  events _ h := h.congr rfl rfl rfl rfl
  relay _ h := h.congr rfl rfl rfl rfl
  refused {e envelope e' err} h hn ha := by
    obtain ⟨s, -, rfl⟩ := absorb_refused ha
    refine ⟨h.stored, fun x => ?_, fun p hp => ?_, h.base⟩
    · change x ∈ insert envelope.messageId e.seen ↔ x ∈ e.trace.ids ∨
        ∃ p ∈ e.calls ++ [(e.trace, envelope)], p.2.messageId = x
      rw [Finset.mem_insert, h.seen, exists_call_snoc]
      generalize (∃ p ∈ e.calls, p.2.messageId = x) = P
      tauto
    · rcases mem_append.mp hp with hp | hp
      · exact h.calls p hp
      · rw [mem_singleton.mp hp]
        exact ⟨fun ht => hn ((h.seen _).mpr (.inl ht)), h.base⟩
  taken {e envelope e' event diskOk} hd h hn ha := by
    obtain ⟨s, merged, -, rfl⟩ := absorb_taken ha
    obtain rfl : diskOk = true := hd
    exact h.written rfl (fun x => mem_ids_consume) rfl (.inr ⟨envelope, rfl, hn, rfl⟩)
  unjoined h _ _ _ := h.congr rfl rfl rfl rfl
  joined {e envelope payload s diskOk} hd h _ _ _ := by
    obtain rfl : diskOk = true := hd
    exact h.written rfl (fun x => mem_ids_consume) rfl (.inl rfl)
  unencrypted _ _ h _ := h.congr rfl rfl rfl rfl
  encrypted {e rand plaintext s wire envelope diskOk} hd h _ _ := by
    obtain rfl : diskOk = true := hd
    exact h.written rfl (fun x => mem_ids_author) rfl (.inl rfl)
  unbuilt _ hp _ _ := absurd rfl hp
  built hp _ _ _ := absurd rfl hp
  unmerged _ hp _ _ := absurd rfl hp
  merged _ _ hp _ _ := absurd rfl hp
  discarded hp _ := absurd rfl hp

/-- What a file keeps: a session, its history from `s₀` on, and the ids in it. -/
structure Keeps (c : Crypto) (s₀ : ChatSession mls) (base : Trace) (st : Store mls) : Prop where
  tallies : Tallies st
  base : base.ids ⊆ st.trace.ids
  tells : st.Tells c s₀

def agreeing (c : Crypto) (s₀ : ChatSession mls) (base : Trace) : Regime mls :=
  (calm mls).regime fun e => Agrees base e ∧ Told c s₀ e

theorem agrees_saved (h : Agrees base e ∧ Told c s₀ e) :
    ∃ st, e.store = some st ∧ Keeps c s₀ base st := by
  obtain ⟨st, hst, htrace, htally⟩ := h.1.stored
  exact ⟨st, hst, htally, htrace ▸ h.1.base, h.2.stored st hst⟩

theorem agrees_recovers : Recovers (agreeing c s₀ base) (Keeps c s₀ base) := fun conn rs hF hr =>
  ⟨⟨⟨_, rfl, rfl, hF.tallies⟩,
    fun id => (hF.tallies.2 id).trans (by simp [resumedEngine, Origin.engine]),
    by rintro p ⟨⟩, hF.base⟩, told_recovers (calm mls) conn rs hF.tells hr⟩

/-- Apart from commits, attaching another store and starting afresh. -/
def Happening.calm : Happening mls ι → Bool
  | .call _ asked _ => decide (asked ≠ .commitSelfUpdate)
  | .attachStore _ _ => false
  | .start _ launch => launch.isResume
  | _ => true

/-- What the device and its application do: no commits, no failed writes, the store stays
attached, and after a crash the engine is resumed. -/
def Calm (i : ι) (h : Happening mls ι) : Prop :=
  h.node = some i → h.draw.all Draw.diskOk = true ∧ h.calm = true

instance [DecidableEq ι] (i : ι) (h : Happening mls ι) : Decidable (Calm i h) :=
  inferInstanceAs (Decidable (_ → _))

theorem grants_calm {h : Happening mls ι} (hc : Calm i h) :
    Grants (calm mls) (fun e => Agrees base e ∧ Told c s₀ e) w i h where
  call call d hh := by
    subst hh
    have hne : call ≠ .commitSelfUpdate := of_decide_eq_true (hc rfl).2
    exact hne
  link e _ d hh _ hA := by
    refine ⟨?_, hA.2.linked d.rand⟩
    rw [ChatEngine.contactLink_fst]
    exact hA.1.congr rfl rfl rfl rfl
  attach e _ d hh _ _ := by
    subst hh
    cases (hc rfl).2
  invited _ _ _ _ _ _ _ := trivial
  disk d hi hd := by
    have hall := (hc hi).1
    rw [hd] at hall
    exact hall
  start launch hh := by
    subst hh
    have hl := (hc rfl).2
    cases launch with
    | resume => rfl
    | connect | pair => cases hl

/-- A store is attached to an engine that has just come up with the session `s₀`. -/
def JustAttached (w : World mls ι) (i : ι) (s₀ : ChatSession mls) : Prop :=
  ∃ (e : ChatEngine mls) (file : Store mls), e.session = s₀ ∧ e.seen = ∅ ∧ e.trace = .empty ∧
    e.calls = [] ∧ file.seen = ∅ ∧
    (w.nodes i).process = .running (e.attachStore true file).1 .idle

theorem JustAttached.lasting (hw : JustAttached w i s₀) :
    Lasting (agreeing c s₀ .empty) (Keeps c s₀ .empty) (w.nodes i) := by
  obtain ⟨e, file, rfl, hseen, htrace, hcalls, hfile, hp⟩ := hw
  refine .running hp ?_
  rw [ChatEngine.attachStore, ChatEngine.persist_stored rfl]
  have hlived : Lived c e.session e.session e.trace := htrace ▸ .start
  refine ⟨⟨⟨_, rfl, rfl, rfl, fun id => ?_⟩, fun id => ?_, ?_, by rintro _ ⟨⟩⟩, hlived, ?_, ?_⟩
  · change id ∈ file.seen ∪ e.seen ↔ id ∈ e.trace.ids
    simp [hfile, hseen, htrace, Trace.ids, Trace.empty]
  · simp [hseen, htrace, hcalls, Trace.ids, Trace.empty]
  · rw [hcalls]
    rintro p ⟨⟩
  · rw [hcalls]
    rintro p ⟨⟩
  · rintro _ ⟨⟩ _ ⟨⟩
    exact ⟨_, rfl, hlived⟩

section Runs
variable [DecidableEq ι] {w : World mls ι} {i : ι} {es : List (Happening mls ι)}

theorem off_of_start {launch : Launch mls} (hs : w.step c (.start i launch) = some w') :
    (w.nodes i).process = .off := by
  cases hp : (w.nodes i).process with
  | off => rfl
  | starting => simp [World.step, Happening.node, hp, World.stepBoot] at hs
  | running => simp [World.step, Happening.node, hp, World.stepEngine] at hs

theorem called_of_push {link : Link} {d : Draw} {r : Receiver} {q : QueueId}
    (hs : a.messageId ∉ e.seen) (hr : r ≠ .awaitPairing) :
    (e.trace, a) ∈ (onPush c link d e r (q, a)).engine.calls := by
  have hk := (pumpFresh_kept c link d e r q a).calls.subset
    (mem_append_right e.calls (mem_singleton.mpr rfl))
  cases r with
  | nextEvent | drain => simpa only [onPush, pumpPush, if_neg hs] using hk
  | awaitPairing => exact absurd rfl hr

theorem run_agrees (hw : Lasting (agreeing c s₀ base) (Keeps c s₀ base) (w.nodes i))
    (hes : ∀ h ∈ es, Calm i h) (hrun : run (World.step c) w es = some w') :
    Lasting (agreeing c s₀ base) (Keeps c s₀ base) (w'.nodes i) := by
  have key : (∀ h ∈ es, Calm i h) →
      Lasting (agreeing c s₀ base) (Keeps c s₀ base) (w'.nodes i) := by
    refine run_induction (fun _ => hw) ?_ hrun
    intro es u h v _ ih hs hes
    refine (ih fun h' hh' => hes h' (mem_append_left _ hh')).step_condition
      ((agrees_stable c base).and (told_stable c _ s₀)) agrees_recovers
      (grants_calm (hes h (mem_append_right _ (mem_singleton.mpr rfl))))
      (fun e pc hp hA _ => ?_) hs
    obtain ⟨st, hst, hF⟩ := agrees_saved hA
    rw [Node.disk, hp]
    simp only [hst]
    exact hF
  exact key hes

end Runs

/-- An engine that has come up and is about to attach a store. -/
def aboutToAttach (w : World mls ι) (i : ι) : Bool :=
  match (w.nodes i).process with
  | .running e pc => pc = .idle ∧ e.seen = ∅ ∧ e.trace = .empty ∧ e.calls.isEmpty ∧
      (w.nodes i).disk.seen = ∅
  | _ => false

theorem justAttached_of_step [DecidableEq ι] {rand : ℕ} (h : aboutToAttach w i = true)
    (hs : w.step c (.attachStore i ⟨rand, true⟩) = some w') : ∃ s₀, JustAttached w' i s₀ := by
  unfold aboutToAttach at h
  split at h
  · rename_i e pc hp
    obtain ⟨rfl, hseen, htrace, hcalls, hfile⟩ := of_decide_eq_true h
    simp only [World.step, Happening.node, hp] at hs
    cases hs
    exact ⟨e.session, e, (w.nodes i).disk, rfl, hseen, htrace, isEmpty_iff.mp hcalls, hfile,
      by rw [World.install_self]; rfl⟩
  · cases h

/-- The listener joins, takes a message of the scanner, crashes before its ack is served, and
resumes into the replay. -/
def interrupted : List (Happening OpenMls.plain Bool) :=
  [.contactLink false ⟨9, true⟩] ++ scannerUp 1 ++ listenerJoins ++
    [.call true (.sendMessage [104, 105]) ⟨0, true⟩, .serve 1 (.fill 0), .deliver 0,
      .call false .nextEvent ⟨0, true⟩, .push false ⟨0, true⟩, .crash false,
      .start false .resume, .connected false] ++ exchange false 2 (.fill 0) ++
    [.call false .nextEvent ⟨0, true⟩, .deliver 2]

end Rosette.Network
