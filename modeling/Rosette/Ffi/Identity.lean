import Rosette.Engine.Conditions
import Rosette.Ffi.Threads

/-! # A device keeps its identity

A thread takes the identity in the database if there is one and no engine beside it. If there
is an engine the thread makes a new identity, on the assumption that an engine on disk is being
resumed; but the engine may have been written by a thread whose caller has given up. What such
a thread then writes replaces the identity of the device.
-/
namespace Rosette.Ffi
open Foundation Proto Rosette.Core Engine Option

variable {mls : OpenMls} {id : mls.Identity} {stage : Boot mls} {h : Host mls}

def Database.identity (disk : Database mls) : Option mls.Identity :=
  disk.engine.session.map SessionSnapshot.identity

/-! ## Engines -/

/-- Without an engine beside it, a stored session is an identity and nothing else. -/
def Bare (st : Store mls) : Prop :=
  st.engine = none → ∀ snap, st.session = some snap → snap.groupId = none

/-- The engine works under this identity, and so does what it has stored. -/
structure Bears (id : mls.Identity) (e : ChatEngine mls) : Prop where
  session : e.session.identity = id
  stored : ∀ st, e.store = some st → st.session.map SessionSnapshot.identity = some id ∧ Bare st

namespace Bears
variable {e : ChatEngine mls}

theorem congr {e' : ChatEngine mls} (h : Bears id e) (hs : e'.session.identity = e.session.identity)
    (hst : e'.store = e.store) : Bears id e' :=
  ⟨hs.trans h.session, hst ▸ h.stored⟩

theorem persist (h : Bears id e) (diskOk : Bool) (ids : Finset MessageId) :
    Bears id (e.persist diskOk ids).1 := by
  unfold ChatEngine.persist
  split
  · exact h
  · split_ifs
    · refine ⟨h.session, ?_⟩
      rintro _ ⟨⟩
      exact ⟨congrArg some h.session, by rintro ⟨⟩⟩
    · exact h

end Bears

theorem bears_stable (c : Crypto) (id : mls.Identity) : Stable c (.any mls) (Bears id) where
  events _ h := h.congr rfl rfl
  relay _ h := h.congr rfl rfl
  refused h _ ha := by
    obtain ⟨s, rfl, rfl⟩ := absorb_refused ha
    exact h.congr (ChatSession.processIncoming_identity _ _) rfl
  taken _ h _ ha := by
    obtain ⟨s, merged, rfl, rfl⟩ := absorb_taken ha
    refine Bears.persist ?_ _ _
    exact h.congr (ChatSession.processIncoming_identity _ _) rfl
  unjoined {e envelope payload s err} h _ _ hj := by
    have hid := e.session.joinFromWelcome_identity payload.welcomeWire payload.treeWire
    rw [hj] at hid
    exact h.congr hid rfl
  joined {e envelope payload s diskOk} _ h _ _ hj := by
    have hid := e.session.joinFromWelcome_identity payload.welcomeWire payload.treeWire
    rw [hj] at hid
    refine Bears.persist ?_ _ _
    exact h.congr hid rfl
  unencrypted rand plaintext h _ := h.congr (ChatSession.withGroup_identity _ _) rfl
  encrypted {e rand plaintext s wire envelope diskOk} _ h hs _ := by
    have hid := e.session.withGroup_identity fun g =>
      mls.createMessage rand e.session.identity g plaintext
    rw [ChatSession.encryptApplication] at hs
    rw [hs] at hid
    refine Bears.persist ?_ _ _
    exact h.congr hid rfl
  unbuilt rand _ h _ := h.congr (ChatSession.withGroup_identity _ _) rfl
  built {e rand s wire envelope} _ h hs _ := by
    have hid := e.session.withGroup_identity (mls.selfUpdate rand e.session.identity)
    rw [ChatSession.selfUpdate] at hs
    rw [hs] at hid
    exact h.congr hid rfl
  unmerged {e s err} id' _ h hm := by
    have hid := e.session.withGroup_identity mls.mergePendingCommit
    rw [ChatSession.mergePendingCommit] at hm
    rw [hm] at hid
    exact h.congr hid rfl
  merged {e s diskOk} envelope _ _ h hm := by
    have hid := e.session.withGroup_identity mls.mergePendingCommit
    rw [ChatSession.mergePendingCommit] at hm
    rw [hm] at hid
    refine Bears.persist ?_ _ _
    exact h.congr hid rfl
  discarded _ h := h.congr (ChatSession.withGroup_identity _ _) rfl

/-! ## Engines being built -/

def stageIdentity : Boot mls → mls.Identity
  | .connecting o => o.session.identity
  | .mailboxChallenge o _ _ => o.session.identity
  | .mailbox o _ _ => o.session.identity
  | .subscribing o _ _ _ => o.session.identity
  | .inboxChallenge f _ => f.engine.session.identity
  | .inbox f _ => f.engine.session.identity
  | .bootstrap e _ _ => e.session.identity

/-- Whatever comes next goes by this identity. -/
def TurnBears (id : mls.Identity) : BootTurn mls → Prop
  | .await stage _ => stageIdentity stage = id
  | .up e => e.session.identity = id
  | .failed _ => True

theorem turnBears_leads {link : Link} {bt : BootTurn mls} (h : stage.Leads link bt) :
    TurnBears (stageIdentity stage) bt := by
  cases h with
  | failed => trivial
  | @found _ _ _ session _ _ _ _ rand peer s₁ s₂ _ _ e engine created added =>
    have hgroup := e.session.createGroup_identity rand
    have hadd := s₁.addMembers_identity rand [peer]
    rw [created] at hgroup
    rw [added] at hadd
    have hsame : e.session = session := congrArg ChatEngine.session engine
    exact hadd.trans (hgroup.trans (congrArg ChatSession.identity hsame))
  | _ => rfl

/-! ## Threads -/

/-- The identity of a thread is that of the database, as soon as the database has one. -/
def Task.Agrees (disk : Database mls) : Task mls → Prop
  | .spawned _ => disk.engine.engine = none
  | .checked _ => disk.engine.engine = none
  | .booting _ stage => ∀ id, disk.identity = some id → id = stageIdentity stage
  | .built _ core => ∀ id, disk.identity = some id → id = core.session.identity
  | .attached _ core => disk.identity = some core.session.identity
  | .resuming => True
  | .rebooting stage => disk.identity = some (stageIdentity stage)
  | .resumed core => disk.identity = some core.session.identity
  | .acting a => disk.identity = some a.core.session.identity
  | .ended => True

def ThreadMove.readsOk : ThreadMove → Bool
  | .openDisk ok _ => ok
  | .readSession ok _ => ok
  | _ => true

section Threads
variable {p : Process mls} {disk disk' : Database mls} {o : Outcome mls} {task : Task mls}
  {word : Option Word} {a : Actor mls} {t : Turn mls} {m : ThreadMove} {closed : Bool}

theorem Database.identity_congr (he : disk'.engine = disk.engine) :
    disk'.identity = disk.identity := by
  unfold Database.identity
  rw [he]

theorem Task.Agrees.congr (ht : task.Agrees disk) (he : disk'.engine = disk.engine) :
    task.Agrees disk' := by
  have hid := Database.identity_congr he
  cases task with
  | spawned | checked => exact (congrArg _ he).trans ht
  | booting | built => exact fun id hi => ht id (hid ▸ hi)
  | attached | rebooting | resumed | acting => exact hid.trans ht
  | resuming | ended => trivial

structure Outcome.Faithful (disk : Database mls) (o : Outcome mls) : Prop where
  task : o.task.Agrees o.disk
  bare : Bare o.disk.engine
  identity : ∀ id, disk.identity = some id → o.disk.identity = some id

theorem faithful_goes (hb : Bare disk.engine) (ht : task.Agrees disk) :
    (p.goes disk task word).Faithful disk :=
  ⟨ht, hb, fun _ hi => hi⟩

theorem boot_identity {errand : Errand} {displayName : String} {session : ChatSession mls}
    (hs : errand.boot displayName session = .ok stage) :
    stageIdentity stage = session.identity := by
  rcases Errand.boot_eq_ok hs with ⟨_, _, _, -, rfl⟩ | ⟨_, _, _, _, -, rfl⟩ <;> rfl

theorem sessionOrNew_identity (hb : Bare disk.engine) (hnone : disk.engine.engine = none) (rand : ℕ)
    (hid : disk.identity = some id) : id = (sessionOrNew p disk.engine.session rand).identity := by
  obtain ⟨snap, hsnap, rfl⟩ := map_eq_some_iff.mp hid
  have hrestore : ChatSession.restore snap = .ok ⟨snap.storage, snap.identity, none⟩ := by
    rw [ChatSession.restore, hb hnone snap hsnap]
  rw [hsnap, sessionOrNew, hrestore]

theorem contactLink_identity (core : ChatEngine mls) (rand : ℕ) :
    (core.contactLink rand).1.session.identity = core.session.identity := by
  rw [ChatEngine.contactLink_fst]
  rfl

theorem faithful_shown {store : UiStore} {seq : UInt64} {uiOk : Bool} (hb : Bare disk.engine)
    (ht : task.Agrees disk) :
    Outcome.Faithful disk ⟨task, disk.persistUi store seq uiOk, store, seq, word⟩ := by
  have he := disk.persistUi_engine store seq uiOk
  exact ⟨ht.congr he, he ▸ hb, fun id hi => (Database.identity_congr he).trans hi⟩

theorem resume_identity (hs : Engine.resume disk.engine = .ok stage) :
    disk.identity = some (stageIdentity stage) := by
  obtain ⟨rec, snap, session, -, hsnap, hsession, rfl⟩ := resume_eq_ok hs
  change disk.engine.session.map _ = some session.identity
  rw [hsnap, map_some, ChatSession.restore_identity hsession]

variable (hb : Bare disk.engine)
include hb

theorem bears_onDisk {core : ChatEngine mls} (hcore : disk.identity = some core.session.identity) :
    Bears core.session.identity (onDisk disk core) := by
  refine ⟨rfl, fun st hst => ?_⟩
  obtain ⟨-, -, rfl⟩ := map_eq_some_iff.mp hst
  exact ⟨hcore, hb⟩

theorem faithful_after (hid : disk.identity = some id) (ht : Bears id t.engine)
    (ho : o.After p disk a t) : o.Faithful disk := by
  have hdisk : (disk.written t.engine).identity = some id ∧
      Bare (disk.written t.engine).engine := by
    unfold Database.written
    split
    · exact ⟨hid, hb⟩
    · rename_i st hst
      exact ht.stored st hst
  have hnew : o.disk.identity = some id := (Database.identity_congr ho.engine).trans hdisk.1
  refine ⟨?_, ho.engine ▸ hdisk.2, fun id' hid' => ?_⟩
  · rcases ho.task with htask | ⟨phase, htask, -⟩
    · rw [htask]
      trivial
    · rw [htask]
      exact hnew.trans (congrArg some ht.session.symm)
  · exact hnew.trans (hid.symm.trans hid')

theorem bears_turn {a' : Actor mls} (ha : disk.identity = some a.core.session.identity)
    (ht : a.Turns h disk m a' t) :
    Bears a.core.session.identity t.engine := by
  have hstart := bears_onDisk hb ha
  cases ht with
  | poll | send => exact (bears_stable h.crypto _).start _ hstart
  | wake move phase woke => exact (bears_stable h.crypto _).wake hstart woke

theorem faithful_acting (ha : disk.identity = some a.core.session.identity)
    (hs : a.step h p disk closed m = some o) : o.Faithful disk := by
  rcases Actor.step_cases hs with ⟨a', t, ht, ho⟩ | ⟨uiOk, rfl⟩ | ⟨core, hcore, rfl⟩ | rfl
  · exact faithful_after hb ha (bears_turn hb ha ht) ho
  · unfold Actor.check
    split_ifs
    · exact faithful_shown hb ha
    · exact faithful_goes hb ha
  · refine faithful_goes hb (ha.trans (congrArg some ?_))
    rcases hcore with rfl | ⟨rand, rfl⟩
    · rfl
    · exact (contactLink_identity _ _).symm
  · exact faithful_goes hb trivial

theorem Task.step_faithful (ht : task.Agrees disk) (hread : m.readsOk = true)
    (hs : task.step h p disk closed m = some o) : o.Faithful disk := by
  cases Task.step_stepped hs with
  | ended | resuming => exact faithful_goes hb trivial
  | checked empty => exact faithful_goes hb empty
  | renewed full => exact absurd ht (full hread)
  | @restored errand ok rand stage boot =>
    obtain rfl : ok = true := hread
    refine faithful_goes hb fun id hi => ?_
    exact (sessionOrNew_identity hb ht rand hi).trans (boot_identity boot).symm
  | booting leads | built leads =>
    exact faithful_goes hb fun id hi => (ht id hi).trans (turnBears_leads leads).symm
  | attached => exact ⟨rfl, by rintro ⟨⟩, fun id hi => congrArg some (ht id hi).symm⟩
  | linked => exact faithful_goes hb (ht.trans (congrArg some (contactLink_identity _ _).symm))
  | opened => exact faithful_shown hb ht
  | rebooting resumed => exact faithful_goes hb (resume_identity resumed)
  | rebooted leads | resumed leads =>
    exact faithful_goes hb (ht.trans (congrArg some (turnBears_leads leads).symm))
  | adopted => exact faithful_goes hb ht
  | acted step => exact faithful_acting hb ht step

end Threads

/-! ## Runs -/

/-- A call that starts a thread finds none at work and no engine on disk, and the thread's
reads succeed. -/
def Phone.careful (w : Phone mls) (m : Move) : Bool :=
  w.undisturbed m &&
  (match w.process with
    | none => true
    | some p => (p.starts m).isNone || w.disk.engine.engine.isNone) &&
  match m with
  | .thread _ tm => tm.readsOk
  | _ => true

/-- Every thread agrees with the database, which stays with the identity it has. -/
def faithful (id : Option mls.Identity) : Ruling mls where
  state disk _ := Bare disk.engine ∧ ∀ i, id = some i → disk.identity = some i
  task disk _ task := task.Agrees disk

/-- A device as it is set up, newly or from a backup. -/
structure Phone.Begins (w : Phone mls) : Prop where
  engine : w.disk.engine.engine = none
  session : ∀ snap, w.disk.engine.session = some snap → snap.groupId = none
  process : ∀ p, w.process = some p → p.threads = []

section Runs
variable {w w' : Phone mls} {m : Move}

theorem Phone.Begins.faithful (hw : w.Begins) : (faithful none).Holds w :=
  Ruling.holds_of_idle ⟨fun _ => hw.session, by rintro _ ⟨⟩⟩ hw.process

theorem faithful_leads (id : Option mls.Identity) (hm : w.careful m = true) :
    (faithful id).Leads h w m (faithful id) := by
  obtain ⟨⟨hcalm, hfree⟩, hread⟩ := by simpa only [Phone.careful, Bool.and_eq_true] using hm
  refine {
    calm := hcalm
    died := fun _ hs => hs
    came := fun hs => hs
    resuming := fun _ _ => trivial
    ended := fun _ _ => trivial
    spawned := fun p errand hp hstart _ => ?_
    aside := fun p disk' store' seq' hp he _ _ hs => ?_
    thread := fun p i tm t closed o hp hmove _ hs ht hstep => ?_ }
  · have hnone : w.disk.engine.engine = none := by simpa [hp, hstart] using hfree
    exact hnone
  · exact ⟨⟨he ▸ hs.1, fun i hi => (Database.identity_congr he).trans (hs.2 i hi)⟩,
      fun task ht => Task.Agrees.congr ht he⟩
  · subst hmove
    have ho := Task.step_faithful hs.1 ht hread hstep
    exact ⟨⟨ho.bare, fun i hi => ho.identity i (hs.2 i hi)⟩, ho.task⟩

/-- As long as each call that starts a thread finds none at work and no engine on disk, the
identity of a device stays what it is. -/
theorem identity_never_changes (h : Host mls) {start w w' : Phone mls} {ms ns : List Move}
    (hstart : start.Begins) (hrun : run (Phone.step h) start ms = some w)
    (hlater : run (Phone.step h) w ns = some w')
    (hcareful : Along (Phone.step h) (fun w m => w.careful m = true) start (ms ++ ns))
    {id : mls.Identity} (hid : w.disk.identity = some id) : w'.disk.identity = some id := by
  have hw : (faithful none).Holds w :=
    run_invariant_along hstart.faithful
      (fun v m v' hv hm hs => (faithful_leads none hm).step hv hs) (along_of_append hcareful) hrun
  have hkeeps : (faithful (some id)).Holds w :=
    ⟨⟨hw.state.1, by rintro _ ⟨⟩; exact hid⟩, hw.process⟩
  have hlast : (faithful (some id)).Holds w' :=
    run_invariant_along hkeeps (fun v m v' hv hm hs => (faithful_leads (some id) hm).step hv hs)
      (along_after hcareful hrun) hlater
  exact hlast.state.2 id rfl

theorem launched_begins : launched.Begins := ⟨rfl, by rintro _ ⟨⟩, by rintro _ ⟨⟩; rfl⟩

def nameOf (w : Phone OpenMls.plain) : Option UInt8 := w.disk.identity

/-- The run goes through a state with the first identity to one with the second. -/
def goesThrough (ms ns : List Move) (id id' : UInt8) : Bool :=
  (run (Phone.step .plain) launched ms).any fun w => decide (nameOf w = some id) &&
    (run (Phone.step .plain) w ns).any fun w' => decide (nameOf w' = some id')

theorem goesThrough_iff {ms ns : List Move} {id id' : UInt8} :
    goesThrough ms ns id id' = true ↔ ∃ w w', run (Phone.step .plain) launched ms = some w ∧
      w.disk.identity = some id ∧ run (Phone.step .plain) w ns = some w' ∧
      w'.disk.identity = some id' := by
  simp only [goesThrough, any_eq_true, Bool.and_eq_true, decide_eq_true_iff]
  constructor
  · rintro ⟨w, hw, hid, w', hw', hid'⟩
    exact ⟨w, w', hw, hid, hw', hid'⟩
  · rintro ⟨w, w', hw, hid, hw', hid'⟩
    exact ⟨w, hw, hid, w', hw', hid'⟩

def resumedLater : List Move := [.crash, .newPersistent "ann" none, .thread 0 (.reopen true)]

theorem identity_never_changes_resumed : ∃ w w',
    run (Phone.step .plain) launched handedOut = some w ∧ w.disk.identity = some (1 : UInt8) ∧
    run (Phone.step .plain) w resumedLater = some w' ∧ w'.disk.identity = some (1 : UInt8) := by
  obtain ⟨w, w', hw, hid, hw', -⟩ := goesThrough_iff.mp
    (show goesThrough handedOut resumedLater 1 1 = true by decide +kernel)
  exact ⟨w, w', hw, hid, hw',
    identity_never_changes .plain launched_begins hw hw' (by decide +kernel) hid⟩

/-- The call times out after its thread has written the engine. The next one finds the engine on
disk and writes a new identity over the old. -/
theorem retry_changes_identity : ∃ w w',
    run (Phone.step .plain) launched ([.createContactLink] ++ looksUp 0 1 ++ connects 0 ++
      [.thread 0 (.attach true true)]) = some w ∧ w.disk.identity = some (1 : UInt8) ∧
    run (Phone.step .plain) w ([.timedOut 0, .createContactLink, .thread 1 (.openDisk true 2)] ++
      connects 1 ++ [.thread 1 (.attach true true)]) = some w' ∧
    w'.disk.identity = some (2 : UInt8) :=
  goesThrough_iff.mp (by decide +kernel)

end Runs
end Rosette.Ffi
