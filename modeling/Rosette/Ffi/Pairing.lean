import Rosette.Ffi.Identity
import Rosette.Ffi.Loop
import Rosette.Ffi.Recovery

/-! # An engine that is not paired waits for pairing

The loop of an actor goes by whether it has a conversation, the engine by whether it has an
inbox. A resumed actor takes its conversation from those listed, and a device set up from a
backup lists one before it has paired: if such a device hands out a link and is restarted, its
loop waits for events of an engine that is not paired. As long as links are asked for only
while no conversation is listed, loop and engine agree.
-/
namespace Rosette.Ffi
open Foundation Proto Rosette.Core Engine

variable {mls : OpenMls} {e e' : ChatEngine mls} {st : Store mls} {paired : Bool} {stage : Boot mls}
  {disk disk' : Database mls} {store store' : UiStore} {task : Task mls} {seq : UInt64}
  {displayName : String} {w : Phone mls}

/-! ## Engines -/

/-- The engine is paired or not, and its stored record says so. -/
def Filed (paired : Bool) (e : ChatEngine mls) : Prop :=
  e.isPaired = paired ∧
    ∃ st rec, e.store = some st ∧ st.engine = some rec ∧ rec.inbox.isSome = paired

namespace Filed
variable {e : ChatEngine mls}

variable (h : Filed paired e)
include h

theorem congr (hi : e'.inbox = e.inbox) (hst : e'.store = e.store) :
    Filed paired e' := by
  obtain ⟨hp, st, rec, hstore, hrec⟩ := h
  exact ⟨by rw [ChatEngine.isPaired, hi]; exact hp, st, rec, hst.trans hstore, hrec⟩

theorem persist (diskOk : Bool) (ids : Finset MessageId) :
    Filed paired (e.persist diskOk ids).1 := by
  unfold ChatEngine.persist
  split
  · exact h
  · split_ifs
    · exact ⟨h.1, _, e.record, rfl, rfl, h.1⟩
    · exact h

end Filed

theorem steady_filed (c : Crypto) (paired : Bool) :
    Steady c (fun (_ : ChatEngine mls) _ => True) (Filed paired) where
  events _ h := h.congr rfl rfl
  relay _ h := h.congr rfl rfl
  refused h _ _ ha := by
    obtain ⟨s, -, rfl⟩ := absorb_refused ha
    exact h.congr rfl rfl
  taken h _ _ ha := by
    obtain ⟨s, merged, -, rfl⟩ := absorb_taken ha
    refine Filed.persist ?_ _ _
    exact h.congr rfl rfl
  unencrypted _ _ h := h.congr rfl rfl
  encrypted _ h _ _ := by
    refine Filed.persist ?_ _ _
    exact h.congr rfl rfl

theorem Joins.filed (h : Joins e e') (hst : e.store = some st) : Filed true e' := by
  obtain ⟨envelope, payload, s, -, rfl⟩ := h
  have hjoined : (e.joined s envelope payload).store = some st := hst
  rw [ChatEngine.persist_stored hjoined]
  exact ⟨rfl, _, (e.joined s envelope payload).record, rfl, rfl, rfl⟩

theorem pairPush_pairs (c : Crypto) (link : Link) (rand : ℕ) (hst : e.store = some st) (q : QueueId)
    {envelope : Envelope} {payload : BootstrapPayload} {s : ChatSession mls}
    (hdec : decodeFrom BootstrapPayload.codec envelope.paddedCiphertext = some payload)
    (hjoin : e.session.joinFromWelcome payload.welcomeWire payload.treeWire = (s, .ok ())) :
    (pairPush c link ⟨rand, true⟩ e q envelope).engine.isPaired = true ∧
    ((pairPush c link ⟨rand, true⟩ e q envelope).result = none ∨
      (pairPush c link ⟨rand, true⟩ e q envelope).result = some (.paired (.ok ()))) := by
  have hjoined : (e.joined s envelope payload).store = some st := hst
  simp only [pairPush, hdec, hjoin, ChatEngine.persist, hjoined, if_true, tryAck]
  split_ifs
  · exact ⟨rfl, .inl rfl⟩
  · exact ⟨rfl, .inr rfl⟩

/-! ## Engines being built -/

/-- Whether the engine under construction will be paired, and whether it has a store. -/
def Origin.yields : Origin mls → Bool × Bool
  | .connect _ _ _ _ _ => (false, false)
  | .pair _ _ _ _ _ => (true, false)
  | .resume rec _ _ => (rec.inbox.isSome, true)

def stageYields : Boot mls → Bool × Bool
  | .connecting o => Origin.yields o
  | .mailboxChallenge o _ _ => Origin.yields o
  | .mailbox o _ _ => Origin.yields o
  | .subscribing o _ _ _ => Origin.yields o
  | _ => (true, false)

def TurnYields (y : Bool × Bool) : BootTurn mls → Prop
  | .await stage _ => stageYields stage = y
  | .up e => e.isPaired = y.1 ∧ (y.2 = true → e.store.isSome = true)
  | .failed _ => True

theorem turnYields_leads {link : Link} {bt : BootTurn mls} (h : stage.Leads link bt) :
    TurnYields (stageYields stage) bt := by
  cases h with
  | failed => trivial
  | @up o conn creds rid unscanned =>
    cases o with
    | connect => exact ⟨rfl, by rintro ⟨⟩⟩
    | resume => exact ⟨rfl, fun _ => rfl⟩
    | pair => exact absurd rfl (unscanned _ _ _ _ _)
  | paired => exact ⟨rfl, by rintro ⟨⟩⟩
  | _ => rfl

/-! ## Threads -/

def Errand.links : Errand → Bool
  | .createLink _ _ _ => true
  | .pair _ _ => false

/-- No conversation is listed, on disk or by the process. -/
def Unlisted (disk : Database mls) (store : Option UiStore) : Prop :=
  (∀ row, disk.uiState = some row → row.1.badges = []) ∧ ∀ s, store = some s → s.badges = []

def Database.unpaired (disk : Database mls) : Bool :=
  disk.engine.engine.any fun rec => rec.inbox.isNone

/-- The engine writes to the database, and the record there says whether it is paired. -/
structure Held (disk : Database mls) (core : ChatEngine mls) : Prop where
  stored : core.store.isSome = true
  record : ∃ rec, disk.engine.engine = some rec ∧ rec.inbox.isSome = core.isPaired

structure Actor.Fits (disk : Database mls) (a : Actor mls) : Prop where
  held : Held disk a.core
  conversation : a.conversation.isSome = true → a.core.isPaired = true
  phase : a.phase.Suits a.conversation.isSome a.core.isPaired

def Task.Fits (disk : Database mls) (store : UiStore) : Task mls → Prop
  | .spawned errand => errand.links = true → Unlisted disk (some store)
  | .checked errand => errand.links = true → Unlisted disk (some store)
  | .booting errand stage => (stageYields stage).1 = !errand.links ∧
      (errand.links = true → Unlisted disk (some store))
  | .built errand core => core.isPaired = !errand.links ∧
      (errand.links = true → Unlisted disk (some store))
  | .attached errand core => core.isPaired = !errand.links ∧ Held disk core
  | .resuming => True
  | .rebooting stage => ∃ rec, disk.engine.engine = some rec ∧
      stageYields stage = (rec.inbox.isSome, true)
  | .resumed core => Held disk core
  | .acting a => a.Fits disk
  | .ended => True

/-- While the engine on disk is not paired, nothing is listed. -/
def fitting (mls : OpenMls) : Ruling mls where
  state disk store := disk.unpaired = true → Unlisted disk store
  task disk store task := task.Fits disk store

section Threads
variable {h : Host mls} {p : Process mls} {o : Outcome mls} {core : ChatEngine mls} {closed : Bool}
  {a : Actor mls} {t : Turn mls} {m : ThreadMove}

section
variable (hh : Held disk core)
include hh

theorem Held.congr (he : disk'.engine = disk.engine) : Held disk' core :=
  ⟨hh.stored, he ▸ hh.record⟩

theorem Held.of_unpaired (hu : disk.unpaired = true) :
    core.isPaired = false := by
  obtain ⟨rec, hrec, hp⟩ := hh.record
  rw [Database.unpaired, hrec, Option.any_some, Option.isNone_iff_eq_none] at hu
  rw [← hp, hu]
  rfl

theorem Held.unpaired (hu : core.isPaired = false) :
    disk.unpaired = true := by
  obtain ⟨rec, hrec, hp⟩ := hh.record
  rw [hu] at hp
  rw [Database.unpaired, hrec, Option.any_some, Option.isNone_iff_eq_none]
  exact Option.not_isSome_iff_eq_none.mp (by rw [hp]; rintro ⟨⟩)

theorem Held.filed : Filed core.isPaired (onDisk disk core) := by
  obtain ⟨st, hst⟩ := Option.isSome_iff_exists.mp hh.stored
  obtain ⟨rec, hrec, hp⟩ := hh.record
  exact ⟨rfl, disk.engine, rec, by rw [onDisk, hst]; rfl, hrec, hp⟩

end

theorem held_of_filed (hf : Filed paired core) (he : disk'.engine = (disk.written core).engine) :
    Held disk' core := by
  obtain ⟨hp, st, rec, hst, hrec, hpaired⟩ := hf
  rw [Database.written, hst] at he
  exact ⟨by rw [hst]; rfl, rec, by rw [he]; exact hrec, hpaired.trans hp.symm⟩

theorem Unlisted.congr (hu : Unlisted disk (some store)) (hb : store'.badges = store.badges)
    (hw : disk.Rewritten disk' store' seq) :
    Unlisted disk' (some store') := by
  have hnil : store'.badges = [] := hb.trans (hu.2 store rfl)
  refine ⟨fun row hrow => ?_, by rintro _ ⟨⟩; exact hnil⟩
  rcases hw with hw | hw
  · exact hu.1 row (hw ▸ hrow)
  · cases hw.symm.trans hrow
    exact hnil

theorem badges_marked {m : Move} (hnil : store.badges = []) (hm : Marks m store store') :
    store'.badges = [] := by
  rcases hm with rfl | ⟨id, uiOk, -, rfl⟩
  · exact hnil
  · rw [UiStore.badges, List.map_eq_nil_iff] at hnil ⊢
    simp only [UiStore.update, hnil, List.replaceF_nil]

def Outcome.Fits (o : Outcome mls) : Prop :=
  (o.disk.unpaired = true → Unlisted o.disk (some o.store)) ∧ o.task.Fits o.disk o.store

theorem fits_goes {word : Option Word} (hs : disk.unpaired = true → Unlisted disk (some p.store))
    (ht : task.Fits disk p.store) : (p.goes disk task word).Fits :=
  ⟨hs, ht⟩

theorem boot_yields {errand : Errand} {session : ChatSession mls}
    (hs : errand.boot displayName session = .ok stage) : (stageYields stage).1 = !errand.links := by
  rcases Errand.boot_eq_ok hs with ⟨_, _, _, rfl, rfl⟩ | ⟨_, _, _, _, rfl, rfl⟩ <;> rfl

theorem held_files (disk : Database mls) (core : ChatEngine mls) :
    Held (disk.written (disk.files core)) (disk.files core) :=
  ⟨rfl, core.record, rfl, rfl⟩

theorem contactLink_held (hh : Held disk core) (rand : ℕ) :
    Held disk (core.contactLink rand).1 ∧
      (core.contactLink rand).1.isPaired = core.isPaired := by
  rw [ChatEngine.contactLink_fst]
  exact ⟨⟨hh.stored, hh.record⟩, rfl⟩

theorem fits_opened (hh : Held disk a.core) (hpaired : a.core.isPaired = true)
    (hphase : a.phase.Suits true true) (hc : a.conversation.isSome = true) (store : UiStore)
    (seq : UInt64) (uiOk : Bool) (word : Option Word) :
    Outcome.Fits ⟨.acting a, disk.persistUi store seq uiOk, store, seq, word⟩ := by
  have hheld := hh.congr (disk.persistUi_engine store seq uiOk)
  refine ⟨fun hu => ?_, hheld, fun _ => hpaired, by rw [hc, hpaired]; exact hphase⟩
  simp [hheld.of_unpaired hu] at hpaired

theorem fits_after (hs : disk.unpaired = true → Unlisted disk (some p.store))
    (ho : o.After p disk a t) (ht : Filed paired t.engine)
    (hkept : paired = false → disk.unpaired = true)
    (hc : a.conversation.isSome = true → paired = true)
    (hphase : t.result = none → (a.phase.goTo t.pc).Suits a.conversation.isSome paired) :
    o.Fits := by
  have hheld : Held o.disk t.engine := held_of_filed ht ho.engine
  refine ⟨fun hu => ?_, ?_⟩
  · have hunpaired : paired = false := ht.1.symm.trans (hheld.of_unpaired hu)
    exact (hs (hkept hunpaired)).congr ho.badges ho.written
  · rcases ho.task with htask | ⟨phase, htask, hp⟩
    · rw [htask]
      trivial
    · rw [htask]
      refine ⟨hheld, fun hconv => ht.1.trans (hc hconv), ?_⟩
      rcases hp with rfl | ⟨hr, rfl⟩
      · trivial
      · rw [ht.1]
        exact hphase hr

theorem Actor.after_goes (a : Actor mls) (now : ℤ) (uiOk : Bool)
    (hr : t.result = none ∨ t.result = some (.paired (.ok ()))) :
    ∃ phase, (a.after h p disk now uiOk t).task = .acting ⟨t.engine, a.conversation, phase⟩ := by
  obtain ⟨e, pc, frame, result⟩ := t
  rcases hr with rfl | rfl
  · exact ⟨_, rfl⟩
  · exact ⟨_, rfl⟩

section
variable (hs : disk.unpaired = true → Unlisted disk (some p.store))
include hs

theorem fits_failed (ho : o.After p disk a t) (he : o.disk.engine = disk.engine)
    {err : Engine.EngineError} (hr : t.result = some (.paired (.error err))) : o.Fits := by
  refine ⟨fun hu => ?_, ?_⟩
  · refine (hs ?_).congr ho.badges ho.written
    rwa [Database.unpaired, he] at hu
  · rw [ho.failed err hr]
    trivial

theorem fits_turn {a' : Actor mls} (ha : a.Fits disk) (ht : a.Turns h disk m a' t)
    (ho : o.After p disk a' t) : o.Fits := by
  have hfiled := ha.held.filed
  obtain ⟨-, st, rec, hst, -⟩ := ha.held.filed
  have hconv := ha.conversation
  have hends := ht.ends (steady_filed h.crypto _) hfiled hst ha.phase fun _ _ _ _ _ _ => trivial
  rw [← ht.conversation] at hconv
  cases hends with
  | kept engine phase =>
    rw [← ht.conversation] at phase
    exact fits_after hs ho engine ha.held.unpaired hconv phase
  | joined unpaired joins phase =>
    rw [← ht.conversation] at phase
    exact fits_after hs ho (joins.filed hst) (by rintro ⟨⟩) (fun _ => rfl) phase
  | failed store result => exact fits_failed hs ho (ho.unwritten store) result

theorem fits_acting (ha : a.Fits disk) (hstep : a.step h p disk closed m = some o) : o.Fits := by
  rcases Actor.step_cases hstep with ⟨a', t, ht, ho⟩ | ⟨uiOk, rfl⟩ | ⟨core, hcore, rfl⟩ | rfl
  · exact fits_turn hs ha ht ho
  · unfold Actor.check
    split_ifs with hcheck
    · rw [Bool.and_eq_true] at hcheck
      exact fits_opened (a := { a with
        conversation := some conversationId, phase := .selecting .idle }) ha.held hcheck.2
        looping_idle rfl _ _ _ _
    · exact fits_goes hs ⟨ha.held, ha.conversation, suits_checked hcheck⟩
  · rcases hcore with rfl | ⟨rand, rfl⟩
    · exact fits_goes hs ⟨ha.held, ha.conversation, trivial⟩
    · obtain ⟨hheld, hsame⟩ := contactLink_held ha.held rand
      exact fits_goes hs ⟨hheld, fun hc => hsame.trans (ha.conversation hc), trivial⟩
  · exact fits_goes hs trivial

end

theorem resume_yields (hr : Engine.resume disk.engine = .ok stage) :
    ∃ rec, disk.engine.engine = some rec ∧ stageYields stage = (rec.inbox.isSome, true) := by
  obtain ⟨rec, snap, session, hrec, -, -, rfl⟩ := resume_eq_ok hr
  exact ⟨rec, hrec, rfl⟩

variable (hs : disk.unpaired = true → Unlisted disk (some p.store))
include hs

/-- A resumed engine takes over the first conversation listed. If it is not paired there is
none. -/
theorem fits_adopted (hh : Held disk core) :
    Actor.Fits disk ⟨core, p.store.conversations.head?.map Conversation.id, .top⟩ := by
  refine ⟨hh, fun hc => ?_, trivial⟩
  by_contra hnot
  have hunlisted := hs (hh.unpaired (Bool.eq_false_of_not_eq_true hnot))
  have hnil : p.store.conversations = [] := List.map_eq_nil_iff.mp (hunlisted.2 _ rfl)
  simp [hnil] at hc

theorem Task.step_fits (ht : task.Fits disk p.store)
    (hstep : task.step h p disk closed m = some o) : o.Fits := by
  cases Task.step_stepped hstep with
  | ended | resuming => exact fits_goes hs trivial
  | checked => exact fits_goes hs ht
  | renewed full boot => exact fits_goes hs ⟨boot_yields boot, ht⟩
  | restored boot => exact fits_goes hs ⟨boot_yields boot, ht⟩
  | booting leads =>
    exact fits_goes hs ⟨(congrArg Prod.fst (turnYields_leads leads)).trans ht.1, ht.2⟩
  | built leads => exact fits_goes hs ⟨(turnYields_leads leads).1.trans ht.1, ht.2⟩
  | @attached errand core =>
    have hheld := held_files disk core
    refine ⟨fun hu => ht.2 ?_, ht.1, hheld⟩
    have hunpaired : core.isPaired = false := hheld.of_unpaired hu
    simpa [hunpaired] using ht.1
  | linked => exact fits_goes hs ⟨(contactLink_held ht.2 _).1, by rintro ⟨⟩, trivial⟩
  | @opened link tokens core =>
    exact fits_opened (a := ⟨core, some conversationId, .top⟩) ht.2 ht.1 trivial rfl _ _ _ _
  | rebooting resumed => exact fits_goes hs (resume_yields resumed)
  | rebooted leads =>
    obtain ⟨rec, hrec, hstage⟩ := ht
    exact fits_goes hs ⟨rec, hrec, (turnYields_leads leads).trans hstage⟩
  | resumed leads =>
    obtain ⟨rec, hrec, hstage⟩ := ht
    have hy := turnYields_leads leads
    rw [hstage] at hy
    exact fits_goes hs ⟨hy.2 rfl, rec, hrec, hy.1.symm⟩
  | adopted => exact fits_goes hs (fits_adopted hs ht)
  | acted step => exact fits_acting hs ht step

end Threads

/-! ## Runs -/

/-- A conversation is listed, on disk or by the process. -/
def Phone.listed (w : Phone mls) : Bool :=
  w.disk.uiState.any (fun row => !row.1.badges.isEmpty) ||
    w.process.any fun p => !p.store.badges.isEmpty

/-- A call that starts a thread finds none at work, and a link is asked for only while no
conversation is listed. -/
def Phone.mindful (w : Phone mls) (m : Move) : Bool :=
  w.undisturbed m && !((w.process.bind (·.starts m)).any Errand.links && w.listed)

section Runs
variable {h : Host mls} {m : Move}

theorem unlisted_of_not_listed (hw : w.listed = false) :
    Unlisted w.disk (w.process.map (·.store)) := by
  rw [Phone.listed, Bool.or_eq_false_iff] at hw
  refine ⟨fun row hrow => ?_, fun s hs => ?_⟩
  · simpa [hrow] using hw.1
  · obtain ⟨p, hp, rfl⟩ := Option.map_eq_some_iff.mp hs
    simpa [hp] using hw.2

theorem Unlisted.aside (hu : Unlisted disk (some store)) (hm : Marks m store store')
    (hw : disk.Rewritten disk' store' seq) :
    Unlisted disk' (some store') :=
  hu.congr ((badges_marked (hu.2 store rfl) hm).trans (hu.2 store rfl).symm) hw

theorem Task.Fits.aside (ht : task.Fits disk store) (he : disk'.engine = disk.engine)
    (hm : Marks m store store') (hw : disk.Rewritten disk' store' seq) :
    task.Fits disk' store' := by
  cases task with
  | spawned | checked => exact fun hl => (ht hl).aside hm hw
  | booting | built => exact ⟨ht.1, fun hl => (ht.2 hl).aside hm hw⟩
  | attached => exact ⟨ht.1, ht.2.congr he⟩
  | rebooting =>
    obtain ⟨rec, hrec, hy⟩ := ht
    exact ⟨rec, he ▸ hrec, hy⟩
  | resumed => exact Held.congr ht he
  | acting => exact ⟨ht.held.congr he, ht.conversation, ht.phase⟩
  | resuming | ended => trivial

theorem fitting_leads (hm : w.mindful m = true) : (fitting mls).Leads h w m (fitting mls) := by
  rw [Phone.mindful, Bool.and_eq_true] at hm
  refine {
    calm := hm.1
    died := fun _ hs hu => ⟨(hs hu).1, by rintro _ ⟨⟩⟩
    came := fun hs hu => ⟨(hs hu).1, ?_⟩
    resuming := fun _ _ => trivial
    ended := fun _ _ => trivial
    spawned := fun p errand hp hstart _ hl => ?_
    aside := fun p disk' store' seq' hp he hmark hw hs => ⟨fun hu => ?_, fun task ht => ?_⟩
    thread := fun p i tm t closed o hp _ _ hs ht hstep => Task.step_fits hs ht hstep }
  · rintro _ ⟨⟩
    cases hrow : w.disk.uiState with
    | none => rfl
    | some row => exact (hs hu).1 row hrow
  · have hnot : w.listed = false := by simpa [hp, hstart, hl] using hm.2
    have hunlisted := unlisted_of_not_listed hnot
    rwa [hp] at hunlisted
  · rw [Database.unpaired, he] at hu
    exact (hs hu).aside hmark hw
  · exact ht.aside he hmark hw

end Runs

/-! ## Two devices -/

/-- The process a device goes on with. -/
def Device.phone (d : Device mls) (disk : Database mls) (relayCfg : Option (String × Bytes 32)) :
    Phone mls :=
  ⟨disk, some ⟨d.displayName, relayCfg, d.shared.store, d.shared.seq, [], none, []⟩⟩

theorem newFromBackup_begins {r : Scheme mls} {path : FreshPath} {bundle : BackupBundle}
    {secret : Secret} {d : Device mls}
    (hd : newFromBackup r path displayName bundle secret = .ok d) :
    ∃ disk, d.shared.disk = some disk ∧ ∀ relayCfg, (d.phone disk relayCfg).Begins := by
  obtain ⟨bk, -, hd⟩ := bind_eq_ok.mp hd
  obtain ⟨payloadBytes, -, hd⟩ := bind_eq_ok.mp hd
  obtain ⟨payload, -, hd⟩ := bind_eq_ok.mp hd
  split_ifs at hd
  · cases hd
  obtain ⟨-, -, hd⟩ := bind_eq_ok.mp hd
  obtain ⟨bundleBytes, -, hd⟩ := bind_eq_ok.mp hd
  obtain ⟨-, -, hd⟩ := bind_eq_ok.mp hd
  cases hd
  refine ⟨_, rfl, fun relayCfg => ⟨rfl, fun snap hsnap => ?_, by rintro _ ⟨⟩; rfl⟩⟩
  obtain ⟨bytes, -, hrow⟩ := Option.bind_eq_some_iff.mp hsnap
  obtain ⟨identity, -, rfl⟩ := Option.map_eq_some_iff.mp hrow
  rfl

def waiting : List Move := handedOut ++ [.thread 0 (.poll ⟨true, 4⟩ ⟨0, true⟩ 0 true)]

/-- Where an actor stands, and whether its engine is paired. -/
def Task.stands : Task mls → Option (Phase × Bool)
  | .acting a => some (a.phase, a.core.isPaired)
  | _ => none

def firstStands (w : Phone mls) : Option (Phase × Bool) :=
  w.process.bind fun p => p.threads.head?.bind fun t => t.task.stands

theorem firstStands_eq_some {phase : Phase} (h : firstStands w = some (phase, paired)) :
    ∃ p t a, w.process = some p ∧ t ∈ p.threads ∧
      t.task = .acting a ∧ a.phase = phase ∧ a.core.isPaired = paired := by
  obtain ⟨p, hp, h⟩ := Option.bind_eq_some_iff.mp h
  obtain ⟨t, ht, h⟩ := Option.bind_eq_some_iff.mp h
  cases htask : t.task with
  | acting a =>
    rw [htask] at h
    cases h
    exact ⟨p, t, a, hp, List.mem_of_head? ht, htask, rfl, rfl⟩
  | _ =>
    rw [htask] at h
    cases h

def oneContact : Option BackupBundle :=
  (backupEnroll plainScheme ⟨fun _ => ⟨0, Nat.one_pos⟩, .replicate bkLen 7, .replicate _ 1,
    .replicate _ 2, .replicate _ 3, .replicate _ 4, .replicate _ 5, .replicate _ 6, .replicate _ 7⟩
    ⟨.ok (), .ok ()⟩ ⟨"ann", ⟨[⟨conversationId, "bob", none, 0, false⟩], fun _ => none⟩, 1,
      some (.empty .plain)⟩ ['1', '2', '3', '4']).toOption.map fun e => e.2.bundle

def restored : Option (Phone OpenMls.plain) := do
  let bundle ← oneContact
  let d ← (newFromBackup plainScheme ⟨false, .ok (), .ok ()⟩ "new phone" bundle
    ['1', '2', '3', '4']).toOption
  let disk ← d.shared.disk
  return d.phone disk (some ("relay", .fill 0))

theorem restored_begins {start : Phone OpenMls.plain} (h : restored = some start) :
    start.Begins := by
  unfold restored at h
  obtain ⟨bundle, -, h⟩ := Option.bind_eq_some_iff.mp h
  obtain ⟨d, hd, h⟩ := Option.bind_eq_some_iff.mp h
  obtain ⟨disk, hdisk, h⟩ := Option.bind_eq_some_iff.mp h
  cases h
  cases hnew : newFromBackup plainScheme ⟨false, .ok (), .ok ()⟩ "new phone" bundle
      ['1', '2', '3', '4'] with
  | error e =>
    rw [hnew] at hd
    cases hd
  | ok d' =>
    rw [hnew] at hd
    cases hd
    obtain ⟨disk', hdisk', hbegins⟩ := newFromBackup_begins hnew
    cases hdisk.symm.trans hdisk'
    exact hbegins _

/-- A link is handed out, the process dies, and the engine is resumed. -/
def restarted : List Move :=
  handedOut ++ [.crash, .newPersistent "ann" (some ("relay", .fill 0)), .thread 0 (.reopen true),
    .thread 0 (.boot (.connected 1 ⟨true, 0⟩)),
      .thread 0 (.boot (.replied .ok ⟨true, 1⟩ ⟨0, true⟩)),
    .thread 0 .adopt, .thread 0 (.check true), .thread 0 (.poll ⟨true, 2⟩ ⟨0, true⟩ 0 true)]

end Rosette.Ffi
