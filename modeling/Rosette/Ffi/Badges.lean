import Rosette.Core.Members
import Rosette.Ffi.Pairing

/-! # What a badge vouches for

A badge is set on a conversation by a call, and kept with the conversations. The keys it
vouches for are those of the group the engine is in. Nothing ties the two: a conversation
that stands for no pairing yet can be marked, and a pairing that comes later leaves its mark
as it is. As long as marks are set only while the engine on disk is paired, no pairing
replaces another and no message changes the members, a badge refers to the members there are.
-/
namespace Rosette.Ffi
open Foundation Proto Rosette.Core Engine List Option

variable {mls : OpenMls} {K : Type} {L : MemberLaws mls K} {st : Store mls} {rec : PersistedEngine}
  {stage : Boot mls} {session : ChatSession mls} {marked : String → K → Prop} {h : Host mls}
  {store : UiStore} {w : Phone mls} {id : String}

/-! ## The members of the engine's group -/

def storedKeys (L : MemberLaws mls K) (st : Store mls) : Option K :=
  st.engine.bind fun rec => if rec.inbox.isSome then st.session.bind L.ofSnapshot else none

/-- The session is in a group with these keys, and its storage has it. -/
structure Keyed (L : MemberLaws mls K) (k : K) (s : ChatSession mls) : Prop where
  keys : L.of s = some k
  saved : L.InStore s

/-- A paired engine whose group has these keys, in memory and as it is stored. -/
structure Vouched (L : MemberLaws mls K) (k : K) (e : ChatEngine mls) : Prop where
  paired : e.isPaired = true
  session : Keyed L k e.session
  stored : ∃ st, e.store = some st ∧ storedKeys L st = some k

/-- The envelope leaves the members of the group as they are. -/
def keepsMembers (L : MemberLaws mls K) (s : ChatSession mls) (envelope : Envelope) : Prop :=
  L.of (s.processIncoming envelope.paddedCiphertext).1 = L.of s

/-- So does an envelope that the move brings to the engine. -/
def LeavesMembers (L : MemberLaws mls K) (a : Actor mls) (m : ThreadMove) : Prop :=
  ∀ push link d now uiOk, m = .wake (.push push link d) now uiOk →
    keepsMembers L a.core.session push.2

section Vouched
variable {k : K} {e e' : ChatEngine mls}

theorem storedKeys_commit {s : ChatSession mls} (hp : rec.inbox.isSome = true) (hs : Keyed L k s)
    (trace : Trace) (ids : Finset MessageId) :
    storedKeys L (st.commit rec s.snapshot trace ids) = some k := by
  simp only [storedKeys, Store.commit, bind_some, hp]
  exact MemberLaws.ofSnapshot_snapshot hs.saved hs.keys

theorem Vouched.congr (h : Vouched L k e) (hi : e'.inbox = e.inbox) (hs : Keyed L k e'.session)
    (hst : e'.store = e.store) : Vouched L k e' :=
  ⟨by rw [ChatEngine.isPaired, hi]; exact h.paired, hs, hst ▸ h.stored⟩

theorem Vouched.persist (h : Vouched L k e) (diskOk : Bool) (ids : Finset MessageId) :
    Vouched L k (e.persist diskOk ids).1 := by
  unfold ChatEngine.persist
  split
  · exact h
  · split_ifs
    · have hp : e.record.inbox.isSome = true := h.paired
      exact ⟨h.paired, h.session, _, rfl, storedKeys_commit hp h.session _ _⟩
    · exact h

theorem steady_vouched (c : Crypto) (L : MemberLaws mls K) (k : K) :
    Steady c (fun e envelope => keepsMembers L e.session envelope) (Vouched L k) where
  events _ h := h.congr rfl h.session rfl
  relay _ h := h.congr rfl h.session rfl
  refused h hn _ ha := by
    obtain ⟨s, rfl, rfl⟩ := absorb_refused ha
    exact h.congr rfl ⟨hn.trans h.session.keys,
      MemberLaws.inStore_processIncoming h.session.saved _⟩ rfl
  taken h hn _ ha := by
    obtain ⟨s, merged, rfl, rfl⟩ := absorb_taken ha
    refine Vouched.persist ?_ _ _
    exact h.congr rfl ⟨hn.trans h.session.keys,
      MemberLaws.inStore_processIncoming h.session.saved _⟩ rfl
  unencrypted rand plaintext h :=
    h.congr rfl ⟨(MemberLaws.of_encryptApplication h.session.saved _ _).trans h.session.keys,
      MemberLaws.inStore_encryptApplication h.session.saved _ _⟩ rfl
  encrypted {e rand plaintext s wire envelope} _ h hs _ := by
    have hkeys := MemberLaws.of_encryptApplication h.session.saved rand plaintext
    have hsaved := MemberLaws.inStore_encryptApplication h.session.saved rand plaintext
    rw [hs] at hkeys hsaved
    refine Vouched.persist ?_ _ _
    exact h.congr rfl ⟨hkeys.trans h.session.keys, hsaved⟩ rfl

theorem Joins.vouched (h : Joins e e') (hst : e.store = some st) : ∃ k, Vouched L k e' := by
  obtain ⟨envelope, payload, s, hj, rfl⟩ := h
  obtain ⟨⟨k, hk⟩, hsaved⟩ := MemberLaws.joined hj
  have hjoined : (e.joined s envelope payload).store = some st := hst
  rw [ChatEngine.persist_stored hjoined]
  have hkeyed : Keyed L k s := ⟨hk, hsaved⟩
  exact ⟨k, rfl, hkeyed, _, rfl, storedKeys_commit rfl hkeyed _ _⟩

end Vouched

/-! ## Engines being built -/

/-- What the constructor was given, as long as it has founded no group. -/
def stageOrigin : Boot mls → Option (Origin mls)
  | .connecting o => some o
  | .mailboxChallenge o _ _ => some o
  | .mailbox o _ _ => some o
  | .subscribing o _ _ _ => some o
  | _ => none

def stageSession : Boot mls → Option (ChatSession mls)
  | .inboxChallenge f _ => some f.engine.session
  | .inbox f _ => some f.engine.session
  | .bootstrap e _ _ => some e.session
  | _ => none

/-- An engine that is not resumed, and whose group is in its storage once it is founded. -/
structure StageKeyed (L : MemberLaws mls K) (stage : Boot mls) : Prop where
  origin : ∀ rec session store, stageOrigin stage ≠ some (.resume rec session store)
  session : ∀ s, stageSession stage = some s → ∃ k, Keyed L k s

def TurnKeyed (L : MemberLaws mls K) : BootTurn mls → Prop
  | .await stage _ => StageKeyed L stage
  | .up e => e.isPaired = true → ∃ k, Keyed L k e.session
  | .failed _ => True

section Boots
variable {link : Link} {bt : BootTurn mls}

theorem turnKeyed_leads (hs : StageKeyed L stage) (h : stage.Leads link bt) : TurnKeyed L bt := by
  cases h with
  | failed => trivial
  | resubscribe => exact absurd rfl (hs.origin _ _ _)
  | challenge | mailbox | subscribe => exact ⟨hs.origin, by rintro _ ⟨⟩⟩
  | @up o conn creds rid unscanned =>
    cases o with
    | connect => rintro ⟨⟩
    | pair => exact absurd rfl (unscanned _ _ _ _ _)
    | resume => exact absurd rfl (hs.origin _ _ _)
  | found engine created added =>
    obtain ⟨⟨k, hk⟩, hsaved⟩ := MemberLaws.inStore_createGroup created
    obtain ⟨⟨k', hk'⟩, hsaved'⟩ := MemberLaws.added hk hsaved added
    refine ⟨by rintro _ _ _ ⟨⟩, ?_⟩
    rintro _ ⟨⟩
    exact ⟨k', hk', hsaved'⟩
  | inbox | bootstrap => exact ⟨by rintro _ _ _ ⟨⟩, hs.session⟩
  | paired => exact fun _ => hs.session _ rfl

/-- Resuming goes on with the session it was given. -/
def TurnResumes (rec : PersistedEngine) (session : ChatSession mls) (store : Store mls) :
    BootTurn mls → Prop
  | .await stage _ => stageOrigin stage = some (.resume rec session store)
  | .up e => e.inbox = rec.inbox ∧ e.session = session ∧ e.store = some store
  | .failed _ => True

theorem turnResumes_leads {store : Store mls}
    (hs : stageOrigin stage = some (.resume rec session store)) (h : stage.Leads link bt) :
    TurnResumes rec session store bt := by
  cases h with
  | failed => trivial
  | challenge | mailbox | subscribe => exact hs
  | resubscribe =>
    cases hs
    rfl
  | up =>
    cases hs
    exact ⟨rfl, rfl, rfl⟩
  | found | inbox | bootstrap | paired => cases hs

end Boots

/-! ## Threads -/

/-- The engine is not paired and nothing else is known, or it is and has these keys. -/
def Engaged (L : MemberLaws mls K) : Option K → ChatEngine mls → Prop
  | none, e => Filed false e
  | some k, e => Vouched L k e

/-- The record in the database is the engine's, and so are the keys of its group there. -/
structure Sealed (L : MemberLaws mls K) (disk : Database mls) (core : ChatEngine mls) : Prop where
  held : Held disk core
  keyed : core.isPaired = true → ∃ k, Keyed L k core.session ∧ storedKeys L disk.engine = some k

structure Actor.Sealed (L : MemberLaws mls K) (disk : Database mls) (a : Actor mls) : Prop where
  core : Ffi.Sealed L disk a.core
  phase : a.phase.Suits a.conversation.isSome a.core.isPaired

def Task.Sealed (L : MemberLaws mls K) (disk : Database mls) : Task mls → Prop
  | .spawned _ => disk.engine.engine = none
  | .checked _ => disk.engine.engine = none
  | .booting _ stage => disk.engine.engine = none ∧ StageKeyed L stage
  | .built _ core => disk.engine.engine = none ∧
      (core.isPaired = true → ∃ k, Keyed L k core.session)
  | .attached _ core => Ffi.Sealed L disk core
  | .resuming => True
  | .rebooting stage => ∃ rec session store, stageOrigin stage = some (.resume rec session store) ∧
      disk.engine.engine = some rec ∧ (rec.inbox.isSome = true →
        ∃ k, Keyed L k session ∧ storedKeys L disk.engine = some k)
  | .resumed core => Ffi.Sealed L disk core
  | .acting a => a.Sealed L disk
  | .ended => True

/-- The conversation has its badge, on disk or in memory. -/
def Badged (disk : Database mls) (store : Option UiStore) (id : String) : Prop :=
  (∃ row, disk.uiState = some row ∧ (id, true) ∈ row.1.badges) ∨
    ∃ s, store = some s ∧ (id, true) ∈ s.badges

/-- Every badge was set for the keys the stored engine has. -/
structure Vouches (L : MemberLaws mls K) (marked : String → K → Prop) (disk : Database mls)
    (store : Option UiStore) : Prop where
  keys : ∀ rec, disk.engine.engine = some rec → rec.inbox.isSome = true →
    ∃ k, storedKeys L disk.engine = some k
  badges : ∀ id, Badged disk store id → ∃ k, storedKeys L disk.engine = some k ∧ marked id k

def vouching (L : MemberLaws mls K) (marked : String → K → Prop) : Ruling mls where
  state := Vouches L marked
  task disk _ task := task.Sealed L disk

def Outcome.Vouches (L : MemberLaws mls K) (marked : String → K → Prop) (o : Outcome mls) : Prop :=
  Ffi.Vouches L marked o.disk (some o.store) ∧ o.task.Sealed L o.disk

section Threads
variable {p : Process mls} {disk disk' : Database mls} {o : Outcome mls} {core : ChatEngine mls}
  {k : Option K} {store' : UiStore} {seq : UInt64} {task : Task mls} {a : Actor mls} {t : Turn mls}
  {m : ThreadMove} {closed : Bool}

theorem steady_engaged (c : Crypto) (L : MemberLaws mls K) (k : Option K) :
    Steady c (fun e envelope => keepsMembers L e.session envelope) (Engaged L k) := by
  cases k with
  | some k => exact steady_vouched c L k
  | none =>
    have hf : Steady c (fun (_ : ChatEngine mls) _ => True) (Filed false) := steady_filed c false
    exact ⟨hf.events, hf.relay, fun h _ => hf.refused h trivial, fun h _ => hf.taken h trivial,
      hf.unencrypted, hf.encrypted⟩

theorem record_of_storedKeys {k : K} (hk : storedKeys L st = some k) :
    ∃ rec, st.engine = some rec ∧ rec.inbox.isSome = true := by
  obtain ⟨rec, hrec, hk⟩ := bind_eq_some_iff.mp hk
  split_ifs at hk with hp
  exact ⟨rec, hrec, hp⟩

theorem Held.storedKeys (hh : Held disk core) (hu : core.isPaired = false) :
    storedKeys L disk.engine = none := by
  obtain ⟨rec, hrec, hp⟩ := hh.record
  simp only [Ffi.storedKeys, hrec, bind_some, hp, hu, Bool.false_eq_true, if_false]

section
variable (hs : Sealed L disk core)
include hs

theorem Sealed.congr (he : disk'.engine = disk.engine) :
    Sealed L disk' core :=
  ⟨hs.held.congr he, he ▸ hs.keyed⟩

theorem Sealed.isPaired :
    core.isPaired = (storedKeys L disk.engine).isSome := by
  cases hp : core.isPaired with
  | false => rw [hs.held.storedKeys hp]; rfl
  | true =>
    obtain ⟨k, -, hk⟩ := hs.keyed hp
    rw [hk]
    rfl

theorem Sealed.engaged :
    Engaged L (storedKeys L disk.engine) (onDisk disk core) := by
  have hfiled := hs.held.filed
  cases hp : core.isPaired with
  | false =>
    rw [hs.held.storedKeys hp]
    rwa [hp] at hfiled
  | true =>
    obtain ⟨k, hk, hdisk⟩ := hs.keyed hp
    obtain ⟨st, hst⟩ := isSome_iff_exists.mp hs.held.stored
    rw [hdisk]
    exact ⟨hp, hk, disk.engine, by rw [onDisk, hst]; rfl, hdisk⟩

end

theorem sealed_of_engaged (hc : Engaged L k core) (he : disk'.engine = (disk.written core).engine) :
    Sealed L disk' core ∧ storedKeys L disk'.engine = k := by
  cases k with
  | none =>
    have hheld : Held disk' core := held_of_filed hc he
    refine ⟨⟨hheld, fun hp => ?_⟩, hheld.storedKeys hc.1⟩
    simp [hc.1] at hp
  | some k =>
    obtain ⟨st, hst, hk⟩ := hc.stored
    obtain ⟨rec, hrec, hp⟩ := record_of_storedKeys hk
    rw [Database.written, hst] at he
    have hkeys : storedKeys L disk'.engine = some k := by rw [he]; exact hk
    refine ⟨⟨⟨by rw [hst]; rfl, rec, by rw [he]; exact hrec, hp.trans hc.paired.symm⟩, ?_⟩, hkeys⟩
    exact fun _ => ⟨k, hc.session, hkeys⟩

theorem Sealed.keys (hs : Sealed L disk core) (hrec : disk.engine.engine = some rec)
    (hp : rec.inbox.isSome = true) : ∃ k, storedKeys L disk.engine = some k := by
  obtain ⟨rec', hrec', hpaired⟩ := hs.held.record
  obtain rfl := mem_unique hrec hrec'
  obtain ⟨k, -, hk⟩ := hs.keyed (hpaired.symm.trans hp)
  exact ⟨k, hk⟩

section
variable (hv : Vouches L marked disk (some store))
include hv

theorem Vouches.congr (hb : ∀ id, (id, true) ∈ store'.badges → (id, true) ∈ store.badges)
    (hw : disk.Rewritten disk' store' seq)
    (hk : storedKeys L disk.engine = storedKeys L disk'.engine ∨ storedKeys L disk.engine = none)
    (hrec : ∀ rec, disk'.engine.engine = some rec → rec.inbox.isSome = true →
      ∃ k, storedKeys L disk'.engine = some k) :
    Vouches L marked disk' (some store') := by
  refine ⟨hrec, fun id hid => ?_⟩
  have hold : Badged disk (some store) id := by
    rcases hid with ⟨row, hrow, hmem⟩ | ⟨s, ⟨⟩, hmem⟩
    · rcases hw with hw | hw
      · exact .inl ⟨row, hw ▸ hrow, hmem⟩
      · cases hw.symm.trans hrow
        exact .inr ⟨store, rfl, hb id hmem⟩
    · exact .inr ⟨store, rfl, hb id hmem⟩
  obtain ⟨k, hkeys, hmark⟩ := hv.badges id hold
  rcases hk with hk | hk
  · exact ⟨k, hk.symm.trans hkeys, hmark⟩
  · cases hk.symm.trans hkeys

theorem Vouches.same (hb : ∀ id, (id, true) ∈ store'.badges → (id, true) ∈ store.badges)
    (hw : disk.Rewritten disk' store' seq) (he : disk'.engine = disk.engine) :
    Vouches L marked disk' (some store') :=
  hv.congr hb hw (.inl (by rw [he])) (by rw [he]; exact hv.keys)

end

theorem vouches_goes {word : Option Word} (hv : Vouches L marked disk (some p.store))
    (ht : task.Sealed L disk) : (p.goes disk task word).Vouches L marked :=
  ⟨hv, ht⟩

theorem boot_keyed {errand : Errand} {displayName : String}
    (hs : errand.boot displayName session = .ok stage) : StageKeyed L stage := by
  rcases Errand.boot_eq_ok hs with ⟨_, _, _, -, rfl⟩ | ⟨_, _, _, _, -, rfl⟩ <;>
    exact ⟨by rintro _ _ _ ⟨⟩, by rintro _ ⟨⟩⟩

theorem storedKeys_of_none (hnone : st.engine = none) : storedKeys L st = none := by
  rw [storedKeys, hnone]
  rfl

theorem sealed_files (hcore : core.isPaired = true → ∃ k, Keyed L k core.session) :
    Sealed L (disk.written (disk.files core)) (disk.files core) := by
  refine ⟨held_files disk core, fun hp => ?_⟩
  obtain ⟨k, hk⟩ := hcore hp
  have hpaired : core.record.inbox.isSome = true := hp
  exact ⟨k, hk, storedKeys_commit hpaired hk _ _⟩

theorem contactLink_sealed (hs : Sealed L disk core) (rand : ℕ) :
    Sealed L disk (core.contactLink rand).1 := by
  rw [ChatEngine.contactLink_fst]
  refine ⟨⟨hs.held.stored, hs.held.record⟩, fun hp => ?_⟩
  obtain ⟨k, hk, hdisk⟩ := hs.keyed hp
  exact ⟨k, ⟨hk.keys, MemberLaws.inStore_generateKeyPackage hk.saved rand⟩, hdisk⟩

theorem badges_opened (store : UiStore) (peerName : Option String) (id : String)
    (hid : (id, true) ∈ (store.createConversation peerName).badges) :
    (id, true) ∈ store.badges := by
  rcases store.badges_createConversation peerName with hb | hb
  · rwa [hb] at hid
  · rw [hb] at hid
    rcases mem_append.mp hid with hid | hid
    · exact hid
    · cases mem_singleton.mp hid

section
variable (hv : Vouches L marked disk (some p.store))
include hv

theorem vouches_opened (hs : Sealed L disk a.core)
    (hphase : a.phase.Suits a.conversation.isSome a.core.isPaired) (peerName : Option String)
    (uiOk : Bool) (word : Option Word) :
    Outcome.Vouches L marked ⟨.acting a,
      disk.persistUi (p.store.createConversation peerName) p.seq uiOk,
      p.store.createConversation peerName, p.seq, word⟩ := by
  have he := disk.persistUi_engine (p.store.createConversation peerName) p.seq uiOk
  refine ⟨hv.same (badges_opened p.store peerName) (disk.persistUi_uiState _ _ _) he, ?_⟩
  exact ⟨hs.congr he, hphase⟩

theorem vouches_after (ho : o.After p disk a t) (ht : Engaged L k t.engine)
    (hk : storedKeys L disk.engine = k ∨ storedKeys L disk.engine = none)
    (hphase : t.result = none → (a.phase.goTo t.pc).Suits a.conversation.isSome k.isSome) :
    o.Vouches L marked := by
  obtain ⟨hsealed, hkeys⟩ := sealed_of_engaged ht ho.engine
  refine ⟨?_, ?_⟩
  · refine hv.congr (fun id hid => by rwa [ho.badges] at hid) ho.written ?_ fun rec => hsealed.keys
    rwa [hkeys]
  · rcases ho.task with htask | ⟨phase, htask, hp⟩
    · rw [htask]
      trivial
    · rw [htask]
      refine ⟨hsealed, ?_⟩
      rcases hp with rfl | ⟨hr, rfl⟩
      · trivial
      · rw [hsealed.isPaired, hkeys]
        exact hphase hr

theorem vouches_failed (ho : o.After p disk a t) (he : o.disk.engine = disk.engine)
    {err : Engine.EngineError} (hr : t.result = some (.paired (.error err))) :
    o.Vouches L marked := by
  refine ⟨hv.same (fun id hid => by rwa [ho.badges] at hid) ho.written he, ?_⟩
  rw [ho.failed err hr]
  trivial

theorem vouches_turn {a' : Actor mls} (ha : a.Sealed L disk) (ht : a.Turns h disk m a' t)
    (hm : LeavesMembers L a m) (ho : o.After p disk a' t) :
    o.Vouches L marked := by
  obtain ⟨-, st, rec, hst, -⟩ := ha.core.held.filed
  have hends := ht.ends (steady_engaged h.crypto L _) ha.core.engaged hst ha.phase hm
  cases hends with
  | kept engine phase =>
    rw [← ht.conversation, ha.core.isPaired] at phase
    exact vouches_after hv ho engine (.inl rfl) phase
  | joined unpaired joins phase =>
    rw [← ht.conversation] at phase
    obtain ⟨k, hk⟩ := joins.vouched hst
    exact vouches_after hv ho (k := some k) hk (.inr (ha.core.held.storedKeys unpaired)) phase
  | failed store result => exact vouches_failed hv ho (ho.unwritten store) result

theorem vouches_acting (ha : a.Sealed L disk) (hm : LeavesMembers L a m)
    (hstep : a.step h p disk closed m = some o) : o.Vouches L marked := by
  rcases Actor.step_cases hstep with ⟨a', t, ht, ho⟩ | ⟨uiOk, rfl⟩ | ⟨core, hcore, rfl⟩ | rfl
  · exact vouches_turn hv ha ht hm ho
  · unfold Actor.check
    split_ifs with hcheck
    · exact vouches_opened (a := { a with
        conversation := some conversationId, phase := .selecting .idle }) hv ha.core
        looping_idle _ _ _
    · exact vouches_goes hv ⟨ha.core, suits_checked hcheck⟩
  · refine vouches_goes hv ⟨?_, trivial⟩
    rcases hcore with rfl | ⟨rand, rfl⟩
    · exact ha.core
    · exact contactLink_sealed ha.core rand
  · exact vouches_goes hv trivial

theorem resume_sealed (hr : Engine.resume disk.engine = .ok stage) :
    (Task.rebooting stage).Sealed L disk := by
  obtain ⟨rec, snap, session, hrec, hsnap, hsession, rfl⟩ := resume_eq_ok hr
  refine ⟨rec, session, disk.engine, rfl, hrec, fun hp => ?_⟩
  obtain ⟨k, hk⟩ := hv.keys rec hrec hp
  refine ⟨k, ⟨?_, MemberLaws.inStore_restore hsession⟩, hk⟩
  simpa only [storedKeys, hrec, hsnap, bind_some, hp, if_true, MemberLaws.ofSnapshot,
    hsession] using hk

theorem Task.step_vouches (ht : task.Sealed L disk)
    (hm : ∀ a, task = .acting a → LeavesMembers L a m)
    (hstep : task.step h p disk closed m = some o) : o.Vouches L marked := by
  cases Task.step_stepped hstep with
  | ended | resuming => exact vouches_goes hv trivial
  | checked empty => exact vouches_goes hv empty
  | renewed full boot => exact vouches_goes hv ⟨ht, boot_keyed boot⟩
  | restored boot => exact vouches_goes hv ⟨ht, boot_keyed boot⟩
  | booting leads | built leads => exact vouches_goes hv ⟨ht.1, turnKeyed_leads ht.2 leads⟩
  | attached =>
    -- The first engine on disk brings its keys; there was no badge before it.
    have hsealed := @sealed_files _ _ L disk _ ht.2
    refine ⟨?_, hsealed⟩
    exact hv.congr (fun _ hid => hid)
      (.inl (Database.uiState_written _ _) : _ ∨ _ = some (p.store, p.seq))
      (.inr (storedKeys_of_none ht.1)) fun rec => hsealed.keys
  | linked => exact vouches_goes hv ⟨contactLink_sealed ht _, trivial⟩
  | @opened link tokens core m uiOk store word store_eq =>
    subst store_eq
    exact vouches_opened (a := ⟨core, some conversationId, .top⟩) hv ht trivial _ _ _
  | rebooting resumed => exact vouches_goes hv (resume_sealed hv resumed)
  | rebooted leads =>
    obtain ⟨rec, session, store, hstage, hrec, hk⟩ := ht
    exact vouches_goes hv ⟨rec, session, store, turnResumes_leads hstage leads, hrec, hk⟩
  | @resumed stage m link core leads =>
    obtain ⟨rec, session, store, hstage, hrec, hk⟩ := ht
    obtain ⟨hinbox, rfl, hstore⟩ := turnResumes_leads hstage leads
    have hpaired : rec.inbox.isSome = core.isPaired := by rw [ChatEngine.isPaired, hinbox]
    exact vouches_goes hv ⟨⟨by rw [hstore]; rfl, rec, hrec, hpaired⟩, fun hp =>
      hk (hpaired.trans hp)⟩
  | adopted => exact vouches_goes hv ⟨ht, trivial⟩
  | @acted a m o step =>
    exact vouches_acting hv ht (hm a rfl) step

end

theorem Task.Sealed.congr (ht : task.Sealed L disk) (he : disk'.engine = disk.engine) :
    task.Sealed L disk' := by
  cases task with
  | spawned | checked => exact (congrArg Store.engine he).trans ht
  | booting | built => exact ⟨(congrArg Store.engine he).trans ht.1, ht.2⟩
  | attached | resumed => exact Ffi.Sealed.congr ht he
  | resuming | ended => trivial
  | rebooting =>
    obtain ⟨rec, session, store, hstage, hrec, hk⟩ := ht
    exact ⟨rec, session, store, hstage, he ▸ hrec, he ▸ hk⟩
  | acting => exact ⟨ht.core.congr he, ht.phase⟩

end Threads

/-! ## Runs -/

/-- The engine on disk is paired and its group has these keys, and so has the engine of every
actor. -/
def Phone.HasKeys (L : MemberLaws mls K) (w : Phone mls) (k : K) : Prop :=
  storedKeys L w.disk.engine = some k ∧ ∀ p t a, w.process = some p → t ∈ p.threads →
    t.task = .acting a → a.core.isPaired = true ∧ L.of a.core.session = some k

/-- The conversation was marked while the group had these keys. -/
def MarkedFor (L : MemberLaws mls K) (h : Host mls) (start : Phone mls) (ms : List Move)
    (id : String) (k : K) : Prop :=
  ∃ pre uiOk post v, ms = pre ++ .markVerified id uiOk :: post ∧
    run (Phone.step h) start pre = some v ∧ v.HasKeys L k

def Database.paired (disk : Database mls) : Bool := disk.engine.engine.any (·.inbox.isSome)

def Phone.taskAt (w : Phone mls) (i : ℕ) : Option (Task mls) :=
  w.process.bind fun p => (p.threads[i]?).map (·.task)

instance [DecidableEq K] (L : MemberLaws mls K) (s : ChatSession mls) (envelope : Envelope) :
    Decidable (keepsMembers L s envelope) :=
  inferInstanceAs (Decidable (_ = _))

/-- What an actor is given leaves the members of its engine's group as they are. -/
def Task.keepsMembers [DecidableEq K] (L : MemberLaws mls K) (envelope : Envelope) : Task mls → Bool
  | .acting a => Ffi.keepsMembers L a.core.session envelope
  | _ => true

/-- A conversation is marked only when the engine is paired, and the members of a group stay. -/
def Phone.keepsMembers [DecidableEq K] (L : MemberLaws mls K) (w : Phone mls) : Move → Bool
  | .markVerified _ _ => w.disk.paired
  | .thread i (.wake (.push push _ _) _ _) => (w.taskAt i).all (Task.keepsMembers L push.2)
  | _ => true

/-- Moreover a call finds no thread at work, and starts one only where no engine is stored. -/
def Phone.steadfast [DecidableEq K] (L : MemberLaws mls K) (w : Phone mls) (m : Move) : Bool :=
  w.undisturbed m && ((w.process.bind (·.starts m)).isNone || w.disk.engine.engine.isNone) &&
    w.keepsMembers L m

section Runs
variable {m : Move} {marked' : String → K → Prop} {k : K}

theorem badges_update_verified {id' : String}
    (hid : (id, true) ∈ (store.update id' fun c => { c with verified := true }).badges) :
    (id, true) ∈ store.badges ∨ id = id' := by
  obtain ⟨c, hc, hpair⟩ := mem_map.mp hid
  rcases exists_or_eq_self_of_replaceF
      (fun c => if c.id = id' then some { c with verified := true } else none)
      store.conversations with hsame | ⟨c₁, c₂, l₁, l₂, -, hrep, hl, hl'⟩
  · refine .inl (mem_map.mpr ⟨c, ?_, hpair⟩)
    exact hsame ▸ hc
  · obtain ⟨hc₁, ⟨⟩⟩ := ite_none_right_eq_some.mp hrep
    have hmem : c ∈ l₁ ++ { c₁ with verified := true } :: l₂ := hl' ▸ hc
    simp only [mem_append, mem_cons] at hmem
    rcases hmem with hmem | rfl | hmem
    · exact .inl (mem_map.mpr ⟨c, by rw [hl]; simp [hmem], hpair⟩)
    · exact .inr ((congrArg Prod.fst hpair).symm.trans hc₁)
    · exact .inl (mem_map.mpr ⟨c, by rw [hl]; simp [hmem], hpair⟩)

theorem hasKeys_of_holds (hw : (vouching L marked).Holds w)
    (hk : storedKeys L w.disk.engine = some k) : w.HasKeys L k := by
  refine ⟨hk, fun p t a hp ht ha => ?_⟩
  have htask := (hw.process p hp).2 t ht
  rw [ha] at htask
  have hsealed : Sealed L w.disk a.core := htask.core
  have hpaired : a.core.isPaired = true := by
    rw [hsealed.isPaired, hk]
    rfl
  obtain ⟨k', hkeyed, hk'⟩ := hsealed.keyed hpaired
  cases hk.symm.trans hk'
  exact ⟨hpaired, hkeyed.keys⟩

theorem vouching_leads [DecidableEq K] (hm : w.steadfast L m = true)
    (hmono : ∀ id k, marked id k → marked' id k)
    (hmark : ∀ id uiOk k, m = .markVerified id uiOk → storedKeys L w.disk.engine = some k →
      marked' id k) : (vouching L marked).Leads h w m (vouching L marked') := by
  rw [Phone.steadfast, Bool.and_eq_true, Bool.and_eq_true] at hm
  obtain ⟨⟨hcalm, hstarts⟩, hmove⟩ := hm
  have hbadges : ∀ {store}, Vouches L marked w.disk store → Vouches L marked' w.disk store :=
    fun hv => ⟨hv.keys, fun id hid => by
      obtain ⟨k, hk, hmarked⟩ := hv.badges id hid
      exact ⟨k, hk, hmono id k hmarked⟩⟩
  refine {
    calm := hcalm
    died := fun store hv => ⟨hv.keys, fun id hid => ?_⟩
    came := fun hv => ⟨hv.keys, fun id hid => ?_⟩
    resuming := fun _ _ => trivial
    ended := fun _ _ => trivial
    spawned := fun p errand hp hstart _ => ?_
    aside := fun p disk' store' seq' hp he hst hw' hv =>
      ⟨⟨?_, fun id hid => ?_⟩, fun task ht => Task.Sealed.congr ht he⟩
    thread := fun p i tm t closed o hp hmv ht hv htask hstep =>
      Task.step_vouches (hbadges hv) htask ?_ hstep }
  · rcases hid with hrow | ⟨_, ⟨⟩, _⟩
    exact (hbadges hv).badges id (.inl hrow)
  · refine (hbadges hv).badges id (.inl ?_)
    rcases hid with hrow | ⟨s, hs, hmem⟩
    · exact hrow
    · cases hrow : w.disk.uiState with
      | none =>
        rw [hrow] at hs
        cases hs
        exact absurd hmem not_mem_nil
      | some row =>
        rw [hrow] at hs
        cases hs
        exact ⟨row, rfl, hmem⟩
  · rw [hp, bind_some, hstart] at hstarts
    exact isNone_iff_eq_none.mp hstarts
  · rw [he]
    exact hv.keys
  · rw [he]
    have hold : Badged w.disk (some p.store) id ∨ ∃ uiOk, m = .markVerified id uiOk := by
      have hmem : (id, true) ∈ store'.badges →
          Badged w.disk (some p.store) id ∨ ∃ uiOk, m = .markVerified id uiOk := by
        intro hid
        rcases hst with rfl | ⟨id', uiOk, rfl, rfl⟩
        · exact .inl (.inr ⟨_, rfl, hid⟩)
        · rcases badges_update_verified hid with hid | rfl
          · exact .inl (.inr ⟨_, rfl, hid⟩)
          · exact .inr ⟨uiOk, rfl⟩
      rcases hid with ⟨row, hrow, hid⟩ | ⟨s, ⟨⟩, hid⟩
      · rcases hw' with hw' | hw'
        · exact .inl (.inl ⟨row, hw' ▸ hrow, hid⟩)
        · cases hw'.symm.trans hrow
          exact hmem hid
      · exact hmem hid
    rcases hold with hold | ⟨uiOk, rfl⟩
    · exact (hbadges hv).badges id hold
    · obtain ⟨rec, hrec, hp⟩ := (any_eq_true _ _).mp hmove
      obtain ⟨k, hk⟩ := hv.keys rec hrec hp
      exact ⟨k, hk, hmark id uiOk k rfl hk⟩
  · rintro a ha push link d now uiOk rfl
    subst hmv
    have hat : w.taskAt i = some (.acting a) := by
      rw [Phone.taskAt, hp, bind_some, ht, map_some, ha]
    rw [Phone.keepsMembers, hat] at hmove
    exact of_decide_eq_true hmove

theorem MarkedFor.snoc {start : Phone mls} {ms : List Move} (hk : MarkedFor L h start ms id k)
    (m : Move) : MarkedFor L h start (ms ++ [m]) id k := by
  obtain ⟨pre, uiOk, post, v, rfl, hv⟩ := hk
  exact ⟨pre, uiOk, post ++ [m], v, by simp, hv⟩

/-- As long as conversations are marked only for a paired engine, no envelope changes the members
of a group and no engine is made over a stored one, a badge refers to the group there is: its
conversation was marked while the group had the keys it has now. -/
theorem verified_badge_is_current [DecidableEq K] (L : MemberLaws mls K) (h : Host mls)
    {start w : Phone mls} {ms : List Move} (hstart : start.Begins)
    (hnone : ∀ id, ¬ Badged start.disk (start.process.map Process.store) id)
    (hrun : run (Phone.step h) start ms = some w)
    (hsteadfast : Along (Phone.step h) (fun w m => w.steadfast L m = true) start ms) {id : String}
    (hid : Badged w.disk (w.process.map Process.store) id) :
    ∃ k, w.HasKeys L k ∧ MarkedFor L h start ms id k := by
  have hall : (vouching L (MarkedFor L h start ms)).Holds w := by
    refine run_induction ?_ ?_ hrun hsteadfast
    · intro _
      refine Ruling.holds_of_idle ⟨fun rec hrec => ?_, fun id hid => absurd hid (hnone id)⟩
        hstart.process
      cases hstart.engine.symm.trans hrec
    · intro pre v m v' hpre hholds hs halong
      obtain ⟨halong, hm⟩ := along_snoc halong hpre
      have hv := hholds halong
      refine (vouching_leads hm (fun id k hk => hk.snoc m) ?_).step hv hs
      rintro id uiOk k rfl hk
      exact ⟨pre, uiOk, [], v, rfl, hpre, hasKeys_of_holds hv hk⟩
  obtain ⟨k, hk, hmarked⟩ := hall.state.badges id hid
  exact ⟨k, hasKeys_of_holds hall hk, hmarked⟩

end Runs

/-! ## A stub that is paired again -/

/-- A link is handed out, a peer joins by it, and its conversation is opened. -/
def pairsByLink : List Move :=
  handedOut ++ [.thread 0 (.poll ⟨true, 4⟩ ⟨0, true⟩ 0 true),
    .thread 0 (.wake (.push (.fill 2, ⟨.fill 1, .relayFanout,
      BootstrapPayload.codec.encode ⟨[4, 5, 1, 9], [5], .fill 6, .fill 7⟩⟩) ⟨true, 5⟩ ⟨0, true⟩)
      0 true),
    .thread 0 (.wake (.replied .ok ⟨true, 6⟩ ⟨0, true⟩) 0 true), .thread 0 (.check true)]

/-- The keys there are, and the badges that are shown. -/
def badgesFor (w : Phone OpenMls.plain) :
    Option (UInt8 × Option UInt8) × Option (List (String × Bool)) :=
  (storedKeys .plain w.disk.engine, w.process.map fun p => p.store.badges)

theorem badged_of_badgesFor {w : Phone OpenMls.plain} {k : UInt8 × Option UInt8}
    (h : badgesFor w = (some k, some [(id, true)])) : storedKeys .plain w.disk.engine = some k ∧
      Badged w.disk (w.process.map Process.store) id := by
  refine ⟨congrArg Prod.fst h, .inr ?_⟩
  obtain ⟨p, hp, hb⟩ := map_eq_some_iff.mp (congrArg Prod.snd h)
  exact ⟨p.store, by rw [hp]; rfl, hb ▸ mem_singleton_self _⟩

def unbadged (w : Phone mls) : Bool :=
  w.disk.uiState.all (fun row => !row.1.badges.any Prod.snd) &&
    w.process.all fun p => !p.store.badges.any Prod.snd

theorem not_badged (h : unbadged w = true) (id : String) :
    ¬ Badged w.disk (w.process.map Process.store) id := by
  rw [unbadged, Bool.and_eq_true] at h
  rintro (⟨row, hrow, hid⟩ | ⟨s, hs, hid⟩)
  · have hrow' := h.1
    rw [hrow, all_some, Bool.not_eq_true', List.any_eq_false] at hrow'
    exact hrow' _ hid rfl
  · obtain ⟨p, hp, rfl⟩ := map_eq_some_iff.mp hs
    have hstore := h.2
    rw [hp, all_some, Bool.not_eq_true', List.any_eq_false] at hstore
    exact hstore _ hid rfl

theorem verified_badge_is_current_link : ∃ w k,
    run (Phone.step .plain) launched (pairsByLink ++ [.markVerified conversationId true]) = some w ∧
    Badged w.disk (w.process.map Process.store) conversationId ∧ w.HasKeys .plain k ∧
    MarkedFor .plain .plain launched (pairsByLink ++ [.markVerified conversationId true])
      conversationId k := by
  obtain ⟨w, hw, hall⟩ : ∃ w, run (Phone.step .plain) launched
      (pairsByLink ++ [.markVerified conversationId true]) = some w ∧
        badgesFor w = (some (1, some 9), some [(conversationId, true)]) := by decide +kernel
  obtain ⟨-, hid⟩ := badged_of_badgesFor hall
  obtain ⟨k, hk, hmarked⟩ := verified_badge_is_current .plain .plain launched_begins
    (not_badged (by decide +kernel)) hw (by decide +kernel) hid
  exact ⟨w, k, hw, hid, hk, hmarked⟩

/-- The stub of a contact is marked on a restored device, which then pairs by a link. -/
def marksStub : List Move := .markVerified conversationId true :: pairsByLink

/-- The conversation of the new pairing has its badge, though it was marked only before there was
any group. -/
theorem restored_stub_keeps_badge : ∃ start w k, restored = some start ∧ start.Begins ∧
    (∀ id, ¬ Badged start.disk (start.process.map Process.store) id) ∧
    run (Phone.step .plain) start marksStub = some w ∧
    Badged w.disk (w.process.map Process.store) conversationId ∧
    storedKeys .plain w.disk.engine = some k ∧
    ∀ pre uiOk post v, marksStub = pre ++ .markVerified conversationId uiOk :: post →
      run (Phone.step .plain) start pre = some v →
      storedKeys MemberLaws.plain v.disk.engine = none := by
  obtain ⟨start, hstart, hnone, w, hw, hall⟩ : ∃ start, restored = some start ∧
      unbadged start = true ∧ ∃ w, run (Phone.step .plain) start marksStub = some w ∧
        badgesFor w = (some (1, some 9), some [(conversationId, true)]) := by decide +kernel
  obtain ⟨hk, hid⟩ := badged_of_badgesFor hall
  have hbegins := restored_begins hstart
  refine ⟨start, w, _, hstart, hbegins, not_badged hnone, hw, hid, hk, ?_⟩
  intro pre uiOk post v hpre hv
  cases pre with
  | nil =>
    cases hv
    exact storedKeys_of_none hbegins.engine
  | cons =>
    have hmem : Move.markVerified conversationId uiOk ∈ pairsByLink := by
      rw [tail_eq_of_cons_eq hpre]
      exact mem_append_right _ (mem_cons_self ..)
    simp [pairsByLink, handedOut, looksUp, connects, reports] at hmem

end Rosette.Ffi
