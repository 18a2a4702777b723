import Rosette.Engine.Startup
import Rosette.Ffi.Shared

/-! # Engine threads

A call that needs an engine and finds none starts a thread and waits half a minute for its
first word. The thread restores or makes an identity, builds an engine, attaches the database
and goes on as an actor. An engine that is on disk when the process starts is resumed by a
thread of its own.

A thread runs from one access to something shared, or one await, to the next; the relay and
the network answer as they like. What a call leaves behind is modelled, not the value it
returns to the application.
-/
namespace Rosette.Ffi
open Foundation Proto Rosette.Core Engine Option

variable {mls : OpenMls} {disk : Database mls} {errand : Errand} {session : ChatSession mls}

/-- What the library takes from elsewhere: the primitives, how bytes that may be no text are
shown, and the name in the peer's credential. -/
structure Host (mls : OpenMls) where
  crypto : Crypto
  lossy : List UInt8 → String
  peerName : ChatSession mls → Option String

/-- A link as it was pasted, and what it decodes to. -/
inductive LinkText where
  | blank
  | undecodable
  | decoded (bytes : List UInt8)
deriving DecidableEq

inductive Errand where
  | createLink (relayAddr : String) (relayFingerprint : Bytes 32) (tokens : List AttestationToken)
  | pair (link : LinkText) (tokens : List AttestationToken)
deriving DecidableEq

inductive Word where
  | link (l : ContactLink)
  | conversation (id : String)
  | invalidLink
  | failed (e : Engine.EngineError)

def Word.ok : Word → Bool
  | .link _ => true
  | .conversation _ => true
  | _ => false

def Word.ofError : Engine.EngineError → Word
  | .link _ => .invalidLink
  | e => .failed e

/-- Where the actor's loop is: at its top, in the select, or sending a message for a command. -/
inductive Phase where
  | top
  | selecting (pc : Pc)
  | sending (body : String) (pc : Pc)
deriving DecidableEq

structure Actor (mls : OpenMls) where
  core : ChatEngine mls
  conversation : Option String
  phase : Phase

inductive Task (mls : OpenMls) where
  | spawned (errand : Errand)
  /-- The database held no engine. -/
  | checked (errand : Errand)
  | booting (errand : Errand) (stage : Boot mls)
  | built (errand : Errand) (core : ChatEngine mls)
  | attached (errand : Errand) (core : ChatEngine mls)
  | resuming
  | rebooting (stage : Boot mls)
  | resumed (core : ChatEngine mls)
  | acting (a : Actor mls)
  | ended

def Task.live {mls : OpenMls} : Task mls → Bool
  | .ended => false
  | _ => true

/-- A thread, what it has told its caller, and whether the caller still waits. -/
structure Thread (mls : OpenMls) where
  task : Task mls
  word : Option Word
  caller : Bool

inductive Command where
  | createLink
  | send (body : String)
  | safetyNumber
deriving DecidableEq

inductive BootMove where
  | connected (conn : ConnId) (link : Link)
  | connectFailed
  | replied (reply : ServerMessage) (link : Link) (d : Draw)
  | lost

def bootStep {mls : OpenMls} (c : Crypto) (stage : Boot mls) : BootMove → Option (BootTurn mls)
  | .connected conn link =>
    match stage with
    | .connecting o => some (Boot.onConnected link o conn)
    | _ => none
  | .connectFailed =>
    match stage with
    | .connecting _ => some (.failed .unreachable)
    | _ => none
  | .replied reply link d => stage.onReply c link d reply
  | .lost =>
    match stage with
    | .connecting _ => none
    | _ => some (.failed .connectionClosed)

inductive ThreadMove where
  /-- Open the database to look for an engine. -/
  | openDisk (ok : Bool) (rand : ℕ)
  | readSession (ok : Bool) (rand : ℕ)
  | boot (m : BootMove)
  | attach (opened diskOk : Bool)
  /-- Give the first word and become an actor. -/
  | report (rand : ℕ) (uiOk : Bool)
  /-- Try once more to resume. -/
  | reopen (ok : Bool)
  /-- Take over the conversation and become an actor. -/
  | adopt
  /-- The top of the loop. -/
  | check (uiOk : Bool)
  | poll (link : Link) (d : Draw) (now : ℤ) (uiOk : Bool)
  | wake (w : Wake) (now : ℤ) (uiOk : Bool)
  | command (cmd : Command) (link : Link) (d : Draw) (now : ℤ) (uiOk : Bool)
  /-- The command channel is closed. -/
  | hangUp

/-- The object and its threads. A thread is known by its number, and so is its channel. -/
structure Process (mls : OpenMls) where
  displayName : String
  relayCfg : Option (String × Bytes 32)
  store : UiStore
  seq : UInt64
  attestation : List AttestationToken
  backend : Option ℕ
  threads : List (Thread mls)

structure Outcome (mls : OpenMls) where
  task : Task mls
  disk : Database mls
  store : UiStore
  seq : UInt64
  word : Option Word

section Threads
variable (h : Host mls) (p : Process mls) (disk : Database mls)

def Process.goes (task : Task mls) (word : Option Word) : Outcome mls :=
  ⟨task, disk, p.store, p.seq, word⟩

def Errand.boot (displayName : String) (session : ChatSession mls) : Errand → Except Word (Boot mls)
  | .createLink addr fingerprint tokens =>
    .ok (.connecting (.connect displayName addr fingerprint session tokens))
  | .pair (.decoded bytes) tokens =>
    (pairWithLinkUsing displayName bytes session tokens).mapError Word.ofError
  | .pair _ _ => .error .invalidLink

def launch (errand : Errand) (session : ChatSession mls) : Outcome mls :=
  match errand.boot p.displayName session with
  | .ok stage => p.goes disk (.booting errand stage) none
  | .error word => p.goes disk .ended (some word)

/-- The session in the database, or a new one. -/
def sessionOrNew (row : Option (SessionSnapshot mls)) (rand : ℕ) : ChatSession mls :=
  match row with
  | none => ChatSession.new mls p.displayName rand
  | some snap =>
    match ChatSession.restore snap with
    | .ok session => session
    | .error _ => ChatSession.new mls p.displayName rand

/-- The engine reads and writes the database as it is now. -/
def onDisk (core : ChatEngine mls) : ChatEngine mls :=
  { core with store := core.store.map fun _ => disk.engine }

def Database.written (core : ChatEngine mls) : Database mls :=
  match core.store with
  | none => disk
  | some st => { disk with engine := st }

def attachDisk (errand : Errand) (core : ChatEngine mls) (opened diskOk : Bool) : Outcome mls :=
  if opened then
    match core.attachStore diskOk disk.engine with
    | (core, .ok _) => p.goes (disk.written core) (.attached errand core) none
    | (_, .error e) => p.goes disk .ended (some (.ofError e))
  else p.goes disk .ended (some (.failed .storeFailed))

def report (errand : Errand) (core : ChatEngine mls) (rand : ℕ) (uiOk : Bool) : Outcome mls :=
  match errand with
  | .createLink _ _ _ =>
    match core.contactLink rand with
    | (_, .error e) => p.goes disk .ended (some (.ofError e))
    | (core, .ok link) => p.goes disk (.acting ⟨core, none, .top⟩) (some (.link link))
  | .pair _ _ =>
    let store := p.store.createConversation (h.peerName core.session)
    ⟨.acting ⟨core, some conversationId, .top⟩, disk.persistUi store p.seq uiOk, store, p.seq,
      some (.conversation conversationId)⟩

def Process.nextMsgId : String := "msg-" ++ toString p.seq

def Phase.goTo (pc : Pc) : Phase → Phase
  | .top => .top
  | .selecting _ => .selecting pc
  | .sending body _ => .sending body pc

/-- A stretch of the engine has run: the loop goes on, or it ends with an error. -/
def Actor.after (now : ℤ) (uiOk : Bool) (a : Actor mls) (t : Turn mls) : Outcome mls :=
  let disk := disk.written t.engine
  let conversation := a.conversation.getD conversationId
  let again : Task mls := .acting { a with core := t.engine, phase := .top }
  match t.result with
  | none => p.goes disk (.acting { a with core := t.engine, phase := a.phase.goTo t.pc }) none
  | some (.event (.ok (.message bytes _))) =>
    let store := p.store.recordReceived conversation
      ⟨p.nextMsgId, h.lossy bytes, false, now, .received⟩
    ⟨again, disk.persistUi store (p.seq + 1) uiOk, store, p.seq + 1, none⟩
  | some (.event (.ok _)) => p.goes disk again none
  | some (.paired (.ok _)) => p.goes disk again none
  | some (.sent _ _ r) =>
    match a.phase with
    | .sending body _ =>
      let store := p.store.recordSent conversation
        ⟨p.nextMsgId, body, true, now, if r.isOk then .sent else .failed⟩
      ⟨again, disk.persistUi store (p.seq + 1) uiOk, store, p.seq + 1, none⟩
    | _ => p.goes disk again none
  | some _ => p.goes disk .ended none

/-- A pairing that has come about gets its conversation. -/
def Actor.check (uiOk : Bool) (a : Actor mls) : Outcome mls :=
  if a.conversation.isNone && a.core.isPaired then
    let store := p.store.createConversation (h.peerName a.core.session)
    ⟨.acting { a with conversation := some conversationId, phase := .selecting .idle },
      disk.persistUi store p.seq uiOk, store, p.seq, none⟩
  else p.goes disk (.acting { a with phase := .selecting .idle }) none

def handleCommand (link : Link) (d : Draw) (now : ℤ) (uiOk : Bool) (a : Actor mls) :
    Command → Outcome mls
  | .createLink =>
    p.goes disk (.acting { a with core := (a.core.contactLink d.rand).1, phase := .top }) none
  | .safetyNumber => p.goes disk (.acting { a with phase := .top }) none
  | .send body =>
    if a.core.isPaired then
      { a with phase := .sending body .idle }.after h p disk now uiOk
        (sendMessage h.crypto link d (onDisk disk a.core) body.toUTF8.toList)
    else p.goes disk (.acting { a with phase := .top }) none

def Phase.droppable : Phase → Bool
  | .selecting pc => pc = .idle || pc.droppable
  | _ => false

def Actor.step (closed : Bool) (a : Actor mls) : ThreadMove → Option (Outcome mls)
  | .check uiOk => if a.phase = .top then some (a.check h p disk uiOk) else none
  | .poll link d now uiOk =>
    if a.phase = .selecting .idle then
      let call : Call := if a.conversation.isSome then .nextEvent else .awaitPairing
      some (a.after h p disk now uiOk (call.start h.crypto link d (onDisk disk a.core)))
    else none
  | .wake w now uiOk =>
    match a.phase with
    | .top => none
    | .selecting pc | .sending _ pc =>
      (Turn.wake h.crypto ⟨onDisk disk a.core, pc, none, none⟩ w).map (a.after h p disk now uiOk)
  | .command cmd link d now uiOk =>
    if a.phase.droppable then some (handleCommand h p disk link d now uiOk a cmd) else none
  | .hangUp => if closed && a.phase.droppable then some (p.goes disk .ended none) else none
  | _ => none

/-- The constructor of the engine is done with one await. -/
def booted (errand : Errand) : BootTurn mls → Outcome mls
  | .await stage _ => p.goes disk (.booting errand stage) none
  | .up core => p.goes disk (.built errand core) none
  | .failed e => p.goes disk .ended (some (.ofError e))

/-- A failure to resume is no end. -/
def rebooted : BootTurn mls → Outcome mls
  | .await stage _ => p.goes disk (.rebooting stage) none
  | .up core => p.goes disk (.resumed core) none
  | .failed _ => p.goes disk .resuming none

def Task.step (closed : Bool) : Task mls → ThreadMove → Option (Outcome mls)
  | .spawned errand, .openDisk ok rand =>
    if ok && disk.engine.engine.isNone then some (p.goes disk (.checked errand) none)
    else some (launch p disk errand (ChatSession.new mls p.displayName rand))
  | .checked errand, .readSession ok rand =>
    some (launch p disk errand (sessionOrNew p (if ok then disk.engine.session else none) rand))
  | .booting errand stage, .boot m => (bootStep h.crypto stage m).map (booted p disk errand)
  | .built errand core, .attach opened diskOk => some (attachDisk p disk errand core opened diskOk)
  | .attached errand core, .report rand uiOk => some (report h p disk errand core rand uiOk)
  | .resuming, .reopen ok =>
    match Engine.resume disk.engine with
    | .ok stage => some (p.goes disk (if ok then .rebooting stage else .resuming) none)
    | .error _ => some (p.goes disk .resuming none)
  | .rebooting stage, .boot m => (bootStep h.crypto stage m).map (rebooted p disk)
  | .resumed core, .adopt =>
    some (p.goes disk (.acting ⟨core, p.store.conversations.head?.map Conversation.id, .top⟩) none)
  | .acting a, m => a.step h p disk closed m
  | _, _ => none

end Threads

/-- A device: its database and the process that runs, if one does. -/
structure Phone (mls : OpenMls) where
  disk : Database mls
  process : Option (Process mls)

inductive Move where
  | createContactLink
  | pairWithLink (link : LinkText)
  | stockAttestationTokens (tokens : List AttestationToken)
  | markVerified (conversation : String) (uiOk : Bool)
  /-- A call that writes recovery material. -/
  | recovery (bk bundle : Option (List UInt8))
  /-- A caller gets the first word of its thread. -/
  | answered (i : ℕ)
  /-- A caller has waited long enough. -/
  | timedOut (i : ℕ)
  | thread (i : ℕ) (m : ThreadMove)
  | crash
  | newPersistent (displayName : String) (relayCfg : Option (String × Bytes 32))

section Steps

/-- The thread a call starts. An engine that is there already is asked by a command. -/
def Process.createContactLink (p : Process mls) : Option Errand :=
  match p.backend, p.relayCfg with
  | none, some (addr, fingerprint) => some (.createLink addr fingerprint p.attestation)
  | _, _ => none

def Process.pairWithLink (p : Process mls) (link : LinkText) : Option Errand :=
  if link = .blank ∨ p.backend.isSome then none else some (.pair link p.attestation)

def Process.spawn (p : Process mls) : Option Errand → Process mls
  | none => p
  | some errand =>
    { p with attestation := [], threads := p.threads ++ [⟨.spawned errand, none, true⟩] }

def Process.closed (p : Process mls) (i : ℕ) (t : Thread mls) : Bool :=
  p.backend ≠ some i && !t.caller

def Process.installed (p : Process mls) (i : ℕ) (t : Thread mls) (o : Outcome mls) : Process mls :=
  { p with
    store := o.store
    seq := o.seq
    threads := p.threads.set i { t with task := o.task, word := o.word <|> t.word } }

/-- The process as it comes up: an engine on disk is resumed. -/
def newPersistent (disk : Database mls) (displayName : String)
    (relayCfg : Option (String × Bytes 32)) : Process mls where
  displayName := displayName
  relayCfg := relayCfg
  store := disk.uiState.elim .empty Prod.fst
  seq := disk.uiState.elim 1 Prod.snd
  attestation := []
  backend := if disk.engine.engine.isSome then some 0 else none
  threads := if disk.engine.engine.isSome then [⟨.resuming, none, false⟩] else []

variable (h : Host mls)

def Process.step (disk : Database mls) (p : Process mls) : Move →
    Option (Database mls × Process mls)
  | .createContactLink => some (disk, p.spawn p.createContactLink)
  | .pairWithLink link => some (disk, p.spawn (p.pairWithLink link))
  | .stockAttestationTokens tokens => some (disk, { p with attestation := p.attestation ++ tokens })
  | .markVerified conversation uiOk =>
    if p.store.conversations.any (·.id = conversation) then
      let store := p.store.update conversation fun c => { c with verified := true }
      some (disk.persistUi store p.seq uiOk, { p with store })
    else some (disk, p)
  | .recovery bk bundle => some ({ disk with backupBk := bk, backupBundle := bundle }, p)
  | .answered i =>
    match p.threads[i]? with
    | some ⟨task, some word, true⟩ => some (disk, { p with
        backend := if word.ok then some i else p.backend
        threads := p.threads.set i ⟨task, some word, false⟩ })
    | _ => none
  | .timedOut i =>
    match p.threads[i]? with
    | some ⟨task, none, true⟩ => some (disk, { p with
        threads := p.threads.set i ⟨task, none, false⟩ })
    | _ => none
  | .thread i m =>
    match p.threads[i]? with
    | none => none
    | some t => (t.task.step h p disk (p.closed i t) m).map fun o => (o.disk, p.installed i t o)
  | _ => none

def Phone.step (w : Phone mls) (m : Move) : Option (Phone mls) :=
  match w.process, m with
  | none, .newPersistent displayName relayCfg =>
    some { w with process := some (newPersistent w.disk displayName relayCfg) }
  | none, _ => none
  | some _, .crash => some { w with process := none }
  | some p, m => (p.step h w.disk m).map fun r => ⟨r.1, some r.2⟩

def Process.starts (p : Process mls) : Move → Option Errand
  | .createContactLink => p.createContactLink
  | .pairWithLink link => p.pairWithLink link
  | _ => none

/-- The move leaves the conversations as they are, or marks one as verified. -/
def Marks (m : Move) (store store' : UiStore) : Prop :=
  store' = store ∨ ∃ id uiOk, m = .markVerified id uiOk ∧
    store' = store.update id fun c => { c with verified := true }

/-- The row of the conversations is as it was, or as they are now. -/
def Database.Rewritten (disk disk' : Database mls) (store : UiStore) (seq : UInt64) : Prop :=
  disk'.uiState = disk.uiState ∨ disk'.uiState = some (store, seq)

/-- What a move of the process can do. -/
inductive Process.Stepped (disk : Database mls) (p : Process mls) (m : Move) :
    Database mls → Process mls → Prop where
  /-- A call begins. -/
  | called : Stepped disk p m disk (p.spawn (p.starts m))
  /-- Neither a thread nor the engine's rows are concerned. -/
  | aside {disk' p'} (starts : p.starts m = none) (engine : disk'.engine = disk.engine)
      (threads : p'.threads = p.threads) (backend : p'.backend = p.backend)
      (names : p'.displayName = p.displayName)
      (marked : Marks m p.store p'.store)
      (written : disk.Rewritten disk' p'.store p'.seq) :
    Stepped disk p m disk' p'
  /-- A caller has its answer, or gives up. -/
  | returned {i task word backend} (found : p.threads[i]? = some ⟨task, word, true⟩)
      (filled : backend = p.backend ∨ backend = some i) : Stepped disk p m disk
    { p with backend, threads := p.threads.set i ⟨task, word, false⟩ }
  | thread {i t tm o} (move : m = .thread i tm) (found : p.threads[i]? = some t)
      (stepped : t.task.step h p disk (p.closed i t) tm = some o) :
    Stepped disk p m o.disk (p.installed i t o)

variable {h} {disk' : Database mls} {p p' : Process mls} {m : Move} {w w' : Phone mls}

theorem Process.step_stepped (hs : p.step h disk m = some (disk', p')) :
    p.Stepped h disk m disk' p' := by
  cases m with
  | createContactLink | pairWithLink =>
    cases hs
    exact .called
  | stockAttestationTokens | recovery =>
    cases hs
    exact .aside rfl rfl rfl rfl rfl (.inl rfl) (.inl rfl)
  | markVerified conversation uiOk =>
    simp only [Process.step] at hs
    split_ifs at hs
    · cases hs
      cases uiOk with
      | false => exact .aside rfl rfl rfl rfl rfl (.inr ⟨_, _, rfl, rfl⟩) (.inl rfl)
      | true => exact .aside rfl rfl rfl rfl rfl (.inr ⟨_, _, rfl, rfl⟩) (.inr rfl)
    · cases hs
      exact .aside rfl rfl rfl rfl rfl (.inl rfl) (.inl rfl)
  | answered =>
    simp only [Process.step] at hs
    split at hs
    · rename_i task word hi
      cases hs
      refine .returned hi ?_
      split_ifs
      · exact .inr rfl
      · exact .inl rfl
    · cases hs
  | timedOut =>
    simp only [Process.step] at hs
    split at hs
    · rename_i task hi
      cases hs
      exact .returned hi (.inl rfl)
    · cases hs
  | thread =>
    simp only [Process.step] at hs
    split at hs
    · cases hs
    · rename_i t hi
      obtain ⟨o, ho, hr⟩ := map_eq_some_iff.mp hs
      cases hr
      exact .thread rfl hi ho
  | crash | newPersistent => cases hs

theorem Phone.step_cases (hs : w.step h m = some w') :
    (∃ displayName relayCfg, w.process = none ∧
      w' = { w with process := some (newPersistent w.disk displayName relayCfg) }) ∨
    w' = { w with process := none } ∨
    ∃ p p', w.process = some p ∧ w'.process = some p' ∧ p.Stepped h w.disk m w'.disk p' := by
  unfold Phone.step at hs
  split at hs
  · rename_i displayName relayCfg hp
    cases hs
    exact .inl ⟨displayName, relayCfg, hp, rfl⟩
  · cases hs
  · cases hs
    exact .inr (.inl rfl)
  · rename_i p hp _
    obtain ⟨⟨disk', p'⟩, hr, rfl⟩ := map_eq_some_iff.mp hs
    exact .inr (.inr ⟨p, p', hp, rfl, Process.step_stepped hr⟩)

end Steps

/-! ## What a step of an actor can do -/

section Actors
variable {h : Host mls} {p : Process mls}

/-- An actor, as it stands before a stretch of its engine, and the stretch. -/
inductive Actor.Turns (h : Host mls) (disk : Database mls) (a : Actor mls) (m : ThreadMove) :
    Actor mls → Turn mls → Prop where
  | poll {link d} (phase : a.phase = .selecting .idle) :
    Turns h disk a m a (Call.start h.crypto link d (onDisk disk a.core)
      (if a.conversation.isSome then .nextEvent else .awaitPairing))
  | wake {pc w t} (move : ∃ now uiOk, m = .wake w now uiOk)
      (phase : a.phase = .selecting pc ∨ ∃ body, a.phase = .sending body pc)
      (woke : Turn.wake h.crypto ⟨onDisk disk a.core, pc, none, none⟩ w = some t) :
    Turns h disk a m a t
  | send {body link d} (paired : a.core.isPaired = true) :
    Turns h disk a m { a with phase := .sending body .idle }
      (Call.start h.crypto link d (onDisk disk a.core) (.sendMessage body.toUTF8.toList))

/-- What is left after a stretch of the engine. -/
structure Outcome.After (p : Process mls) (disk : Database mls) (a : Actor mls) (t : Turn mls)
    (o : Outcome mls) : Prop where
  engine : o.disk.engine = (disk.written t.engine).engine
  badges : o.store.badges = p.store.badges
  written : disk.Rewritten o.disk o.store o.seq
  task : o.task = .ended ∨ ∃ phase, o.task = .acting ⟨t.engine, a.conversation, phase⟩ ∧
    (phase = .top ∨ t.result = none ∧ phase = a.phase.goTo t.pc)
  /-- The loop does not survive a failed pairing. -/
  failed : ∀ err, t.result = some (.paired (.error err)) → o.task = .ended

theorem Database.uiState_written (disk : Database mls) (core : ChatEngine mls) :
    (disk.written core).uiState = disk.uiState := by
  unfold Database.written
  split <;> rfl

theorem Database.persistUi_engine (disk : Database mls) (store : UiStore) (seq : UInt64)
    (ok : Bool) :
    (disk.persistUi store seq ok).engine = disk.engine := by
  cases ok <;> rfl

theorem Database.persistUi_uiState (disk : Database mls) (store : UiStore) (seq : UInt64)
    (ok : Bool) :
    (disk.persistUi store seq ok).uiState = disk.uiState ∨
      (disk.persistUi store seq ok).uiState = some (store, seq) := by
  cases ok
  · exact .inl rfl
  · exact .inr rfl

theorem Actor.after_after (a : Actor mls) (now : ℤ) (uiOk : Bool) (t : Turn mls) :
    (a.after h p disk now uiOk t).After p disk a t := by
  have goes : ∀ {task}, (∃ phase, task = .acting ⟨t.engine, a.conversation, phase⟩ ∧
      (phase = .top ∨ t.result = none ∧ phase = a.phase.goTo t.pc)) →
        (∀ err, t.result ≠ some (.paired (.error err))) →
      (p.goes (disk.written t.engine) task none).After p disk a t := fun ht hr =>
    ⟨rfl, rfl, .inl (Database.uiState_written _ _), .inr ht, fun err he => absurd he (hr err)⟩
  have shown : ∀ store seq, store.badges = p.store.badges →
      (∀ err, t.result ≠ some (.paired (.error err))) →
      (⟨.acting ⟨t.engine, a.conversation, .top⟩,
        (disk.written t.engine).persistUi store seq uiOk, store, seq, none⟩ :
          Outcome mls).After p disk a t := by
    intro store seq hbadges hr
    refine ⟨Database.persistUi_engine _ _ _ _, hbadges, ?_, .inr ⟨_, rfl, .inl rfl⟩,
      fun err he => absurd he (hr err)⟩
    rw [Database.Rewritten, ← Database.uiState_written disk t.engine]
    exact Database.persistUi_uiState _ _ _ _
  unfold Actor.after
  split
  · rename_i hr
    exact goes ⟨_, rfl, .inr ⟨hr, rfl⟩⟩ (by rw [hr]; rintro _ ⟨⟩)
  · rename_i hr
    exact shown _ _ (UiStore.badges_update _ _ fun _ => ⟨rfl, rfl⟩) (by rw [hr]; rintro _ ⟨⟩)
  · rename_i hr
    exact goes ⟨_, rfl, .inl rfl⟩ (by rw [hr]; rintro _ ⟨⟩)
  · rename_i hr
    exact goes ⟨_, rfl, .inl rfl⟩ (by rw [hr]; rintro _ ⟨⟩)
  · rename_i hr
    split
    · exact shown _ _ (UiStore.badges_update _ _ fun _ => ⟨rfl, rfl⟩) (by rw [hr]; rintro _ ⟨⟩)
    · exact goes ⟨_, rfl, .inl rfl⟩ (by rw [hr]; rintro _ ⟨⟩)
  · exact ⟨rfl, rfl, .inl (Database.uiState_written _ _), .inl rfl, fun _ _ => rfl⟩

/-- A stretch of the engine, the check at the top of the loop, a command that needs no stretch,
or the end. -/
theorem Actor.step_cases {a : Actor mls} {closed : Bool} {m : ThreadMove} {o : Outcome mls}
    (hs : a.step h p disk closed m = some o) :
    (∃ a' t, a.Turns h disk m a' t ∧ o.After p disk a' t) ∨
    (∃ uiOk, o = a.check h p disk uiOk) ∨
    (∃ core, (core = a.core ∨ ∃ rand, core = (a.core.contactLink rand).1) ∧
      o = p.goes disk (.acting { a with core, phase := .top }) none) ∨
    o = p.goes disk .ended none := by
  cases m with
  | check uiOk =>
    simp only [Actor.step] at hs
    split_ifs at hs
    cases hs
    exact .inr (.inl ⟨uiOk, rfl⟩)
  | poll =>
    obtain ⟨hphase, ho⟩ := ite_none_right_eq_some.mp hs
    cases ho
    exact .inl ⟨a, _, .poll hphase, a.after_after _ _ _⟩
  | wake w now uiOk =>
    simp only [Actor.step] at hs
    split at hs
    · cases hs
    · rename_i pc hphase
      obtain ⟨t, ht, rfl⟩ := map_eq_some_iff.mp hs
      exact .inl ⟨a, t, .wake ⟨now, uiOk, rfl⟩ (.inl hphase) ht, a.after_after _ _ _⟩
    · rename_i body pc hphase
      obtain ⟨t, ht, rfl⟩ := map_eq_some_iff.mp hs
      exact .inl ⟨a, t, .wake ⟨now, uiOk, rfl⟩ (.inr ⟨body, hphase⟩) ht, a.after_after _ _ _⟩
  | command cmd link d =>
    simp only [Actor.step] at hs
    split_ifs at hs
    cases hs
    cases cmd with
    | createLink => exact .inr (.inr (.inl ⟨_, .inr ⟨d.rand, rfl⟩, rfl⟩))
    | safetyNumber => exact .inr (.inr (.inl ⟨_, .inl rfl, rfl⟩))
    | send =>
      simp only [handleCommand]
      split_ifs with hpaired
      · exact .inl ⟨_, _, .send hpaired, Actor.after_after _ _ _ _⟩
      · exact .inr (.inr (.inl ⟨_, .inl rfl, rfl⟩))
  | hangUp =>
    simp only [Actor.step] at hs
    split_ifs at hs
    cases hs
    exact .inr (.inr (.inr rfl))
  | _ => cases hs

end Actors

/-! ## What a step of a thread can do -/

section Tasks
variable {h : Host mls} {p : Process mls} {stage : Boot mls}

theorem bootStep_leads {c : Crypto} {m : BootMove} {bt : BootTurn mls}
    (ht : bootStep c stage m = some bt) : ∃ link, stage.Leads link bt := by
  cases m with
  | connected conn link =>
    simp only [bootStep] at ht
    split at ht
    · cases ht
      exact ⟨link, onConnected_leads _ _⟩
    · cases ht
  | replied reply link => exact ⟨link, onReply_leads ht⟩
  | connectFailed | lost =>
    simp only [bootStep] at ht
    split at ht <;> cases ht
    exact ⟨⟨true, 0⟩, .failed⟩

theorem Errand.boot_eq_ok {displayName : String}
    (hs : errand.boot displayName session = .ok stage) :
    (∃ addr fingerprint tokens, errand = .createLink addr fingerprint tokens ∧
      stage = .connecting (.connect displayName addr fingerprint session tokens)) ∨
    ∃ link tokens contact endpoint, errand = .pair link tokens ∧
      stage = .connecting (.pair displayName contact endpoint session tokens) := by
  cases errand with
  | createLink =>
    cases hs
    exact .inl ⟨_, _, _, rfl, rfl⟩
  | pair link tokens =>
    cases link with
    | decoded bytes =>
      simp only [Errand.boot] at hs
      cases hpair : pairWithLinkUsing displayName bytes session tokens with
      | error =>
        rw [hpair] at hs
        cases hs
      | ok =>
        rw [hpair] at hs
        cases hs
        obtain ⟨contact, endpoint, rfl⟩ := pairWithLinkUsing_eq_ok hpair
        exact .inr ⟨_, _, _, _, rfl, rfl⟩
    | _ => cases hs

/-- The engine with all it has to write in the database. -/
def Database.files (disk : Database mls) (core : ChatEngine mls) : ChatEngine mls :=
  { core with
    store := some (disk.engine.commit core.record core.session.snapshot core.trace core.seen) }

/-- What a step of a thread can do: it ends, tries to resume once more, or goes on. -/
inductive Task.Stepped (h : Host mls) (p : Process mls) (disk : Database mls) (closed : Bool) :
    Task mls → ThreadMove → Outcome mls → Prop where
  | ended {task m word} : Stepped h p disk closed task m (p.goes disk .ended word)
  | resuming {task m} : Stepped h p disk closed task m (p.goes disk .resuming none)
  | checked {errand rand} (empty : disk.engine.engine = none) :
    Stepped h p disk closed (.spawned errand) (.openDisk true rand)
      (p.goes disk (.checked errand) none)
  /-- There is an engine, or the database does not open. -/
  | renewed {errand ok rand stage} (full : ok = true → disk.engine.engine ≠ none)
      (boot : errand.boot p.displayName (ChatSession.new mls p.displayName rand) = .ok stage) :
    Stepped h p disk closed (.spawned errand) (.openDisk ok rand)
      (p.goes disk (.booting errand stage) none)
  | restored {errand ok rand stage} (boot : errand.boot p.displayName
        (sessionOrNew p (if ok then disk.engine.session else none) rand) = .ok stage) :
    Stepped h p disk closed (.checked errand) (.readSession ok rand)
      (p.goes disk (.booting errand stage) none)
  | booting {errand stage m link stage' frame} (leads : stage.Leads link (.await stage' frame)) :
    Stepped h p disk closed (.booting errand stage) m (p.goes disk (.booting errand stage') none)
  | built {errand stage m link core} (leads : stage.Leads link (.up core)) :
    Stepped h p disk closed (.booting errand stage) m (p.goes disk (.built errand core) none)
  | attached {errand core m} : Stepped h p disk closed (.built errand core) m
      (p.goes (disk.written (disk.files core)) (.attached errand (disk.files core)) none)
  | linked {addr fingerprint tokens core m rand word} :
    Stepped h p disk closed (.attached (.createLink addr fingerprint tokens) core) m
      (p.goes disk (.acting ⟨(core.contactLink rand).1, none, .top⟩) word)
  | opened {link tokens core m uiOk store word}
      (store_eq : store = p.store.createConversation (h.peerName core.session)) :
    Stepped h p disk closed (.attached (.pair link tokens) core) m
      ⟨.acting ⟨core, some conversationId, .top⟩, disk.persistUi store p.seq uiOk, store, p.seq,
        word⟩
  | rebooting {m stage} (resumed : Engine.resume disk.engine = .ok stage) :
    Stepped h p disk closed .resuming m (p.goes disk (.rebooting stage) none)
  | rebooted {stage m link stage' frame} (leads : stage.Leads link (.await stage' frame)) :
    Stepped h p disk closed (.rebooting stage) m (p.goes disk (.rebooting stage') none)
  | resumed {stage m link core} (leads : stage.Leads link (.up core)) :
    Stepped h p disk closed (.rebooting stage) m (p.goes disk (.resumed core) none)
  | adopted {core m} : Stepped h p disk closed (.resumed core) m (p.goes disk
      (.acting ⟨core, p.store.conversations.head?.map Conversation.id, .top⟩) none)
  | acted {a m o} (step : a.step h p disk closed m = some o) :
    Stepped h p disk closed (.acting a) m o

theorem stepped_launch {task : Task mls} {closed : Bool} {m : ThreadMove}
    (hgo : ∀ stage, errand.boot p.displayName session = .ok stage →
      task.Stepped h p disk closed m (p.goes disk (.booting errand stage) none)) :
    task.Stepped h p disk closed m (launch p disk errand session) := by
  unfold launch
  cases hboot : errand.boot p.displayName session with
  | error => exact .ended
  | ok stage => exact hgo stage hboot

theorem Task.step_stepped {task : Task mls} {closed : Bool} {m : ThreadMove} {o : Outcome mls}
    (hs : task.step h p disk closed m = some o) : task.Stepped h p disk closed m o := by
  unfold Task.step at hs
  split at hs
  · rename_i errand ok rand
    split_ifs at hs with hempty
    · cases hs
      rw [Bool.and_eq_true, isNone_iff_eq_none] at hempty
      obtain ⟨rfl, hempty⟩ := hempty
      exact .checked hempty
    · cases hs
      refine stepped_launch fun stage => .renewed fun hok hnone => hempty ?_
      rw [hok, hnone]
      rfl
  · cases hs
    exact stepped_launch fun stage => .restored
  · obtain ⟨bt, hbt, rfl⟩ := map_eq_some_iff.mp hs
    obtain ⟨link, hleads⟩ := bootStep_leads hbt
    cases bt with
    | await => exact .booting hleads
    | up => exact .built hleads
    | failed => exact .ended
  · rename_i errand core opened diskOk
    cases hs
    unfold attachDisk
    split_ifs
    · cases diskOk with
      | false => exact .ended
      | true => exact .attached
    · exact .ended
  · rename_i errand core rand uiOk
    cases hs
    unfold report
    split
    · split
      · exact .ended
      · rename_i core' link hl
        obtain rfl : (core.contactLink rand).1 = core' := congrArg Prod.fst hl
        exact .linked
    · exact .opened rfl
  · rename_i ok
    split at hs
    · rename_i stage hstage
      cases hs
      cases ok with
      | false => exact .resuming
      | true => exact .rebooting hstage
    · cases hs
      exact .resuming
  · obtain ⟨bt, hbt, rfl⟩ := map_eq_some_iff.mp hs
    obtain ⟨link, hleads⟩ := bootStep_leads hbt
    cases bt with
    | await => exact .rebooted hleads
    | up => exact .resumed hleads
    | failed => exact .resuming
  · cases hs
    exact .adopted
  · exact .acted hs
  · cases hs

end Tasks
end Rosette.Ffi
