import Rosette.Engine.Machine

/-! # How an engine comes up

The three constructors, stage by stage: connect and mint a mailbox, scan a link
and found the group behind it, or resume from a store. Each stage waits for a
connection or for one reply. A failure anywhere leaves no engine.
-/
namespace Rosette.Engine
open Foundation Proto Rosette.Core

variable {mls : OpenMls}

/-- A constructor and what it was given. -/
inductive Origin (mls : OpenMls) where
  | connect (displayName relayAddr : String) (relayFingerprint : Bytes 32)
      (session : ChatSession mls) (attestationTokens : List AttestationToken)
  | pair (displayName : String) (link : ContactLink) (endpoint : Endpoint)
      (session : ChatSession mls) (attestationTokens : List AttestationToken)
  | resume (rec : PersistedEngine) (session : ChatSession mls) (store : Store mls)

structure Founding (mls : OpenMls) where
  engine : ChatEngine mls
  endpoint : Endpoint
  welcomeWire : List UInt8
  treeWire : List UInt8

inductive Boot (mls : OpenMls) where
  | connecting (o : Origin mls)
  | mailboxChallenge (o : Origin mls) (conn : ConnId) (rid : ℕ)
  | mailbox (o : Origin mls) (conn : ConnId) (rid : ℕ)
  | subscribing (o : Origin mls) (conn : ConnId) (mailbox : QueueId × SendKey) (rid : ℕ)
  | inboxChallenge (f : Founding mls) (rid : ℕ)
  | inbox (f : Founding mls) (rid : ℕ)
  | bootstrap (engine : ChatEngine mls) (inbox : QueueId × SendKey) (rid : ℕ)

/-- How a stage ends: at the next await with a request sent, with an engine, or with none. -/
inductive BootTurn (mls : OpenMls) where
  | await (stage : Boot mls) (frame : ConnId × ClientMessage)
  | up (engine : ChatEngine mls)
  | failed (err : EngineError)

namespace Origin

def displayName : Origin mls → String
  | .connect name _ _ _ _ => name
  | .pair name _ _ _ _ => name
  | .resume rec _ _ => rec.displayName

def relayAddr : Origin mls → String
  | .connect _ addr _ _ _ => addr
  | .pair _ _ endpoint _ _ => endpoint.relayAddr
  | .resume rec _ _ => rec.relayAddr

def relayFingerprint : Origin mls → Bytes 32
  | .connect _ _ fingerprint _ _ => fingerprint
  | .pair _ _ endpoint _ _ => endpoint.relayFingerprint
  | .resume rec _ _ => rec.relayFingerprint

def session : Origin mls → ChatSession mls
  | .connect _ _ _ session _ => session
  | .pair _ _ _ session _ => session
  | .resume _ session _ => session

/-- A resumed engine fetches no tokens. -/
def attestationTokens : Origin mls → List AttestationToken
  | .connect _ _ _ _ tokens => tokens
  | .pair _ _ _ _ tokens => tokens
  | .resume _ _ _ => []

def store : Origin mls → Option (Store mls)
  | .resume _ _ store => some store
  | _ => none

/-- The engine as it stands when its subscription is confirmed. The mailbox has already
cost a token. -/
def engine (o : Origin mls) (conn : ConnId) (mailbox : QueueId × SendKey) : ChatEngine mls where
  displayName := o.displayName
  session := o.session
  relay := conn
  relayAddr := o.relayAddr
  relayFingerprint := o.relayFingerprint
  mailboxQid := mailbox.1
  mailboxKey := mailbox.2
  inbox := match o with
    | .resume rec _ _ => rec.inbox
    | _ => none
  seen := match o with
    | .resume _ _ store => store.seen
    | _ => ∅
  pendingEvents := []
  store := o.store
  attestationTokens := o.attestationTokens.tail
  trace := match o with
    | .resume _ _ store => store.trace
    | _ => .empty
  calls := []

end Origin

/-- The brute-force loop leaves with a nonce that verifies. -/
def solve (c : Crypto) (challenge : PowChallenge) (nonce : ℕ) : Option PowSolution :=
  let solution : PowSolution := ⟨challenge.challenge, UInt64.ofNat nonce⟩
  if challenge.verify c solution = some true then some solution else none

def keyPackageFromLink (mls : OpenMls) (link : ContactLink) :
    Except SessionError mls.KeyPackage :=
  match mls.deserialize link.keyPackage with
  | .error e => .error (.decode e)
  | .ok (.keyPackage k) =>
    match mls.validate k with
    | .error e => .error (.mls e)
    | .ok k => .ok k
  | .ok _ => .error .notAKeyPackage

namespace ChatEngine

/-- A fresh key package and the mailbox to answer it on. -/
def contactLink (e : ChatEngine mls) (rand : ℕ) :
    ChatEngine mls × Except EngineError ContactLink :=
  match e.session.generateKeyPackage rand with
  | (s, .error err) => ({ e with session := s }, .error (.session err))
  | (s, .ok k) =>
    match ContactLink.new (mls.keyPackageBytes k)
        [⟨e.relayAddr, e.relayFingerprint, e.mailboxQid, e.mailboxKey⟩] with
    | .error err => ({ e with session := s }, .error (.link err))
    | .ok link => ({ e with session := s }, .ok link)

theorem contactLink_fst (e : ChatEngine mls) (rand : ℕ) :
    (e.contactLink rand).1 = { e with session := (e.session.generateKeyPackage rand).1 } := by
  unfold contactLink
  split
  · rename_i hg
    rw [hg]
  · rename_i hg
    rw [hg]
    split <;> rfl

end ChatEngine

section Stages
variable (c : Crypto) (link : Link) (d : Draw)

/-- Found the two-member group and ask for a challenge for its inbox. -/
def found (e : ChatEngine mls) (contact : ContactLink) (endpoint : Endpoint) : BootTurn mls :=
  match keyPackageFromLink mls contact with
  | .error err => .failed (.session err)
  | .ok peer =>
    match e.session.createGroup d.rand with
    | (_, .error err) => .failed (.session err)
    | (s, .ok _) =>
      match s.addMembers d.rand [peer] with
      | (_, .error err) => .failed (.session err)
      | (s, .ok welcome) =>
        match s.exportRatchetTree with
        | .error err => .failed (.session err)
        | .ok tree =>
          if link.up then
            .await (.inboxChallenge ⟨{ e with session := s }, endpoint, welcome, tree⟩ link.rid)
              (e.relay, .requestPowChallenge)
          else .failed .connectionClosed

/-- Both the listener's and the resumed engine are done once subscribed; the scanner goes on. -/
def subscribed (o : Origin mls) (conn : ConnId) (mailbox : QueueId × SendKey) : BootTurn mls :=
  match o with
  | .pair _ contact endpoint _ _ => found link d (o.engine conn mailbox) contact endpoint
  | _ => .up (o.engine conn mailbox)

/-- The send that every stage makes. -/
def request (conn : ConnId) (stage : ℕ → Boot mls) (msg : ClientMessage) : BootTurn mls :=
  if link.up then .await (stage link.rid) (conn, msg) else .failed .connectionClosed

/-- The connection is made. A resumed engine has its mailbox already. -/
def Boot.onConnected (o : Origin mls) (conn : ConnId) : BootTurn mls :=
  match o with
  | .resume rec _ _ => request link conn (.subscribing o conn (rec.mailboxQid, rec.mailboxKey))
      (.subscribe [rec.mailboxQid])
  | _ => request link conn (.mailboxChallenge o conn) .requestPowChallenge

/-- The scanner has an inbox: tell the peer through its mailbox. -/
def sendBootstrap (f : Founding mls) (inbox : QueueId × SendKey) : BootTurn mls :=
  match wrap c (BootstrapPayload.codec.encode ⟨f.welcomeWire, f.treeWire, inbox.1, inbox.2⟩) with
  | none => .failed .messageTooLarge
  | some envelope =>
    request link f.engine.relay (.bootstrap f.engine inbox) (.sendToMailbox f.endpoint.queueId
      (computeTag c f.endpoint.sendKey f.endpoint.queueId envelope) envelope)

/-- One stage gets its reply. `none` is a solver that has not left its loop. -/
def Boot.onReply (b : Boot mls) (reply : ServerMessage) : Option (BootTurn mls) :=
  match b, reply with
  | .mailboxChallenge o conn _, .powChallenge challenge =>
    (solve c challenge d.rand).map (fun solution => request link conn (.mailbox o conn)
      (.createMailbox solution o.attestationTokens.head?))
  | .mailbox o conn _, .queueCreated q k =>
    some (request link conn (.subscribing o conn (q, k)) (.subscribe [q]))
  | .subscribing o conn creds _, .ok => some (subscribed link d o conn creds)
  | .inboxChallenge f _, .powChallenge challenge =>
    (solve c challenge d.rand).map (fun solution =>
      let e := { f.engine with attestationTokens := f.engine.attestationTokens.tail }
      request link f.engine.relay (.inbox { f with engine := e }) (.createGroupInbox solution 1
        [f.engine.mailboxQid, f.endpoint.queueId] f.engine.attestationTokens.head?))
  | .inbox f _, .queueCreated q k => some (sendBootstrap c link f (q, k))
  | .bootstrap e creds _, .ok => some (.up { e with inbox := some creds })
  | .connecting _, _ => none
  | .mailbox _ _ _, .error code => some (.failed (.rejected code))
  | .inbox _ _, .error code => some (.failed (.rejected code))
  | .bootstrap _ _ _, .error code => some (.failed (.rejected code))
  | _, _ => some (.failed .unexpectedReply)

end Stages

def Boot.awaits {mls : OpenMls} : Boot mls → Option (ConnId × ℕ)
  | .connecting _ => none
  | .mailboxChallenge _ conn rid => some (conn, rid)
  | .mailbox _ conn rid => some (conn, rid)
  | .subscribing _ conn _ rid => some (conn, rid)
  | .inboxChallenge f rid => some (f.engine.relay, rid)
  | .inbox f rid => some (f.engine.relay, rid)
  | .bootstrap e _ rid => some (e.relay, rid)

/-- The mailbox a constructor has subscribed to, or is about to. -/
def Boot.mailboxQid {mls : OpenMls} : Boot mls → Option QueueId
  | .connecting _ => none
  | .mailboxChallenge _ _ _ => none
  | .mailbox _ _ _ => none
  | .subscribing _ _ creds _ => some creds.1
  | .inboxChallenge f _ => some f.engine.mailboxQid
  | .inbox f _ => some f.engine.mailboxQid
  | .bootstrap e _ _ => some e.mailboxQid

/-- A stretch of a constructor stays on its connection and with its mailbox. It subscribes to
no other, and acks nothing. -/
def BootTurn.On {mls : OpenMls} (k : ConnId) (rid : ℕ) (box : Option QueueId) : BootTurn mls → Prop
  | .await stage frame => stage.awaits = some (k, rid) ∧ frame.1 = k ∧
    (∀ q id, frame.2 ≠ .ack q id) ∧
    ((∃ q, box = none ∧ stage.mailboxQid = some q ∧ frame.2 = .subscribe [q]) ∨
      stage.mailboxQid = box ∧ ∀ ids, frame.2 ≠ .subscribe ids)
  | .up e => e.relay = k ∧ some e.mailboxQid = box
  | .failed _ => True

/-- What a stage can lead to when it has its connection or its reply. -/
inductive Boot.Leads {mls : OpenMls} (link : Link) : Boot mls → BootTurn mls → Prop where
  | failed {b err} : Leads link b (.failed err)
  | challenge {o conn} (fresh : ∀ rec session store, o ≠ .resume rec session store) :
    Leads link (.connecting o)
      (.await (.mailboxChallenge o conn link.rid) (conn, .requestPowChallenge))
  | resubscribe {rec session store conn} :
    Leads link (.connecting (.resume rec session store))
      (.await (.subscribing (.resume rec session store) conn (rec.mailboxQid, rec.mailboxKey)
        link.rid) (conn, .subscribe [rec.mailboxQid]))
  | mailbox {o conn rid solution token} :
    Leads link (.mailboxChallenge o conn rid)
      (.await (.mailbox o conn link.rid) (conn, .createMailbox solution token))
  | subscribe {o conn rid q k} :
    Leads link (.mailbox o conn rid)
      (.await (.subscribing o conn (q, k) link.rid) (conn, .subscribe [q]))
  | up {o conn creds rid} (unscanned : ∀ name contact endpoint session tokens,
        o ≠ .pair name contact endpoint session tokens) :
    Leads link (.subscribing o conn creds rid) (.up (o.engine conn creds))
  | found {name contact endpoint session tokens conn creds rid rand peer s₁ s₂ welcome tree e}
      (engine : e = (Origin.pair name contact endpoint session tokens).engine conn creds)
      (created : e.session.createGroup rand = (s₁, .ok ()))
      (added : s₁.addMembers rand [peer] = (s₂, .ok welcome)) :
    Leads link (.subscribing (.pair name contact endpoint session tokens) conn creds rid)
      (.await (.inboxChallenge ⟨{ e with session := s₂ }, endpoint, welcome, tree⟩ link.rid)
        (e.relay, .requestPowChallenge))
  | inbox {f rid tokens solution epoch members token} :
    Leads link (.inboxChallenge f rid)
      (.await (.inbox { f with engine := { f.engine with attestationTokens := tokens } } link.rid)
        (f.engine.relay, .createGroupInbox solution epoch members token))
  | bootstrap {f rid creds q tag envelope} :
    Leads link (.inbox f rid) (.await (.bootstrap f.engine creds link.rid)
      (f.engine.relay, .sendToMailbox q tag envelope))
  | paired {e creds rid} : Leads link (.bootstrap e creds rid) (.up { e with inbox := some creds })

section Stays
variable {c : Crypto} {link : Link} {d : Draw} {b : Boot mls} {reply : ServerMessage}
  {bt : BootTurn mls} {k : ConnId} {rid : ℕ}

theorem leads_request {conn : ConnId} {stage : ℕ → Boot mls} {msg : ClientMessage}
    (h : b.Leads link (.await (stage link.rid) (conn, msg))) :
    b.Leads link (request link conn stage msg) := by
  unfold request
  split_ifs
  · exact h
  · exact .failed

theorem onConnected_leads (o : Origin mls) (conn : ConnId) :
    (Boot.connecting o).Leads link (Boot.onConnected link o conn) := by
  unfold Boot.onConnected
  split
  · exact leads_request .resubscribe
  · rename_i hfresh
    exact leads_request (.challenge hfresh)

theorem subscribed_leads (o : Origin mls) (conn : ConnId) (creds : QueueId × SendKey) (rid : ℕ) :
    (Boot.subscribing o conn creds rid).Leads link (subscribed link d o conn creds) := by
  unfold subscribed
  split
  · unfold found
    split
    · exact .failed
    · split
      · exact .failed
      · rename_i s₁ _ hcreate
        split
        · exact .failed
        · rename_i s₂ welcome hadd
          split
          · exact .failed
          · split_ifs
            · exact .found rfl hcreate hadd
            · exact .failed
  · rename_i hunscanned
    exact .up hunscanned

theorem onReply_leads (ht : b.onReply c link d reply = some bt) : b.Leads link bt := by
  unfold Boot.onReply at ht
  split at ht
  · obtain ⟨solution, -, rfl⟩ := Option.map_eq_some_iff.mp ht
    exact leads_request .mailbox
  · cases ht
    exact leads_request .subscribe
  · cases ht
    exact subscribed_leads _ _ _ _
  · obtain ⟨solution, -, rfl⟩ := Option.map_eq_some_iff.mp ht
    exact leads_request .inbox
  · cases ht
    unfold sendBootstrap
    split
    · exact .failed
    · exact leads_request .bootstrap
  · cases ht
    exact .paired
  all_goals first | cases ht; exact .failed | cases ht

theorem Boot.Leads.on (h : b.Leads link bt) (hb : b.awaits = some (k, rid)) :
    bt.On k link.rid b.mailboxQid := by
  cases h with
  | failed => trivial
  | challenge | resubscribe => cases hb
  | subscribe =>
    cases hb
    exact ⟨rfl, rfl, by rintro _ _ ⟨⟩, .inl ⟨_, rfl, rfl, rfl⟩⟩
  | found engine =>
    subst engine
    cases hb
    exact ⟨rfl, rfl, by rintro _ _ ⟨⟩, .inr ⟨rfl, by rintro _ ⟨⟩⟩⟩
  | mailbox | inbox | bootstrap =>
    cases hb
    exact ⟨rfl, rfl, by rintro _ _ ⟨⟩, .inr ⟨rfl, by rintro _ ⟨⟩⟩⟩
  | up | paired =>
    cases hb
    exact ⟨rfl, rfl⟩

theorem on_onReply (hb : b.awaits = some (k, rid)) (ht : b.onReply c link d reply = some bt) :
    bt.On k link.rid b.mailboxQid :=
  (onReply_leads ht).on hb

theorem on_onConnected (link : Link) (o : Origin mls) (k : ConnId) :
    (Boot.onConnected link o k).On k link.rid none := by
  unfold Boot.onConnected request
  split <;> split_ifs
  · exact ⟨rfl, rfl, by rintro _ _ ⟨⟩, .inl ⟨_, rfl, rfl, rfl⟩⟩
  · trivial
  · exact ⟨rfl, rfl, by rintro _ _ ⟨⟩, .inr ⟨rfl, by rintro _ ⟨⟩⟩⟩
  · trivial

end Stays

/-- Read a link and start pairing over it. -/
def pairWithLinkUsing {mls : OpenMls} (displayName : String) (linkBytes : List UInt8)
    (session : ChatSession mls) (attestationTokens : List AttestationToken) :
    Except EngineError (Boot mls) :=
  match ContactLink.fromBytes linkBytes with
  | .error err => .error (.link err)
  | .ok link =>
    match link.primaryEndpoint with
    | none => .error (.link .noEndpoints)
    | some endpoint => .ok (.connecting (.pair displayName link endpoint session attestationTokens))

/-- Read a store and start resuming from it. -/
def resume {mls : OpenMls} (store : Store mls) : Except EngineError (Boot mls) :=
  match store.engine, store.session with
  | some rec, some snap =>
    match ChatSession.restore snap with
    | .error err => .error (.session err)
    | .ok session => .ok (.connecting (.resume rec session store))
  | _, _ => .error .nothingToResume

section Origins
variable {stage : Boot mls}

theorem pairWithLinkUsing_eq_ok {displayName : String} {linkBytes : List UInt8}
    {session : ChatSession mls} {tokens : List AttestationToken}
    (h : pairWithLinkUsing displayName linkBytes session tokens = .ok stage) :
    ∃ link endpoint, stage = .connecting (.pair displayName link endpoint session tokens) := by
  unfold pairWithLinkUsing at h
  split at h
  · cases h
  · split at h
    · cases h
    · cases h
      exact ⟨_, _, rfl⟩

theorem resume_eq_ok {store : Store mls} (h : resume store = .ok stage) :
    ∃ rec snap session, store.engine = some rec ∧ store.session = some snap ∧
      ChatSession.restore snap = .ok session ∧ stage = .connecting (.resume rec session store) := by
  unfold resume at h
  split at h
  · rename_i rec snap hrec hsnap
    split at h
    · cases h
    · rename_i session hsession
      cases h
      exact ⟨rec, snap, session, hrec, hsnap, hsession, rfl⟩
  · cases h

end Origins
end Rosette.Engine
