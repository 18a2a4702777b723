import Rosette.Proto.Wire

/-! # The MLS session wrapper

The session owns an identity, the storage behind it and at most one group. What
OpenMLS itself does is a parameter: a group handle and the provider's storage go
into every operation and come out of it, also when it fails. Randomness is an
argument of the operations that draw it.
-/
namespace Rosette.Core
open Foundation Proto

/-- What a decoded MLS message turns out to be. -/
inductive MessageBody (W M K : Type) where
  | welcome (w : W)
  | protocol (m : M)
  | keyPackage (k : K)
  | other

inductive Processed (S : Type) where
  | application (bytes : List UInt8)
  | stagedCommit (staged : S)
  | other

/-- The operations taken from OpenMLS, with the wire bytes of what they produce. -/
structure OpenMls where
  Provider : Type
  Identity : Type
  Group : Type
  GroupId : Type
  KeyPackage : Type
  Welcome : Type
  Tree : Type
  Message : Type
  Staged : Type
  newIdentity : String → ℕ → Provider × Identity
  deserialize : List UInt8 → Except String (MessageBody Welcome Message KeyPackage)
  deserializeTree : List UInt8 → Except String Tree
  epoch : Group → UInt64
  groupId : Group → GroupId
  load : Provider → GroupId → Except String (Option Group)
  exportRatchetTree : Group → List UInt8
  newKeyPackage : ℕ → Provider → Identity → Provider × Except String KeyPackage
  keyPackageBytes : KeyPackage → List UInt8
  validate : KeyPackage → Except String KeyPackage
  newGroup : ℕ → Provider → Identity → Provider × Except String Group
  addMembers : ℕ → Identity → Provider × Group → List KeyPackage →
    (Provider × Group) × Except String (List UInt8)
  joinGroup : Provider → Welcome → Tree → Provider × Except String Group
  selfUpdate : ℕ → Identity → Provider × Group → (Provider × Group) × Except String (List UInt8)
  mergePendingCommit : Provider × Group → (Provider × Group) × Except String Unit
  clearPendingCommit : Provider × Group → (Provider × Group) × Except String Unit
  createMessage : ℕ → Identity → Provider × Group → List UInt8 →
    (Provider × Group) × Except String (List UInt8)
  processMessage : Provider × Group → Message →
    (Provider × Group) × Except String (Processed Staged)
  mergeStagedCommit : Provider × Group → Staged → (Provider × Group) × Except String Unit

inductive Incoming where
  | application (bytes : List UInt8)
  | commitApplied
deriving DecidableEq

inductive SessionError where
  | noGroup
  | decode (reason : String)
  | notAWelcome
  | notAProtocolMessage
  | notAKeyPackage
  | mls (reason : String)
deriving DecidableEq

/-- The dedup key: a pure function of the wire bytes. -/
def messageIdFor (c : Crypto) (wireBytes : List UInt8) : MessageId :=
  ⟨(c.sha256 wireBytes).toList.take 16, by simp⟩

structure ChatSession (mls : OpenMls) where
  provider : mls.Provider
  identity : mls.Identity
  group : Option mls.Group

/-- What is written to disk: the identity, the storage and the id of the group in it. -/
structure SessionSnapshot (mls : OpenMls) where
  identity : mls.Identity
  groupId : Option mls.GroupId
  storage : mls.Provider

namespace ChatSession
variable {mls : OpenMls}

def new (mls : OpenMls) (displayName : String) (rand : ℕ) : ChatSession mls :=
  ⟨(mls.newIdentity displayName rand).1, (mls.newIdentity displayName rand).2, none⟩

def snapshot (s : ChatSession mls) : SessionSnapshot mls :=
  ⟨s.identity, s.group.map mls.groupId, s.provider⟩

def restore (snap : SessionSnapshot mls) : Except SessionError (ChatSession mls) :=
  match snap.groupId with
  | none => .ok ⟨snap.storage, snap.identity, none⟩
  | some gid =>
    match mls.load snap.storage gid with
    | .error e => .error (.mls e)
    | .ok none => .error (.mls "snapshot names a group its storage lacks")
    | .ok (some g) => .ok ⟨snap.storage, snap.identity, some g⟩

/-- An operation on the group; its error keeps the text OpenMLS gives it. -/
def withGroup {α : Type} (s : ChatSession mls)
    (f : mls.Provider × mls.Group → (mls.Provider × mls.Group) × Except String α) :
    ChatSession mls × Except SessionError α :=
  match s.group with
  | none => (s, .error .noGroup)
  | some g =>
    ({ s with
      provider := (f (s.provider, g)).1.1
      group := some (f (s.provider, g)).1.2 }, (f (s.provider, g)).2.mapError .mls)

def generateKeyPackage (s : ChatSession mls) (rand : ℕ) :
    ChatSession mls × Except SessionError mls.KeyPackage :=
  ({ s with provider := (mls.newKeyPackage rand s.provider s.identity).1 },
    (mls.newKeyPackage rand s.provider s.identity).2.mapError .mls)

def createGroup (s : ChatSession mls) (rand : ℕ) : ChatSession mls × Except SessionError Unit :=
  match mls.newGroup rand s.provider s.identity with
  | (p, .error e) => ({ s with provider := p }, .error (.mls e))
  | (p, .ok g) => ({ s with provider := p, group := some g }, .ok ())

def mergePendingCommit (s : ChatSession mls) : ChatSession mls × Except SessionError Unit :=
  s.withGroup mls.mergePendingCommit

/-- Add members and merge the commit at once; the wire bytes are the Welcome's. -/
def addMembers (s : ChatSession mls) (rand : ℕ) (keyPackages : List mls.KeyPackage) :
    ChatSession mls × Except SessionError (List UInt8) :=
  match s.withGroup (fun g => mls.addMembers rand s.identity g keyPackages) with
  | (s, .error e) => (s, .error e)
  | (s, .ok welcome) =>
    match s.mergePendingCommit with
    | (s, .error e) => (s, .error e)
    | (s, .ok _) => (s, .ok welcome)

def exportRatchetTree (s : ChatSession mls) : Except SessionError (List UInt8) :=
  match s.group with
  | none => .error .noGroup
  | some g => .ok (mls.exportRatchetTree g)

def joinFromWelcome (s : ChatSession mls) (welcomeWire ratchetTreeWire : List UInt8) :
    ChatSession mls × Except SessionError Unit :=
  match mls.deserialize welcomeWire with
  | .error e => (s, .error (.decode e))
  | .ok (.welcome w) =>
    match mls.deserializeTree ratchetTreeWire with
    | .error e => (s, .error (.decode e))
    | .ok tree =>
      match mls.joinGroup s.provider w tree with
      | (p, .error e) => ({ s with provider := p }, .error (.mls e))
      | (p, .ok g) => ({ s with provider := p, group := some g }, .ok ())
  | .ok _ => (s, .error .notAWelcome)

def epoch (s : ChatSession mls) : Except SessionError UInt64 :=
  match s.group with
  | none => .error .noGroup
  | some g => .ok (mls.epoch g)

/-- Build a commit without merging it. -/
def selfUpdate (s : ChatSession mls) (rand : ℕ) :
    ChatSession mls × Except SessionError (List UInt8) :=
  s.withGroup (mls.selfUpdate rand s.identity)

def discardPendingCommit (s : ChatSession mls) : ChatSession mls × Except SessionError Unit :=
  s.withGroup mls.clearPendingCommit

def encryptApplication (s : ChatSession mls) (rand : ℕ) (plaintext : List UInt8) :
    ChatSession mls × Except SessionError (List UInt8) :=
  s.withGroup (fun g => mls.createMessage rand s.identity g plaintext)

/-- A commit is merged as soon as it is processed. -/
def processIncoming (s : ChatSession mls) (wireBytes : List UInt8) :
    ChatSession mls × Except SessionError Incoming :=
  match s.group with
  | none => (s, .error .noGroup)
  | some _ =>
    match mls.deserialize wireBytes with
    | .error e => (s, .error (.decode e))
    | .ok (.protocol m) =>
      match s.withGroup (fun g => mls.processMessage g m) with
      | (s, .error e) => (s, .error e)
      | (s, .ok (.application bytes)) => (s, .ok (.application bytes))
      | (s, .ok (.stagedCommit staged)) =>
        match s.withGroup (fun g => mls.mergeStagedCommit g staged) with
        | (s, .error e) => (s, .error e)
        | (s, .ok _) => (s, .ok .commitApplied)
      | (s, .ok .other) => (s, .error .notAProtocolMessage)
    | .ok _ => (s, .error .notAProtocolMessage)

/-! ## No operation touches the identity -/

section Identity
@[simp] theorem withGroup_identity {α : Type} (s : ChatSession mls)
    (f : mls.Provider × mls.Group → (mls.Provider × mls.Group) × Except String α) :
    (s.withGroup f).1.identity = s.identity := by
  unfold withGroup
  split <;> rfl

theorem createGroup_identity (s : ChatSession mls) (rand : ℕ) :
    (s.createGroup rand).1.identity = s.identity := by
  unfold createGroup
  split <;> rfl

theorem addMembers_identity (s : ChatSession mls) (rand : ℕ) (keyPackages : List mls.KeyPackage) :
    (s.addMembers rand keyPackages).1.identity = s.identity := by
  have hadd := s.withGroup_identity fun g => mls.addMembers rand s.identity g keyPackages
  unfold addMembers
  split
  · rename_i ha
    rwa [ha] at hadd
  · rename_i s₁ welcome ha
    rw [ha] at hadd
    have hmerge := s₁.withGroup_identity mls.mergePendingCommit
    split
    · rename_i hm
      rw [mergePendingCommit] at hm
      rw [hm] at hmerge
      exact hmerge.trans hadd
    · rename_i hm
      rw [mergePendingCommit] at hm
      rw [hm] at hmerge
      exact hmerge.trans hadd

theorem joinFromWelcome_identity (s : ChatSession mls) (welcomeWire treeWire : List UInt8) :
    (s.joinFromWelcome welcomeWire treeWire).1.identity = s.identity := by
  unfold joinFromWelcome
  repeat' split
  all_goals rfl

theorem processIncoming_identity (s : ChatSession mls) (wireBytes : List UInt8) :
    (s.processIncoming wireBytes).1.identity = s.identity := by
  unfold processIncoming
  split
  · rfl
  · split
    · rfl
    · rename_i m hm
      have hp := s.withGroup_identity fun g => mls.processMessage g m
      split
      · rename_i hr
        rwa [hr] at hp
      · rename_i hr
        rwa [hr] at hp
      · rename_i s₁ staged hr
        rw [hr] at hp
        have hs := s₁.withGroup_identity fun g => mls.mergeStagedCommit g staged
        split
        · rename_i hq
          rw [hq] at hs
          exact hs.trans hp
        · rename_i hq
          rw [hq] at hs
          exact hs.trans hp
      · rename_i hr
        rwa [hr] at hp
    · rfl

theorem restore_identity {s : ChatSession mls} {snap : SessionSnapshot mls}
    (h : restore snap = .ok s) :
    s.identity = snap.identity := by
  unfold restore at h
  split at h
  · cases h
    rfl
  · split at h
    · cases h
    · cases h
    · cases h
      rfl

end Identity
end ChatSession
end Rosette.Core
