import Rosette.Engine.Machine

/-! # What the application holds

The object the application calls shares its conversations and its half of the database with
the engine thread. The other half of the same database is the engine's own.
-/
namespace Rosette.Ffi
open Foundation Proto Rosette.Core

inductive EngineError where
  | invalidContactLink
  | unknownConversation
  | sendFailed (reason : String)
  | relayUnreachable (reason : String)
  | notSupported (reason : String)
  | storageFailed (reason : String)
  | invalidPin
  | wrongRecoverySecret
deriving DecidableEq

structure Conversation where
  id : String
  displayName : String
  lastMessage : Option String
  unread : ℕ
  verified : Bool
deriving DecidableEq

inductive DeliveryState where
  | pending
  | sent
  | failed
  | received
deriving DecidableEq

structure ChatMessage where
  id : String
  body : String
  mine : Bool
  timestampMs : ℤ
  delivery : DeliveryState
deriving DecidableEq

def conversationId : String := "conv-1"

structure UiStore where
  conversations : List Conversation
  messages : String → Option (List ChatMessage)

def UiStore.empty : UiStore := ⟨[], fun _ => none⟩

namespace UiStore

/-- Change the conversation of this id, if there is one. -/
def update (s : UiStore) (id : String) (f : Conversation → Conversation) : UiStore :=
  { s with conversations :=
    s.conversations.replaceF fun c => if c.id = id then some (f c) else none }

/-- Put a message at the end of the conversation's, if it has a list of them. -/
def push (s : UiStore) (id : String) (message : ChatMessage) : UiStore :=
  { s with messages := Function.update s.messages id ((s.messages id).map (· ++ [message])) }

/-- The conversation a pairing leads to; a stub of it becomes the real one. -/
def createConversation (s : UiStore) (peerName : Option String) : UiStore :=
  let displayName := peerName.getD "New contact"
  let s := if s.conversations.any (·.id = conversationId) then
      s.update conversationId fun c => { c with displayName }
    else { s with conversations := s.conversations ++
      [⟨conversationId, displayName, none, 0, false⟩] }
  { s with messages :=
      Function.update s.messages conversationId (some ((s.messages conversationId).getD [])) }

/-- A message of one's own, sent or not. -/
def recordSent (s : UiStore) (id : String) (message : ChatMessage) : UiStore :=
  (s.push id message).update id fun c => { c with lastMessage := some message.body }

/-- A message that came in. -/
def recordReceived (s : UiStore) (id : String) (message : ChatMessage) : UiStore :=
  (s.push id message).update id fun c =>
    { c with lastMessage := some message.body, unread := c.unread + 1 }

def badges (s : UiStore) : List (String × Bool) := s.conversations.map fun c => (c.id, c.verified)

theorem badges_update (s : UiStore) (id : String) {f : Conversation → Conversation}
    (hf : ∀ c, (f c).id = c.id ∧ (f c).verified = c.verified) :
    (s.update id f).badges = s.badges := by
  unfold badges update
  induction s.conversations with
  | nil => rfl
  | cons c cs ih =>
    by_cases hc : c.id = id
    · simp [hc, hf c]
    · simp [hc, ih]

theorem badges_createConversation (s : UiStore) (peerName : Option String) :
    (s.createConversation peerName).badges = s.badges ∨
      (s.createConversation peerName).badges = s.badges ++ [(conversationId, false)] := by
  unfold createConversation
  split_ifs
  · exact .inl (badges_update s conversationId fun _ => ⟨rfl, rfl⟩)
  · exact .inr (List.map_append)

end UiStore

/-- The rows of the database: the engine's, the conversations with the next message number, and
the recovery material. -/
structure Database (mls : OpenMls) where
  engine : Engine.Store mls
  uiState : Option (UiStore × UInt64)
  backupBk : Option (List UInt8)
  backupBundle : Option (List UInt8)

def Database.empty (mls : OpenMls) : Database mls := ⟨.empty mls, none, none, none⟩

/-- Write the conversations and the next message number; nobody is told if that fails. -/
def Database.persistUi {mls : OpenMls} (disk : Database mls) (store : UiStore) (seq : UInt64)
    (ok : Bool) : Database mls :=
  if ok then { disk with uiState := some (store, seq) } else disk

structure Shared (mls : OpenMls) where
  store : UiStore
  seq : UInt64
  disk : Option (Database mls)

end Rosette.Ffi
