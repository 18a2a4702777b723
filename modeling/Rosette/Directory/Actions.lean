import Rosette.Directory.RateLimit
import Rosette.Directory.Store
import Rosette.Foundation.Program
import Rosette.Proto.Wire

/-! # What a request handler does to the world

A handler runs statements against the database, counts against the rate limiter,
asks the vendor, and keeps restore tokens in memory. Each of these is one action; the
clock, the random draws, the vendor's answer and the fate of a statement come from
outside.
-/
namespace Rosette.Directory
open Foundation Proto

def batchSize : ℕ := 20
def tokenTtlSecs : ℤ := 30 * 24 * 60 * 60

/-- The configuration and the functions of other crates. -/
structure Env where
  accountsEnabled : Bool
  searchEnabled : Bool
  /-- The peppered hash of a normalized number; `none` if hashing fails. -/
  phoneHash : Text → Option Text
  phoneRateKey : Text → ℕ
  ipRateKey : ℕ → ℕ
  b64Decode : Text → Option (List UInt8)
  b64Encode : List UInt8 → Text
  attestationKey : Option (Bytes 32)
  sign : Bytes 32 → List UInt8 → List UInt8

inductive VendorError where
  | unavailable
  | other
deriving DecidableEq

/-- How a statement ends. One that took effect may still look failed to its caller. -/
inductive Fate where
  | answered
  | failed
  | unheard
deriving DecidableEq

/-- What one action reads from outside. -/
structure Ambient where
  now : ℤ
  instant : ℕ
  token : Text
  nonces : List (Bytes 16)
  sent : Except VendorError Unit
  checked : Except VendorError Bool
  fate : Fate

/-- The database, and what the process keeps in memory. -/
structure AppState where
  db : Database
  restoreTokens : Text → Option (UserId × ℤ)
  limiter : RateLimiter

inductive Statement where
  | isPhoneInCooldown (phoneHash : Text)
  | findOrCreatePendingUser (phoneHash : Text)
  | markVerified (userId : UserId)
  | createSession (userId : UserId)
  | sessionUserId (token : Text)
  | claimTransaction (userId : UserId) (nickname : Text)
  | isSearchable (userId : UserId)
  | isVerified (userId : UserId)
  | setSearchable (userId : UserId) (searchable : Bool) (phoneSearchHash : Option Text)
  | findUserByHandle (nickname : Text) (discriminator : ℕ)
  | setPairingBootstrap (userId : UserId) (contactLinkB64 : Text)
  | consumePairingBootstrap (userId : UserId)
  | eraseUser (userId : UserId)
  | bucket (pre : Text)
  | handleRow (userId : UserId)
  | nicknameWidth (nickname : Text)
  | upsertBackup (userId : UserId) (b : BackupRow)
  | findUserByPhoneHash (phoneHash : Text)
  | backupSalts (userId : UserId)
  | verifyBackupAuth (userId : UserId) (auth : List UInt8) (isPin : Bool)
deriving DecidableEq

namespace Statement

abbrev Result : Statement → Type
  | .isPhoneInCooldown _ => Bool
  | .findOrCreatePendingUser _ => UserId
  | .markVerified _ => Unit
  | .createSession _ => Text
  | .sessionUserId _ => Option UserId
  | .claimTransaction _ _ => Except UsernameError (ℕ × ℕ)
  | .isSearchable _ => Option Bool
  | .isVerified _ => Option Bool
  | .setSearchable _ _ _ => Unit
  | .findUserByHandle _ _ => Option UserId
  | .setPairingBootstrap _ _ => Unit
  | .consumePairingBootstrap _ => Option Text
  | .eraseUser _ => Unit
  | .bucket _ => List PhoneEntry
  | .handleRow _ => Option (Text × ℕ)
  | .nicknameWidth _ => ℕ
  | .upsertBackup _ _ => Unit
  | .findUserByPhoneHash _ => Option UserId
  | .backupSalts _ => Option (List UInt8 × List UInt8)
  | .verifyBackupAuth _ _ _ => Option RestoreVerdict

def run (amb : Ambient) (db : Database) : (s : Statement) → Except DbError (s.Result × Database)
  | .isPhoneInCooldown hash => .ok (db.isPhoneInCooldown hash amb.now, db)
  | .findOrCreatePendingUser hash => .ok (db.findOrCreatePendingUser hash amb.now)
  | .markVerified userId => .ok ((), db.markVerified userId)
  | .createSession userId => db.createSession userId amb.token amb.now
  | .sessionUserId token => .ok (db.sessionUserId token amb.now, db)
  | .claimTransaction userId nickname => db.claimTransaction userId nickname
  | .isSearchable userId => .ok (db.isSearchable userId, db)
  | .isVerified userId => .ok (db.isVerified userId, db)
  | .setSearchable userId searchable hash => .ok ((), db.setSearchable userId searchable hash)
  | .findUserByHandle nickname discriminator => .ok (db.findUserByHandle nickname discriminator, db)
  | .setPairingBootstrap userId link =>
    (db.setPairingBootstrap userId link amb.now).map (fun db => ((), db))
  | .consumePairingBootstrap userId => .ok (db.consumePairingBootstrap userId)
  | .eraseUser userId => .ok ((), db.eraseUser userId amb.now)
  | .bucket pre => .ok (db.bucket pre, db)
  | .handleRow userId => .ok (db.handleRow userId, db)
  | .nicknameWidth nickname => .ok (db.widthOf nickname, db)
  | .upsertBackup userId b => (db.upsertBackup userId b amb.now).map (fun db => ((), db))
  | .findUserByPhoneHash hash => .ok (db.findUserByPhoneHash hash, db)
  | .backupSalts userId => .ok (db.backupSalts userId, db)
  | .verifyBackupAuth userId auth isPin => .ok (db.verifyBackupAuth userId auth isPin amb.now)

/-- What the caller sees and what the database keeps. -/
def exec (amb : Ambient) (s : Statement) (db : Database) : Except DbError s.Result × Database :=
  match amb.fate, s.run amb db with
  | .answered, .ok (r, db') => (.ok r, db')
  | .unheard, .ok (_, db') => (.error .db, db')
  | .failed, _ => (.error .db, db)
  | _, .error e => (.error e, db)

end Statement

inductive Action where
  | statement (s : Statement)
  | bump (bucket : Bucket) (key limit : ℕ)
  | sendCode (e164 : Text)
  | verifyCode (e164 code : Text)
  | createRestoreToken (userId : UserId) (ttlSecs : ℤ)
  | restoreTokenUser (token : Text)
  | consumeRestoreToken (token : Text)
  | mintBatch (key : Bytes 32)
  | nowUnix
deriving DecidableEq

abbrev Action.Result : Action → Type
  | .statement s => Except DbError s.Result
  | .bump _ _ _ => Bool
  | .sendCode _ => Except VendorError Unit
  | .verifyCode _ _ => Except VendorError Bool
  | .createRestoreToken _ _ => Text
  | .restoreTokenUser _ => Option UserId
  | .consumeRestoreToken _ => Unit
  | .mintBatch _ => List AttestationToken
  | .nowUnix => ℤ

namespace AppState
variable (amb : Ambient) (s : AppState)

def createRestoreToken (userId : UserId) (ttlSecs : ℤ) : Text × AppState :=
  (amb.token, { s with
    restoreTokens := Function.update s.restoreTokens amb.token (some (userId, amb.now + ttlSecs)) })

/-- An expired token is removed by the lookup that finds it. -/
def restoreTokenUser (token : Text) : Option UserId × AppState :=
  match s.restoreTokens token with
  | some (userId, expiresAt) =>
    if amb.now < expiresAt then (some userId, s)
    else (none, { s with restoreTokens := Function.update s.restoreTokens token none })
  | none => (none, s)

@[simp] theorem restoreTokenUser_db (token : Text) :
    (s.restoreTokenUser amb token).2.db = s.db := by
  unfold restoreTokenUser
  split
  · split_ifs <;> rfl
  · rfl

@[simp] theorem restoreTokenUser_limiter (token : Text) :
    (s.restoreTokenUser amb token).2.limiter = s.limiter := by
  unfold restoreTokenUser
  split
  · split_ifs <;> rfl
  · rfl

def consumeRestoreToken (token : Text) : AppState :=
  { s with restoreTokens := Function.update s.restoreTokens token none }

end AppState

/-- A batch shares one expiry; each token has its own nonce. -/
def mintBatch (env : Env) (amb : Ambient) (key : Bytes 32) : List AttestationToken :=
  (amb.nonces.take batchSize).map (fun nonce =>
    ⟨nonce, amb.now + tokenTtlSecs, env.sign key (signedPayload nonce (amb.now + tokenTtlSecs))⟩)

def exec (env : Env) (amb : Ambient) : (a : Action) → AppState → a.Result × AppState
  | .statement s, d => ((s.exec amb d.db).1, { d with db := (s.exec amb d.db).2 })
  | .bump bucket key limit, d =>
    ((d.limiter.bump bucket key limit amb.instant).1,
      { d with limiter := (d.limiter.bump bucket key limit amb.instant).2 })
  | .sendCode _, d => (amb.sent, d)
  | .verifyCode _ _, d => (amb.checked, d)
  | .createRestoreToken userId ttlSecs, d => d.createRestoreToken amb userId ttlSecs
  | .restoreTokenUser token, d => d.restoreTokenUser amb token
  | .consumeRestoreToken token, d => ((), d.consumeRestoreToken token)
  | .mintBatch key, d => (mintBatch env amb key, d)
  | .nowUnix, d => (amb.now, d)

def AppState.reboot (s : AppState) : AppState := ⟨s.db, fun _ => none, fun _ => none⟩

end Rosette.Directory
