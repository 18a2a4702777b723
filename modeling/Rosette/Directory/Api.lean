import Rosette.Directory.Actions

/-! # The request handlers

One program per endpoint. Requests come in as their fields, after the web framework
has parsed them, with the client's address already determined.
-/
namespace Rosette.Directory
open Foundation Proto Program

def restoreTokenTtlSecs : ℤ := 600

inductive ApiError where
  | badRequest (message : String)
  | unauthorized
  | featureDisabled
  | vendorUnavailable
  | rateLimited
  | notFound
  | internal
  | wrongSecret (remaining : Option ℤ)
  | locked (seconds : ℤ)
deriving DecidableEq

structure SearchResultEntry where
  userId : UserId
  handle : Text
  searchHash : Text
deriving DecidableEq

structure AttestationTokenDto where
  nonce : Text
  expiresAt : ℤ
  signature : Text
deriving DecidableEq

structure RestoreCompleteResponse where
  blob : Text
  wPin : Text
  saltP : Text
  wPhrase : Text
  saltF : Text
  authPin : Text
  saltA : Text
  authPhrase : Text
  saltPa : Text
deriving DecidableEq

inductive Reply where
  | healthy
  | codeSent
  | verified (userId : UserId) (sessionToken : Text) (verified : Bool)
  | handle (handle : Text)
  | attestationTokens (tokens : List AttestationTokenDto)
  | searchable (searchable : Bool)
  | noContent
  | user (userId : UserId)
  | contactLink (contactLinkB64 : Text)
  | results (results : List SearchResultEntry)
  | restoreBegun (restoreToken sessionToken saltA saltPa : Text)
  | bundle (bundle : RestoreCompleteResponse)
deriving DecidableEq

structure BackupPutRequest where
  blob : Text
  wPin : Text
  saltP : Text
  wPhrase : Text
  saltF : Text
  authPin : Text
  saltA : Text
  authPhrase : Text
  saltPa : Text
deriving DecidableEq

inductive Request where
  | health
  | signup (ip : ℕ) (phone : Text)
  | verify (ip : ℕ) (phone code : Text)
  | claimUsername (authorization : Option Text) (nickname : Text)
  | usernameLookup (authorization : Option Text) (nickname : Text) (discriminator : ℕ)
  | getSearchable (authorization : Option Text)
  | setSearchable (authorization : Option Text) (searchable : Bool) (phoneSearchHash : Option Text)
  | issueAttestationTokens (authorization : Option Text)
  | deleteAccount (authorization : Option Text)
  | search (authorization : Option Text) (pre : Text)
  | setPairingBootstrap (authorization : Option Text) (contactLinkB64 : Text)
  | requestPairingBootstrap (authorization : Option Text) (userId : UserId)
  | putBackup (authorization : Option Text) (upload : BackupPutRequest)
  | restoreBegin (phone code : Text)
  | restoreComplete (restoreToken method auth : Text)

abbrev Handler := Program Action Action.Result ApiError

def act (a : Action) : Handler a.Result := Program.perform a

/-- A statement whose failure ends the request. -/
def query (s : Statement) : Handler s.Result := do
  match ← act (.statement s) with
  | .ok r => pure r
  | .error _ => refuse .internal

def orRefuse {α : Type} (e : ApiError) : Option α → Handler α
  | some a => pure a
  | none => refuse e

def require (c : Bool) (e : ApiError) : Handler Unit := if c then pure () else refuse e

/-- A plus sign and eight to fifteen digits. -/
def normalizeE164 : Text → Option Text
  | '+' :: digits =>
    if 8 ≤ byteLen digits ∧ byteLen digits ≤ 15 ∧ digits.all Char.isDigit then
      some ('+' :: digits)
    else none
  | _ => none

def invalidPhone : ApiError := .badRequest "invalid phone"

def inCooldown : ApiError := .badRequest "phone number is in cooldown after a recent deletion"

/-- The hash of a number whose code the vendor approved. Both callers map its errors alike. -/
def verifyPhone (env : Env) (rawPhone code : Text) : Handler Text := do
  let e164 ← orRefuse invalidPhone (normalizeE164 rawPhone)
  match ← act (.verifyCode e164 code) with
  | .ok true => orRefuse .internal (env.phoneHash e164)
  | .ok false => refuse (.badRequest "code rejected")
  | .error .unavailable => refuse .vendorUnavailable
  | .error .other => refuse .internal

def bearer : Text := "Bearer ".toList

def bearerToken (authorization : Option Text) : Option Text :=
  authorization.bind (fun value =>
    if bearer.isPrefixOf value then some (value.drop bearer.length) else none)

def authenticate (authorization : Option Text) : Handler UserId := do
  let token ← orRefuse .unauthorized (bearerToken authorization)
  let user ← query (.sessionUserId token)
  orRefuse .unauthorized user

def signup (env : Env) (ip : ℕ) (phone : Text) : Handler Reply := do
  require env.accountsEnabled .featureDisabled
  let admitted ← act (.bump .ip (env.ipRateKey ip) unauthRequestsPerMinutePerIp)
  require admitted .rateLimited
  let e164 ← orRefuse invalidPhone (normalizeE164 phone)
  let hash ← orRefuse .internal (env.phoneHash e164)
  let cooling ← query (.isPhoneInCooldown hash)
  require (!cooling) inCooldown
  match ← act (.sendCode e164) with
  | .error .unavailable => refuse .vendorUnavailable
  | .error .other => refuse .internal
  | .ok _ => do
    let _ ← query (.findOrCreatePendingUser hash)
    pure .codeSent

def verifyHandler (env : Env) (ip : ℕ) (phone code : Text) : Handler Reply := do
  require env.accountsEnabled .featureDisabled
  let admitted ← act (.bump .ip (env.ipRateKey ip) unauthRequestsPerMinutePerIp)
  require admitted .rateLimited
  let e164 ← orRefuse invalidPhone (normalizeE164 phone)
  let admitted ← act (.bump .phone (env.phoneRateKey e164) verifyAttemptsPerMinute)
  require admitted .rateLimited
  let hash ← verifyPhone env phone code
  let cooling ← query (.isPhoneInCooldown hash)
  require (!cooling) inCooldown
  let userId ← query (.findOrCreatePendingUser hash)
  let _ ← query (.markVerified userId)
  let sessionToken ← query (.createSession userId)
  pure (.verified userId sessionToken true)

def claimUsername (authorization : Option Text) (nickname : Text) : Handler Reply := do
  let userId ← authenticate authorization
  match validateNickname nickname with
  | .error _ => refuse (.badRequest "invalid or taken nickname")
  | .ok _ => do
    match ← query (.claimTransaction userId nickname) with
    | .error _ => refuse (.badRequest "invalid or taken nickname")
    | .ok (slot, width) => pure (.handle (formatHandle nickname slot width))

def issueAttestationTokens (env : Env) (authorization : Option Text) : Handler Reply := do
  let _ ← authenticate authorization
  let key ← orRefuse .featureDisabled env.attestationKey
  let tokens ← act (.mintBatch key)
  pure (.attestationTokens (tokens.map (fun t =>
    ⟨env.b64Encode t.nonce.toList, t.expiresAt, env.b64Encode t.signature⟩)))

def getSearchable (authorization : Option Text) : Handler Reply := do
  let userId ← authenticate authorization
  let searchable ← query (.isSearchable userId)
  let searchable ← orRefuse .unauthorized searchable
  pure (.searchable searchable)

def isHex (s : Text) (len : ℕ) : Bool :=
  byteLen s == len && s.all (fun c => c.isDigit || ('a' ≤ c && c ≤ 'f') || ('A' ≤ c && c ≤ 'F'))

/-- The hash a request to become searchable must bring. -/
def requestedHash (searchable : Bool) (phoneSearchHash : Option Text) : Handler (Option Text) :=
  if searchable then do
    let hash ← orRefuse (.badRequest "phone_search_hash is required when searchable is true")
      phoneSearchHash
    require (isHex hash 64) (.badRequest "phone_search_hash must be a 64-hex-char SHA-256 digest")
    pure (some hash)
  else pure none

def setSearchable (authorization : Option Text) (searchable : Bool)
    (phoneSearchHash : Option Text) : Handler Reply := do
  let userId ← authenticate authorization
  let hash ← requestedHash searchable phoneSearchHash
  let _ ← query (.setSearchable userId searchable hash)
  pure .noContent

def usernameLookup (authorization : Option Text) (nickname : Text) (discriminator : ℕ) :
    Handler Reply := do
  let _ ← authenticate authorization
  let user ← query (.findUserByHandle nickname discriminator)
  let userId ← orRefuse .notFound user
  pure (.user userId)

def isWhiteSpace (c : Char) : Bool :=
  (9 ≤ c.toNat && c.toNat ≤ 13) || (0x2000 ≤ c.toNat && c.toNat ≤ 0x200a) ||
    [0x20, 0x85, 0xa0, 0x1680, 0x2028, 0x2029, 0x202f, 0x205f, 0x3000].contains c.toNat

def isBlank (s : Text) : Bool := s.all isWhiteSpace

def setPairingBootstrap (authorization : Option Text) (contactLinkB64 : Text) : Handler Reply := do
  let userId ← authenticate authorization
  require (!isBlank contactLinkB64) (.badRequest "contact_link_b64 must not be empty")
  let _ ← query (.setPairingBootstrap userId contactLinkB64)
  pure .noContent

/-- The common front of the two lookups of other users: on, authenticated, within its rate. -/
def admitLookup (env : Env) (authorization : Option Text) : Handler Unit := do
  require env.searchEnabled .featureDisabled
  let callerId ← authenticate authorization
  let verified ← query (.isVerified callerId)
  let admitted ← act (.bump .caller callerId
    (if verified.getD false then verifiedSearchPerMinute else unverifiedSearchPerMinute))
  require admitted .rateLimited

def requestPairingBootstrap (env : Env) (authorization : Option Text) (userId : UserId) :
    Handler Reply := do
  admitLookup env authorization
  let link ← query (.consumePairingBootstrap userId)
  let link ← orRefuse .notFound link
  pure (.contactLink link)

def deleteAccount (authorization : Option Text) : Handler Reply := do
  let userId ← authenticate authorization
  let _ ← query (.eraseUser userId)
  pure .noContent

/-- Two statements; a failure of either counts as no handle. -/
def handleFor (userId : UserId) : Handler (Option Text) := do
  match ← act (.statement (.handleRow userId)) with
  | .ok (some (nickname, discriminator)) => do
    match ← act (.statement (.nicknameWidth nickname)) with
    | .ok width => pure (some (formatHandle nickname discriminator width))
    | .error _ => pure none
  | _ => pure none

def searchResults : List PhoneEntry → Handler (List SearchResultEntry)
  | [] => pure []
  | entry :: entries => do
    let handle ← handleFor entry.userId
    let rest ← searchResults entries
    match handle with
    | some handle => pure (⟨entry.userId, handle, entry.phoneHash⟩ :: rest)
    | none => pure rest

/-- A bucket that cannot be read counts as empty. -/
def search (env : Env) (authorization : Option Text) (pre : Text) : Handler Reply := do
  admitLookup env authorization
  require (byteLen pre == prefixLenHex)
    (.badRequest "prefix must be exactly PREFIX_LEN_HEX hex chars")
  let bucket ← act (.statement (.bucket pre))
  let results ← searchResults (bucket.toOption.getD [])
  pure (.results results)

def b64 (env : Env) (s : Text) : Handler (List UInt8) :=
  orRefuse (.badRequest "all bundle fields must be base64") (env.b64Decode s)

def putBackup (env : Env) (authorization : Option Text) (req : BackupPutRequest) :
    Handler Reply := do
  let userId ← authenticate authorization
  let blob ← b64 env req.blob
  let wPin ← b64 env req.wPin
  let saltP ← b64 env req.saltP
  let wPhrase ← b64 env req.wPhrase
  let saltF ← b64 env req.saltF
  let authPinHash ← b64 env req.authPin
  let saltA ← b64 env req.saltA
  let authPhraseHash ← b64 env req.authPhrase
  let saltPa ← b64 env req.saltPa
  require ([saltP, saltF, saltA, saltPa].all (fun s => s.length == 16))
    (.badRequest "salts must be 16 bytes")
  require (authPinHash.length == 32 && authPhraseHash.length == 32)
    (.badRequest "auth hashes must be 32 bytes")
  require (!(blob.isEmpty || wPin.isEmpty || wPhrase.isEmpty))
    (.badRequest "ciphertexts must not be empty")
  let _ ← query (.upsertBackup userId
    ⟨blob, wPin, saltP, wPhrase, saltF, authPinHash, saltA, authPhraseHash, saltPa⟩)
  pure .noContent

def restoreBegin (env : Env) (phone code : Text) : Handler Reply := do
  require env.accountsEnabled .featureDisabled
  let hash ← verifyPhone env phone code
  let user ← query (.findUserByPhoneHash hash)
  let userId ← orRefuse .notFound user
  let salts ← query (.backupSalts userId)
  let salts ← orRefuse .notFound salts
  let sessionToken ← query (.createSession userId)
  let restoreToken ← act (.createRestoreToken userId restoreTokenTtlSecs)
  pure (.restoreBegun restoreToken sessionToken (env.b64Encode salts.1) (env.b64Encode salts.2))

/-- What a matching proof is answered with. -/
def bundleOf (env : Env) (row : BackupRow) : RestoreCompleteResponse where
  blob := env.b64Encode row.blob
  wPin := env.b64Encode row.wPin
  saltP := env.b64Encode row.saltP
  wPhrase := env.b64Encode row.wPhrase
  saltF := env.b64Encode row.saltF
  authPin := env.b64Encode row.authPinHash
  saltA := env.b64Encode row.saltA
  authPhrase := env.b64Encode row.authPhraseHash
  saltPa := env.b64Encode row.saltPa

def isPinMethod (method : Text) : Option Bool :=
  if method = "pin".toList then some true
  else if method = "phrase".toList then some false
  else none

def restoreComplete (env : Env) (restoreToken method auth : Text) : Handler Reply := do
  require env.accountsEnabled .featureDisabled
  let user ← act (.restoreTokenUser restoreToken)
  let userId ← orRefuse .unauthorized user
  let isPin ← orRefuse (.badRequest "method must be \"pin\" or \"phrase\"") (isPinMethod method)
  let auth ← orRefuse (.badRequest "auth must be base64") (env.b64Decode auth)
  require (auth.length == 32) (.badRequest "auth must be 32 bytes")
  let verdict ← query (.verifyBackupAuth userId auth isPin)
  let verdict ← orRefuse .notFound verdict
  match verdict with
  | .matched row => do
    let _ ← act (.consumeRestoreToken restoreToken)
    pure (.bundle (bundleOf env row))
  | .wrongPin remaining => refuse (.wrongSecret (some remaining))
  | .wrongPhrase => refuse (.wrongSecret none)
  | .locked until_ => do
    let now ← act .nowUnix
    refuse (.locked (max (until_ - now) 1))

def handle (env : Env) : Request → Handler Reply
  | .health => pure .healthy
  | .signup ip phone => signup env ip phone
  | .verify ip phone code => verifyHandler env ip phone code
  | .claimUsername authorization nickname => claimUsername authorization nickname
  | .usernameLookup authorization nickname discriminator =>
    usernameLookup authorization nickname discriminator
  | .getSearchable authorization => getSearchable authorization
  | .setSearchable authorization searchable phoneSearchHash =>
    setSearchable authorization searchable phoneSearchHash
  | .issueAttestationTokens authorization => issueAttestationTokens env authorization
  | .deleteAccount authorization => deleteAccount authorization
  | .search authorization pre => search env authorization pre
  | .setPairingBootstrap authorization contactLinkB64 =>
    setPairingBootstrap authorization contactLinkB64
  | .requestPairingBootstrap authorization userId =>
    requestPairingBootstrap env authorization userId
  | .putBackup authorization upload => putBackup env authorization upload
  | .restoreBegin phone code => restoreBegin env phone code
  | .restoreComplete restoreToken method auth => restoreComplete env restoreToken method auth

def api (env : Env) : Host Action Action.Result ApiError Reply Request Ambient AppState where
  handler := handle env
  exec := exec env
  reboot := AppState.reboot

abbrev World := Hosted Action Action.Result ApiError Reply Request Ambient AppState

abbrev ApiEvent := HostEvent Request Ambient

abbrev Record := Happening Action Action.Result ApiError Reply Request Ambient

def AppState.initial : AppState := ⟨.empty, fun _ => none, fun _ => none⟩

end Rosette.Directory
