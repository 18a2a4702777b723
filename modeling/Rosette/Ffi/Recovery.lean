import Rosette.Core.Backup
import Rosette.Core.Plain
import Rosette.Ffi.Shared

/-! # Recovery material on a device

Enrolment writes a backup key and a bundle; later calls rewrite parts of the bundle, and a
new device is set up from the last bundle that any device returned. A panic is a result of its
own; neither an error nor a panic changes the database.
-/
namespace Rosette.Ffi
open Foundation Proto Rosette.Core List Option

/-- What recovery is built from. The bytes of an identity are those of a snapshot that holds
nothing else; `cleared` is the storage in it. -/
structure Scheme (mls : OpenMls) where
  crypto : RecoveryCrypto
  lower : LowerCase
  wordlist : Wordlist
  identity : Codec mls.Identity
  sized : identity.Sized
  cleared : mls.Provider
  /-- The text of a failed decoding. -/
  corrupt : String

inductive Stop where
  | err (e : EngineError)
  | panic (text : String)
deriving DecidableEq

/-- What the database answers to a call's reads and to its transaction. -/
structure Io where
  read : Except String Unit
  commit : Except String Unit

def storage (r : Except String Unit) : Except Stop Unit :=
  r.mapError (fun reason => .err (.storageFailed reason))

def orStop {α : Type} (stop : Stop) : Option α → Except Stop α
  | none => .error stop
  | some a => .ok a

variable {α : Type} {mls : OpenMls} {r : Scheme mls} {b : BackupBundle} {s : Secrets}
  {disk : Database mls}

theorem bind_eq_ok {ε β : Type} {x : Except ε α} {f : α → Except ε β} {b : β} :
    (x >>= f) = .ok b ↔ ∃ a, x = .ok a ∧ f a = .ok b := by
  cases x with
  | error | ok => simp [bind, Except.bind]

theorem orStop_eq_ok {stop : Stop} {o : Option α} {a : α} : orStop stop o = .ok a ↔ o = some a := by
  cases o <;> simp [orStop]

structure Device (mls : OpenMls) where
  displayName : String
  shared : Shared mls

structure BackupEnrollment where
  phrase : Secret
  bundle : BackupBundle

section Calls
variable (r : Scheme mls)

def backupAuthProof (secret : Secret) (salt : List UInt8) : List UInt8 :=
  authHash r.crypto (if validatePin secret then secret else normalizePhrase r.lower secret) salt

def stripSnapshotToIdentity (snap : SessionSnapshot mls) : List UInt8 :=
  r.identity.encode snap.identity

/-- The plaintext of the blob. -/
def Device.payload (d : Device mls) (disk : Database mls) : BackupPayload where
  identity := disk.engine.session.map (stripSnapshotToIdentity r)
  username := some d.displayName
  contacts := d.shared.store.conversations.map Conversation.displayName

def backupPayload (io : Io) (d : Device mls) (disk : Database mls) :
    Except Stop (List UInt8) := do
  storage io.read
  orStop (.panic "payload is always serializable")
    (serialize BackupPayload.codec (d.payload r disk))

/-- What an enrolment draws: the words of the phrase, the key, and the salts and nonces. -/
structure EnrollDraw where
  words : Fin phraseWords → Fin r.wordlist.words.length
  bk : Bytes bkLen
  bundle : BundleDraw

def backupEnroll (draw : EnrollDraw r) (io : Io) (d : Device mls) (pin : Secret) :
    Except Stop (Database mls × BackupEnrollment) := do
  if !validatePin pin then throw (.err .invalidPin)
  let disk ← orStop (.err (.notSupported "recovery needs the persistent engine (new_persistent)"))
    d.shared.disk
  let phrase := generatePhrase r.wordlist draw.words
  let payload ← backupPayload r io d disk
  let bundle ← (buildBundle r.crypto draw.bundle pin phrase draw.bk payload).mapError
    (fun _ => .err .invalidPin)
  let bundleBytes ← orStop (.panic "bundle is always serializable")
    (serialize BackupBundle.codec bundle)
  storage io.commit
  return ({ disk with backupBk := some draw.bk.toList, backupBundle := some bundleBytes },
    ⟨phrase, bundle⟩)

def storedKey (bk : List UInt8) : Option (Bytes bkLen) :=
  if h : bk.length = bkLen then some ⟨bk, h⟩ else none

def backupBundleCurrent (nonce : Bytes nonceLen) (io : Io) (d : Device mls) :
    Except Stop (Option (Database mls × BackupBundle)) :=
  match d.shared.disk with
  | none => .ok none
  | some disk => do
    storage io.read
    match disk.backupBk, disk.backupBundle with
    | some bk, some bundleBytes => do
      let bk ← orStop (.err (.storageFailed "stored backup key is corrupt")) (storedKey bk)
      let bundle ← orStop (.err (.storageFailed r.corrupt))
        (decodeFrom BackupBundle.codec bundleBytes)
      let payload ← backupPayload r io d disk
      let bundle := { bundle with blob := sealBlob r.crypto bk nonce payload }
      let bundleBytes ← orStop (.panic "bundle is always serializable")
        (serialize BackupBundle.codec bundle)
      storage io.commit
      return some ({ disk with backupBundle := some bundleBytes }, bundle)
    | _, _ => return none

def backupVerifySecret (io : Io) (d : Device mls) (secret : Secret) : Except Stop Bool :=
  match d.shared.disk with
  | none => .ok false
  | some disk => do
    storage io.read
    match disk.backupBundle with
    | none => return false
    | some bundleBytes => do
      let bundle ← orStop (.err (.storageFailed r.corrupt))
        (decodeFrom BackupBundle.codec bundleBytes)
      if validatePin secret then
        return (unwrapBk r.crypto secret bundle.saltP bundle.wPin).isOk
      else
        return (unwrapBk r.crypto (normalizePhrase r.lower secret) bundle.saltF
          bundle.wPhrase).isOk

structure RewrapDraw where
  saltP : Bytes saltLen
  saltA : Bytes saltLen
  nonce : Bytes nonceLen

def backupRewrapPin (draw : RewrapDraw) (io : Io) (d : Device mls) (newPin : Secret) :
    Except Stop (Database mls × BackupBundle) := do
  if !validatePin newPin then throw (.err .invalidPin)
  let disk ← orStop (.err (.notSupported "recovery needs the persistent engine (new_persistent)"))
    d.shared.disk
  storage io.read
  match disk.backupBk, disk.backupBundle with
  | some bk, some bundleBytes => do
    let bk ← orStop (.err (.storageFailed "stored backup key is corrupt")) (storedKey bk)
    let bundle ← orStop (.err (.storageFailed r.corrupt))
      (decodeFrom BackupBundle.codec bundleBytes)
    let bundle := { bundle with
      wPin := wrapBk r.crypto newPin draw.saltP.toList draw.nonce bk
      saltP := draw.saltP.toList
      authPin := authHash r.crypto newPin draw.saltA.toList
      saltA := draw.saltA.toList }
    let bundleBytes ← orStop (.panic "bundle is always serializable")
      (serialize BackupBundle.codec bundle)
    storage io.commit
    return ({ disk with backupBundle := some bundleBytes }, bundle)
  | _, _ => throw (.err (.notSupported "no recovery enrollment to re-wrap"))

structure FreshPath where
  pathExists : Bool
  opened : Except String Unit
  commit : Except String Unit

/-- The conversations of a restored device: its first contact, as a stub to pair again. -/
def restoredStore (payload : BackupPayload) : UiStore :=
  match payload.contacts.head? with
  | none => .empty
  | some first => {
      conversations := [⟨conversationId, first, none, 0, false⟩]
      messages := Function.update (fun _ => none) conversationId (some []) }

/-- An identity that cannot be read leaves a row that no session is restored from. -/
def restoredRow (payload : BackupPayload) : Option (SessionSnapshot mls) :=
  payload.identity.bind fun bytes =>
    (decodeFrom r.identity bytes).map fun identity => ⟨identity, none, r.cleared⟩

/-- The device that is set up, with its new database. -/
def restoredDevice (displayName : String) (payload : BackupPayload) (bk : Bytes bkLen)
    (bundleBytes : List UInt8) : Device mls where
  displayName := payload.username.getD displayName
  shared := {
    store := restoredStore payload
    seq := 1
    disk := some {
      engine := { Engine.Store.empty mls with session := restoredRow r payload }
      uiState := some (restoredStore payload, 1)
      backupBk := some bk.toList
      backupBundle := some bundleBytes } }

def newFromBackup (path : FreshPath) (displayName : String) (bundle : BackupBundle)
    (secret : Secret) : Except Stop (Device mls) := do
  let bk ← (if validatePin secret then unwrapBk r.crypto secret bundle.saltP bundle.wPin
    else unwrapBk r.crypto (normalizePhrase r.lower secret) bundle.saltF bundle.wPhrase).mapError
      (fun _ => .err .wrongRecoverySecret)
  let payloadBytes ← (openBlob r.crypto bk bundle.blob).mapError
    (fun _ => .err .wrongRecoverySecret)
  let payload ← orStop (.err (.storageFailed ("backup blob is corrupt: " ++ r.corrupt)))
    (decodeFrom BackupPayload.codec payloadBytes)
  if path.pathExists then throw (.err (.storageFailed "a database already exists at this path"))
  storage path.opened
  let bundleBytes ← orStop (.panic "bundle is always serializable")
    (serialize BackupBundle.codec bundle)
  storage path.commit
  return restoredDevice r displayName payload bk bundleBytes

end Calls

/-! ## Secrets, devices and the last bundle -/

/-- The secrets a user has to remember. -/
structure Secrets where
  pin : Secret
  words : List Secret
deriving DecidableEq

def Secrets.none : Secrets := ⟨[], []⟩

def Secrets.phrase (s : Secrets) : Secret := [' '].intercalate s.words

def Secrets.Typed (s : Secrets) (typed : Secret) : Prop := typed = s.pin ∨ Retypes s.words typed

/-- A user's devices, each with the secrets of its recovery material, and the bundle last
returned, with those of its. -/
structure Account (mls : OpenMls) where
  devices : List (Device mls × Option Secrets)
  latest : Option (BackupBundle × Secrets)

inductive Act {mls : OpenMls} (r : Scheme mls) where
  /-- A device with a new database, or with none. -/
  | install (displayName : String) (persistent : Bool)
  /-- Everything else a device does, restarts included. -/
  | other (i : ℕ) (displayName : String) (store : UiStore) (seq : UInt64)
      (engine : Engine.Store mls) (uiState : Option (UiStore × UInt64))
  | enroll (i : ℕ) (draw : EnrollDraw r) (io : Io) (pin : Secret)
  | rewrapPin (i : ℕ) (draw : RewrapDraw) (io : Io) (newPin : Secret)
  | bundleCurrent (i : ℕ) (nonce : Bytes nonceLen) (io : Io)
  /-- The last bundle goes to a new device. -/
  | restore (path : FreshPath) (displayName : String) (secret : Secret)

section Run

def Device.written (d : Device mls) (disk : Database mls) : Device mls :=
  { d with shared := { d.shared with disk := some disk } }

/-- A call on one device that returned a bundle. -/
def Account.returned (a : Account mls) (i : ℕ) (d : Device mls) (disk : Database mls)
    (bundle : BackupBundle) (s : Secrets) : Account mls :=
  ⟨a.devices.set i (d.written disk, some s), some (bundle, s)⟩

def Account.step (a : Account mls) : Act r → Account mls
  | .install displayName persistent =>
    { a with devices := a.devices ++
        [(⟨displayName, .empty, 1, if persistent then some (.empty mls) else none⟩, none)] }
  | .other i displayName store seq engine uiState =>
    match a.devices[i]? with
    | none => a
    | some (d, s) =>
      { a with devices := a.devices.set i (⟨displayName, store, seq,
          d.shared.disk.map fun disk => { disk with engine, uiState }⟩, s) }
  | .enroll i draw io pin =>
    match a.devices[i]? with
    | none => a
    | some (d, _) =>
      match backupEnroll r draw io d pin with
      | .error _ => a
      | .ok (disk, enrollment) =>
        a.returned i d disk enrollment.bundle ⟨pin, r.wordlist.drawn draw.words⟩
  | .rewrapPin i draw io newPin =>
    match a.devices[i]? with
    | none => a
    | some (d, s) =>
      match backupRewrapPin r draw io d newPin with
      | .error _ => a
      | .ok (disk, bundle) => a.returned i d disk bundle { s.getD .none with pin := newPin }
  | .bundleCurrent i nonce io =>
    match a.devices[i]? with
    | none => a
    | some (d, s) =>
      match backupBundleCurrent r nonce io d with
      | .error _ | .ok none => a
      | .ok (some (disk, bundle)) => a.returned i d disk bundle (s.getD .none)
  | .restore path displayName secret =>
    match a.latest with
    | none => a
    | some (bundle, s) =>
      match newFromBackup r path displayName bundle secret with
      | .error _ => a
      | .ok d => { a with devices := a.devices ++ [(d, some s)] }

end Run

/-! ## The material opens -/

/-- The key, the bundle, the secrets and the payload belong together. -/
structure Opens {mls : OpenMls} (r : Scheme mls) (bk : Bytes bkLen) (b : BackupBundle) (s : Secrets)
    (p : BackupPayload) : Prop where
  pin : validatePin s.pin = true
  words : s.words ≠ [] ∧ ∀ w ∈ s.words, w ≠ [] ∧ ∀ c ∈ w, c ∈ alphabet
  unwrapsPin : unwrapBk r.crypto s.pin b.saltP b.wPin = .ok bk
  unwrapsPhrase : unwrapBk r.crypto s.phrase b.saltF b.wPhrase = .ok bk
  opened : ∃ bytes, openBlob r.crypto bk b.blob = .ok bytes ∧
    decodeFrom BackupPayload.codec bytes = some p
  identity : ∀ bytes, p.identity = some bytes →
    ∃ id, r.identity.valid id ∧ r.identity.encode id = bytes
  authPin : b.authPin = backupAuthProof r s.pin b.saltA
  authPhrase : b.authPhrase = backupAuthProof r s.phrase b.saltPa

section Opens
variable {bk : Bytes bkLen} {p : BackupPayload} {d : Device mls} {io : Io}
  {typed pin newPin : Secret} {bytes key : List UInt8} {draw : EnrollDraw r}
  {secrets : Option Secrets}

theorem phrase_retypes (s : Secrets) : Retypes s.words s.phrase :=
  ⟨s.words, forall₂_recased_refl _, spaced_intercalate _⟩

theorem Opens.unwraps (h : Opens r bk b s p) (ht : s.Typed typed) :
    (if validatePin typed then unwrapBk r.crypto typed b.saltP b.wPin
      else unwrapBk r.crypto (normalizePhrase r.lower typed) b.saltF b.wPhrase) = .ok bk := by
  rcases ht with rfl | ht
  · rw [if_pos h.pin]
    exact h.unwrapsPin
  · rw [ht.not_pin h.words.1 h.words.2, ht.normalize h.words.2]
    exact h.unwrapsPhrase

theorem authProof_pin (h : validatePin pin = true) (salt : List UInt8) :
    backupAuthProof r pin salt = authHash r.crypto pin salt := by
  rw [backupAuthProof, if_pos h]

theorem authProof_phrase (hne : s.words ≠ []) (hw : ∀ w ∈ s.words, w ≠ [] ∧ ∀ c ∈ w, c ∈ alphabet)
    (salt : List UInt8) : backupAuthProof r s.phrase salt = authHash r.crypto s.phrase salt := by
  rw [backupAuthProof, (phrase_retypes s).not_pin hne hw, (phrase_retypes s).normalize hw]
  rfl

theorem backupPayload_opens (h : backupPayload r io d disk = .ok bytes) :
    decodeFrom BackupPayload.codec bytes = some (d.payload r disk) ∧
      ∀ bytes, (d.payload r disk).identity = some bytes →
        ∃ id, r.identity.valid id ∧ r.identity.encode id = bytes := by
  obtain ⟨-, -, h⟩ := bind_eq_ok.mp h
  have hs := orStop_eq_ok.mp h
  refine ⟨deserialize_serialize BackupPayload.sized_codec hs, fun idBytes hid => ?_⟩
  have hvalid : BackupPayload.codec.valid (d.payload r disk) := by
    unfold serialize at hs
    split_ifs at hs with hlen
    exact BackupPayload.sized_codec.fits _ (hlen.trans (by norm_num))
  obtain ⟨snap, -, hsnap⟩ := map_eq_some_iff.mp hid
  have hlen : idBytes.length < 256 ^ 8 := (hvalid.1 idBytes hid).1
  exact ⟨snap.identity, r.sized.fits _ (by rwa [← hsnap] at hlen), hsnap⟩

theorem drawn_words (l : Wordlist) (draw : Fin phraseWords → Fin l.words.length) :
    l.drawn draw ≠ [] ∧ ∀ w ∈ l.drawn draw, w ≠ [] ∧ ∀ c ∈ w, c ∈ alphabet := by
  have hlen : (l.drawn draw).length = phraseWords := by rw [Wordlist.drawn, length_map, length_ofFn]
  refine ⟨ne_nil_of_length_pos (by rw [hlen]; decide), fun w hw => ?_⟩
  obtain ⟨i, -, rfl⟩ := mem_map.mp hw
  exact l.clean _ (get_mem _ _)

theorem Opens.reseal (h : Opens r bk b s p) (nonce : Bytes nonceLen)
    (hp : backupPayload r io d disk = .ok bytes) :
    Opens r bk { b with blob := sealBlob r.crypto bk nonce bytes } s (d.payload r disk) :=
  { h with
    opened := ⟨bytes, aeadOpen_aeadSeal _ _ _, (backupPayload_opens hp).1⟩
    identity := (backupPayload_opens hp).2 }

theorem Opens.rewrap (h : Opens r bk b s p) (draw : RewrapDraw) (hpin : validatePin newPin = true) :
    Opens r bk { b with
      wPin := wrapBk r.crypto newPin draw.saltP.toList draw.nonce bk
      saltP := draw.saltP.toList
      authPin := authHash r.crypto newPin draw.saltA.toList
      saltA := draw.saltA.toList } { s with pin := newPin } p :=
  { h with
    pin := hpin
    unwrapsPin := unwrapBk_wrapBk _ _ _ _
    authPin := (authProof_pin hpin _).symm }

theorem opens_buildBundle {payload : List UInt8} (hp : backupPayload r io d disk = .ok payload)
    (h : buildBundle r.crypto draw.bundle pin
      (generatePhrase r.wordlist draw.words) draw.bk payload = .ok b) :
    Opens r draw.bk b ⟨pin, r.wordlist.drawn draw.words⟩ (d.payload r disk) := by
  unfold buildBundle at h
  split_ifs at h with hpin
  cases h
  obtain ⟨hne, hclean⟩ := drawn_words r.wordlist draw.words
  exact {
    pin := hpin
    words := ⟨hne, hclean⟩
    unwrapsPin := unwrapBk_wrapBk _ _ _ _
    unwrapsPhrase := unwrapBk_wrapBk _ _ _ _
    opened := ⟨payload, aeadOpen_aeadSeal _ _ _, (backupPayload_opens hp).1⟩
    identity := (backupPayload_opens hp).2
    authPin := (authProof_pin hpin _).symm
    authPhrase := (authProof_phrase (s := ⟨pin, r.wordlist.drawn draw.words⟩) hne hclean _).symm }

/-- A database holds a key and a bundle that open under these secrets. -/
structure Database.Keeps (r : Scheme mls) (disk : Database mls) (bk : Bytes bkLen)
    (b : BackupBundle) (s : Secrets) (p : BackupPayload) : Prop where
  key : disk.backupBk = some bk.toList
  row : ∃ bytes, disk.backupBundle = some bytes ∧ serialize BackupBundle.codec b = some bytes
  opens : Opens r bk b s p

/-- The recovery rows of a device are those of its secrets, or missing. -/
def Device.Consistent (r : Scheme mls) (d : Device mls) : Option Secrets → Prop
  | none => ∀ disk, d.shared.disk = some disk → disk.backupBk = none
  | some s => ∃ disk bk b p, d.shared.disk = some disk ∧ disk.Keeps r bk b s p

theorem storedKey_toList (bk : Bytes bkLen) : storedKey bk.toList = some bk := by
  unfold storedKey
  rw [dif_pos bk.toList_length]
  rfl

theorem Device.Consistent.keeps (h : d.Consistent r secrets) (hdisk : d.shared.disk = some disk)
    (hkey : disk.backupBk = some key) : ∃ bk b p, disk.Keeps r bk b (secrets.getD .none) p := by
  cases secrets with
  | none => cases (h disk hdisk).symm.trans hkey
  | some =>
    obtain ⟨disk', bk, b, p, hdisk', hk⟩ := h
    obtain rfl := mem_unique hdisk' hdisk
    exact ⟨bk, b, p, hk⟩

theorem Database.Keeps.decoded (h : disk.Keeps r bk b s p) :
    disk.backupBundle.bind (decodeFrom BackupBundle.codec) = some b := by
  obtain ⟨bytes, hrow, hser⟩ := h.row
  rw [hrow, bind_some, deserialize_serialize BackupBundle.sized_codec hser]

theorem Database.Keeps.read (h : disk.Keeps r bk b s p) {bk' : Bytes bkLen} {b' : BackupBundle}
    (hkey : disk.backupBk = some key) (hbk : storedKey key = some bk')
    (hrow : disk.backupBundle = some bytes) (hb : decodeFrom BackupBundle.codec bytes = some b') :
    bk' = bk ∧ b' = b := by
  have hdec := h.decoded
  rw [hrow, bind_some, hb] at hdec
  rw [h.key] at hkey
  rw [← some.inj hkey, storedKey_toList] at hbk
  exact ⟨(some.inj hbk).symm, some.inj hdec⟩

theorem backupEnroll_keeps {e : BackupEnrollment}
    (h : backupEnroll r draw io d pin = .ok (disk, e)) :
    ∃ bk p, disk.Keeps r bk e.bundle ⟨pin, r.wordlist.drawn draw.words⟩ p := by
  unfold backupEnroll at h
  split_ifs at h with hpin
  · cases h
  obtain ⟨disk₀, -, h⟩ := bind_eq_ok.mp h
  obtain ⟨payload, hp, h⟩ := bind_eq_ok.mp h
  obtain ⟨bundle, hb, h⟩ := bind_eq_ok.mp h
  obtain ⟨bytes, hbytes, h⟩ := bind_eq_ok.mp h
  obtain ⟨-, -, h⟩ := bind_eq_ok.mp h
  cases h
  refine ⟨draw.bk, _, rfl, ⟨bytes, rfl, orStop_eq_ok.mp hbytes⟩, opens_buildBundle hp ?_⟩
  generalize hbuilt : buildBundle _ _ _ _ _ _ = built at hb ⊢
  cases built with
  | error => cases hb
  | ok =>
    cases hb
    rfl

theorem backupRewrapPin_keeps {draw : RewrapDraw} (hd : d.Consistent r secrets)
    (h : backupRewrapPin r draw io d newPin = .ok (disk, b)) :
    ∃ bk p, disk.Keeps r bk b { secrets.getD .none with pin := newPin } p := by
  unfold backupRewrapPin at h
  split_ifs at h with hpin
  · cases h
  obtain ⟨disk₀, hdisk, h⟩ := bind_eq_ok.mp h
  obtain ⟨-, -, h⟩ := bind_eq_ok.mp h
  split at h
  case h_2 => cases h
  case h_1 key row hkey hrow =>
    obtain ⟨bk, hbk, h⟩ := bind_eq_ok.mp h
    obtain ⟨bundle, hb, h⟩ := bind_eq_ok.mp h
    obtain ⟨bytes, hbytes, h⟩ := bind_eq_ok.mp h
    obtain ⟨-, -, h⟩ := bind_eq_ok.mp h
    cases h
    obtain ⟨bk₀, b₀, p, hk⟩ := hd.keeps (orStop_eq_ok.mp hdisk) hkey
    obtain ⟨rfl, rfl⟩ := hk.read hkey (orStop_eq_ok.mp hbk) hrow (orStop_eq_ok.mp hb)
    exact ⟨bk, p, hk.key, ⟨bytes, rfl, orStop_eq_ok.mp hbytes⟩,
      hk.opens.rewrap draw (by simpa using hpin)⟩

theorem backupBundleCurrent_keeps {nonce : Bytes nonceLen} (hd : d.Consistent r secrets)
    (h : backupBundleCurrent r nonce io d = .ok (some (disk, b))) :
    ∃ bk p, disk.Keeps r bk b (secrets.getD .none) p := by
  unfold backupBundleCurrent at h
  split at h
  case h_1 => cases h
  case h_2 disk₀ hdisk =>
    obtain ⟨-, -, h⟩ := bind_eq_ok.mp h
    split at h
    case h_2 => cases h
    case h_1 key row hkey hrow =>
      obtain ⟨bk, hbk, h⟩ := bind_eq_ok.mp h
      obtain ⟨bundle, hb, h⟩ := bind_eq_ok.mp h
      obtain ⟨payload, hp, h⟩ := bind_eq_ok.mp h
      obtain ⟨bytes, hbytes, h⟩ := bind_eq_ok.mp h
      obtain ⟨-, -, h⟩ := bind_eq_ok.mp h
      cases h
      obtain ⟨bk₀, b₀, p, hk⟩ := hd.keeps hdisk hkey
      obtain ⟨rfl, rfl⟩ := hk.read hkey (orStop_eq_ok.mp hbk) hrow (orStop_eq_ok.mp hb)
      exact ⟨bk, _, hk.key, ⟨bytes, rfl, orStop_eq_ok.mp hbytes⟩, hk.opens.reseal nonce hp⟩

/-- A device set up from a bundle: the key, the bundle and what its blob holds are there. -/
structure Device.RestoredFrom (r : Scheme mls) (d : Device mls) (displayName : String)
    (bk : Bytes bkLen) (b : BackupBundle) (s : Secrets) (p : BackupPayload) : Prop where
  name : d.displayName = p.username.getD displayName
  contact : d.shared.store.conversations.map Conversation.displayName = p.contacts.take 1
  disk : ∃ disk, d.shared.disk = some disk ∧ disk.Keeps r bk b s p ∧
    disk.engine.session.map (stripSnapshotToIdentity r) = p.identity

theorem newFromBackup_eq_ok (h : Opens r bk b s p)
    (hser : serialize BackupBundle.codec b = some bytes) {path : FreshPath} {displayName : String}
    (ht : s.Typed typed) :
    newFromBackup r path displayName b typed = .ok d ↔
      path = ⟨false, .ok (), .ok ()⟩ ∧ d = restoredDevice r displayName p bk bytes := by
  obtain ⟨payloadBytes, hopen, hdec⟩ := h.opened
  unfold newFromBackup
  rw [h.unwraps ht]
  obtain ⟨pathExists, opened, commit⟩ := path
  simp only [Except.mapError, bind, Except.bind, hopen, hdec, hser, orStop, pure, Except.pure]
  cases pathExists <;> cases opened <;> cases commit <;>
    simp [storage, Except.mapError, eq_comm]

theorem restoredDevice_restoredFrom (h : Opens r bk b s p)
    (hser : serialize BackupBundle.codec b = some bytes) (displayName : String) :
    (restoredDevice r displayName p bk bytes).RestoredFrom r displayName bk b s p := by
  refine ⟨rfl, ?_, _, rfl, ⟨rfl, ⟨bytes, rfl, hser⟩, h⟩, ?_⟩
  · change (restoredStore p).conversations.map _ = _
    cases hc : p.contacts with
    | nil => simp [restoredStore, hc, UiStore.empty]
    | cons => simp [restoredStore, hc]
  · cases hid : p.identity with
    | none => simp [restoredRow, hid]
    | some idBytes =>
      obtain ⟨id, hvalid, rfl⟩ := h.identity idBytes hid
      have hread := decodeFrom_encode r.identity id [] hvalid
      rw [append_nil] at hread
      simp [restoredRow, hid, hread, stripSnapshotToIdentity]

/-- Whatever of the two secrets is typed on a new device, the device is set up. -/
def Restores (r : Scheme mls) (bk : Bytes bkLen) (b : BackupBundle) (s : Secrets)
    (p : BackupPayload) : Prop :=
  ∀ typed displayName, s.Typed typed →
    ∃ d, newFromBackup r ⟨false, .ok (), .ok ()⟩ displayName b typed = .ok d ∧
      d.RestoredFrom r displayName bk b s p

theorem Opens.restores (h : Opens r bk b s p) (hser : serialize BackupBundle.codec b = some bytes) :
    Restores r bk b s p :=
  fun _ displayName ht => ⟨_, (newFromBackup_eq_ok h hser ht).mpr ⟨rfl, rfl⟩,
    restoredDevice_restoredFrom h hser displayName⟩

theorem Database.Keeps.verifies (h : disk.Keeps r bk b s p) (hdisk : d.shared.disk = some disk)
    (ht : s.Typed typed) (commit : Except String Unit) :
    backupVerifySecret r ⟨.ok (), commit⟩ d typed = .ok true := by
  obtain ⟨bytes, hrow, hser⟩ := h.row
  have hunwrap := h.opens.unwraps ht
  simp only [backupVerifySecret, hdisk, storage, Except.mapError, bind, Except.bind, hrow,
    deserialize_serialize BackupBundle.sized_codec hser, orStop, pure, Except.pure]
  split_ifs at hunwrap ⊢ <;> rw [hunwrap] <;> rfl

end Opens

/-! ## Whole runs -/

section Runs
variable {a : Account mls}

/-- A new device that is set up was given one of the two secrets. -/
def Account.Honest (a : Account mls) : Act r → Prop
  | .restore path displayName secret => ∀ b s, a.latest = some (b, s) →
      s.Typed secret ∨ ∀ d, newFromBackup r path displayName b secret ≠ .ok d
  | _ => True

/-- The accounts a run can lead to. -/
inductive Account.Reached (r : Scheme mls) : Account mls → Prop where
  | start : Reached r ⟨[], none⟩
  | step {a : Account mls} (h : Reached r a) (act : Act r) (honest : a.Honest act) :
    Reached r (a.step act)

/-- All recovery material belongs together. -/
structure Account.Sound (r : Scheme mls) (a : Account mls) : Prop where
  devices : ∀ x ∈ a.devices, x.1.Consistent r x.2
  latest : ∀ b s, a.latest = some (b, s) →
    ∃ bk p bytes, serialize BackupBundle.codec b = some bytes ∧ Opens r bk b s p

theorem Account.Sound.returned (h : a.Sound r) {i : ℕ} {d : Device mls}
    (hk : ∃ bk p, disk.Keeps r bk b s p) : (a.returned i d disk b s).Sound r := by
  obtain ⟨bk, p, hk⟩ := hk
  refine ⟨fun x hx => ?_, fun b' s' hlatest => ?_⟩
  · rcases mem_or_eq_of_mem_set hx with hx | rfl
    · exact h.devices x hx
    · exact ⟨disk, bk, b, p, rfl, hk⟩
  · cases hlatest
    obtain ⟨bytes, -, hser⟩ := hk.row
    exact ⟨bk, p, bytes, hser, hk.opens⟩

theorem Account.Sound.step (h : a.Sound r) (act : Act r) (honest : a.Honest act) :
    (a.step act).Sound r := by
  cases act with
  | install displayName persistent =>
    refine ⟨fun x hx => ?_, h.latest⟩
    rcases mem_append.mp hx with hx | hx
    · exact h.devices x hx
    · obtain rfl := mem_singleton.mp hx
      intro disk hdisk
      cases persistent with
      | false => cases hdisk
      | true =>
        cases hdisk
        rfl
  | other i displayName store seq engine uiState =>
    simp only [Account.step]
    split
    case h_1 => exact h
    case h_2 d secrets hd =>
      refine ⟨fun x hx => ?_, h.latest⟩
      rcases mem_or_eq_of_mem_set hx with hx | rfl
      · exact h.devices x hx
      · have hdevice := h.devices _ (mem_of_getElem? hd)
        cases secrets with
        | none =>
          intro disk hdisk
          obtain ⟨disk₀, hdisk₀, rfl⟩ := map_eq_some_iff.mp hdisk
          exact hdevice disk₀ hdisk₀
        | some =>
          obtain ⟨disk, bk, b, p, hdisk, hk⟩ := hdevice
          exact ⟨{ disk with engine, uiState }, bk, b, p, by rw [hdisk]; rfl, hk.1, hk.2, hk.3⟩
  | enroll =>
    simp only [Account.step]
    split
    case h_1 => exact h
    case h_2 d secrets hd =>
      split
      case h_1 => exact h
      case h_2 disk enrollment hok => exact h.returned (backupEnroll_keeps hok)
  | rewrapPin =>
    simp only [Account.step]
    split
    case h_1 => exact h
    case h_2 d secrets hd =>
      split
      case h_1 => exact h
      case h_2 disk bundle hok =>
        exact h.returned (backupRewrapPin_keeps (h.devices _ (mem_of_getElem? hd)) hok)
  | bundleCurrent =>
    simp only [Account.step]
    split
    case h_1 => exact h
    case h_2 d secrets hd =>
      split
      case h_1 | h_2 => exact h
      case h_3 disk bundle hok =>
        exact h.returned (backupBundleCurrent_keeps (h.devices _ (mem_of_getElem? hd)) hok)
  | restore path displayName =>
    simp only [Account.step]
    split
    case h_1 => exact h
    case h_2 b s hlatest =>
      split
      case h_1 => exact h
      case h_2 d hok =>
        obtain ⟨bk, p, bytes, hser, hopens⟩ := h.latest b s hlatest
        rcases honest b s hlatest with ht | hnot
        · obtain ⟨-, rfl⟩ := (newFromBackup_eq_ok hopens hser ht).mp hok
          obtain ⟨disk, hdisk, hk, -⟩ := (restoredDevice_restoredFrom hopens hser displayName).disk
          refine ⟨fun x hx => ?_, h.latest⟩
          rcases mem_append.mp hx with hx | hx
          · exact h.devices x hx
          · obtain rfl := mem_singleton.mp hx
            exact ⟨disk, bk, b, p, hdisk, hk⟩
        · exact absurd hok (hnot d)

theorem Account.Reached.sound (h : a.Reached r) : a.Sound r := by
  induction h with
  | start => exact ⟨fun x hx => absurd hx not_mem_nil, fun b s hlatest => by cases hlatest⟩
  | step h act honest ih => exact ih.step act honest

/-- The recovery material of every device, and the bundle last returned, open under the
current PIN and under the phrase of the last enrolment. -/
theorem recovery_material_opens (h : a.Reached r) :
    (∀ d s, (d, some s) ∈ a.devices → ∃ disk bk b p, d.shared.disk = some disk ∧
      disk.backupBk = some bk.toList ∧
      disk.backupBundle.bind (decodeFrom BackupBundle.codec) = some b ∧
      Opens r bk b s p ∧ Restores r bk b s p ∧
      ∀ typed commit, s.Typed typed → backupVerifySecret r ⟨.ok (), commit⟩ d typed = .ok true) ∧
    ∀ b s, a.latest = some (b, s) → ∃ bk p, Opens r bk b s p ∧ Restores r bk b s p := by
  refine ⟨fun d s hd => ?_, fun b s hlatest => ?_⟩
  · obtain ⟨disk, bk, b, p, hdisk, hk⟩ := h.sound.devices _ hd
    obtain ⟨bytes, -, hser⟩ := hk.row
    exact ⟨disk, bk, b, p, hdisk, hk.key, hk.decoded, hk.opens, hk.opens.restores hser,
      fun typed commit ht => hk.verifies hdisk ht commit⟩
  · obtain ⟨bk, p, bytes, hser, hopens⟩ := h.sound.latest b s hlatest
    exact ⟨bk, p, hopens, hopens.restores hser⟩

/-- A scheme to run the model with: keys are the secrets themselves, and a ciphertext names the
key it opens under. -/
def plainScheme : Scheme OpenMls.plain where
  crypto := {
    derive := fun secret salt => ⟨(secret ++ salt ++ replicate bkLen 0).take bkLen,
      by rw [length_take_of_le]; simp only [length_append, length_replicate]; omega⟩
    sha256 := fun bytes => ⟨(bytes ++ replicate bkLen 0).take bkLen, by simp⟩
    encrypt := fun key _ plaintext => key.toList ++ plaintext
    decrypt := fun key _ data =>
      if data.take bkLen = key.toList then some (data.drop bkLen) else none
    decrypt_encrypt := fun key _ plaintext => by
      rw [take_left' key.toList_length, if_pos rfl, drop_left' key.toList_length] }
  lower := ⟨map Char.toLower, fun _ _ => rfl⟩
  wordlist := ⟨[['o', 'k']], by decide, by simp [alphabet]⟩
  identity := Codec.byte
  sized := Codec.sized_byte
  cleared := ⟨[], none⟩
  corrupt := "unexpected end of file"

def okTyped : Secret :=
  [' ', 'O', 'K', ' ', 'o', 'k', '\t', ' ', 'O', 'k', ' ', 'o', 'k', ' ', 'o', 'K', ' ']

theorem okTyped_retypes : Retypes (replicate 5 ['o', 'k']) okTyped := by
  refine ⟨[['O', 'K'], ['o', 'k'], ['O', 'k'], ['o', 'k'], ['o', 'K']], ?_, ?_⟩
  · unfold Recased
    decide
  · exact .blank rfl (.word ['O', 'K'] rfl (.word ['o', 'k'] rfl (.blank rfl (.word ['O', 'k'] rfl
      (.word ['o', 'k'] rfl (.word ['o', 'K'] rfl .nil))))))

/-- Enrolment, a change of the PIN that fails to be written, a new device set up with the
phrase, and a change of the PIN there. -/
def movedOver : List (Act plainScheme) :=
  [.install "ann" true,
    .enroll 0 ⟨fun _ => ⟨0, by decide⟩, .replicate bkLen 7, .replicate _ 1, .replicate _ 2,
      .replicate _ 3, .replicate _ 4, .replicate _ 5, .replicate _ 6, .replicate _ 7⟩
      ⟨.ok (), .ok ()⟩ ['1', '2', '3', '4'],
    .rewrapPin 0 ⟨.replicate _ 8, .replicate _ 9, .replicate _ 10⟩
      ⟨.ok (), .error "database is full"⟩ ['5', '6', '7', '8'],
    .restore ⟨false, .ok (), .ok ()⟩ "new phone" okTyped,
    .rewrapPin 1 ⟨.replicate _ 8, .replicate _ 9, .replicate _ 10⟩ ⟨.ok (), .ok ()⟩
      ['5', '6', '7', '8']]

def movedAccount : Account OpenMls.plain := movedOver.foldl Account.step ⟨[], none⟩

def movedSecrets : Secrets := ⟨['5', '6', '7', '8'], replicate 5 ['o', 'k']⟩

theorem movedAccount_reached : movedAccount.Reached plainScheme := by
  have htyped : ((movedOver.take 3).foldl Account.step ⟨[], none⟩).latest.map Prod.snd =
      some ⟨['1', '2', '3', '4'], replicate 5 ['o', 'k']⟩ := by decide +kernel
  simp only [movedAccount, movedOver, foldl_cons, foldl_nil]
  refine .step (.step (.step (.step (.step .start _ (by trivial)) _ (by trivial)) _ (by trivial))
    _ ?_) _ (by trivial)
  intro b s hlatest
  refine .inl (.inr ?_)
  simp only [movedOver, take_succ_cons, take_zero, foldl_cons, foldl_nil,
    hlatest, map_some, some.injEq] at htyped
  rw [htyped]
  exact okTyped_retypes

theorem recovery_material_opens_moved :
    ∃ a : Account OpenMls.plain, a.Reached plainScheme ∧ a.devices.length = 2 ∧
      ∃ b s bk p, a.latest = some (b, s) ∧
        s = ⟨['5', '6', '7', '8'], replicate 5 ['o', 'k']⟩ ∧
        Opens plainScheme bk b s p ∧ Restores plainScheme bk b s p := by
  have hlatest : movedAccount.latest.map Prod.snd = some movedSecrets := by decide +kernel
  obtain ⟨⟨b, s⟩, hb, hs⟩ := map_eq_some_iff.mp hlatest
  obtain ⟨bk, p, hopens, hrestores⟩ := (recovery_material_opens movedAccount_reached).2 b s hb
  exact ⟨_, movedAccount_reached, by decide +kernel, b, s, bk, p, hb, hs, hopens, hrestores⟩

end Runs
end Rosette.Ffi
