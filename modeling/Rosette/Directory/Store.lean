import Rosette.Directory.Username

/-! # The directory's tables and the statements on them

Each statement, and each transaction, takes effect at once. A table with a primary
key is a function from keys to rows. The users table carries what its schema
guarantees: an id is assigned once, and no two live rows share a phone hash.
-/
namespace Rosette.Directory
open List

abbrev UserId := ℕ

def phoneCooldownHours : ℤ := 24
def sessionTtlDays : ℤ := 90
def prefixLenHex : ℕ := 5

def hashPrefix (fullHash : Text) : Text := fullHash.take prefixLenHex

/-- The nickname and its discriminator are set together. -/
structure UserRow where
  phoneHash : Text
  phoneHashPrefix : Text
  verified : Bool
  handle : Option (Text × ℕ)
  searchable : Bool
  createdAt : ℤ
  deletedAt : Option ℤ
  phoneSearchHash : Text
  phoneSearchHashPrefix : Text
deriving DecidableEq

def UserRow.live (r : UserRow) : Bool := r.deletedAt.isNone

def UserRow.pending (phoneHash : Text) (now : ℤ) : UserRow where
  phoneHash := phoneHash
  phoneHashPrefix := hashPrefix phoneHash
  verified := false
  handle := none
  searchable := false
  createdAt := now
  deletedAt := none
  phoneSearchHash := []
  phoneSearchHashPrefix := []

/-- The users table and the sequence its ids come from. -/
structure Users where
  row : UserId → Option UserRow
  next : UserId
  unassigned : ∀ id, next ≤ id → row id = none
  liveUnique : ∀ i j r s, row i = some r → row j = some s → r.live = true → s.live = true →
    r.phoneHash = s.phoneHash → i = j

namespace Users

def empty : Users where
  row := fun _ => none
  next := 1
  unassigned := fun _ _ => rfl
  liveUnique := fun _ _ _ _ h => by cases h

def ids (u : Users) : List UserId := range u.next

variable {u : Users} {id : UserId} {p : UserRow → Bool}

theorem mem_ids {r : UserRow} (h : u.row id = some r) : id ∈ u.ids := by
  rw [ids, mem_range]
  by_contra hle
  simp [u.unassigned id (Nat.le_of_not_lt hle)] at h

def search (u : Users) (p : UserRow → Bool) : Option UserId :=
  u.ids.reverse.find? (fun id => (u.row id).any p)

theorem row_of_search (h : u.search p = some id) : ∃ r, u.row id = some r ∧ p r = true := by
  have hp := find?_some h
  exact (Option.any_eq_true _ _).mp hp

theorem search_eq_none : u.search p = none ↔ ∀ id r, u.row id = some r → p r = false := by
  simp only [search, find?_eq_none, mem_reverse]
  constructor
  · intro h id r hr
    have := h id (mem_ids hr)
    rw [hr] at this
    simpa using this
  · intro h id _
    cases hr : u.row id with
    | none => simp
    | some r => simp [h id r hr]

def liveWith (u : Users) (hash : Text) : Option UserId :=
  u.search (fun r => r.live && r.phoneHash == hash)

theorem liveWith_eq_some {hash : Text} :
    u.liveWith hash = some id ↔
      ∃ r, u.row id = some r ∧ r.live = true ∧ r.phoneHash = hash := by
  constructor
  · intro h
    obtain ⟨r, hr, hp⟩ := row_of_search h
    exact ⟨r, hr, by simpa using hp⟩
  · rintro ⟨r, hr, hl, hh⟩
    cases hs : u.liveWith hash with
    | none =>
      have := search_eq_none.mp hs id r hr
      simp [hl, hh] at this
    | some j =>
      obtain ⟨s, hj, hp⟩ := row_of_search hs
      simp only [Bool.and_eq_true, beq_iff_eq] at hp
      rw [u.liveUnique j id s r hj hr hp.1 hl (hp.2.trans hh.symm)]

def insert (u : Users) (hash : Text) (now : ℤ) (h : u.liveWith hash = none) : Users where
  row := Function.update u.row u.next (some (.pending hash now))
  next := u.next + 1
  unassigned id hid := by
    rw [Function.update_of_ne (Nat.ne_of_gt hid)]
    exact u.unassigned id (Nat.le_of_succ_le hid)
  liveUnique i j r s hi hj hr hs hh := by
    have absent : ∀ k t, u.row k = some t → t.live = true → t.phoneHash ≠ hash := by
      intro k t hk ht he
      have := liveWith_eq_some.mpr ⟨t, hk, ht, he⟩
      simp [h] at this
    simp only [Function.update_apply] at hi hj
    split_ifs at hi with hin <;> split_ifs at hj with hjn
    · rw [hin, hjn]
    · cases hi
      exact absurd hh.symm (absent j s hj hs)
    · cases hj
      exact absurd hh (absent i r hi hr)
    · exact u.liveUnique i j r s hi hj hr hs hh

/-- A conflicting insert uses up its id all the same. -/
def skip (u : Users) : Users :=
  { u with next := u.next + 1, unassigned := fun id h => u.unassigned id (Nat.le_of_succ_le h) }

/-- Update the row of one id, if it has one. An update that leaves a row live found it live
and leaves its phone hash alone. -/
def modify (u : Users) (id : UserId) (f : UserRow → UserRow)
    (hf : ∀ r, (f r).live = true → r.live = true ∧ (f r).phoneHash = r.phoneHash) : Users where
  row := Function.update u.row id ((u.row id).map f)
  next := u.next
  unassigned i hi := by
    rw [Function.update_apply]
    split_ifs with h
    · rw [← h, u.unassigned i hi, Option.map_none]
    · exact u.unassigned i hi
  liveUnique i j r s hi hj hr hs hh := by
    have back : ∀ k t, Function.update u.row id ((u.row id).map f) k = some t → t.live = true →
        ∃ t', u.row k = some t' ∧ t'.live = true ∧ t.phoneHash = t'.phoneHash := by
      intro k t hk ht
      rw [Function.update_apply] at hk
      split_ifs at hk with hkid
      · obtain ⟨t', ht', rfl⟩ := Option.map_eq_some_iff.mp hk
        exact ⟨t', hkid ▸ ht', hf t' ht⟩
      · exact ⟨t, hk, ht, rfl⟩
    obtain ⟨r', hr', hl, he⟩ := back i r hi hr
    obtain ⟨s', hs', hl', he'⟩ := back j s hj hs
    exact u.liveUnique i j r' s' hr' hs' hl hl' (he.symm.trans (hh.trans he'))

@[simp] theorem insert_row (u : Users) (hash : Text) (now : ℤ) (h : u.liveWith hash = none) :
    (u.insert hash now h).row = Function.update u.row u.next (some (.pending hash now)) := rfl

@[simp] theorem skip_row (u : Users) : u.skip.row = u.row := rfl

@[simp] theorem modify_row (u : Users) (id : UserId) (f : UserRow → UserRow) (hf) :
    (u.modify id f hf).row = Function.update u.row id ((u.row id).map f) := rfl

end Users

theorem updated_cases {row : UserId → Option UserRow} {id i : UserId} {f : UserRow → UserRow}
    {r : UserRow} (h : Function.update row id ((row id).map f) i = some r) :
    row i = some r ∧ i ≠ id ∨ ∃ r', row i = some r' ∧ i = id ∧ r = f r' := by
  rw [Function.update_apply] at h
  split_ifs at h with hi
  · subst hi
    obtain ⟨r', hr', rfl⟩ := Option.map_eq_some_iff.mp h
    exact .inr ⟨r', hr', rfl, rfl⟩
  · exact .inl ⟨h, hi⟩

/-- One account's recovery material: ciphertexts, salts and the hashes of its proofs. -/
structure BackupRow where
  blob : List UInt8
  wPin : List UInt8
  saltP : List UInt8
  wPhrase : List UInt8
  saltF : List UInt8
  authPinHash : List UInt8
  saltA : List UInt8
  authPhraseHash : List UInt8
  saltPa : List UInt8
deriving DecidableEq

/-- The whole row. The attempt counter is a signed 32-bit column. -/
structure BackupRecord where
  row : BackupRow
  pinAttempts : ℤ
  lockedUntil : Option ℤ
  updatedAt : ℤ
deriving DecidableEq

structure SessionRow where
  userId : UserId
  createdAt : ℤ
deriving DecidableEq

structure Database where
  users : Users
  nicknameWidths : Text → Option ℕ
  phoneCooldown : List (Text × ℤ)
  pairingBootstrap : UserId → Option (Text × ℤ)
  sessions : Text → Option SessionRow
  backups : UserId → Option BackupRecord

/-- Outcome of a proof against the stored hashes. -/
inductive RestoreVerdict where
  | matched (row : BackupRow)
  | wrongPin (remaining : ℤ)
  | wrongPhrase
  | locked (until_ : ℤ)
deriving DecidableEq

structure PhoneEntry where
  phoneHash : Text
  userId : UserId
deriving DecidableEq

/-- A statement the database refused, or whose answer never came. -/
inductive DbError where
  | db
deriving DecidableEq

/-- An hour after the tenth wrong PIN, four after the twentieth, a day after each later tenth. -/
def lockoutHours (lockoutIndex : ℤ) : ℤ :=
  if lockoutIndex ≤ 1 then 1 else if lockoutIndex = 2 then 4 else 24

/-- Compares every byte, whatever the first difference. -/
def ctEq (a b : List UInt8) : Bool :=
  a.length == b.length && (a.zip b).foldl (fun acc p => acc ||| (p.1 ^^^ p.2)) 0 == 0

theorem ctEq_eq_true {a b : List UInt8} : ctEq a b = true ↔ a = b := by
  have hor : ∀ (l : List (UInt8 × UInt8)) (acc : UInt8),
      l.foldl (fun acc p => acc ||| (p.1 ^^^ p.2)) acc = 0 ↔ acc = 0 ∧ ∀ p ∈ l, p.1 = p.2 := by
    intro l
    induction l with
    | nil => simp
    | cons p l ih =>
      intro acc
      rw [foldl_cons, ih]
      simp [and_assoc]
  simp only [ctEq, Bool.and_eq_true, beq_iff_eq, hor, true_and]
  constructor
  · rintro ⟨hlen, hall⟩
    induction a generalizing b with
    | nil => simpa using hlen.symm
    | cons x a ih =>
      cases b with
      | nil => simp at hlen
      | cons =>
        simp only [zip_cons_cons, mem_cons, forall_eq_or_imp] at hall
        rw [hall.1, ih (by simpa using hlen) hall.2]
  · rintro rfl
    induction a with
    | nil => simp
    | cons x a ih => simpa using ih

def wrapI32 (x : ℤ) : ℤ := Int.bmod x (2 ^ 32)

namespace BackupRecord

def authHash (b : BackupRecord) (isPin : Bool) : List UInt8 :=
  if isPin then b.row.authPinHash else b.row.authPhraseHash

def lockedAt (b : BackupRecord) (now : ℤ) : Option ℤ :=
  b.lockedUntil.filter (fun until_ => now < until_)

def verifyAuth (b : BackupRecord) (auth : List UInt8) (isPin : Bool) (now : ℤ) :
    RestoreVerdict × BackupRecord :=
  match (if isPin then b.lockedAt now else none) with
  | some until_ => (.locked until_, b)
  | none =>
    if ctEq auth (b.authHash isPin) then
      (.matched b.row, { b with pinAttempts := 0, lockedUntil := none })
    else if !isPin then (.wrongPhrase, b)
    else
      let attempts := wrapI32 (b.pinAttempts + 1)
      if attempts.tmod 10 = 0 then
        let until_ := now + lockoutHours (attempts.tdiv 10) * 3600
        (.locked until_, { b with pinAttempts := attempts, lockedUntil := some until_ })
      else (.wrongPin (10 - attempts.tmod 10), { b with pinAttempts := attempts })

end BackupRecord

namespace Database

def empty : Database where
  users := .empty
  nicknameWidths := fun _ => none
  phoneCooldown := []
  pairingBootstrap := fun _ => none
  sessions := fun _ => none
  backups := fun _ => none

variable (db : Database) {phoneHash : Text}

/-- One statement: a live row of the hash is found, or a pending one inserted. -/
def findOrCreatePendingUser (phoneHash : Text) (now : ℤ) : UserId × Database :=
  match h : db.users.liveWith phoneHash with
  | some id => (id, { db with users := db.users.skip })
  | none => (db.users.next, { db with users := db.users.insert phoneHash now h })

theorem findOrCreatePendingUser_found {db : Database} {id : UserId}
    (h : db.users.liveWith phoneHash = some id) (now : ℤ) :
    db.findOrCreatePendingUser phoneHash now = (id, { db with users := db.users.skip }) := by
  unfold findOrCreatePendingUser
  split
  · rename_i i hi
    rw [h] at hi
    cases hi
    rfl
  · rename_i hn
    simp [h] at hn

theorem findOrCreatePendingUser_created {db : Database} (h : db.users.liveWith phoneHash = none)
    (now : ℤ) :
    db.findOrCreatePendingUser phoneHash now =
      (db.users.next, { db with users := db.users.insert phoneHash now h }) := by
  unfold findOrCreatePendingUser
  split
  · rename_i i hi
    simp [h] at hi
  · rfl

def markVerified (userId : UserId) : Database :=
  { db with
    users := db.users.modify userId (fun r => { r with verified := true }) (fun _ h => ⟨h, rfl⟩) }

def findUserByPhoneHash (phoneHash : Text) : Option UserId := db.users.liveWith phoneHash

def isVerified (userId : UserId) : Option Bool :=
  ((db.users.row userId).filter UserRow.live).map UserRow.verified

def isSearchable (userId : UserId) : Option Bool :=
  ((db.users.row userId).filter UserRow.live).map UserRow.searchable

def isPhoneInCooldown (phoneHash : Text) (now : ℤ) : Bool :=
  db.phoneCooldown.any (fun c => c.1 = phoneHash ∧ now - phoneCooldownHours * 3600 < c.2)

def taken (nickname : Text) : List ℕ :=
  db.users.ids.filterMap (fun id => (db.users.row id).bind (fun r => r.handle.bind (fun h =>
    if h.1 = nickname then some h.2 else none)))

def widthOf (nickname : Text) : ℕ := (db.nicknameWidths nickname).getD minDiscriminatorWidth

/-- The loop that widens while a width is exhausted; `room` counts the widths still ahead. -/
def claimSlot (taken : List ℕ) : (room width : ℕ) → Except UsernameError (ℕ × ℕ)
  | 0, width => (firstFreeSlot taken width).map (fun slot => (slot, width))
  | room + 1, width =>
    match firstFreeSlot taken width with
    | .ok slot => .ok (slot, width)
    | .error _ => claimSlot taken room (width + 1)

/-- The update of the two handle columns, under their unique constraint. -/
def setHandle (userId : UserId) (nickname : Text) (slot : ℕ) : Except DbError Database :=
  if (db.users.ids.any (fun id => id ≠ userId ∧
      (db.users.row id).any (fun r => r.handle = some (nickname, slot)))) then .error .db
  else .ok { db with
    users := db.users.modify userId (fun r => { r with handle := some (nickname, slot) })
      (fun _ h => ⟨h, rfl⟩) }

/-- What the commit of a claim makes visible. -/
def publish (userId : UserId) (nickname : Text) (slot width : ℕ) :
    Database :=
  { db with
    nicknameWidths := Function.update db.nicknameWidths nickname (some width)
    users := db.users.modify userId (fun r => { r with handle := some (nickname, slot) })
      (fun _ h => ⟨h, rfl⟩) }

/-- The transaction of a claim: read the width and the taken slots, choose, write both. -/
def claimTransaction (userId : UserId) (nickname : Text) :
    Except DbError (Except UsernameError (ℕ × ℕ) × Database) :=
  match claimSlot (db.taken nickname) (maxDiscriminatorWidth - db.widthOf nickname)
      (db.widthOf nickname) with
  | .error e => .ok (.error e, db)
  | .ok (slot, width) =>
    (setHandle { db with
      nicknameWidths := Function.update db.nicknameWidths nickname (some width) }
        userId nickname slot).map (fun db => (.ok (slot, width), db))

theorem claimTransaction_cases {db db' : Database} {userId : UserId} {nickname : Text}
    {outcome : Except UsernameError (ℕ × ℕ)}
    (h : db.claimTransaction userId nickname = .ok (outcome, db')) :
    (∃ e, outcome = .error e ∧ db' = db) ∨ ∃ slot width, outcome = .ok (slot, width) ∧
      claimSlot (db.taken nickname) (maxDiscriminatorWidth - db.widthOf nickname)
        (db.widthOf nickname) = .ok (slot, width) ∧
      db' = { db with
        nicknameWidths := Function.update db.nicknameWidths nickname (some width)
        users := db.users.modify userId (fun r => { r with handle := some (nickname, slot) })
          (fun _ h => ⟨h, rfl⟩) } := by
  rw [claimTransaction] at h
  cases hc : claimSlot (db.taken nickname) (maxDiscriminatorWidth - db.widthOf nickname)
      (db.widthOf nickname) with
  | error e =>
    simp only [hc, Except.ok.injEq, Prod.mk.injEq] at h
    exact .inl ⟨e, h.1.symm, h.2.symm⟩
  | ok p =>
    simp only [hc, setHandle] at h
    split_ifs at h
    · cases h
    · simp only [Except.map, Except.ok.injEq, Prod.mk.injEq] at h
      exact .inr ⟨p.1, p.2, h.1.symm, rfl, h.2.symm⟩

def findUserByHandle (nickname : Text) (discriminator : ℕ) : Option UserId :=
  db.users.search (fun r => r.live && r.handle == some (nickname, discriminator))

def setSearchable (userId : UserId) (searchable : Bool) (phoneSearchHash : Option Text) :
    Database :=
  let hash := if searchable then phoneSearchHash.getD [] else []
  { db with
    users := db.users.modify userId (fun r => { r with
      searchable := searchable
      phoneSearchHash := hash
      phoneSearchHashPrefix := hashPrefix hash }) (fun _ h => ⟨h, rfl⟩) }

/-- The two columns a handle is made of; the first statement of its rendering. -/
def handleRow (userId : UserId) : Option (Text × ℕ) := (db.users.row userId).bind UserRow.handle

/-- At the nickname's current width. -/
def handleFor (userId : UserId) : Option Text :=
  (db.handleRow userId).map (fun h => formatHandle h.1 h.2 (db.widthOf h.1))

/-- The transaction of an erasure: the cooldown starts, the row is scrubbed, and whatever
hangs on the account goes with it. The handle stays reserved. -/
def eraseUser (userId : UserId) (now : ℤ) : Database where
  users := db.users.modify userId (fun r => { r with
      phoneHash := []
      phoneHashPrefix := []
      searchable := false
      phoneSearchHash := []
      phoneSearchHashPrefix := []
      verified := false
      deletedAt := some now }) (fun _ h => by simp [UserRow.live] at h)
  nicknameWidths := db.nicknameWidths
  phoneCooldown := db.phoneCooldown ++
    ((db.users.row userId).map (fun r => (r.phoneHash, now))).toList
  pairingBootstrap := Function.update db.pairingBootstrap userId none
  sessions := fun token => (db.sessions token).filter (fun s => s.userId ≠ userId)
  backups := Function.update db.backups userId none

/-- Refused for an id that has no row. -/
def setPairingBootstrap (userId : UserId) (contactLinkB64 : Text) (now : ℤ) :
    Except DbError Database :=
  if (db.users.row userId).isSome then .ok { db with
    pairingBootstrap := Function.update db.pairingBootstrap userId (some (contactLinkB64, now)) }
  else .error .db

/-- Read and deleted in one statement, and only for a live searchable target. -/
def consumePairingBootstrap (userId : UserId) : Option Text × Database :=
  if (db.users.row userId).any (fun r => r.searchable && r.live) then
    ((db.pairingBootstrap userId).map Prod.fst,
      { db with pairingBootstrap := Function.update db.pairingBootstrap userId none })
  else (none, db)

/-- A new upload clears the attempt counter and the lock. -/
def upsertBackup (userId : UserId) (b : BackupRow) (now : ℤ) : Except DbError Database :=
  if (db.users.row userId).isSome then .ok { db with
    backups := Function.update db.backups userId (some ⟨b, 0, none, now⟩) }
  else .error .db

/-- A token that is already in the table violates its primary key. -/
def createSession (userId : UserId) (token : Text) (now : ℤ) : Except DbError (Text × Database) :=
  if (db.sessions token).isSome then .error .db
  else .ok (token, { db with
    sessions := Function.update db.sessions token (some ⟨userId, now⟩) })

def sessionUserId (token : Text) (now : ℤ) : Option UserId :=
  (db.sessions token).bind (fun s =>
    if now - sessionTtlDays * 24 * 3600 < s.createdAt ∧ (db.users.row s.userId).any UserRow.live
    then some s.userId else none)

def backupSalts (userId : UserId) : Option (List UInt8 × List UInt8) :=
  (db.backups userId).map (fun b => (b.row.saltA, b.row.saltPa))

def verifyBackupAuth (userId : UserId) (auth : List UInt8) (isPin : Bool) (now : ℤ) :
    Option RestoreVerdict × Database :=
  match db.backups userId with
  | none => (none, db)
  | some b =>
    (some (b.verifyAuth auth isPin now).1,
      { db with
        backups := Function.update db.backups userId (some (b.verifyAuth auth isPin now).2) })

/-- Every live searchable row of a bucket. -/
def bucket (pre : Text) : List PhoneEntry :=
  db.users.ids.filterMap (fun id => ((db.users.row id).filter (fun r =>
    r.phoneSearchHashPrefix == pre && r.searchable && r.live)).map (fun r =>
      ⟨r.phoneSearchHash, id⟩))

def claimUsername (userId : UserId) (nickname : Text) :
    Except DbError (Except UsernameError (ℕ × ℕ) × Database) :=
  match validateNickname nickname with
  | .error e => .ok (.error e, db)
  | .ok _ => db.claimTransaction userId nickname

end Database
end Rosette.Directory
