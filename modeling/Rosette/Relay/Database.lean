import Rosette.Proto.Wire
import Mathlib.Data.List.Sort
import Mathlib.Data.Prod.Lex

/-! # The relay's three tables and the statements run on them

Rows hold the raw blobs that were bound, so reading one back can fail. Each
statement below is atomic, and a transaction is a composition of them that takes
effect as a whole. An insertion that breaks a primary key is refused.
-/
namespace Rosette.Relay
open Foundation Proto List

/-- What the `epoch` column can hold. Integer addition past the signed 64-bit range
leaves the integers for good. -/
inductive SqlValue where
  | null
  | integer (n : ℤ)
  | real
deriving DecidableEq

def SqlValue.addOne : SqlValue → SqlValue
  | null => null
  | integer n => if n + 1 < 2 ^ 63 then integer (n + 1) else real
  | real => real

def bindU64 (n : UInt64) : Option SqlValue :=
  if n.toNat < 2 ^ 63 then some (.integer n.toNat) else none

inductive OpenError where
  | invalidQuery
  | invalidColumn
  | corruptEnvelope
deriving DecidableEq

def SqlValue.getOptionU64 : SqlValue → Except OpenError (Option UInt64)
  | null => .ok none
  | integer n => if 0 ≤ n then .ok (some (UInt64.ofNat n.toNat)) else .error .invalidColumn
  | real => .error .invalidColumn

def blob32 (bytes : List UInt8) : Except OpenError (Bytes 32) :=
  if h : bytes.length = 32 then .ok ⟨bytes, h⟩ else .error .invalidQuery

@[simp] theorem blob32_toList (v : Bytes 32) : blob32 v.toList = .ok v := by
  unfold blob32
  rw [dif_pos v.toList_length]
  rfl

structure QueueRow where
  queueId : List UInt8
  sendKey : List UInt8
  epoch : SqlValue
deriving DecidableEq

structure RosterRow where
  inboxId : List UInt8
  ord : ℕ
  memberQueue : List UInt8
deriving DecidableEq

structure PendingRow where
  seq : ℕ
  queueId : List UInt8
  messageId : List UInt8
  envelope : List UInt8
deriving DecidableEq

structure Database where
  queues : List QueueRow
  roster : List RosterRow
  pending : List PendingRow
  nextSeq : ℕ
deriving DecidableEq

namespace Database

def empty : Database := ⟨[], [], [], 1⟩

def insertQueue (db : Database) (row : QueueRow) : Option Database :=
  if db.queues.any (fun r => r.queueId = row.queueId) then none
  else some { db with queues := db.queues ++ [row] }

def insertRoster (db : Database) (row : RosterRow) : Option Database :=
  if db.roster.any (fun r => r.inboxId = row.inboxId ∧ r.ord = row.ord) then none
  else some { db with roster := db.roster ++ [row] }

/-- The sequence number comes from `AUTOINCREMENT`: it is above every earlier one. -/
def insertPending (db : Database) (queueId messageId envelope : List UInt8) : Database :=
  { db with
    pending := db.pending ++ [⟨db.nextSeq, queueId, messageId, envelope⟩]
    nextSeq := db.nextSeq + 1 }

/-- `UPDATE queues SET epoch = epoch + 1 WHERE queue_id = ?1`. -/
def advanceEpoch (db : Database) (queueId : List UInt8) : Database :=
  { db with queues := db.queues.map (fun r =>
      if r.queueId = queueId then { r with epoch := r.epoch.addOne } else r) }

/-- `DELETE FROM pending WHERE queue_id = ?1 AND message_id = ?2`. -/
def deletePending (db : Database) (queueId messageId : List UInt8) : Database :=
  { db with pending := db.pending.filter (fun r =>
      ¬ (r.queueId = queueId ∧ r.messageId = messageId)) }

def RosterRow.key (r : RosterRow) : List ℕ ×ₗ ℕ := toLex (r.inboxId.map UInt8.toNat, r.ord)

def selectRoster (db : Database) : List RosterRow :=
  db.roster.insertionSort (fun a b => RosterRow.key a ≤ RosterRow.key b)

def selectPending (db : Database) : List PendingRow :=
  db.pending.insertionSort (fun a b => a.seq ≤ b.seq)

/-- One roster row per member, numbered by its position from `ord` on. -/
def rosterRows (queueId : QueueId) (ord : ℕ) (members : List QueueId) : List RosterRow :=
  members.mapIdx (fun i member => ⟨queueId.toList, ord + i, member.toList⟩)

/-- The insertion loop over a new inbox's members. -/
def insertMembers (queueId : QueueId) : Database → ℕ → List QueueId → Option Database
  | db, _, [] => some db
  | db, ord, member :: members =>
    (db.insertRoster ⟨queueId.toList, ord, member.toList⟩).bind
      (fun db => insertMembers queueId db (ord + 1) members)

def insertCopies (messageId : MessageId) (envelope : List UInt8) (db : Database)
    (members : List QueueId) : Database :=
  members.foldl (fun db member => db.insertPending member.toList messageId.toList envelope) db

/-- The rows of one inbox, in the order they were numbered, whatever other rows there are. -/
theorem selectRoster_filter (db : Database) (id : List UInt8)
    (h : (db.roster.filter (fun r => r.inboxId = id)).Pairwise (fun a b => a.ord ≤ b.ord)) :
    db.selectRoster.filter (fun r => r.inboxId = id) =
      db.roster.filter (fun r => r.inboxId = id) := by
  have hp : (db.roster.filter (fun r => r.inboxId = id)).Pairwise
      (fun a b => RosterRow.key a ≤ RosterRow.key b) := by
    apply h.imp_of_mem
    intro a b ha hb hab
    have ha' : a.inboxId = id := by simpa using of_mem_filter ha
    have hb' : b.inboxId = id := by simpa using of_mem_filter hb
    simp only [RosterRow.key, Prod.Lex.toLex_le_toLex, ha', hb']
    exact .inr ⟨trivial, hab⟩
  have hs := sublist_insertionSort hp filter_sublist
  have hf := hs.filter (fun r => r.inboxId = id)
  rw [filter_filter] at hf
  simp only [Bool.and_self] at hf
  apply Eq.symm
  apply hf.eq_of_length
  exact ((perm_insertionSort _ db.roster).filter _).length_eq.symm

theorem selectPending_eq (db : Database) (h : db.pending.Pairwise (fun a b => a.seq ≤ b.seq)) :
    db.selectPending = db.pending := h.insertionSort_eq

section Copies
variable (messageId : MessageId) (envelope : List UInt8)

@[simp] theorem insertCopies_nil (db : Database) : insertCopies messageId envelope db [] = db := rfl

@[simp] theorem insertCopies_cons (db : Database) (m : QueueId) (ms : List QueueId) :
    insertCopies messageId envelope db (m :: ms) =
      insertCopies messageId envelope
        (db.insertPending m.toList messageId.toList envelope) ms := rfl

@[simp] theorem insertCopies_queues (db : Database) (ms : List QueueId) :
    (insertCopies messageId envelope db ms).queues = db.queues := by
  induction ms generalizing db with
  | nil => rfl
  | cons m ms ih =>
    rw [insertCopies_cons, ih]
    rfl

@[simp] theorem insertCopies_roster (db : Database) (ms : List QueueId) :
    (insertCopies messageId envelope db ms).roster = db.roster := by
  induction ms generalizing db with
  | nil => rfl
  | cons m ms ih =>
    rw [insertCopies_cons, ih]
    rfl

end Copies

variable {x : QueueId} {db : Database} {ord : ℕ}

theorem insertMembers_eq_some {db' : Database} {ms : List QueueId}
    (h : insertMembers x db ord ms = some db') :
    db' = { db with roster := db.roster ++ rosterRows x ord ms } := by
  induction ms generalizing db ord with
  | nil =>
    cases h
    simp [rosterRows]
  | cons m ms ih =>
    obtain ⟨db₁, h₁, h₂⟩ := Option.bind_eq_some_iff.mp h
    unfold insertRoster at h₁
    split_ifs at h₁
    cases h₁
    rw [ih h₂]
    simp [rosterRows, Nat.add_assoc, Nat.add_comm 1]

theorem insertMembers_isSome (ms : List QueueId)
    (h : ∀ r ∈ db.roster, r.inboxId = x.toList → r.ord < ord) :
    ∃ db', insertMembers x db ord ms = some db' := by
  induction ms generalizing db ord with
  | nil => exact ⟨db, rfl⟩
  | cons m ms ih =>
    have hfree : ¬ db.roster.any (fun r => r.inboxId = x.toList ∧ r.ord = ord) = true := by
      simp only [any_eq_true, decide_eq_true_eq, not_exists, not_and]
      intro r hr hx
      have := h r hr hx
      omega
    have hlt : ∀ r ∈ db.roster ++ [⟨x.toList, ord, m.toList⟩], r.inboxId = x.toList →
        r.ord < ord + 1 := by
      intro r hr hx
      rcases mem_append.mp hr with hr | hr
      · have := h r hr hx
        omega
      · rw [mem_singleton.mp hr]
        simp
    unfold insertMembers insertRoster
    rw [if_neg hfree]
    exact ih hlt

end Database
end Rosette.Relay
