import Rosette.Relay.Request

/-! # The database holds the ledger

The rows that stand for a ledger, and the reload that reads it back.
-/
namespace Rosette.Relay
open Foundation Proto List Ledger

def storedEpoch (e : UInt64) : SqlValue := if e.toNat < 2 ^ 63 then .integer e.toNat else .real

def rowOf (q : QueueId) (k : SendKey) : QueueKind → QueueRow
  | .mailbox _ => ⟨q.toList, k.toList, .null⟩
  | .groupInbox epoch _ => ⟨q.toList, k.toList, storedEpoch epoch⟩

@[simp] theorem rowOf_queueId (q : QueueId) (k : SendKey) (kind : QueueKind) :
    (rowOf q k kind).queueId = q.toList := by cases kind <;> rfl

/-- The queue and roster tables stand for the ledger's queues. -/
structure HoldsQueues (db : Database) (d : Ledger) : Prop where
  rows : ∀ row ∈ db.queues, ∃ q k kind, d.queues q = some (k, kind) ∧ row = rowOf q k kind
  present : ∀ q k kind, d.queues q = some (k, kind) → rowOf q k kind ∈ db.queues
  nodup : (db.queues.map QueueRow.queueId).Nodup
  roster : ∀ x : QueueId, db.roster.filter (fun r => r.inboxId = x.toList) =
    Database.rosterRows x 0 ((d.roster x).getD [])
  readable : ∀ row ∈ db.roster, ∃ x m : QueueId,
    row.inboxId = x.toList ∧ row.memberQueue = m.toList

/-- The pending table stands for the ledger's mailboxes and its storage account. -/
structure HoldsPending (db : Database) (d : Ledger) (entries : List (QueueId × Envelope)) :
    Prop where
  contents : db.pending.map PendingRow.content = entries.map entryContent
  ordered : db.pending.Pairwise (fun a b => a.seq < b.seq)
  below : ∀ row ∈ db.pending, row.seq < db.nextSeq
  size : ∀ p ∈ entries, p.2.paddedCiphertext.length ≤ maxMessageSize
  owned : ∀ p ∈ entries, d.isMailbox p.1 = true
  pending : ∀ q, d.pending q = (entriesOf q entries).map (fun e => (e.messageId, e))
  storage : d.storageBytesUsed = entryBytes entries

/-- The database stands for the ledger. -/
structure Holds (db : Database) (d : Ledger) : Prop where
  queues : HoldsQueues db d
  pending : ∃ entries, HoldsPending db d entries

def Ledger.empty : Ledger := ⟨fun _ => none, 0⟩

theorem holds_empty : Holds Database.empty Ledger.empty where
  queues := {
    rows := by simp [Database.empty]
    present := by simp [Ledger.empty]
    nodup := by simp [Database.empty]
    roster := by simp [Database.empty, Ledger.roster, Ledger.inbox, Ledger.empty,
      Database.rosterRows]
    readable := by simp [Database.empty] }
  pending := ⟨[], {
    contents := rfl
    ordered := Pairwise.nil
    below := by simp [Database.empty]
    size := by simp
    owned := by simp
    pending := fun _ => rfl
    storage := rfl }⟩

variable {d : Ledger} {q : QueueId} {e : UInt64} {k : SendKey} {kind : QueueKind} {now : ℕ}
  {db : Database}

theorem Ledger.isMailbox_iff : d.isMailbox q = true ↔ ∃ k p, d.queues q = some (k, .mailbox p) := by
  unfold Ledger.isMailbox
  rcases d.queues q with _ | ⟨k, p | ⟨e, r⟩⟩ <;> simp

/-! ## Reloading -/

theorem storedEpoch_read (h : e.toNat < 2 ^ 63) : (storedEpoch e).getOptionU64 = .ok (some e) := by
  unfold storedEpoch SqlValue.getOptionU64
  rw [if_pos h]
  simp

theorem rowReads_rowOf (h : ∀ e, kind.column = some e → e.toNat < 2 ^ 63) :
    RowReads (rowOf q k kind) q k kind.column := by
  cases kind with
  | mailbox => exact ⟨rfl, rfl, rfl⟩
  | groupInbox e => exact ⟨rfl, rfl, storedEpoch_read (h e rfl)⟩

def Ledger.Fits (d : Ledger) : Prop := ∀ x e, d.epoch x = some e → e.toNat < 2 ^ 63

theorem Ledger.Fits.column (h : d.Fits) (hq : d.queues q = some (k, kind)) (e : UInt64)
    (he : kind.column = some e) : e.toNat < 2 ^ 63 := by
  cases kind with
  | mailbox => cases he
  | groupInbox e' r =>
    cases he
    exact h q e (epoch_eq_some.mpr ⟨k, r, hq⟩)

theorem loadQueues_integers {rows : List QueueRow} {queues loaded : Queues}
    (h : loadQueues now queues rows = .ok loaded) : ∀ row ∈ rows, row.epoch ≠ .real := by
  induction rows generalizing queues with
  | nil => simp
  | cons row rows ih =>
    intro r hr
    unfold loadQueues at h
    cases hq : blob32 row.queueId with
    | error => simp [hq, bind, Except.bind] at h
    | ok =>
      cases hk : blob32 row.sendKey with
      | error => simp [hq, hk, bind, Except.bind] at h
      | ok =>
        cases he : row.epoch.getOptionU64 with
        | error => simp [hq, hk, he, bind, Except.bind] at h
        | ok =>
          simp only [hq, hk, he] at h
          rcases mem_cons.mp hr with rfl | hr
          · intro hreal
            simp [hreal, SqlValue.getOptionU64] at he
          · exact ih h r hr

theorem openDatabase_fits {inner : Inner} (h : HoldsQueues db d)
    (ho : openDatabase now db = .ok inner) : d.Fits := by
  intro x e he
  obtain ⟨k, r, hx⟩ := epoch_eq_some.mp he
  have hrow := h.present x k _ hx
  obtain ⟨qs, -, -, hl, -⟩ := openDatabase_ok ho
  have hne := loadQueues_integers hl _ hrow
  by_contra hbig
  exact hne (by simp only [rowOf, storedEpoch, if_neg hbig])

theorem Ledger.pending_of_mailbox {p : List (MessageId × Envelope)}
    (h : d.queues q = some (k, .mailbox p)) : d.pending q = p := by
  unfold Ledger.pending
  rw [h]

theorem Ledger.roster_of_groupInbox {r : List QueueId}
    (h : d.queues q = some (k, .groupInbox e r)) :
    d.roster q = some r := by
  unfold Ledger.roster Ledger.inbox
  rw [h]
  rfl

theorem rosterRows_sorted (x : QueueId) (ord : ℕ) (ms : List QueueId) :
    (Database.rosterRows x ord ms).Pairwise (fun a b => a.ord ≤ b.ord) := by
  unfold Database.rosterRows
  rw [pairwise_iff_getElem]
  simp only [getElem_mapIdx]
  omega

theorem membersOf_selectRoster (h : HoldsQueues db d) (x : QueueId) :
    membersOf x db.selectRoster = ((d.roster x).getD []).map List.Vector.toList := by
  have hs : (db.roster.filter (fun r => r.inboxId = x.toList)).Pairwise
      (fun a b => a.ord ≤ b.ord) := by
    rw [h.roster x]
    exact rosterRows_sorted x 0 _
  unfold membersOf
  rw [Database.selectRoster_filter db x.toList hs, h.roster x, Database.rosterRows]
  apply ext_getElem <;> simp

/-- The reload of a database that stands for a ledger succeeds and yields that ledger. -/
theorem openDatabase_holds (h : Holds db d) (hf : d.Fits) (now : ℕ) :
    ∃ inner, openDatabase now db = .ok inner ∧ inner.ledger = d ∧ inner.db = some db := by
  obtain ⟨entries, hp⟩ := h.pending
  obtain ⟨qs, hqs, hin, hout⟩ := loadQueues_ok now db.queues ∅
    (by
      intro row hrow
      obtain ⟨q, k, kind, hq, rfl⟩ := h.queues.rows row hrow
      exact ⟨q, k, _, rowReads_rowOf (hf.column hq)⟩)
    h.queues.nodup
  obtain ⟨rs, hrs, hmem⟩ := loadRoster_ok db.selectRoster qs
    (by
      intro row hrow
      exact h.queues.readable row ((perm_insertionSort _ db.roster).mem_iff.mp hrow))
  have hsel : db.selectPending = db.pending :=
    Database.selectPending_eq db (hp.ordered.imp (fun hab => Nat.le_of_lt hab))
  obtain ⟨ps, hps, hpend⟩ := loadPending_ok db.selectPending entries rs 0
    (by rw [hsel]; exact hp.contents) hp.size
  refine ⟨{ Inner.default with
    queues := ps
    storageBytesUsed := 0 + entryBytes entries
    db := some db }, ?_, ?_, rfl⟩
  · simp only [openDatabase, hqs, hrs, hps, bind, Except.bind, pure, Except.pure]
  · apply Ledger.ext
    · funext q
      change durableQueues ps q = d.queues q
      rw [hpend, hmem q _ (membersOf_selectRoster h.queues q)]
      rcases hq : d.queues q with _ | ⟨k, kind⟩
      · rw [hout q]
        · rfl
        · intro row hrow he
          obtain ⟨q', k, kind, hq', rfl⟩ := h.queues.rows row hrow
          rw [rowOf_queueId] at he
          simp [List.Vector.toList_injective he, hq] at hq'
      · rw [hin _ (h.queues.present q k kind hq) q k _ (rowReads_rowOf (hf.column hq))]
        cases kind with
        | mailbox =>
          have := hp.pending q
          rw [pending_of_mailbox hq] at this
          simp [kindOfEpoch, QueueKind.column, appendMembers, appendPending, this]
        | groupInbox =>
          simp [kindOfEpoch, QueueKind.column, appendMembers, appendPending,
            roster_of_groupInbox hq]
    · change 0 + entryBytes entries = d.storageBytesUsed
      rw [hp.storage, Nat.zero_add]

end Rosette.Relay
