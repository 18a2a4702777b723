import Rosette.Relay.State

/-! # Reloading the relay from its database

Three scans: the queues with their keys and kinds, the rosters in order, and the
pending entries in sequence order. The lemmas say what each scan leaves at one
queue id.
-/
namespace Rosette.Relay
open Foundation Proto List Function

def kindOfEpoch : Option UInt64 → QueueKind
  | none => .mailbox []
  | some epoch => .groupInbox epoch []

def loadQueues (now : ℕ) : Queues → List QueueRow → Except OpenError Queues
  | queues, [] => .ok queues
  | queues, row :: rows => do
    let queueId ← blob32 row.queueId
    let sendKey ← blob32 row.sendKey
    let epoch ← row.epoch.getOptionU64
    loadQueues now (queues.insert queueId ⟨sendKey, kindOfEpoch epoch, 0, now⟩) rows

/-- Rows of an unknown inbox, or of a mailbox, are skipped. -/
def pushMember (queues : Queues) (inbox member : QueueId) : Queues :=
  match queues.lookup inbox with
  | some ⟨k, .groupInbox epoch fanOutTo, n, w⟩ =>
    queues.insert inbox ⟨k, .groupInbox epoch (fanOutTo ++ [member]), n, w⟩
  | _ => queues

def loadRoster : Queues → List RosterRow → Except OpenError Queues
  | queues, [] => .ok queues
  | queues, row :: rows => do
    let inbox ← blob32 row.inboxId
    let member ← blob32 row.memberQueue
    loadRoster (pushMember queues inbox member) rows

def pushPending (queues : Queues) (q : QueueId) (e : Envelope) : Queues :=
  match queues.lookup q with
  | some ⟨k, .mailbox pending, n, w⟩ =>
    queues.insert q ⟨k, .mailbox (pending ++ [(e.messageId, e)]), n, w⟩
  | _ => queues

/-- Bytes are counted for every row, also for one whose mailbox is missing. -/
def loadPending : Queues → ℕ → List PendingRow → Except OpenError (Queues × ℕ)
  | queues, used, [] => .ok (queues, used)
  | queues, used, row :: rows => do
    let q ← blob32 row.queueId
    match decodeFrom Envelope.codec row.envelope with
    | none => .error .corruptEnvelope
    | some e => loadPending (pushPending queues q e) (used + e.paddedCiphertext.length) rows

def openDatabase (now : ℕ) (db : Database) : Except OpenError Inner := do
  let queues ← loadQueues now ∅ db.queues
  let queues ← loadRoster queues db.selectRoster
  let loaded ← loadPending queues 0 db.selectPending
  return { Inner.default with
    queues := loaded.1
    storageBytesUsed := loaded.2
    db := some db }

/-- A successful reload has made its three scans; the rest is as in a new process. -/
theorem openDatabase_ok {now : ℕ} {db : Database} {inner : Inner}
    (h : openDatabase now db = .ok inner) : ∃ qs rs ps, loadQueues now ∅ db.queues = .ok qs ∧
      loadRoster qs db.selectRoster = .ok rs ∧ loadPending rs 0 db.selectPending = .ok ps ∧
      inner = { Inner.default with queues := ps.1, storageBytesUsed := ps.2, db := some db } := by
  unfold openDatabase at h
  cases h₁ : loadQueues now ∅ db.queues with
  | error => simp [h₁, bind, Except.bind] at h
  | ok qs =>
    cases h₂ : loadRoster qs db.selectRoster with
    | error => simp [h₁, h₂, bind, Except.bind] at h
    | ok rs =>
      cases h₃ : loadPending rs 0 db.selectPending with
      | error => simp [h₁, h₂, h₃, bind, Except.bind] at h
      | ok ps =>
        simp only [h₁, h₂, h₃, bind, Except.bind, pure, Except.pure, Except.ok.injEq] at h
        exact ⟨qs, rs, ps, rfl, h₂, h₃, h.symm⟩

def QueueEntry.durable (e : QueueEntry) : SendKey × QueueKind := (e.sendKey, e.kind)

def durableQueues (queues : Queues) (q : QueueId) : Option (SendKey × QueueKind) :=
  (queues.lookup q).map QueueEntry.durable

theorem durableQueues_insert (queues : Queues) (q : QueueId) (e : QueueEntry) :
    durableQueues (queues.insert q e) = update (durableQueues queues) q (some e.durable) := by
  funext x
  unfold durableQueues
  by_cases h : x = q
  · subst x
    rw [Finmap.lookup_insert, update_self, Option.map_some]
  · rw [Finmap.lookup_insert_of_ne _ h, update_of_ne h]

/-- What one queue row says about its queue. -/
structure RowReads (row : QueueRow) (q : QueueId) (k : SendKey) (epoch : Option UInt64) : Prop where
  queueId : row.queueId = q.toList
  sendKey : row.sendKey = k.toList
  epoch : row.epoch.getOptionU64 = .ok epoch

theorem loadQueues_cons {row : QueueRow} {q : QueueId} {k : SendKey} {epoch : Option UInt64}
    (h : RowReads row q k epoch) (now : ℕ) (queues : Queues) (rows : List QueueRow) :
    loadQueues now queues (row :: rows) =
      loadQueues now (queues.insert q ⟨k, kindOfEpoch epoch, 0, now⟩) rows := by
  rw [loadQueues, h.queueId, h.sendKey, h.epoch, blob32_toList, blob32_toList]
  rfl

/-- Readable rows with distinct ids load, each to its own entry and to nothing else. -/
theorem loadQueues_ok (now : ℕ) (rows : List QueueRow) (queues : Queues)
    (hread : ∀ row ∈ rows, ∃ q k epoch, RowReads row q k epoch)
    (hnd : (rows.map QueueRow.queueId).Nodup) :
    ∃ loaded, loadQueues now queues rows = .ok loaded ∧
      (∀ row ∈ rows, ∀ q k epoch, RowReads row q k epoch →
        durableQueues loaded q = some (k, kindOfEpoch epoch)) ∧
      ∀ q : QueueId, (∀ row ∈ rows, row.queueId ≠ q.toList) →
        durableQueues loaded q = durableQueues queues q := by
  induction rows generalizing queues with
  | nil => exact ⟨queues, rfl, by simp, fun _ _ => rfl⟩
  | cons row rows ih =>
    obtain ⟨q, k, epoch, h⟩ := hread row mem_cons_self
    rw [map_cons, nodup_cons] at hnd
    obtain ⟨loaded, hl, hin, hout⟩ := ih (queues.insert q ⟨k, kindOfEpoch epoch, 0, now⟩)
      (fun r hr => hread r (mem_cons_of_mem _ hr)) hnd.2
    have hfresh : ∀ r ∈ rows, r.queueId ≠ q.toList := by
      intro r hr he
      apply hnd.1
      rw [h.queueId, ← he]
      exact mem_map_of_mem hr
    refine ⟨loaded, by rw [loadQueues_cons h, hl], ?_, ?_⟩
    · intro r hr q' k' epoch' h'
      rcases mem_cons.mp hr with rfl | hr
      · have hq : q' = q := List.Vector.toList_injective (h'.queueId.symm.trans h.queueId)
        have hk : k' = k := List.Vector.toList_injective (h'.sendKey.symm.trans h.sendKey)
        have he : epoch' = epoch := by
          have := h'.epoch.symm.trans h.epoch
          injection this
        subst hq hk he
        rw [hout q' hfresh, durableQueues_insert, update_self]
        rfl
      · exact hin r hr q' k' epoch' h'
    · intro x hx
      have hxq : x ≠ q := by
        rintro rfl
        exact hx row mem_cons_self h.queueId
      rw [hout x (fun r hr => hx r (mem_cons_of_mem _ hr)), durableQueues_insert, update_of_ne hxq]

/-- Append members to a roster; nothing happens to a mailbox. -/
def appendMembers (members : List QueueId) : SendKey × QueueKind → SendKey × QueueKind
  | (k, .groupInbox epoch fanOutTo) => (k, .groupInbox epoch (fanOutTo ++ members))
  | p => p

def appendPending (es : List Envelope) : SendKey × QueueKind → SendKey × QueueKind
  | (k, .mailbox pending) => (k, .mailbox (pending ++ es.map (fun e => (e.messageId, e))))
  | p => p

theorem durableQueues_pushMember (queues : Queues) (inbox member q : QueueId) :
    durableQueues (pushMember queues inbox member) q =
      (durableQueues queues q).map (appendMembers (if inbox = q then [member] else [])) := by
  unfold pushMember
  split
  · rename_i k epoch fanOutTo n w h
    rw [durableQueues_insert]
    by_cases hq : inbox = q
    · subst hq
      rw [durableQueues, h]
      simp [appendMembers, QueueEntry.durable]
    · rw [update_of_ne (Ne.symm hq), if_neg hq]
      rcases durableQueues queues q with _ | ⟨k', _ | _⟩ <;> simp [appendMembers]
  · rename_i h
    by_cases hq : inbox = q
    · subst hq
      rw [durableQueues]
      rcases hl : queues.lookup inbox with _ | ⟨k, _ | ⟨epoch, fanOutTo⟩, n, w⟩
      · rfl
      · rfl
      · exact absurd hl (h k epoch fanOutTo n w)
    · rw [if_neg hq]
      rcases durableQueues queues q with _ | ⟨k', _ | _⟩ <;> simp [appendMembers]

theorem durableQueues_pushPending (queues : Queues) (p q : QueueId) (e : Envelope) :
    durableQueues (pushPending queues p e) q =
      (durableQueues queues q).map (appendPending (if p = q then [e] else [])) := by
  unfold pushPending
  split
  · rename_i k pending n w h
    rw [durableQueues_insert]
    by_cases hq : p = q
    · subst hq
      rw [durableQueues, h]
      simp [appendPending, QueueEntry.durable]
    · rw [update_of_ne (Ne.symm hq), if_neg hq]
      rcases durableQueues queues q with _ | ⟨k', _ | _⟩ <;> simp [appendPending]
  · rename_i h
    by_cases hq : p = q
    · subst hq
      rw [durableQueues]
      rcases hl : queues.lookup p with _ | ⟨k, pending | ⟨epoch, fanOutTo⟩, n, w⟩
      · rfl
      · exact absurd hl (h k pending n w)
      · rfl
    · rw [if_neg hq]
      rcases durableQueues queues q with _ | ⟨k', _ | _⟩ <;> simp [appendPending]

theorem appendMembers_append (as bs : List QueueId) (p : SendKey × QueueKind) :
    appendMembers bs (appendMembers as p) = appendMembers (as ++ bs) p := by
  rcases p with ⟨k, _ | _⟩ <;> simp [appendMembers]

theorem appendPending_append (as bs : List Envelope) (p : SendKey × QueueKind) :
    appendPending bs (appendPending as p) = appendPending (as ++ bs) p := by
  rcases p with ⟨k, _ | _⟩ <;> simp [appendPending]

/-- The members the roster scan appends to one queue, in scan order. -/
def membersOf (q : QueueId) (rows : List RosterRow) : List (List UInt8) :=
  (rows.filter (fun r => r.inboxId = q.toList)).map RosterRow.memberQueue

theorem loadRoster_ok (rows : List RosterRow) (queues : Queues)
    (hread : ∀ row ∈ rows, ∃ x m : QueueId, row.inboxId = x.toList ∧ row.memberQueue = m.toList) :
    ∃ loaded, loadRoster queues rows = .ok loaded ∧
      ∀ (q : QueueId) (ms : List QueueId), membersOf q rows = ms.map List.Vector.toList →
        durableQueues loaded q = (durableQueues queues q).map (appendMembers ms) := by
  induction rows generalizing queues with
  | nil =>
    refine ⟨queues, rfl, fun q ms h => ?_⟩
    obtain rfl : ms = [] := by simpa [membersOf] using h
    rcases durableQueues queues q with _ | ⟨k, _ | _⟩ <;> simp [appendMembers]
  | cons row rows ih =>
    obtain ⟨x, m, hx, hm⟩ := hread row mem_cons_self
    obtain ⟨loaded, hl, hq⟩ := ih (pushMember queues x m)
      (fun r hr => hread r (mem_cons_of_mem _ hr))
    refine ⟨loaded, ?_, ?_⟩
    · rw [loadRoster, hx, hm, blob32_toList, blob32_toList]
      exact hl
    · intro q ms hms
      unfold membersOf at hms
      rw [filter_cons] at hms
      by_cases hxq : x = q
      · subst hxq
        simp only [hx, decide_true, if_true, map_cons] at hms
        rcases ms with _ | ⟨m', ms⟩
        · simp at hms
        · rw [map_cons, cons.injEq, hm] at hms
          have hm' : m' = m := List.Vector.toList_injective hms.1.symm
          subst hm'
          rw [hq x ms hms.2, durableQueues_pushMember, if_pos rfl, Option.map_map]
          congr 1
          funext p
          exact appendMembers_append [m'] ms p
      · have hne : row.inboxId ≠ q.toList := by
          rw [hx]
          exact fun h => hxq (List.Vector.toList_injective h)
        rw [if_neg (by simpa using hne)] at hms
        rw [hq q ms hms, durableQueues_pushMember, if_neg hxq, Option.map_map]
        congr 1
        funext p
        exact appendMembers_append [] ms p

/-- The columns of a pending row other than its sequence number. -/
def PendingRow.content (r : PendingRow) : List UInt8 × List UInt8 × List UInt8 :=
  (r.queueId, r.messageId, r.envelope)

/-- What is written for one stored entry. -/
def entryContent (p : QueueId × Envelope) : List UInt8 × List UInt8 × List UInt8 :=
  (p.1.toList, p.2.messageId.toList, Envelope.codec.encode p.2)

def entryBytes (entries : List (QueueId × Envelope)) : ℕ :=
  (entries.map (fun p => p.2.paddedCiphertext.length)).sum

/-- The entries of one mailbox, oldest first. -/
def entriesOf (q : QueueId) (entries : List (QueueId × Envelope)) : List Envelope :=
  (entries.filter (fun p => p.1 = q)).map Prod.snd

/-- Rows written for envelopes of admissible size load, each into its own mailbox, in order. -/
theorem loadPending_ok (rows : List PendingRow) (entries : List (QueueId × Envelope))
    (queues : Queues) (used : ℕ) (hrows : rows.map PendingRow.content = entries.map entryContent)
    (hsize : ∀ p ∈ entries, p.2.paddedCiphertext.length ≤ maxMessageSize) :
    ∃ loaded, loadPending queues used rows = .ok (loaded, used + entryBytes entries) ∧
      ∀ q, durableQueues loaded q =
        (durableQueues queues q).map (appendPending (entriesOf q entries)) := by
  induction entries generalizing queues used rows with
  | nil =>
    obtain rfl : rows = [] := by simpa using hrows
    refine ⟨queues, rfl, fun q => ?_⟩
    rcases durableQueues queues q with _ | ⟨k, _ | _⟩ <;> simp [appendPending, entriesOf]
  | cons p entries ih =>
    rcases rows with _ | ⟨row, rows⟩
    · simp at hrows
    rw [map_cons, map_cons, cons.injEq] at hrows
    obtain ⟨hrow, hrows⟩ := hrows
    simp only [PendingRow.content, entryContent, Prod.mk.injEq] at hrow
    have hp := hsize p mem_cons_self
    obtain ⟨loaded, hl, hq⟩ := ih rows (pushPending queues p.1 p.2)
      (used + p.2.paddedCiphertext.length) hrows (fun r hr => hsize r (mem_cons_of_mem _ hr))
    refine ⟨loaded, ?_, ?_⟩
    · rw [loadPending, hrow.1, hrow.2.2, blob32_toList, Envelope.decodeFrom_encode hp]
      simp only [entryBytes, map_cons, sum_cons] at hl ⊢
      rw [← Nat.add_assoc]
      exact hl
    · intro q
      rw [hq, durableQueues_pushPending, Option.map_map]
      congr 1
      funext r
      by_cases hpq : p.1 = q
      · simp only [comp_apply, appendPending_append, entriesOf, filter_cons, hpq,
          decide_true, if_true, map_cons, singleton_append]
      · simp only [comp_apply, appendPending_append, entriesOf, filter_cons, hpq,
          decide_false]
        rfl

end Rosette.Relay
