import Rosette.Relay.Recovery

/-! # The statements follow the ledger

Each mutation's statement or transaction carries a database that stands for one
ledger to one that stands for the next. The fan-out is filtered to mailboxes on
the way to the database and not in memory; both leave the same entries.
-/
namespace Rosette.Relay
open Foundation Proto List Ledger

variable {d d' : Ledger} {q x : QueueId} {k : SendKey} {r : List QueueId}
  {p : List (MessageId × Envelope)} {e : Envelope}

theorem storedEpoch_addOne {e : UInt64} (h : e.toNat + 1 < 2 ^ 64) :
    (storedEpoch e).addOne = storedEpoch (e + 1) := by
  have hn : (e + 1).toNat = e.toNat + 1 := by exact Nat.mod_eq_of_lt h
  unfold storedEpoch
  rw [hn]
  by_cases hs : e.toNat < 2 ^ 63
  · rw [if_pos hs, SqlValue.addOne]
    by_cases hs' : e.toNat + 1 < 2 ^ 63
    · rw [if_pos hs', if_pos (by exact_mod_cast hs')]
      simp
    · rw [if_neg hs', if_neg (by exact_mod_cast hs')]
  · rw [if_neg hs, if_neg (by omega)]
    rfl

def QueueKind.members : QueueKind → List QueueId
  | .mailbox _ => []
  | .groupInbox _ r => r

namespace HoldsQueues

variable {db db' : Database} {e : UInt64}

variable (h : HoldsQueues db d)
include h

/-- A new queue's rows, under an id that had none. -/
theorem set_fresh (hq : d.queues q = none) (k : SendKey) (kind : QueueKind) :
    HoldsQueues { db with
      queues := db.queues ++ [rowOf q k kind]
      roster := db.roster ++ Database.rosterRows q 0 kind.members } (d.set q (k, kind)) where
  rows := by
    intro row hrow
    rcases mem_append.mp hrow with hrow | hrow
    · obtain ⟨q', k', kind', hq', rfl⟩ := h.rows row hrow
      refine ⟨q', k', kind', ?_, rfl⟩
      rw [set_queues_of_ne, hq']
      rintro rfl
      simp [hq] at hq'
    · exact ⟨q, k, kind, d.set_queues_self q _, mem_singleton.mp hrow⟩
  present := by
    intro q' k' kind' hq'
    by_cases hqq : q' = q
    · subst hqq
      simp only [set_queues_self, Option.some.injEq, Prod.mk.injEq] at hq'
      simp [hq'.1, hq'.2]
    · rw [set_queues_of_ne _ hqq] at hq'
      exact mem_append_left _ (h.present q' k' kind' hq')
  nodup := by
    rw [map_append, nodup_append]
    refine ⟨h.nodup, by simp, ?_⟩
    intro a ha b hb hab
    obtain ⟨row, hrow, rfl⟩ := mem_map.mp ha
    obtain ⟨q', k', kind', hq', rfl⟩ := h.rows row hrow
    rw [map_singleton, mem_singleton, rowOf_queueId] at hb
    rw [rowOf_queueId, hb] at hab
    simp [List.Vector.toList_injective hab, hq] at hq'
  roster := by
    intro x
    rw [filter_append, h.roster x]
    by_cases hx : x = q
    · subst hx
      have hold : d.roster x = none := by simp [Ledger.roster, Ledger.inbox, hq]
      have hnew : ((d.set x (k, kind)).roster x).getD [] = kind.members := by
        cases kind <;> simp [Ledger.roster, Ledger.inbox, QueueKind.members]
      rw [hold, hnew, filter_eq_self.mpr]
      · simp [Database.rosterRows]
      · intro r hr
        obtain ⟨i, hi, rfl⟩ := getElem_of_mem hr
        simp [Database.rosterRows]
    · have hsame : (d.set q (k, kind)).roster x = d.roster x := by
        simp [Ledger.roster, Ledger.inbox, set_queues_of_ne _ hx]
      rw [hsame, filter_eq_nil_iff.mpr, append_nil]
      intro r hr
      obtain ⟨i, hi, rfl⟩ := getElem_of_mem hr
      simp only [Database.rosterRows, getElem_mapIdx, decide_eq_true_eq]
      exact fun he => hx (List.Vector.toList_injective he.symm)
  readable := by
    intro row hrow
    rcases mem_append.mp hrow with hrow | hrow
    · exact h.readable row hrow
    · obtain ⟨i, hi, rfl⟩ := getElem_of_mem hrow
      have hi' : i < kind.members.length := by simpa [Database.rosterRows] using hi
      exact ⟨q, kind.members.get ⟨i, hi'⟩, by simp [Database.rosterRows]⟩

/-- Same key, same column, same roster: the queue and roster tables need no change. -/
theorem set_same {p' : List (MessageId × Envelope)} (hq : d.queues q = some (k, .mailbox p))
    (hqs : db'.queues = db.queues) (hrs : db'.roster = db.roster) :
    HoldsQueues db' (d.set q (k, .mailbox p')) where
  rows := by
    intro row hrow
    rw [hqs] at hrow
    obtain ⟨q', k', kind', hq', rfl⟩ := h.rows row hrow
    by_cases hqq : q' = q
    · subst hqq
      rw [hq] at hq'
      cases hq'
      exact ⟨q', k, _, d.set_queues_self q' _, rfl⟩
    · exact ⟨q', k', kind', by rw [d.set_queues_of_ne hqq, hq'], rfl⟩
  present := by
    intro q' k' kind' hq'
    rw [hqs]
    by_cases hqq : q' = q
    · subst hqq
      rw [set_queues_self] at hq'
      cases hq'
      exact h.present q' k (.mailbox p) hq
    · rw [d.set_queues_of_ne hqq] at hq'
      exact h.present q' k' kind' hq'
  nodup := by
    rw [hqs]
    exact h.nodup
  roster := by
    intro x
    rw [hrs, h.roster x]
    by_cases hx : x = q
    · subst hx
      simp [Ledger.roster, Ledger.inbox, hq]
    · simp [Ledger.roster, Ledger.inbox, d.set_queues_of_ne hx]
  readable := by
    rw [hrs]
    exact h.readable

theorem congr (hqs : db'.queues = db.queues) (hrs : db'.roster = db.roster)
    (hd : d'.queues = d.queues) : HoldsQueues db' d' where
  rows := by rw [hqs, hd]; exact h.rows
  present := by rw [hqs, hd]; exact h.present
  nodup := by rw [hqs]; exact h.nodup
  roster := by
    intro x
    rw [hrs, h.roster x]
    simp [Ledger.roster, Ledger.inbox, hd]
  readable := by rw [hrs]; exact h.readable

/-- The `UPDATE` moves exactly the row of the inbox. -/
theorem advance (hx : d.queues x = some (k, .groupInbox e r)) (he : e.toNat + 1 < 2 ^ 64) :
    HoldsQueues (db.advanceEpoch x.toList) (d.set x (k, .groupInbox (e + 1) r)) where
  rows := by
    intro row hrow
    obtain ⟨row', hrow', rfl⟩ := mem_map.mp hrow
    obtain ⟨q', k', kind', hq', rfl⟩ := h.rows row' hrow'
    by_cases hqq : q' = x
    · subst hqq
      rw [hx] at hq'
      cases hq'
      refine ⟨q', k, _, d.set_queues_self q' _, ?_⟩
      simp [rowOf, storedEpoch_addOne he]
    · refine ⟨q', k', kind', by rw [d.set_queues_of_ne hqq, hq'], if_neg ?_⟩
      rw [rowOf_queueId]
      exact fun hc => hqq (List.Vector.toList_injective hc)
  present := by
    intro q' k' kind' hq'
    by_cases hqq : q' = x
    · subst hqq
      rw [set_queues_self] at hq'
      cases hq'
      refine mem_map.mpr ⟨_, h.present q' k _ hx, ?_⟩
      simp [rowOf, storedEpoch_addOne he]
    · rw [d.set_queues_of_ne hqq] at hq'
      refine mem_map.mpr ⟨_, h.present q' k' kind' hq', if_neg ?_⟩
      rw [rowOf_queueId]
      exact fun hc => hqq (List.Vector.toList_injective hc)
  nodup := by
    have hids : (db.advanceEpoch x.toList).queues.map QueueRow.queueId =
        db.queues.map QueueRow.queueId := by
      unfold Database.advanceEpoch
      rw [map_map]
      apply map_congr_left
      intro row _
      simp only [Function.comp_apply]
      split_ifs <;> rfl
    rw [hids]
    exact h.nodup
  roster := by
    intro y
    change db.roster.filter _ = _
    rw [h.roster y]
    by_cases hy : y = x
    · subst hy
      simp [Ledger.roster, Ledger.inbox, hx]
    · simp [Ledger.roster, Ledger.inbox, d.set_queues_of_ne hy]
  readable := h.readable

theorem advance_overflow (hx : d.queues x = some (k, .groupInbox e r))
    (he : ¬ e.toNat + 1 < 2 ^ 64) : HoldsQueues (db.advanceEpoch x.toList) d := by
  refine h.congr ?_ rfl rfl
  conv_rhs => rw [← map_id db.queues]
  apply map_congr_left
  intro row hrow
  obtain ⟨q', k', kind', hq', rfl⟩ := h.rows row hrow
  by_cases hqq : q' = x
  · subst hqq
    rw [hx] at hq'
    cases hq'
    have hreal : storedEpoch e = .real := if_neg (by omega)
    simp [rowOf, hreal, SqlValue.addOne]
  · apply if_neg
    rw [rowOf_queueId]
    exact fun hc => hqq (List.Vector.toList_injective hc)

end HoldsQueues

theorem entryBytes_append (as bs : List (QueueId × Envelope)) :
    entryBytes (as ++ bs) = entryBytes as + entryBytes bs := by simp [entryBytes]

theorem entryBytes_filter (f : QueueId × Envelope → Bool) (entries : List (QueueId × Envelope)) :
    entryBytes (entries.filter (fun p => !f p)) + entryBytes (entries.filter f) =
      entryBytes entries := by
  induction entries with
  | nil => rfl
  | cons p entries ih => cases hf : f p <;> simp [entryBytes, hf] at ih ⊢ <;> omega

namespace HoldsPending
variable {db db' : Database} {entries : List (QueueId × Envelope)}

variable (h : HoldsPending db d entries)
include h

theorem congr (hp : db'.pending = db.pending) (hs : db'.nextSeq = db.nextSeq)
    (hpend : d'.pending = d.pending) (hbox : d'.isMailbox = d.isMailbox)
    (hused : d'.storageBytesUsed = d.storageBytesUsed) :
    HoldsPending db' d' entries where
  contents := by rw [hp]; exact h.contents
  ordered := by rw [hp]; exact h.ordered
  below := by rw [hp, hs]; exact h.below
  size := h.size
  owned := by rw [hbox]; exact h.owned
  pending := by rw [hpend]; exact h.pending
  storage := by rw [hused]; exact h.storage

/-- One more row at the end is one more entry in its mailbox. -/
theorem insert (hq : d.queues q = some (k, .mailbox p))
    (he : e.paddedCiphertext.length ≤ maxMessageSize) :
    HoldsPending (db.insertPending q.toList e.messageId.toList (Envelope.codec.encode e))
      (d.deliver e q) (entries ++ [(q, e)]) where
  contents := by
    simp only [Database.insertPending, map_append, h.contents]
    rfl
  ordered := by
    refine pairwise_append.mpr ⟨h.ordered, pairwise_singleton _ _, ?_⟩
    intro a ha b hb
    rw [mem_singleton.mp hb]
    exact h.below a ha
  below := by
    intro row hrow
    rcases mem_append.mp hrow with hrow | hrow
    · exact Nat.lt_succ_of_lt (h.below row hrow)
    · rw [mem_singleton.mp hrow]
      exact Nat.lt_succ_self _
  size := by
    intro r hr
    rcases mem_append.mp hr with hr | hr
    · exact h.size r hr
    · rw [mem_singleton.mp hr]
      exact he
  owned := by
    intro r hr
    rw [isMailbox_deliver]
    rcases mem_append.mp hr with hr | hr
    · exact h.owned r hr
    · rw [mem_singleton.mp hr]
      exact isMailbox_iff.mpr ⟨k, p, hq⟩
  pending := by
    intro x
    rw [pending_deliver, h.pending x, entriesOf, entriesOf]
    by_cases hx : q = x
    · subst hx
      simp [isMailbox_iff.mpr ⟨k, p, hq⟩]
    · simp [hx]
  storage := by
    rw [entryBytes_append, ← h.storage, Ledger.deliver, hq]
    simp [entryBytes]

/-- The `DELETE` removes exactly the entries the acked id names. -/
theorem delete (q : QueueId) (id : MessageId) :
    HoldsPending (db.deletePending q.toList id.toList) (d.removeAcked q id)
      (entries.filter (fun p => !(p.1 = q ∧ p.2.messageId = id : Bool))) where
  contents := by
    have hc := congrArg (filter (fun c : List UInt8 × List UInt8 × List UInt8 =>
      !(c.1 = q.toList ∧ c.2.1 = id.toList : Bool))) h.contents
    rw [filter_map, filter_map] at hc
    convert hc using 2
    · apply filter_congr
      intro row _
      by_cases hq : row.queueId = q.toList <;> by_cases hid : row.messageId = id.toList <;>
        simp [PendingRow.content, hid]
    · apply filter_congr
      simp [entryContent, List.Vector.toList_injective.eq_iff]
  ordered := h.ordered.filter _
  below := fun row hrow => h.below row (mem_of_mem_filter hrow)
  size := fun r hr => h.size r (mem_of_mem_filter hr)
  owned := by
    intro r hr
    rw [isMailbox_removeAcked]
    exact h.owned r (mem_of_mem_filter hr)
  pending := by
    intro x
    rw [pending_removeAcked, h.pending x, entriesOf, entriesOf, filter_filter]
    by_cases hx : x = q
    · subst hx
      rw [if_pos rfl, filter_map, filter_map, filter_filter]
      congr 2
      apply filter_congr
      intro p _
      by_cases hp : p.1 = x <;> simp [hp]
    · rw [if_neg hx]
      congr 2
      apply filter_congr
      intro p _
      by_cases hp : p.1 = x <;> simp [hp, hx]
  storage := by
    have hfreed : (((d.pending q).filter (fun p => p.1 = id)).map
        (fun p => p.2.paddedCiphertext.length)).sum =
        entryBytes (entries.filter (fun p => p.1 = q ∧ p.2.messageId = id)) := by
      rw [h.pending q, entriesOf, filter_map, filter_map, filter_filter, entryBytes,
        map_map, map_map]
      congr 2
      apply filter_congr
      intro p _
      by_cases hp : p.1 = q <;> simp [hp]
    rw [storage_removeAcked, hfreed, h.storage,
      ← entryBytes_filter (fun p => p.1 = q ∧ p.2.messageId = id)]
    omega

end HoldsPending

/-- The in-memory advance of the mutation stays within 64 bits. -/
def Mutation.Bounded (d : Ledger) : Mutation → Prop
  | .sendToGroupInbox x (.commit _) _ _ => ∀ e, d.epoch x = some e → e.toNat + 1 < 2 ^ 64
  | _ => True

theorem apply_isSome_iff (m : Mutation) (now : ℕ) (s : RelayState) :
    (∃ t, m.apply now s = some t) ↔ m.Bounded s.ledger := by
  rcases m with ⟨q, k⟩ | ⟨q, k, e, r⟩ | ⟨q, e⟩ | ⟨x, kind, e, r⟩ | ⟨q, id⟩
  · simp [Mutation.apply, Mutation.Bounded]
  · simp [Mutation.apply, Mutation.Bounded]
  · simp [Mutation.apply, Mutation.Bounded]
  · cases kind with
    | application => simp [Mutation.apply, Mutation.Bounded, RelayState.bumpEpoch]
    | commit =>
      simp only [Mutation.apply, Mutation.Bounded, s.ledger_epoch]
      rcases hl : s.inner.queues.lookup x with _ | ⟨k, _ | ⟨epoch, fanOutTo⟩, n, w⟩ <;>
        simp [RelayState.bumpEpoch, hl]
  · simp [Mutation.apply, Mutation.Bounded]

namespace Holds
variable {db : Database}

variable (h : Holds db d)
include h

theorem deliver (hq : d.isMailbox q = true) (he : e.paddedCiphertext.length ≤ maxMessageSize) :
    Holds (db.insertPending q.toList e.messageId.toList (Envelope.codec.encode e))
      (d.deliver e q) := by
  obtain ⟨k, p, hkp⟩ := isMailbox_iff.mp hq
  obtain ⟨entries, hp⟩ := h.pending
  refine ⟨?_, _, hp.insert hkp he⟩
  unfold Ledger.deliver
  rw [hkp]
  exact (h.queues.set_same hkp rfl rfl).congr rfl rfl rfl

/-- Unfiltered deliveries in memory match the filtered copies in the database. -/
theorem insertCopies (he : e.paddedCiphertext.length ≤ maxMessageSize) (members : List QueueId) :
    Holds (Database.insertCopies e.messageId (Envelope.codec.encode e) db
      (members.filter d.isMailbox)) (members.foldl (Ledger.deliver e) d) := by
  induction members generalizing db d with
  | nil => exact h
  | cons m members ih =>
    rw [foldl_cons]
    by_cases hm : d.isMailbox m = true
    · rw [filter_cons_of_pos hm, ← isMailbox_deliver d e m]
      exact ih (h.deliver hm he)
    · have hd : d.deliver e m = d := by
        unfold Ledger.deliver
        unfold Ledger.isMailbox at hm
        rcases hq : d.queues m with _ | ⟨k, p | _⟩
        · rfl
        · simp [hq] at hm
        · rfl
      rw [filter_cons_of_neg hm, hd]
      exact ih h

theorem advance {epoch : UInt64} (hx : d.queues x = some (k, .groupInbox epoch r))
    (he : epoch.toNat + 1 < 2 ^ 64) (target : UInt64) :
    Holds (db.advanceEpoch x.toList) (d.advance x (.commit target)) := by
  obtain ⟨entries, hp⟩ := h.pending
  have hd := advance_commit hx target
  refine ⟨?_, entries, hp.congr rfl rfl (d.pending_advance x _) (d.isMailbox_advance x _) ?_⟩
  · rw [hd]
    exact h.queues.advance hx he
  · rw [hd]
    rfl

theorem removeAcked (q : QueueId) (id : MessageId) :
    Holds (db.deletePending q.toList id.toList) (d.removeAcked q id) := by
  obtain ⟨entries, hp⟩ := h.pending
  refine ⟨?_, _, hp.delete q id⟩
  unfold Ledger.removeAcked
  rcases hq : d.queues q with _ | ⟨k, p | _⟩
  · exact h.queues.congr rfl rfl rfl
  · exact (h.queues.set_same hq rfl rfl).congr rfl rfl rfl
  · exact h.queues.congr rfl rfl rfl

theorem set_fresh (kind : QueueKind) (hq : d.queues q = none) (k : SendKey)
    (hk : ∀ p, kind = .mailbox p → p = []) :
    Holds { db with
      queues := db.queues ++ [rowOf q k kind]
      roster := db.roster ++ Database.rosterRows q 0 kind.members } (d.set q (k, kind)) := by
  obtain ⟨entries, hp⟩ := h.pending
  refine ⟨h.queues.set_fresh hq k kind, entries, ?_⟩
  have hnone : entriesOf q entries = [] := by
    have := hp.pending q
    simpa [Ledger.pending, hq] using this.symm
  exact {
    contents := hp.contents
    ordered := hp.ordered
    below := hp.below
    size := hp.size
    owned := by
      intro p hmem
      have hbox := hp.owned p hmem
      have hne : p.1 ≠ q := by
        intro he
        rw [he] at hbox
        simp [Ledger.isMailbox, hq] at hbox
      rw [← hbox]
      simp [Ledger.isMailbox, d.set_queues_of_ne hne]
    pending := by
      intro x
      by_cases hx : x = q
      · subst hx
        rw [hnone]
        cases kind with
        | mailbox p => simp [Ledger.pending, hk p rfl]
        | groupInbox => simp [Ledger.pending]
      · rw [← hp.pending x]
        simp [Ledger.pending, d.set_queues_of_ne hx]
    storage := hp.storage }

end Holds

variable {db db' : Database}

theorem insertQueue_eq_some {row : QueueRow} (h : db.insertQueue row = some db') :
    db' = { db with queues := db.queues ++ [row] } := by
  unfold Database.insertQueue at h
  split_ifs at h
  exact (Option.some.inj h).symm

/-- The durable write of an admitted mutation carries the ledger to the next one. -/
theorem holds_persist {c : Crypto} {s : RelayState} {msg : ClientMessage} {m : Mutation}
    (h : Holds db s.ledger) (ha : Admits c s.ledger msg m)
    (hp : m.persist s.inner.queues db = some db') (hb : m.Bounded s.ledger) :
    Holds db' (s.ledger.apply m) := by
  cases ha with
  | @createMailbox _ _ q k fresh =>
    rw [insertQueue_eq_some hp]
    have := h.set_fresh (QueueKind.mailbox []) fresh k (by rintro p ⟨⟩; rfl)
    simpa [QueueKind.members, Database.rosterRows, rowOf, Ledger.apply] using this
  | @createGroupInbox _ _ epoch fanOutTo q k fresh =>
    obtain ⟨v, hv, hrest⟩ := Option.bind_eq_some_iff.mp hp
    obtain ⟨db₁, h₁, h₂⟩ := Option.bind_eq_some_iff.mp hrest
    unfold bindU64 at hv
    split_ifs at hv with hfit
    cases hv
    rw [Database.insertMembers_eq_some h₂, insertQueue_eq_some h₁]
    have := h.set_fresh (QueueKind.groupInbox epoch fanOutTo) fresh k (by rintro p ⟨⟩)
    simpa only [rowOf, storedEpoch, if_pos hfit, QueueKind.members, Ledger.apply] using this
  | sendToMailbox size entry =>
    cases hp
    exact h.deliver (isMailbox_iff.mpr ⟨_, _, entry⟩) size
  | @sendToGroupInbox q kind _ e k epoch roster size entry =>
    cases hp
    have hbox : RelayState.isMailbox s.inner.queues = s.ledger.isMailbox := funext s.isMailbox_eq
    rw [hbox, ← s.ledger.isMailbox_advance q kind]
    cases kind with
    | application => exact h.insertCopies size roster
    | commit target =>
      have hfit := hb epoch (epoch_eq_some.mpr ⟨k, roster, entry⟩)
      exact (h.advance entry hfit target).insertCopies size roster
  | ack =>
    cases hp
    exact h.removeAcked _ _

end Rosette.Relay
