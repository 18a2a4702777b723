import Rosette.Relay.Epochs
import Rosette.Relay.Push

/-! # Accepted commits and where they arrive

The commits an inbox has accepted, with their envelopes: how many there are fixes
the stored epoch and the epoch of the next one, and each arrives once in every mailbox
that occurs once in the roster.
-/
namespace Rosette.Relay
open Foundation Proto List

variable {x : QueueId} {log : List Exchange} {tag : AuthTag} {e : Envelope}

/-- One answered request, if it is an accepted commit for the inbox. -/
def landing (x : QueueId) : Exchange → Option (UInt64 × Envelope)
  | (.sendToGroupInbox y (.commit target) _ e, .ok) => if y = x then some (target, e) else none
  | _ => none

/-- The commits accepted for an inbox with their epochs, in acceptance order. -/
def commitsVia (x : QueueId) (log : List Exchange) :
    List (UInt64 × Envelope) := log.filterMap (landing x)

theorem commitsVia_snoc (x : QueueId) (log : List Exchange) (entry : Exchange) :
    commitsVia x (log ++ [entry]) = commitsVia x log ++ (landing x entry).toList := by
  cases h : landing x entry <;> simp [commitsVia, h]

theorem landing_eq_some {entry : Exchange} {p : UInt64 × Envelope} (h : landing x entry = some p) :
    ∃ tag, entry = (.sendToGroupInbox x (.commit p.1) tag p.2, .ok) := by
  unfold landing at h
  split at h
  · split_ifs at h with hy
    cases h
    exact ⟨_, by rw [hy]⟩
  · cases h

theorem acceptedCommit_eq (x : QueueId) (entry : Exchange) :
    acceptedCommit x entry = (landing x entry).map Prod.fst := by
  cases h : landing x entry with
  | some =>
    obtain ⟨tag, rfl⟩ := landing_eq_some h
    simp [acceptedCommit]
  | none =>
    unfold acceptedCommit
    split
    · rename_i y target tag e
      split_ifs with hy
      · simp [landing, hy] at h
      · rfl
    · rfl

theorem acceptedCommits_eq (x : QueueId) (log : List Exchange) :
    acceptedCommits x log = (commitsVia x log).map Prod.fst := by
  rw [commitsVia, map_filterMap]
  exact filterMap_congr fun entry _ => acceptedCommit_eq x entry

section Epochs
variable {c : Crypto} {d : Ledger} {base : UInt64}

theorem epoch_of_commits (he : Explains c log d) (hc : CreatedWith x base log) :
    ∃ epoch, d.epoch x = some epoch ∧ epoch.toNat = base.toNat + (commitsVia x log).length := by
  have h := explains_epochHistory he x
  cases hd : d.epoch x with
  | none => exact absurd hc ((h.absent hd).2 base)
  | some epoch =>
    refine ⟨epoch, rfl, ?_⟩
    rw [(h.stored epoch hd base hc).2, acceptedCommits_eq, length_map]

/-- A commit is accepted at the epoch the accepted ones lead to. -/
theorem epoch_of_landing {target : UInt64}
    (he : Explains c (log ++ [(.sendToGroupInbox x (.commit target) tag e, .ok)]) d)
    (hc : CreatedWith x base log) : target.toNat = base.toNat + (commitsVia x log).length := by
  have hc' : CreatedWith x base (log ++ [(.sendToGroupInbox x (.commit target) tag e, .ok)]) :=
    createdWith_snoc.mpr (.inl hc)
  obtain ⟨epoch, hd, -⟩ := epoch_of_commits he hc'
  have hrange := ((explains_epochHistory he x).stored epoch hd base hc').1
  have hlast : acceptedCommits x (log ++ [(.sendToGroupInbox x (.commit target) tag e, .ok)]) =
      acceptedCommits x log ++ [target] := by
    rw [acceptedCommits_snoc]
    simp [acceptedCommit]
  rw [hlast, map_append, length_append, length_singleton, range'_concat] at hrange
  have htail := (append_inj' hrange rfl).2
  simp only [map_singleton, cons.injEq, and_true] at htail
  rw [htail, acceptedCommits_eq, length_map, Nat.one_mul]

end Epochs

section Arrivals
variable {q : QueueId}

theorem arrivals_groupSend {roster : List QueueId} (hr : rosterIn log x = some roster)
    (hq : roster.count q = 1) (hm : mailboxIn log q = true) (kind : GroupSendKind) (tag : AuthTag)
    (e : Envelope) :
    arrivals q (log ++ [(.sendToGroupInbox x kind tag e, .ok)]) = arrivals q log ++ [e] := by
  rw [arrivals_snoc, boxEvents, if_pos hm, hr, Option.getD_some, hq]
  rfl

theorem arrivals_refused {kind : GroupSendKind} {reply : ServerMessage} (h : reply ≠ .ok) :
    arrivals q (log ++ [(.sendToGroupInbox x kind tag e, reply)]) = arrivals q log := by
  rw [arrivals_snoc]
  cases reply with
  | ok => exact absurd rfl h
  | error | powChallenge | queueCreated => exact append_nil _

theorem arrivals_ack (p : QueueId) (id : MessageId) (reply : ServerMessage) :
    arrivals q (log ++ [(.ack p id, reply)]) = arrivals q log := by
  rw [arrivals_snoc, boxEvents.eq_def]
  cases reply with
  | ok =>
    dsimp only
    split_ifs <;> exact append_nil _
  | error | powChallenge | queueCreated => exact append_nil _

theorem arrivals_subscribe (ids : List QueueId) (reply : ServerMessage) :
    arrivals q (log ++ [(.subscribe ids, reply)]) = arrivals q log := by
  rw [arrivals_snoc]
  exact append_nil _

end Arrivals
end Rosette.Relay
