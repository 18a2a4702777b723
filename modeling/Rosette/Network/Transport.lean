import Rosette.Foundation.Replay
import Rosette.Network.Solo

/-! # What reaches an engine

An engine listens to one mailbox over one connection at a time. Whatever is lost and
replayed, the pushes still to come on its connection show, apart from ids it has
seen, an initial part of what arrived in its mailbox: the relay forgets only what
was acked, and the engine acks only what it has seen.
-/
namespace Rosette.Network
open Foundation Proto Rosette.Core Relay Engine List

variable {mls : OpenMls} {ι : Type} {c : Crypto} {log : List Exchange}
  {q : QueueId} {S : Finset MessageId}

/-- The pushes a connection may still bring to its client, next one first. -/
def World.stream (w : World mls ι) (k : ConnId) : List Envelope :=
  (w.conns k).received.map Prod.snd ++
    if (w.conns k).closed then [] else (w.service.relay.channels k).queue.map (fun p => p.2.2)

/-- A connection serves the mailbox `q`, and brings its arrivals in order, apart from ids
in `S`. -/
structure Attached (w : World mls ι) (k : ConnId) (q : QueueId) (S : Finset MessageId) : Prop
    extends Solo w k (some q) where
  trails : Trails Envelope.messageId S (w.stream k) (arrivals q w.service.log)
  covers : w.service.relay.Listens k q → (w.conns k).closed = false →
    Covers Envelope.messageId S (w.stream k) (arrivals q w.service.log)

theorem pending_covers {d : Ledger} (he : Explains c log d)
    (hS : ∀ id, .acked id ∈ boxHistory q log → id ∈ S) :
    Covers Envelope.messageId S ((d.pending q).map Prod.snd) (arrivals q log) := by
  rw [(explains_boxesTell he).pending, arrivals]
  generalize boxHistory q log = history at hS
  induction history with
  | nil => rfl
  | cons b history ih =>
    have hS' : ∀ id, .acked id ∈ history → id ∈ S := fun id h => hS id (mem_cons_of_mem _ h)
    have hc := ih hS'
    cases b with
    | acked => exact hc
    | arrive source e =>
      change Covers _ _ _ (e :: history.filterMap BoxEvent.arrived)
      unfold Covers at hc ⊢
      by_cases hm : BoxEvent.acked e.messageId ∈ history
      · rw [survivors, if_pos hm, unseen_cons_of_mem (hS' _ hm)]
        exact hc
      · rw [survivors, if_neg hm, map_cons]
        by_cases hs : e.messageId ∈ S
        · rw [unseen_cons_of_mem hs, unseen_cons_of_mem hs]
          exact hc
        · rw [unseen_cons_of_notMem hs, unseen_cons_of_notMem hs, hc]

namespace Attached
variable {w w' : World mls ι} {k : ConnId} {T : Finset MessageId} {t : RelayState} {rid : ℕ}

section
variable (h : Attached w k q S)
include h

theorem mono (hST : S ⊆ T) : Attached w k q T :=
  ⟨h.toSolo, h.trails.mono hST, fun hl hc => (h.covers hl hc).mono hST⟩

theorem congr (hs : w'.service = w.service) (hr : (w'.conns k).received = (w.conns k).received)
    (hc : (w'.conns k).closed = (w.conns k).closed) (hu : Follows (w.conns k).up (w'.conns k).up) :
    Attached w' k q S := by
  have hstream : w'.stream k = w.stream k := by
    unfold World.stream
    rw [hs, hr, hc]
  refine ⟨h.toSolo.congr hs hr hu, ?_, ?_⟩
  · rw [hstream, hs]
    exact h.trails
  · rw [hstream, hs, hc]
    exact h.covers

theorem same (hs : w'.service = w.service) (hk : w'.conns k = w.conns k) :
    Attached w' k q S :=
  h.congr hs (by rw [hk]) (by rw [hk]) (by rw [hk]; exact .refl h.single)

theorem told {news : List Envelope} (ht : RelayState.Told w.service.relay t k q news)
    (ha : arrivals q log = arrivals q w.service.log ++ news) (hs : w'.service = ⟨t, log⟩)
    (hr : (w'.conns k).received = (w.conns k).received)
    (hc : (w'.conns k).closed = (w.conns k).closed) (hu : Follows (w.conns k).up (w'.conns k).up) :
    Attached w' k q S := by
  have hstream : (w.service.relay.Listens k q ∧ (w.conns k).closed = false →
        w'.stream k = w.stream k ++ news) ∧
      (¬ (w.service.relay.Listens k q ∧ (w.conns k).closed = false) →
        w'.stream k = w.stream k) := by
    unfold World.stream
    rw [hs, hr, hc]
    constructor
    · rintro ⟨hl, hopen⟩
      rw [hopen, ht.heard hl]
      simp [Function.comp_def]
    · intro hn
      by_cases hopen : (w.conns k).closed = true
      · simp [hopen]
      · have hl : ¬ w.service.relay.Listens k q := fun hl => hn ⟨hl, by simpa using hopen⟩
        rw [ht.deaf hl]
  refine ⟨h.toSolo.told (fun p hp => (Option.some.inj hp).symm) ht (by rw [hs]) hr hu, ?_, ?_⟩
  · rw [hs]
    rw [ha]
    by_cases hl : w.service.relay.Listens k q ∧ (w.conns k).closed = false
    · rw [hstream.1 hl]
      exact ((h.covers hl.1 hl.2).append news).trails
    · rw [hstream.2 hl]
      exact h.trails.extend news
  · rw [hs, hc]
    intro hl hopen
    have hl' := ht.listens_of hl
    rw [ha, hstream.1 ⟨hl', hopen⟩]
    exact (h.covers hl' hopen).append news

/-- The connection loses what is still at the relay: it has closed, or the relay has come
back without it. -/
theorem cut (hs : Solo w' k (some q)) (hr : (w'.conns k).received = (w.conns k).received)
    (more : List Envelope) (ha : arrivals q w'.service.log = arrivals q w.service.log ++ more)
    (hlost : (w'.conns k).closed = true ∨ (w'.service.relay.channels k).queue = [] ∧
      ∀ p, k ∉ w'.service.relay.inner.subscribers p) : Attached w' k q S := by
  have hstream : w'.stream k = (w.conns k).received.map Prod.snd := by
    unfold World.stream
    rw [hr]
    rcases hlost with hc | ⟨hq, -⟩
    · rw [hc]
      simp
    · rw [hq]
      simp
  refine ⟨hs, ?_, fun hl hc => ?_⟩
  · rw [hstream, ha]
    exact (h.trails.cut (prefix_append _ _)).extend more
  · rcases hlost with hc' | ⟨-, hsub⟩
    · simp [hc] at hc'
    · exact absurd hl.1 (hsub q)

theorem subscribed {ids : List QueueId} {reply : ServerMessage} {amb : Ambient}
    (he : Explains c w.service.log w.service.relay.ledger)
    (hS : ∀ id, .acked id ∈ boxHistory q w.service.log → id ∈ S)
    (hm : (w.conns k).up.head? = some (rid, .subscribe ids))
    (hh : w.service.relay.handle c amb (.subscribe ids) (some k) = (t, .answered reply))
    (hs : w'.service = ⟨t, w.service.log ++ [(.subscribe ids, reply)]⟩)
    (hr : (w'.conns k).received = (w.conns k).received)
    (hu : (w'.conns k).up = (w.conns k).up.tail) :
    Attached w' k q S := by
  rw [RelayState.handle_subscribe] at hh
  split_ifs at hh
  · cases hh
  cases hh
  have hsolo := h.toSolo.subscribed hm (by rw [hs]) hr hu
  obtain ⟨⟨q', hq', rfl⟩, hidle, hqueue, hrec⟩ := h.subscribing rid ids hm
  cases hq'
  obtain ⟨-, hreceiving, hdrained, hdead⟩ := RelayState.subscribe_self hidle q
  have harr : arrivals q w'.service.log = arrivals q w.service.log := by
    rw [hs]
    exact arrivals_answered (d := w.service.relay.ledger) .subscribed q _
  have hcov : (w.service.relay.channels k).receiving = true → (w'.conns k).closed = false →
      Covers Envelope.messageId S (w'.stream k) (arrivals q w'.service.log) := by
    intro hlive hopen
    have hstream : w'.stream k = (w.service.relay.ledger.pending q).map Prod.snd := by
      unfold World.stream
      rw [hs, hr, hrec, hopen, hdrained hlive, hqueue]
      simp [Function.comp_def]
    rw [hstream, harr]
    exact pending_covers he hS
  have hmute : ¬ ((w.service.relay.channels k).receiving = true ∧ (w'.conns k).closed = false) →
      w'.stream k = [] := by
    intro hmute
    unfold World.stream
    rw [hs, hr, hrec]
    by_cases hopen : (w'.conns k).closed = true
    · simp [hopen]
    · rw [hdead (fun hlive => hmute ⟨hlive, by simpa using hopen⟩), hqueue]
      simp
  refine ⟨hsolo, ?_, fun hl hc => ?_⟩
  · by_cases hl : (w.service.relay.channels k).receiving = true ∧ (w'.conns k).closed = false
    · exact (hcov hl.1 hl.2).trails
    · rw [hmute hl]
      exact .nil
  · rw [hs] at hl
    exact hcov (hreceiving.symm.trans hl.2) hc

end

theorem opened (hu : (w.conns k).up = [(rid, .subscribe [q])]) (hr : (w.conns k).received = [])
    (hq : (w.service.relay.channels k).queue = [])
    (hidle : ∀ p, k ∉ w.service.relay.inner.subscribers p) : Attached w k q S := by
  have hstream : w.stream k = [] := by
    unfold World.stream
    rw [hr, hq]
    simp
  refine ⟨.opened hu hr hq hidle, ?_, fun hl => absurd hl.1 (hidle q)⟩
  rw [hstream]
  exact .nil

variable (h : Attached w k q S)
include h

theorem delivered {p : QueueId} {id : MessageId} {envelope : Envelope} {rest : List Push}
    (hc : (w.conns k).closed = false)
    (hq : (w.service.relay.channels k).queue = (p, id, envelope) :: rest) :
    Attached { w.setConn k { w.conns k with
      received := (w.conns k).received ++ [(p, envelope)] } with
      service := { w.service with relay := w.service.relay.receivePush k } } k q S := by
  have hstream : ({ w.setConn k { w.conns k with
      received := (w.conns k).received ++ [(p, envelope)] } with
      service := { w.service with relay := w.service.relay.receivePush k } } :
        World mls ι).stream k =
      w.stream k := by
    simp [World.stream, RelayState.receivePush, hc, hq]
  have hrecv : ((w.service.relay.receivePush k).channels k).receiving =
      (w.service.relay.channels k).receiving := by
    simp [RelayState.receivePush]
  refine ⟨h.toSolo.delivered hq, ?_, fun hl hopen => ?_⟩
  · rw [hstream]
    exact h.trails
  · rw [hstream]
    exact h.covers ⟨hl.1, hrecv.symm.trans hl.2⟩ hc

theorem hungUp :
    Attached { w with service := { w.service with relay := w.service.relay.hangUp k } } k q S := by
  have hstream : ({ w with service := { w.service with relay := w.service.relay.hangUp k } } :
      World mls ι).stream k = w.stream k := by
    unfold World.stream
    simp [RelayState.hangUp]
  refine ⟨h.toSolo.hungUp, ?_, fun hl => ?_⟩
  · rw [hstream]
    exact h.trails
  · have hdead : ((w.service.relay.hangUp k).channels k).receiving = false := by
      simp [RelayState.hangUp]
    exact absurd (hdead.symm.trans hl.2) (by decide)

theorem popped {p : QueueId × Envelope} {rest : List (QueueId × Envelope)}
    (hr : (w.conns k).received = p :: rest) (hST : S ⊆ T) (hp : p.2.messageId ∈ T) :
    Attached (w.setConn k { w.conns k with received := rest }) k q T := by
  have hstream : w.stream k =
      p.2 :: (w.setConn k { w.conns k with received := rest }).stream k := by
    simp [World.stream, hr]
  refine ⟨h.toSolo.popped hr, ?_, fun hl hc => ?_⟩
  · have ht := h.trails
    rw [hstream] at ht
    exact ht.pop hST hp
  · rw [World.setConn_self] at hc
    have hcov := h.covers hl hc
    rw [hstream] at hcov
    exact hcov.pop hST hp

end Attached
end Rosette.Network
