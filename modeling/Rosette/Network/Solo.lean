import Rosette.Network.Orderly

/-! # One mailbox to a connection

A process subscribes on a connection once, to its own mailbox. So whatever is pushed on
the connection comes from there.
-/
namespace Rosette.Network
open Foundation Proto Rosette.Core Relay Engine List World

variable {mls : OpenMls} {ι : Type} {c : Crypto}

/-- From one moment to the next, no new subscription is under way. -/
structure Follows (up up' : List (ℕ × ClientMessage)) : Prop where
  single : ∀ f ∈ up'.tail, ∀ ids, f.2 ≠ .subscribe ids
  head : ∀ rid ids, up'.head? = some (rid, .subscribe ids) →
    up.head? = some (rid, .subscribe ids)

section Follows
variable {up : List (ℕ × ClientMessage)} (h : ∀ f ∈ up.tail, ∀ ids, f.2 ≠ .subscribe ids)
include h

theorem Follows.refl : Follows up up := ⟨h, fun _ _ hf => hf⟩

theorem Follows.write {f : ℕ × ClientMessage} (hf : ∀ ids, f.2 ≠ .subscribe ids) :
    Follows up (up ++ [f]) := by
  cases up with
  | nil =>
    refine ⟨by rintro g ⟨⟩, fun rid ids hg => ?_⟩
    cases hg
    exact absurd rfl (hf ids)
  | cons =>
    refine ⟨fun g' hg' => ?_, fun _ _ hg' => hg'⟩
    rcases mem_append.mp hg' with hg' | hg'
    · exact h g' hg'
    · rw [mem_singleton.mp hg']
      exact hf

theorem Follows.serve : Follows up up.tail := by
  refine ⟨fun f hf => h f (mem_of_mem_tail hf), fun rid ids hf => ?_⟩
  exact absurd rfl (h _ (mem_of_head? hf) ids)

end Follows

inductive Streamed (c : Crypto) (w w' : World mls ι) (k : ConnId) (q : QueueId) : Prop where
  /-- Requests are served that are not its own subscription, or none. -/
  | told {news} (told : RelayState.Told w.service.relay w'.service.relay k q news)
      (arrived : Explains c w.service.log w.service.relay.ledger →
        w.service.relay.ledger.isMailbox q = true →
          arrivals q w'.service.log = arrivals q w.service.log ++ news)
      (received : (w'.conns k).received = (w.conns k).received)
      (closed : (w'.conns k).closed = (w.conns k).closed)
      (up : Follows (w.conns k).up (w'.conns k).up)
  | subscribed {amb rid ids t reply} (head : (w.conns k).up.head? = some (rid, .subscribe ids))
      (handled : w.service.relay.handle c amb (.subscribe ids) (some k) = (t, .answered reply))
      (service : w'.service = ⟨t, w.service.log ++ [(.subscribe ids, reply)]⟩)
      (received : (w'.conns k).received = (w.conns k).received)
      (up : (w'.conns k).up = (w.conns k).up.tail)
  | delivered {p id envelope rest} (closed : (w.conns k).closed = false)
      (queue : (w.service.relay.channels k).queue = (p, id, envelope) :: rest)
      (moved : w' = { w.setConn k { w.conns k with
        received := (w.conns k).received ++ [(p, envelope)] } with
        service := { w.service with relay := w.service.relay.receivePush k } })
  | hungUp (moved : w' = { w with
      service := { w.service with relay := w.service.relay.hangUp k } })
  /-- The connection closes, or the relay comes back without it. -/
  | lost (more) (arrived : arrivals q w'.service.log = arrivals q w.service.log ++ more)
      (received : (w'.conns k).received = (w.conns k).received)
      (up : Follows (w.conns k).up (w'.conns k).up)
      (gone : w'.service = w.service ∧ (w'.conns k).closed = true ∨
        (w'.service.relay.channels k).queue = [] ∧
          ∀ p, k ∉ w'.service.relay.inner.subscribers p)

section Streamed
variable {w w' : World mls ι} {k : ConnId} {q : QueueId}
  (hsingle : ∀ f ∈ (w.conns k).up.tail, ∀ ids, f.2 ≠ .subscribe ids)
include hsingle

theorem Streamed.of_setConn {k' : ConnId} {conn : Conn ι} {t : RelayState} {log : List Exchange}
    {news : List Envelope}
    (hconn : k = k' → conn.received = (w.conns k).received ∧ conn.closed = (w.conns k).closed ∧
      Follows (w.conns k).up conn.up)
    (ht : RelayState.Told w.service.relay t k q news)
    (harr : Explains c w.service.log w.service.relay.ledger →
      w.service.relay.ledger.isMailbox q = true →
        arrivals q log = arrivals q w.service.log ++ news) :
    Streamed c w { w.setConn k' conn with service := ⟨t, log⟩ } k q := by
  by_cases hk : k = k'
  · subst hk
    obtain ⟨hr, hc, hu⟩ := hconn rfl
    refine .told ht harr ?_ ?_ ?_ <;> simpa [World.setConn]
  · refine .told ht harr ?_ ?_ ?_
    · simp [World.setConn, hk]
    · simp [World.setConn, hk]
    · simpa [World.setConn, hk] using Follows.refl hsingle

theorem Moved.streamed {h : Happening mls ι} (hm : Moved c w h w')
    (hk : (w.conns k).owner.isSome = true ∧ k < w.nextConn) (ht : w.service.relay.Tuned k q) :
    Streamed c w w' k q := by
  have hrefl := Follows.refl hsingle
  have hsame : RelayState.Told w.service.relay w.service.relay k q [] := .of_eq rfl rfl
  cases hm with
  | @served k' amb rid msg rest t reply serving up handled =>
    by_cases hsub : k = k' ∧ ∃ ids, msg = .subscribe ids
    · obtain ⟨rfl, ids, rfl⟩ := hsub
      refine .subscribed (by rw [up]; rfl) handled rfl ?_ ?_ <;> simp [up]
    · obtain ⟨news, ht, harr⟩ := RelayState.told_answered ht
        (fun hkk ids hm => hsub ⟨hkk, ids, hm⟩) handled
      refine .of_setConn hsingle (fun hkk => ?_) ht (harr _)
      subst hkk
      exact ⟨rfl, rfl, by simpa [up] using Follows.serve hsingle⟩
  | died serving up handled =>
    refine .of_setConn hsingle (fun hkk => ?_) (RelayState.told_panicked handled)
      (fun _ _ => (append_nil _).symm)
    subst hkk
    exact ⟨rfl, rfl, by simpa [up] using Follows.serve hsingle⟩
  | replied | broken =>
    exact .of_setConn hsingle (fun hkk => by subst hkk; exact ⟨rfl, rfl, hrefl⟩) hsame
      (fun _ _ => (append_nil _).symm)
  | @delivered k' p id envelope rest closed queue =>
    by_cases hkk : k = k'
    · subst hkk
      exact .delivered closed queue rfl
    · exact .of_setConn hsingle (fun h => absurd h hkk)
        (.of_eq (by simp [RelayState.receivePush, hkk]) rfl) (fun _ _ => (append_nil _).symm)
  | @severed k' =>
    by_cases hkk : k = k'
    · subst hkk
      refine .lost [] (append_nil _).symm ?_ ?_ (.inl ⟨rfl, ?_⟩) <;>
        rw [setConn_self]
      exact hrefl
    · exact .of_setConn hsingle (fun h => absurd h hkk) hsame (fun _ _ => (append_nil _).symm)
  | @hungUp k' =>
    by_cases hkk : k = k'
    · subst hkk
      exact .hungUp rfl
    · exact .told (.of_eq (by simp [RelayState.hangUp, hkk]) rfl)
        (fun _ _ => (append_nil _).symm) rfl rfl hrefl
  | dialled =>
    have hconn := w.dial_of_ne (ne_of_lt hk.2) none
    refine .told hsame (fun _ _ => (append_nil _).symm) ?_ ?_ ?_ <;> rw [hconn]
    exact hrefl
  | outside opened owner =>
    refine .of_setConn hsingle (fun hkk => ?_) hsame (fun _ _ => (append_nil _).symm)
    subst hkk
    rw [owner] at hk
    cases hk.1
  | restarted file reopened =>
    exact .lost [] (append_nil _).symm rfl hrefl (.inr (RelayState.reopen_fresh reopened))
  | restartedMidway serving up inFlight file reopened =>
    exact .lost _ (arrivals_snoc q _ _) rfl hrefl (.inr (RelayState.reopen_fresh reopened))

end Streamed

/-- A connection that serves one mailbox, or none yet. It has subscribed once, or is about to
and has brought nothing yet. -/
structure Solo (w : World mls ι) (k : ConnId) (box : Option QueueId) : Prop where
  tuned : ∀ p, k ∈ w.service.relay.inner.subscribers p →
    box = some p ∧ (w.service.relay.inner.subscribers p).count k = 1
  received : ∀ p ∈ (w.conns k).received, box = some p.1
  queue : ∀ p ∈ (w.service.relay.channels k).queue, box = some p.1
  single : ∀ f ∈ (w.conns k).up.tail, ∀ ids, f.2 ≠ .subscribe ids
  subscribing : ∀ rid ids, (w.conns k).up.head? = some (rid, .subscribe ids) →
    (∃ q, box = some q ∧ ids = [q]) ∧ (∀ p, k ∉ w.service.relay.inner.subscribers p) ∧
    (w.service.relay.channels k).queue = [] ∧ (w.conns k).received = []

namespace Solo
variable {w w' : World mls ι} {k : ConnId} {box : Option QueueId} {q : QueueId}
  {p : QueueId × Envelope} {rest : List (QueueId × Envelope)} {rid : ℕ}

theorem tunedTo (h : Solo w k (some q)) : w.service.relay.Tuned k q := by
  refine ⟨fun p hp => (Option.some.inj (h.tuned p hp).1).symm, ?_⟩
  by_cases hq : k ∈ w.service.relay.inner.subscribers q
  · rw [(h.tuned q hq).2]
  · rw [count_eq_zero_of_not_mem hq]
    omega

theorem addressed (h : Solo w k (some q)) (hp : (w.conns k).received = p :: rest) : p.1 = q :=
  (Option.some.inj (h.received p (by rw [hp]; exact mem_cons_self))).symm

section
variable (h : Solo w k box)
include h

theorem exists_tuned :
    ∃ q, w.service.relay.Tuned k q ∧ ∀ p, box = some p → p = q := by
  cases box with
  | some q => exact ⟨q, h.tunedTo, fun p hp => (Option.some.inj hp).symm⟩
  | none =>
    refine ⟨.fill 0, .of_idle (fun p hp => ?_) _, by rintro p ⟨⟩⟩
    cases (h.tuned p hp).1

theorem congr (hs : w'.service = w.service) (hr : (w'.conns k).received = (w.conns k).received)
    (hu : Follows (w.conns k).up (w'.conns k).up) : Solo w' k box := by
  refine ⟨hs ▸ h.tuned, hr ▸ h.received, hs ▸ h.queue, hu.single, fun rid ids hm => ?_⟩
  rw [hs, hr]
  exact h.subscribing rid ids (hu.head rid ids hm)

theorem same (hs : w'.service = w.service) (hk : w'.conns k = w.conns k) :
    Solo w' k box := h.congr hs (by rw [hk]) (by rw [hk]; exact .refl h.single)

theorem told (hq : ∀ p, box = some p → p = q) {t : RelayState} {news : List Envelope}
    (ht : RelayState.Told w.service.relay t k q news) (hs : w'.service.relay = t)
    (hr : (w'.conns k).received = (w.conns k).received)
    (hu : Follows (w.conns k).up (w'.conns k).up) : Solo w' k box := by
  subst hs
  refine ⟨fun p hp => ?_, hr ▸ h.received, fun p hp => ?_, hu.single, fun rid ids hm => ?_⟩
  · obtain ⟨hbox, hcount⟩ := h.tuned p (ht.joins p hp)
    obtain rfl := hq p hbox
    have hle := ht.count
    have hpos := count_pos_iff.mpr hp
    exact ⟨hbox, by omega⟩
  · by_cases hl : w.service.relay.Listens k q
    · rw [ht.heard hl] at hp
      rcases mem_append.mp hp with hp | hp
      · exact h.queue p hp
      · obtain ⟨e, -, rfl⟩ := mem_map.mp hp
        exact (h.tuned q hl.1).1
    · rw [ht.deaf hl] at hp
      exact h.queue p hp
  · obtain ⟨hids, hidle, hqueue, hrec⟩ := h.subscribing rid ids (hu.head rid ids hm)
    obtain ⟨hq', hidle'⟩ := ht.idle hidle
    exact ⟨hids, hidle', hq'.trans hqueue, hr.trans hrec⟩

theorem reset (hsub : ∀ p, k ∉ w'.service.relay.inner.subscribers p)
    (hq : (w'.service.relay.channels k).queue = [])
    (hr : (w'.conns k).received = (w.conns k).received)
    (hu : Follows (w.conns k).up (w'.conns k).up) : Solo w' k box := by
  refine ⟨fun p hp => absurd hp (hsub p), hr ▸ h.received, ?_, hu.single, fun rid ids hm => ?_⟩
  · rw [hq]
    rintro p ⟨⟩
  · obtain ⟨hids, -, -, hrec⟩ := h.subscribing rid ids (hu.head rid ids hm)
    exact ⟨hids, hsub, hq, hr.trans hrec⟩

theorem subscribed {ids : List QueueId} (hm : (w.conns k).up.head? = some (rid, .subscribe ids))
    (hs : w'.service.relay = w.service.relay.subscribe ids k)
    (hr : (w'.conns k).received = (w.conns k).received)
    (hu : (w'.conns k).up = (w.conns k).up.tail) :
    Solo w' k box := by
  have hf := Follows.serve h.single
  rw [← hu] at hf
  obtain ⟨⟨q, rfl, rfl⟩, hidle, hqueue, hrec⟩ := h.subscribing rid ids hm
  obtain ⟨htuned, -, hlive, hdead⟩ := RelayState.subscribe_self hidle q
  refine ⟨fun p hp => ?_, ?_, fun p hp => ?_, hf.single, fun rid' ids' hm' => ?_⟩
  · rw [hs] at hp ⊢
    obtain rfl := htuned.only p hp
    exact ⟨rfl, le_antisymm htuned.once (count_pos_iff.mpr hp)⟩
  · rw [hr, hrec]
    rintro p ⟨⟩
  · rw [hs] at hp
    by_cases hr' : (w.service.relay.channels k).receiving = true
    · rw [hlive hr', hqueue] at hp
      obtain ⟨e, -, rfl⟩ := mem_map.mp hp
      rfl
    · simp [hdead hr', hqueue] at hp
  · rw [hu] at hm'
    exact absurd rfl (h.single _ (mem_of_head? hm') ids')

end

theorem blank (hu : (w.conns k).up = []) (hr : (w.conns k).received = [])
    (hq : (w.service.relay.channels k).queue = [])
    (hidle : ∀ p, k ∉ w.service.relay.inner.subscribers p) : Solo w k box := by
  refine ⟨fun p hp => absurd hp (hidle p), ?_, ?_, ?_, fun rid ids hm => ?_⟩
  · rw [hr]
    rintro p ⟨⟩
  · rw [hq]
    rintro p ⟨⟩
  · rw [hu]
    rintro f ⟨⟩
  · simp [hu] at hm

theorem opened (hu : (w.conns k).up = [(rid, .subscribe [q])]) (hr : (w.conns k).received = [])
    (hq : (w.service.relay.channels k).queue = [])
    (hidle : ∀ p, k ∉ w.service.relay.inner.subscribers p) : Solo w k (some q) := by
  refine ⟨fun p hp => absurd hp (hidle p), ?_, ?_, ?_, fun rid' ids hm => ?_⟩
  · rw [hr]
    rintro p ⟨⟩
  · rw [hq]
    rintro p ⟨⟩
  · rw [hu]
    rintro f ⟨⟩
  · rw [hu] at hm
    cases hm
    exact ⟨⟨q, rfl, rfl⟩, hidle, hq, hr⟩

section
variable (h : Solo w k box)
include h

theorem delivered {p : QueueId} {id : MessageId} {envelope : Envelope} {rest : List Push}
    (hq : (w.service.relay.channels k).queue = (p, id, envelope) :: rest) :
    Solo { w.setConn k { w.conns k with
      received := (w.conns k).received ++ [(p, envelope)] } with
      service := { w.service with relay := w.service.relay.receivePush k } } k box := by
  have hch : ((w.service.relay.receivePush k).channels k).queue = rest := by
    simp [RelayState.receivePush, hq]
  refine ⟨h.tuned, fun p' hp' => ?_, fun p' hp' => ?_, ?_, fun rid ids hm => ?_⟩
  · simp only [World.setConn, Function.update_self, mem_append, mem_singleton] at hp'
    rcases hp' with hp' | rfl
    · exact h.received p' hp'
    · exact h.queue (p, id, envelope) (by rw [hq]; exact mem_cons_self)
  · rw [hch] at hp'
    exact h.queue p' (by rw [hq]; exact mem_cons_of_mem _ hp')
  · simpa [World.setConn] using h.single
  · simp only [World.setConn, Function.update_self] at hm
    obtain ⟨-, -, hempty, -⟩ := h.subscribing rid ids hm
    simp [hempty] at hq

theorem hungUp :
    Solo { w with service := { w.service with relay := w.service.relay.hangUp k } } k box := by
  have hch : ((w.service.relay.hangUp k).channels k).queue =
      (w.service.relay.channels k).queue := by
    simp [RelayState.hangUp]
  refine ⟨h.tuned, h.received, ?_, h.single, fun rid ids hm => ?_⟩
  · rw [hch]
    exact h.queue
  · rw [hch]
    exact h.subscribing rid ids hm

theorem popped (hr : (w.conns k).received = p :: rest) :
    Solo (w.setConn k { w.conns k with received := rest }) k box := by
  refine ⟨h.tuned, fun p' hp' => ?_, h.queue, ?_, fun rid ids hm => ?_⟩
  · rw [setConn_self] at hp'
    exact h.received p' (by rw [hr]; exact mem_cons_of_mem _ hp')
  · rw [setConn_self]
    exact h.single
  · rw [setConn_self] at hm
    obtain ⟨-, -, -, hempty⟩ := h.subscribing rid ids hm
    simp [hempty] at hr

end

theorem moved (hs : Solo w k box) {h : Happening mls ι}
    (hk : (w.conns k).owner.isSome = true ∧ k < w.nextConn) (hm : Moved c w h w') :
    Solo w' k box := by
  obtain ⟨q, htuned, hq⟩ := hs.exists_tuned
  cases hm.streamed hs.single hk htuned with
  | told told arrived received closed up => exact hs.told hq told rfl received up
  | subscribed head handled service received up =>
    rw [RelayState.handle_subscribe] at handled
    split_ifs at handled
    · cases handled
    cases handled
    exact hs.subscribed head (by rw [service]) received up
  | delivered closed queue moved =>
    subst moved
    exact hs.delivered queue
  | hungUp moved =>
    subst moved
    exact hs.hungUp
  | lost more arrived received up gone =>
    rcases gone with ⟨hservice, -⟩ | ⟨hqueue, hsub⟩
    · exact hs.congr hservice received up
    · exact hs.reset hsub hqueue received up

end Solo

section Stretches
variable [DecidableEq ι] {w w₁ : World mls ι} {i : ι} {e : ChatEngine mls} {pc : Pc}
  {h : Happening mls ι} {t : Turn mls} {k : ConnId}

/-- What a stretch does to a connection its engine had: it may take a push and write a
request, and the request is no subscription. -/
theorem conn_resumed (ho : Orderly c w) (hp : (w.nodes i).process = .running e pc)
    (hsingle : ∀ f ∈ (w.conns k).up.tail, ∀ ids, f.2 ≠ .subscribe ids)
    (hr : Resumed c w i e pc h w₁ t) (hk : (Process.running e pc).Uses k) :
    ((w₁.install i t).conns k).closed = (w.conns k).closed ∧
    Follows (w.conns k).up ((w₁.install i t).conns k).up ∧
    (((w₁.install i t).conns k).received = (w.conns k).received ∨
      ∃ d p rest, h = .push i d ∧ k = e.relay ∧ (w.conns k).received = p :: rest ∧
        ((w₁.install i t).conns k).received = rest) := by
  have hkn : k ≠ w.nextConn := ho.ne_nextConn (by rw [hp]; exact hk)
  have hsent : ((w₁.install i t).conns k).closed = (w₁.conns k).closed ∧
      ((w₁.install i t).conns k).received = (w₁.conns k).received ∧
      (((w₁.install i t).conns k).up = (w₁.conns k).up ∨
        ∃ f, (∀ ids, f.2 ≠ .subscribe ids) ∧
          ((w₁.install i t).conns k).up = (w₁.conns k).up ++ [f]) := by
    rw [install_conns]
    by_cases hf : ∃ msg, t.frame = some (k, msg)
    · obtain ⟨msg, hf⟩ := hf
      obtain ⟨q, hq⟩ := exists_addressee (w.conns e.relay).received
      rw [hf, send_conns_self]
      refine ⟨rfl, rfl, .inr ⟨(_, msg), ?_, rfl⟩⟩
      rcases (resumed_sends hq hr).2.2 k msg hf with ⟨id, -, rfl⟩ | ⟨s, rfl⟩ | ⟨-, hk', -⟩
      · rintro ids ⟨⟩
      · rintro ids ⟨⟩
      · exact absurd hk' hkn
    · rw [send_conns_of_ne w₁ (fun msg hm => hf ⟨msg, hm⟩)]
      exact ⟨rfl, rfl, .inl rfl⟩
  have hbefore : (w₁.conns k).closed = (w.conns k).closed ∧
      (w₁.conns k).up = (w.conns k).up ∧
      ((w₁.conns k).received = (w.conns k).received ∨
        ∃ d p rest, h = .push i d ∧ k = e.relay ∧ (w.conns k).received = p :: rest ∧
          (w₁.conns k).received = rest) := by
    rcases before_resumed hr with rfl | ⟨d, p, rest, hd, hrec, rfl⟩ | ⟨-, rfl⟩
    · exact ⟨rfl, rfl, .inl rfl⟩
    · by_cases hke : k = e.relay
      · subst hke
        rw [setConn_self]
        exact ⟨rfl, rfl, .inr ⟨d, p, rest, hd, rfl, hrec, rfl⟩⟩
      · rw [setConn_of_ne w hke]
        exact ⟨rfl, rfl, .inl rfl⟩
    · rw [dial_of_ne w hkn]
      exact ⟨rfl, rfl, .inl rfl⟩
  obtain ⟨hc, hrec, hup⟩ := hsent
  obtain ⟨hc', hup', hrec'⟩ := hbefore
  refine ⟨hc.trans hc', ?_, by rw [hrec]; exact hrec'⟩
  rw [hup'] at hup
  rcases hup with hup | ⟨f, hf, hup⟩
  · rw [hup]
    exact .refl hsingle
  · rw [hup]
    exact .write hsingle hf

theorem Solo.resumed (ho : Orderly c w) (hp : (w.nodes i).process = .running e pc)
    (hs : ∀ k, (Process.running e pc).Uses k → Solo w k (some e.mailboxQid))
    (hr : Resumed c w i e pc h w₁ t) (hk : (Process.running t.engine t.pc).Uses k) :
    Solo (w₁.install i t) k (some t.engine.mailboxQid) := by
  obtain ⟨q, hq⟩ := exists_addressee (w.conns e.relay).received
  have hservice := service_resumed hr
  rw [(resumed_sends hq hr).1]
  rcases uses_resumed hr hk with hk | ⟨rfl, rfl⟩
  · have hk' := hs k hk
    obtain ⟨-, hfollows, hrec⟩ := conn_resumed ho hp hk'.single hr hk
    rcases hrec with hrec | ⟨d, p, rest, -, -, hp', hrec⟩
    · exact hk'.congr hservice hrec hfollows
    · refine (hk'.popped hp').congr hservice ?_ ?_ <;> rw [setConn_self]
      · exact hrec
      · exact hfollows
  · cases hr
    obtain ⟨-, hqueue, hidle⟩ := ho.unopened w.nextConn le_rfl
    refine Solo.opened (?_ : _ = [(0, _)]) ?_ hqueue hidle
    · simp [onConnected, send_conns_self, Conn.write, Conn.fresh]
    · simp [onConnected, send_conns_self, Conn.write, Conn.fresh]

end Stretches
end Rosette.Network
