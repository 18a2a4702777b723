import Rosette.Foundation.Window
import Rosette.Relay.Refusals

/-! # The send limit over a rolling minute

A queue's counter is that of a fixed window, restarted by the first send after a
minute has passed. Sixty sends at the end of one window and sixty at the start of the
next are all accepted. The limit holds over every rolling minute in a process in which
no window is restarted within a minute of an accepted send.
-/
namespace Rosette.Relay
open Foundation Proto RelayState List Option

variable {e : QueueEntry} {now : ℕ} {c : Crypto} {amb : Ambient}

namespace QueueEntry
variable {e' : QueueEntry}

def window (e : QueueEntry) : Window := ⟨e.sentThisMinute, e.windowStarted⟩

theorem window_atTime (e : QueueEntry) (now : ℕ) :
    (e.atTime now).window = e.window.roll rateWindow now := by
  unfold atTime Window.roll
  split_ifs with hold hold' hold'
  · rfl
  · exact absurd hold hold'
  · exact absurd hold' hold
  · rfl

theorem window_counted (h : e.checkAndBumpRateLimit now = (.ok (), e')) :
    e.window.take rateWindow rateLimitPerQueuePerMinute now = some e'.window := by
  obtain ⟨hlt, rfl⟩ := checkAndBumpRateLimit_counted h
  rw [Window.take, ← window_atTime]
  exact if_neg (Nat.not_le.mpr hlt)

end QueueEntry

namespace RelayState

def windowOf (s : RelayState) (q : QueueId) : Option Window :=
  (s.inner.queues.lookup q).map QueueEntry.window

section Frame
variable {s t : RelayState} {q x : QueueId}

theorem windowOf_setEntry (s : RelayState) (q : QueueId) (e : QueueEntry) :
    (s.setEntry q e).windowOf q = some e.window := by
  rw [windowOf, lookup_setEntry, map_some]

theorem windowOf_setEntry_of_ne (s : RelayState) (h : x ≠ q) (e : QueueEntry) :
    (s.setEntry q e).windowOf x = s.windowOf x := by
  rw [windowOf, lookup_setEntry_of_ne s h, windowOf]

theorem windowOf_setEntry_same (h : s.inner.queues.lookup q = some e) (k : SendKey)
    (kind : QueueKind) :
    (s.setEntry q ⟨k, kind, e.sentThisMinute, e.windowStarted⟩).windowOf = s.windowOf := by
  funext x
  by_cases hx : x = q
  · subst hx
    rw [windowOf_setEntry, windowOf, h]
    rfl
  · exact windowOf_setEntry_of_ne s hx _

theorem windowOf_pushAndNotify (s : RelayState) (p : QueueId) (e : Envelope) :
    (s.pushAndNotify p e).windowOf = s.windowOf := by
  unfold pushAndNotify
  split
  · rename_i k pending n w hl
    exact windowOf_setEntry_same hl k _
  · rfl

theorem windowOf_pushAll (members : List QueueId) (e : Envelope) (s : RelayState) :
    (s.pushAll members e).windowOf = s.windowOf := by
  induction members generalizing s with
  | nil => rfl
  | cons m members ih => exact (ih (s.pushAndNotify m e)).trans (windowOf_pushAndNotify s m e)

theorem windowOf_bumpEpoch {kind : GroupSendKind} (h : s.bumpEpoch x kind = some t) :
    t.windowOf = s.windowOf := by
  unfold bumpEpoch at h
  split at h
  · rename_i k epoch fanOutTo n w hl
    split_ifs at h
    cases h
    exact windowOf_setEntry_same hl k _
  · cases h
    rfl

theorem windowOf_removeAcked (s : RelayState) (q : QueueId) (id : MessageId) :
    (s.removeAcked q id).windowOf = s.windowOf := by
  unfold removeAcked
  split
  · rename_i k pending n w hl
    exact windowOf_setEntry_same hl k _
  · rfl

theorem windowOf_congr (h : t.inner.queues = s.inner.queues) : t.windowOf = s.windowOf := by
  funext x
  rw [windowOf, h, windowOf]

theorem windowOf_apply {d : Ledger} {msg : ClientMessage} {m : Mutation} (ha : Admits c d msg m)
    (h : m.apply now s = some t) : t.windowOf q = s.windowOf q ∨ d.queues q = none := by
  cases ha with
  | @createMailbox _ _ p k fresh | @createGroupInbox _ _ epoch roster p k fresh =>
    cases h
    by_cases hq : q = p
    · exact .inr (hq ▸ fresh)
    · exact .inl (windowOf_setEntry_of_ne s hq _)
  | sendToMailbox =>
    cases h
    exact .inl (congrFun (windowOf_pushAndNotify s _ _) q)
  | sendToGroupInbox =>
    obtain ⟨u, hu, rfl⟩ := map_eq_some_iff.mp h
    exact .inl (congrFun ((windowOf_pushAll _ _ u).trans (windowOf_bumpEpoch hu)) q)
  | ack =>
    cases h
    exact .inl (congrFun (windowOf_removeAcked s _ _) q)

end Frame

section Requests
variable {s : RelayState} {msg : ClientMessage} {q : QueueId} (pushTx : Option ChannelId)

theorem plan_queues (h : sendTarget msg = none) :
    (plan c amb s msg pushTx).1.inner.queues = s.inner.queues := by
  have hfront : ∀ solution attestation mutation,
      (admitQueue c amb s solution attestation mutation).1.inner.queues = s.inner.queues := by
    intro solution attestation mutation
    unfold admitQueue
    split_ifs
    · rfl
    have h₁ := consumeAttestation_sameCore c amb s.inner attestation
    generalize consumeAttestation c amb s.inner attestation = r₁ at h₁
    rcases r₁ with ⟨_ | _, inner₁⟩
    · exact h₁.queues
    have h₂ := h₁.trans (consumePow_sameCore c inner₁ solution)
    dsimp only
    generalize consumePow c inner₁ solution = r₂ at h₂
    rcases r₂ with ⟨_ | _ | _, inner₂⟩
    · exact h₂.queues
    · exact h₂.queues
    · dsimp only
      cases freshQueueId amb inner₂ <;> exact h₂.queues
  cases msg with
  | createMailbox | createGroupInbox => exact hfront _ _ _
  | requestPowChallenge | ack =>
    rw [plan]
    split_ifs <;> rfl
  | sendToMailbox | sendToGroupInbox => cases h
  | subscribe ids =>
    cases pushTx with
    | none => rfl
    | some tx =>
      obtain ⟨subscribers, hinner, -⟩ := subscribe_inner s ids tx
      rw [plan]
      split_ifs
      · rfl
      · rw [hinner]

variable (c amb s msg q) in
/-- The checks of a request leave a queue's window alone or count one send in it. -/
theorem plan_windowOf :
    (plan c amb s msg pushTx).1.windowOf q = s.windowOf q ∧
        (sendTarget msg = some q → ∀ m, (plan c amb s msg pushTx).2 ≠ .write m) ∨
      ∃ w w', s.windowOf q = some w ∧
        w.take rateWindow rateLimitPerQueuePerMinute amb.now = some w' ∧
        (plan c amb s msg pushTx).1.windowOf q = some w' := by
  cases hm : sendTarget msg with
  | none =>
    refine .inl ⟨congrFun (windowOf_congr (plan_queues pushTx hm)) q, ?_⟩
    rintro ⟨⟩
  | some p =>
    rcases plan_of_send c amb s hm pushTx with ⟨hs, hw⟩ | ⟨e, e', hl, hb, hs⟩
    · exact .inl ⟨by rw [hs], fun _ => hw⟩
    · by_cases hq : q = p
      · subst hq
        refine .inr ⟨e.window, e'.window, ?_, QueueEntry.window_counted hb, ?_⟩
        · rw [windowOf, hl, map_some]
        · rw [hs, windowOf_setEntry]
      · refine .inl ⟨by rw [hs, windowOf_setEntry_of_ne s hq], fun h => ?_⟩
        exact absurd (some.inj h).symm hq

variable (c amb s msg q) in
/-- What a request does after its checks keeps the windows there are. -/
theorem handle_windowOf_plan :
    (s.handle c amb msg pushTx).1.windowOf q = (plan c amb s msg pushTx).1.windowOf q ∨
      s.windowOf q = none := by
  have hp := planned_plan c amb s msg pushTx
  unfold handle
  generalize plan c amb s msg pushTx = r at hp
  rcases r with ⟨s₁, reply | m | _ | _⟩
  · exact .inl rfl
  · have ha := hp.admits m rfl
    unfold finish
    dsimp only
    cases hper : s₁.persist m with
    | none => exact .inl rfl
    | some s₂ =>
      have hkeep := congrFun (windowOf_congr (persist_eq_some hper).2.2.1) q
      dsimp only
      cases happ : m.apply amb.now s₂ with
      | none => exact .inl hkeep
      | some =>
        rcases windowOf_apply ha happ with hsame | hfresh
        · exact .inl (hsame.trans hkeep)
        · rw [ledger_queues, map_eq_none_iff] at hfresh
          right
          rw [windowOf, hfresh, map_none]
  · exact .inl rfl
  · exact .inl rfl

variable (c amb s msg q) in
/-- A queue's window over a whole request: untouched, or not there before, or one send
further on. A send the relay accepts is of the last kind. -/
theorem handle_windowOf :
    ((s.handle c amb msg pushTx).1.windowOf q = s.windowOf q ∨ s.windowOf q = none) ∧
        ¬ (sendTarget msg = some q ∧ (s.handle c amb msg pushTx).2 = .answered .ok) ∨
      ∃ w w', s.windowOf q = some w ∧
        w.take rateWindow rateLimitPerQueuePerMinute amb.now = some w' ∧
        (s.handle c amb msg pushTx).1.windowOf q = some w' := by
  have hfin := handle_windowOf_plan c amb s msg q pushTx
  rcases plan_windowOf c amb s msg q pushTx with
    ⟨hsame, hrefused⟩ | ⟨w, w', hw, ht, hw'⟩
  · refine .inl ⟨hfin.imp_left (fun h => h.trans hsame), ?_⟩
    rintro ⟨hq, hok⟩
    obtain ⟨code, ⟨⟩⟩ | ⟨m, hm⟩ := answered_send (by rw [hq]; rfl) hok
    exact hrefused hq m hm
  · rcases hfin with hfin | hnone
    · exact .inr ⟨w, w', hw, ht, hfin.trans hw'⟩
    · simp [hnone] at hw

end Requests
end RelayState

def RelayEvent.time : RelayEvent → Option ℕ
  | .request amb _ _ => some amb.now
  | _ => none

def acceptedAt (c : Crypto) (q : QueueId) (s : Service) : RelayEvent → Option ℕ
  | .request amb msg pushTx =>
    if sendTarget msg = some q ∧ (s.relay.handle c amb msg pushTx).2 = .answered .ok then
      some amb.now else none
  | _ => none

/-- The times of the sends to a queue accepted along a run, oldest first. -/
def acceptedSends (c : Crypto) (q : QueueId) : Service → List RelayEvent → List ℕ :=
  observe (Service.step c) (acceptedAt c q)

/-- If the event restarts the queue's window, the past accepted sends are a minute old. -/
def RestartIdle (c : Crypto) (q : QueueId) (past : List ℕ) (s : Service) (ev : RelayEvent) : Prop :=
  ∀ t ∈ Service.step c s ev, ∀ w ∈ s.relay.windowOf q, ∀ w' ∈ t.relay.windowOf q,
    w'.started ≠ w.started → ∀ τ ∈ past, τ + rateWindow ≤ w'.started

instance (c : Crypto) (q : QueueId) (past : List ℕ) (s : Service) (ev : RelayEvent) :
    Decidable (RestartIdle c q past s ev) :=
  inferInstanceAs (Decidable (∀ t ∈ Service.step c s ev, ∀ w ∈ s.relay.windowOf q,
    ∀ w' ∈ t.relay.windowOf q, w'.started ≠ w.started → ∀ τ ∈ past, τ + rateWindow ≤ w'.started))

/-- Every restart of the queue's window along a run finds a minute without accepted sends. -/
def IdleRestarts (c : Crypto) (q : QueueId) (s₀ : Service) (es : List RelayEvent) : Prop :=
  ∀ pre ev post s, es = pre ++ ev :: post → run (Service.step c) s₀ pre = some s →
    RestartIdle c q (acceptedSends c q s₀ pre) s ev

/-- What the run so far says about a queue's window: nothing was accepted before the
queue was there, and the window tallies what was accepted since. -/
structure Metered (c : Crypto) (q : QueueId) (s₀ s : Service) (es : List RelayEvent) : Prop where
  rolling : Rolling rateWindow rateLimitPerQueuePerMinute (acceptedSends c q s₀ es)
  absent : s.relay.windowOf q = none → acceptedSends c q s₀ es = []
  tally : ∀ w, s.relay.windowOf q = some w → ∀ now, (∀ τ ∈ es.filterMap RelayEvent.time, τ ≤ now) →
    Tally rateWindow (acceptedSends c q s₀ es) now w

section Process
variable {q : QueueId} {s₀ s t : Service} {es : List RelayEvent} {ev : RelayEvent}

theorem Metered.nil (c : Crypto) (q : QueueId) (s₀ : Service) : Metered c q s₀ s₀ [] where
  rolling := fun _ => Nat.zero_le _
  absent _ := rfl
  tally _ _ _ _ := .nil _ _ _

theorem acceptedSends_snoc (hrun : run (Service.step c) s₀ es = some s) (ev : RelayEvent) :
    acceptedSends c q s₀ (es ++ [ev]) = acceptedSends c q s₀ es ++ (acceptedAt c q s ev).toList :=
  observe_snoc ev hrun

theorem Metered.unchanged (h : Metered c q s₀ s es) (hrun : run (Service.step c) s₀ es = some s)
    (hnone : acceptedAt c q s ev = none)
    (hw : t.relay.windowOf q = s.relay.windowOf q ∨ s.relay.windowOf q = none) :
    Metered c q s₀ t (es ++ [ev]) := by
  have hsame : acceptedSends c q s₀ (es ++ [ev]) = acceptedSends c q s₀ es := by
    rw [acceptedSends_snoc hrun, hnone, toList_none, append_nil]
  constructor
  · rw [hsame]
    exact h.rolling
  · intro ht
    rw [hsame]
    rcases hw with hw | hw
    · exact h.absent (hw ▸ ht)
    · exact h.absent hw
  · intro w ht now hnow
    rw [hsame]
    rcases hw with hw | hw
    · exact h.tally w (hw ▸ ht) now (fun τ hτ => hnow τ (by simp [hτ]))
    · rw [h.absent hw]
      exact .nil _ _ _

theorem Metered.counted (h : Metered c q s₀ s es) (hrun : run (Service.step c) s₀ es = some s)
    {msg : ClientMessage} {pushTx : Option ChannelId} {w w' : Window}
    (hnow : ∀ τ ∈ es.filterMap RelayEvent.time, τ ≤ amb.now) (hw : s.relay.windowOf q = some w)
    (ht : w.take rateWindow rateLimitPerQueuePerMinute amb.now = some w')
    (hw' : t.relay.windowOf q = some w')
    (hidle : w'.started ≠ w.started → ∀ τ ∈ acceptedSends c q s₀ es, τ + rateWindow ≤ w'.started) :
    Metered c q s₀ t (es ++ [.request amb msg pushTx]) := by
  obtain ⟨-, -, hstarted⟩ := Window.take_eq_some ht
  have hroll : Tally rateWindow (acceptedSends c q s₀ es) amb.now (w.roll rateWindow amb.now) := by
    refine (h.tally w hw amb.now hnow).roll le_rfl fun hout => ?_
    have hnew : w'.started = amb.now := by rw [hstarted, Window.roll, if_pos hout]
    rw [← hnew]
    apply hidle
    intro hsame
    rw [← hsame, hnew, Nat.sub_self] at hout
    exact absurd hout (by decide)
  have hlater : ∀ now,
      (∀ τ ∈ (es ++ [RelayEvent.request amb msg pushTx]).filterMap RelayEvent.time, τ ≤ now) →
      amb.now ≤ now := fun now hle => hle _ (by simp [RelayEvent.time])
  have habsent : t.relay.windowOf q = none →
      acceptedSends c q s₀ (es ++ [.request amb msg pushTx]) =
      [] := by
    intro hn
    simp [hw'] at hn
  by_cases hacc : sendTarget msg = some q ∧
      (s.relay.handle c amb msg pushTx).2 = .answered .ok
  · have hmore : acceptedSends c q s₀ (es ++ [.request amb msg pushTx]) =
        acceptedSends c q s₀ es ++ [amb.now] := by
      rw [acceptedSends_snoc hrun, acceptedAt, if_pos hacc, toList_some]
    refine ⟨hmore ▸ hroll.rolling h.rolling ht, habsent, fun v hv now hle => ?_⟩
    obtain rfl := mem_unique hw' hv
    rw [hmore]
    exact (hroll.take ht).2.mono (hlater now hle)
  · have hsame : acceptedSends c q s₀ (es ++ [.request amb msg pushTx]) =
        acceptedSends c q s₀ es := by
      rw [acceptedSends_snoc hrun, acceptedAt, if_neg hacc, toList_none, append_nil]
    refine ⟨hsame ▸ h.rolling, habsent, fun v hv now hle => ?_⟩
    obtain rfl := mem_unique hw' hv
    rw [hsame]
    exact (hroll.take ht).1.mono (hlater now hle)

theorem Metered.step (h : Metered c q s₀ s es) (hrun : run (Service.step c) s₀ es = some s)
    (hstep : Service.step c s ev = some t) (hcont : ev.restarts = false)
    (hclock : ((es ++ [ev]).filterMap RelayEvent.time).Pairwise (· ≤ ·))
    (hidle : RestartIdle c q (acceptedSends c q s₀ es) s ev) : Metered c q s₀ t (es ++ [ev]) := by
  cases ev with
  | restart => cases hcont
  | receivePush | hangUp | setAttestationKey =>
    cases hstep
    exact h.unchanged hrun rfl (.inl rfl)
  | request amb msg pushTx =>
    have hrelay := step_request_relay hstep
    rcases handle_windowOf c amb s.relay msg q pushTx with
      ⟨hw, hno⟩ | ⟨w, w', hw, ht, hw'⟩
    · exact h.unchanged hrun (if_neg hno) (by rw [hrelay]; exact hw)
    · rw [← hrelay] at hw'
      refine h.counted hrun (fun τ hτ => ?_) hw ht hw' (hidle t hstep w hw w' hw')
      rw [filterMap_append, pairwise_append] at hclock
      exact hclock.2.2 τ hτ amb.now (by simp [RelayEvent.time])

theorem run_metered (hrun : run (Service.step c) s₀ es = some s)
    (hone : ∀ ev ∈ es, ev.restarts = false)
    (hclock : (es.filterMap RelayEvent.time).Pairwise (· ≤ ·)) (hidle : IdleRestarts c q s₀ es) :
    Metered c q s₀ s es := by
  induction es using reverseRecOn generalizing s with
  | nil =>
    cases hrun
    exact .nil c q s₀
  | append_singleton es ev ih =>
    rw [run_snoc] at hrun
    obtain ⟨u, hu, hstep⟩ := bind_eq_some_iff.mp hrun
    have hclock' : (es.filterMap RelayEvent.time).Pairwise (· ≤ ·) := by
      rw [filterMap_append, pairwise_append] at hclock
      exact hclock.1
    refine (ih hu (fun e he => hone e (by simp [he])) hclock' ?_).step hu hstep
      (hone ev (by simp)) hclock (hidle es ev [] u rfl hu)
    intro pre e post v hes
    exact hidle pre e (post ++ [ev]) v (by rw [hes]; simp)

/-- In one process with a clock that does not go back: if a queue's window is only ever
restarted a minute or more after the last accepted send, no rolling minute holds more
accepted sends than the limit. -/
theorem rolling_limit_of_idle_restarts (c : Crypto) (s₀ s : Service) (es : List RelayEvent)
    (hrun : run (Service.step c) s₀ es = some s) (hone : ∀ ev ∈ es, ev.restarts = false)
    (hclock : (es.filterMap RelayEvent.time).Pairwise (· ≤ ·)) (q : QueueId)
    (hidle : IdleRestarts c q s₀ es) (t : ℕ) :
    ((acceptedSends c q s₀ es).filter (fun τ => t < τ + rateWindow ∧ τ ≤ t)).length ≤
      rateLimitPerQueuePerMinute :=
  (run_metered hrun hone hclock hidle).rolling t

theorem idleRestarts_of_forall
    (h : ∀ n < es.length, ∀ ev ∈ es[n]?, ∀ s ∈ run (Service.step c) s₀ (es.take n),
      RestartIdle c q (acceptedSends c q s₀ (es.take n)) s ev) : IdleRestarts c q s₀ es := by
  intro pre ev post s hes hpre
  subst hes
  have hn := h pre.length (by simp) ev (by simp) s
  rw [take_left] at hn
  exact hn hpre

end Process

/-- So many one-byte sends to the mailbox at one time. -/
def burst (n now : ℕ) : List RelayEvent :=
  replicate n (.request { Ambient.fill 0 with now := now }
    (.sendToMailbox (.fill 1) (.fill 0) ⟨.fill 3, .relayFanout, [3]⟩) none)

def freshMailbox : List RelayEvent := mint 1 (fun solution => .createMailbox solution none)

/-- Sends in two windows, with a minute between them. -/
theorem rolling_limit_of_idle_restarts_spaced :
    ∃ s, run (Service.step .plain) (Service.boot false)
        (freshMailbox ++ burst 2 0 ++ burst 2 rateWindow) = some s ∧
      (acceptedSends .plain (.fill 1) (Service.boot false)
        (freshMailbox ++ burst 2 0 ++ burst 2 rateWindow)).length = 4 ∧
      ((acceptedSends .plain (.fill 1) (Service.boot false)
        (freshMailbox ++ burst 2 0 ++ burst 2 rateWindow)).filter
          (fun τ => rateWindow < τ + rateWindow ∧ τ ≤ rateWindow)).length ≤
            rateLimitPerQueuePerMinute := by
  obtain ⟨s, hs⟩ : ∃ s, run (Service.step .plain)
    (Service.boot false) (freshMailbox ++ burst 2 0 ++ burst 2 rateWindow) = some s := by
        decide +kernel
  refine ⟨s, hs, by decide +kernel, ?_⟩
  refine rolling_limit_of_idle_restarts .plain (Service.boot false) s _ hs ?_ (by decide +kernel)
    (.fill 1) (idleRestarts_of_forall (by decide +kernel)) rateWindow
  simp [freshMailbox, mint, burst, RelayEvent.restarts]

/-- Sixty sends a second before a window runs out and sixty as the next one starts. -/
theorem bursts_break_rolling_limit :
    ∃ s, run (Service.step .plain) (Service.boot false)
        (freshMailbox ++ burst 60 (59 * 10 ^ 9) ++ burst 60 rateWindow) = some s ∧
      (∀ ev ∈ freshMailbox ++ burst 60 (59 * 10 ^ 9) ++ burst 60 rateWindow, ev.restarts = false) ∧
      ((freshMailbox ++ burst 60 (59 * 10 ^ 9) ++ burst 60 rateWindow).filterMap
        RelayEvent.time).Pairwise (· ≤ ·) ∧
      ¬ ((acceptedSends .plain (.fill 1) (Service.boot false)
        (freshMailbox ++ burst 60 (59 * 10 ^ 9) ++ burst 60 rateWindow)).filter
          (fun τ => rateWindow < τ + rateWindow ∧ τ ≤ rateWindow)).length ≤
            rateLimitPerQueuePerMinute := by decide +kernel

end Rosette.Relay
