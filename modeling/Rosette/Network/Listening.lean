import Rosette.Network.Transport

/-! # Engines that listen

A running engine is told of everything that arrives in its mailbox, by the connection
it uses or by the one it is about to use. What is acked there is what it has seen.
Every event keeps this, as long as no one else acks on the mailbox and every push
the engine takes is noted.
-/
namespace Rosette.Network
open Foundation Proto Rosette.Core Relay Engine List World

variable {mls : OpenMls} {ι : Type} {c : Crypto} {q : QueueId} {msg : ClientMessage}
  {reply : ServerMessage} {w : World mls ι} {i : ι} {e : ChatEngine mls} {pc : Pc}
  {h : Happening mls ι}

/-- Device `i` runs an engine that listens to its mailbox. -/
structure Listening (w : World mls ι) (i : ι) (e : ChatEngine mls) (pc : Pc) : Prop where
  running : (w.nodes i).process = .running e pc
  mailbox : w.service.relay.ledger.isMailbox e.mailboxQid = true
  attached : ∀ k, (Process.running e pc).Uses k → Attached w k e.mailboxQid e.seen
  acked : ∀ id, .acked id ∈ boxHistory e.mailboxQid w.service.log → id ∈ e.seen
  acking : ∀ k rid id, (rid, .ack e.mailboxQid id) ∈ (w.conns k).up → id ∈ e.seen

/-- The engine has handled every push of its mailbox. -/
def CaughtUp (w : World mls ι) (e : ChatEngine mls) : Prop :=
  ∀ a ∈ arrivals e.mailboxQid w.service.log, a.messageId ∈ e.seen

theorem ack_of_boxEvents {log : List Exchange} {id : MessageId}
    (h : .acked id ∈ boxEvents q log (msg, reply)) : msg = .ack q id := by
  unfold boxEvents at h
  split at h
  · split_ifs at h <;> simp at h
  · split_ifs at h
    · simp at h
    · simp at h
  · rename_i p id' heq
    split_ifs at h with hp
    · simp only [mem_singleton, BoxEvent.acked.injEq] at h
      cases heq
      rw [hp, h]
    · simp at h
  · simp at h

section Moves
variable {w' : World mls ι} {k : ConnId} {S : Finset MessageId}

theorem Listening.keep (hl : Listening w i e pc) (ho : Orderly c w) (ho' : Orderly c w')
    (hn : w'.nodes i = w.nodes i)
    (hlog : w'.service.log = w.service.log ∨ ∃ k rid msg reply, (rid, msg) ∈ (w.conns k).up ∧
      w'.service.log = w.service.log ++ [(msg, reply)])
    (hup : ∀ k f, f ∈ (w'.conns k).up → f ∈ (w.conns k).up ∨ ∀ id, f.2 ≠ .ack e.mailboxQid id)
    (hatt : ∀ k, (Process.running e pc).Uses k → Attached w' k e.mailboxQid e.seen) :
    Listening w' i e pc where
  running := by rw [hn, hl.running]
  mailbox := by
    have he' := ho'.explains
    rcases hlog with hlog | ⟨k, rid, msg, reply, -, hlog⟩
    · rw [hlog, ← append_nil w.service.log] at he'
      exact isMailbox_append ho.explains he' hl.mailbox
    · rw [hlog] at he'
      exact isMailbox_append ho.explains he' hl.mailbox
  attached := hatt
  acked id hid := by
    rcases hlog with hlog | ⟨k, rid, msg, reply, hm, hlog⟩
    · rw [hlog] at hid
      exact hl.acked id hid
    · rw [hlog, boxHistory_snoc] at hid
      rcases mem_append.mp hid with hid | hid
      · exact hl.acked id hid
      · obtain rfl := ack_of_boxEvents hid
        exact hl.acking k rid id hm
  acking k rid id hm := by
    rcases hup k _ hm with hm | hne
    · exact hl.acking k rid id hm
    · exact absurd rfl (hne id)

theorem Attached.moved (ha : Attached w k q S) (ho : Orderly c w)
    (hk : (w.conns k).owner.isSome = true ∧ k < w.nextConn)
    (hq : w.service.relay.ledger.isMailbox q = true)
    (hS : ∀ id, .acked id ∈ boxHistory q w.service.log → id ∈ S) (hm : Moved c w h w') :
    Attached w' k q S := by
  cases hm.streamed ha.single hk ha.tunedTo with
  | told told arrived received closed up =>
    exact ha.told told (arrived ho.explains hq) rfl received closed up
  | subscribed head handled service received up =>
    exact ha.subscribed ho.explains hS head handled service received up
  | delivered closed queue moved =>
    subst moved
    exact ha.delivered closed queue
  | hungUp moved =>
    subst moved
    exact ha.hungUp
  | lost more arrived received up gone =>
    exact ha.cut (ha.toSolo.moved hk hm) received more arrived (gone.imp_left And.right)

/-- Only the relay and outside clients add to the record or to what is under way. -/
theorem Moved.grows (hm : Moved c w h w') :
    w'.nodes = w.nodes ∧
    (w'.service.log = w.service.log ∨ ∃ k rid msg reply, (rid, msg) ∈ (w.conns k).up ∧
      w'.service.log = w.service.log ++ [(msg, reply)]) ∧
    ∀ k f, f ∈ (w'.conns k).up → f ∈ (w.conns k).up ∨ h = .outside k f.2 := by
  have hset : ∀ {k' : ConnId} (conn : Conn ι), (∀ f ∈ conn.up, f ∈ (w.conns k').up) →
      ∀ k f, f ∈ ((w.setConn k' conn).conns k).up → f ∈ (w.conns k).up ∨ h = .outside k f.2 := by
    intro k' conn hconn k f hf
    by_cases hk : k = k'
    · subst hk
      rw [setConn_self] at hf
      exact .inl (hconn f hf)
    · rw [setConn_of_ne w hk] at hf
      exact .inl hf
  cases hm with
  | @served k amb rid msg rest t reply serving up =>
    refine ⟨rfl, .inr ⟨k, rid, msg, reply, ?_, rfl⟩, hset _ fun f hf => ?_⟩
    · rw [up]
      exact mem_cons_self
    · rw [up]
      exact mem_cons_of_mem _ hf
  | died serving up =>
    refine ⟨rfl, .inl rfl, hset _ fun f hf => ?_⟩
    rw [up]
    exact mem_cons_of_mem _ hf
  | replied | delivered | severed | broken => exact ⟨rfl, .inl rfl, hset _ fun f hf => hf⟩
  | hungUp | restarted => exact ⟨rfl, .inl rfl, fun k f hf => .inl hf⟩
  | dialled => exact ⟨rfl, .inl rfl, hset _ (by rintro f ⟨⟩)⟩
  | @outside k =>
    refine ⟨rfl, .inl rfl, fun k' f hf => ?_⟩
    by_cases hk : k' = k
    · subst hk
      rw [setConn_self] at hf
      rcases mem_append.mp hf with hf | hf
      · exact .inl hf
      · rw [mem_singleton.mp hf]
        exact .inr rfl
    · rw [setConn_of_ne w hk] at hf
      exact .inl hf
  | @restartedMidway now k amb rid msg rest mid m db t serving up =>
    refine ⟨rfl, .inr ⟨k, rid, msg, m.reply, ?_, rfl⟩, fun k f hf => .inl hf⟩
    rw [up]
    exact mem_cons_self

theorem Listening.moved (hl : Listening w i e pc) (ho : Orderly c w) (hm : Moved c w h w')
    (hout : ∀ k id, h ≠ .outside k (.ack e.mailboxQid id)) : Listening w' i e pc := by
  obtain ⟨hn, hlog, hup⟩ := hm.grows
  refine hl.keep ho (ho.moved hm) (congrFun hn i) hlog (fun k f hf => ?_) (fun k hk => ?_)
  · refine (hup k f hf).imp_right (fun hf id he => hout k id ?_)
    rw [hf, he]
  · have hown := ho.owned i k (by rw [hl.running]; exact hk)
    refine (hl.attached k hk).moved ho ⟨?_, hown.2⟩ hl.mailbox hl.acked hm
    rw [hown.1]
    rfl

theorem World.step_log [DecidableEq ι] (hs : w.step c h = some w') :
    ∃ more, w'.service.log = w.service.log ++ more := by
  have hsame : w'.service = w.service → ∃ more, w'.service.log = w.service.log ++ more :=
    fun he => ⟨[], by rw [he, append_nil]⟩
  have hboot : ∀ (w : World mls ι) (i : ι) (bt : BootTurn mls),
      (w.installBoot i bt).service = w.service := by
    intro w i bt
    cases bt <;> rfl
  unfold World.step at hs
  split at hs
  · rcases (moved_of_stepNetwork hs).grows.2.1 with hlog | ⟨k, rid, msg, reply, -, hlog⟩
    · exact ⟨[], by rw [hlog, append_nil]⟩
    · exact ⟨_, hlog⟩
  · rename_i i hi
    split at hs
    · cases h with
      | start =>
        simp only [World.stepOff] at hs
        split at hs <;> cases hs <;> exact hsame rfl
      | _ => cases hs
    · rcases stepBoot_cases hi hs with ⟨bt, -, -, -, -, -, -, -, rfl⟩ | ⟨o, -, rfl⟩ | rfl
      · exact hsame (hboot w i bt)
      · exact hsame (hboot _ i _)
      · exact hsame rfl
    · rcases stepEngine_cases hi hs with ⟨w₁, t, hr, rfl⟩ | ⟨-, rfl⟩
      · exact hsame (service_resumed hr)
      · exact hsame rfl

end Moves

section Stretches
variable [DecidableEq ι] {w₁ : World mls ι} {t : Turn mls}

theorem Listening.resumed (hl : Listening w i e pc) (ho : Orderly c w)
    (hr : Resumed c w i e pc h w₁ t)
    (hpop : ∀ d p rest, h = .push i d → (w.conns e.relay).received = p :: rest →
      p.2.messageId ∈ t.engine.seen) : Listening (w₁.install i t) i t.engine t.pc := by
  have hrelay : Attached w e.relay e.mailboxQid e.seen := hl.attached _ (.inl rfl)
  obtain ⟨hbox, hseen, hframe⟩ := resumed_sends (fun p rest hp => hrelay.addressed hp) hr
  have hservice := service_resumed hr
  refine ⟨by rw [install_self], ?_, fun k hk => ?_, fun id hid => ?_, fun k rid id hm => ?_⟩
  · rw [hservice, hbox]
    exact hl.mailbox
  · rw [hbox]
    rcases uses_resumed hr hk with hk | ⟨rfl, rfl⟩
    · have ha := hl.attached k hk
      obtain ⟨hclosed, hfollows, hrec⟩ := conn_resumed ho hl.running ha.single hr hk
      rcases hrec with hrec | ⟨d, p, rest, hd, rfl, hp, hrec⟩
      · exact (ha.mono hseen).congr hservice hrec hclosed hfollows
      · have hpopped := ha.popped hp hseen (hpop d p rest hd hp)
        refine hpopped.congr hservice ?_ ?_ ?_ <;> rw [setConn_self]
        · exact hrec
        · exact hclosed
        · exact hfollows
    · cases hr
      obtain ⟨-, hq, hidle⟩ := ho.unopened w.nextConn le_rfl
      refine Attached.opened (?_ : _ = [(0, _)]) ?_ hq hidle
      · simp [onConnected, send_conns_self, Conn.write, Conn.fresh]
      · simp [onConnected, send_conns_self, Conn.write, Conn.fresh]
  · rw [hservice, hbox] at hid
    exact hseen (hl.acked id hid)
  · rw [hbox] at hm
    rcases up_resumed hr hm with hm | ⟨hf, -⟩
    · exact hseen (hl.acking k rid id hm)
    · rcases hframe k _ hf with ⟨id', hid', ⟨⟩⟩ | ⟨s, ⟨⟩⟩ | ⟨-, -, ⟨⟩⟩
      exact hid'

/-- A pumped push is noted, so the engine goes on listening through every stretch that does not
pair. -/
theorem Listening.pumped (hl : Listening w i e pc) (ho : Orderly c w)
    (hr : Resumed c w i e pc h w₁ t) (hpair : pc ≠ .receiving .awaitPairing) :
    Listening (w₁.install i t) i t.engine t.pc := by
  refine hl.resumed ho hr (fun d p rest hd hp => ?_)
  subst hd
  cases hr with
  | @push r p' rest' _ receiving received =>
    rw [hp] at received
    cases received
    cases r with
    | nextEvent | drain => exact pumpPush_noted ..
    | awaitPairing => exact absurd receiving hpair

end Stretches

end Rosette.Network
