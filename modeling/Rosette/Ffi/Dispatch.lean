import Rosette.Foundation.Trace

/-! # The dispatch thread

Listener callbacks run on one thread only. It takes messages off a channel into a buffer and,
holding the lock of the listener, gives what it has buffered to the listener that is there. A new
listener is put in its place first and announced in the channel after that, so an event may go
to it before the announcement comes.
-/
namespace Rosette.Ffi
open Foundation List

inductive DispatchMsg (E : Type) where
  | event (e : E)
  | listenerChanged
deriving DecidableEq

def DispatchMsg.event? {E : Type} : DispatchMsg E → Option E
  | .event e => some e
  | .listenerChanged => none

namespace Dispatcher

/-- Where the thread is: at the channel, about to lock the listener, or holding it. -/
inductive Pc (L : Type) where
  | receiving
  | locking
  | delivering (l : L)
deriving DecidableEq

def Pc.inHand {L : Type} : Pc L → ℕ
  | .receiving => 0
  | _ => 1

end Dispatcher

structure Dispatcher (E L : Type) where
  channel : List (DispatchMsg E)
  listener : Option L
  /-- Calls of `set_listener` that have put their listener there and not sent their message. -/
  waking : ℕ
  buffer : List E
  pc : Dispatcher.Pc L
deriving DecidableEq

namespace Dispatcher
variable {E L : Type} {s t u : Dispatcher E L}

inductive Move (E L : Type) where
  | dispatch (e : E)
  /-- The first half of `set_listener`. -/
  | setListener (l : L)
  /-- Its second half. -/
  | wake
  | recv
  | lock
  /-- A callback runs and returns. -/
  | deliver
  | unlock

def new : Dispatcher E L := ⟨[], none, 0, [], .receiving⟩

def step (s : Dispatcher E L) : Move E L → Option (Dispatcher E L)
  | .dispatch e => some { s with channel := s.channel ++ [.event e] }
  | .setListener l =>
    match s.pc with
    | .delivering _ => none
    | _ => some { s with listener := some l, waking := s.waking + 1 }
  | .wake =>
    match s.waking with
    | 0 => none
    | n + 1 => some { s with channel := s.channel ++ [.listenerChanged], waking := n }
  | .recv =>
    match s.pc, s.channel with
    | .receiving, msg :: rest =>
      some { s with channel := rest, buffer := s.buffer ++ msg.event?.toList, pc := .locking }
    | _, _ => none
  | .lock =>
    match s.pc with
    -- without a listener the guard is dropped at once
    | .locking => some { s with pc := s.listener.elim .receiving .delivering }
    | _ => none
  | .deliver =>
    match s.pc, s.buffer with
    | .delivering _, _ :: rest => some { s with buffer := rest }
    | _, _ => none
  | .unlock =>
    match s.pc, s.buffer with
    | .delivering _, [] => some { s with pc := .receiving }
    | _, _ => none

/-! ## What is seen of a run -/

def events (msgs : List (DispatchMsg E)) : List E := msgs.filterMap DispatchMsg.event?

def enters : Move E L → Option (DispatchMsg E)
  | .dispatch e => some (.event e)
  | .wake => some .listenerChanged
  | _ => none

def entered (ms : List (Move E L)) : List (DispatchMsg E) := ms.filterMap enters

def gives (s : Dispatcher E L) : Move E L → Option (E × L)
  | .deliver =>
    match s.pc, s.buffer with
    | .delivering l, e :: _ => some (e, l)
    | _, _ => none
  | _ => none

def delivered : List (Move E L) → List (E × L) := observe step gives new

def finishes (s : Dispatcher E L) : Move E L → Option Unit
  | .lock => if s.listener.isNone then some () else none
  | .unlock => some ()
  | _ => none

def handled (ms : List (Move E L)) : ℕ := (observe step finishes new ms).length

/-! ## The order of events -/

/-- The thread has taken some messages in the order in which they came. Their events were given
to listeners or are buffered; once a registration has been handled, those of every message that
was handled were given. -/
structure Ordered (ms : List (Move E L)) (s : Dispatcher E L) (taken : List (DispatchMsg E)) :
    Prop where
  fifo : entered ms = taken ++ s.channel
  once : (delivered ms).map Prod.fst ++ s.buffer = events taken
  slot : 0 < s.waking ∨ .listenerChanged ∈ entered ms ↔ s.listener.isSome = true
  held : ∀ l, s.pc = .delivering l → s.listener = some l
  done : taken.length = handled ms + s.pc.inHand
  flushed : .listenerChanged ∈ taken.take (handled ms) →
    events (taken.take (handled ms)) <+: (delivered ms).map Prod.fst

section Steps
variable {ms : List (Move E L)} {s t : Dispatcher E L} {taken : List (DispatchMsg E)} {m : Move E L}
  {l : L}

theorem ordered_new : Ordered ([] : List (Move E L)) new [] where
  fifo := rfl
  once := rfl
  slot := by
    refine ⟨fun h => ?_, fun h => by cases h⟩
    rcases h with h | h <;> cases h
  held _ h := by cases h
  done := rfl
  flushed h := by cases h

theorem entered_snoc (ms : List (Move E L)) (m : Move E L) :
    entered (ms ++ [m]) = entered ms ++ (enters m).toList := by
  cases h : enters m <;> simp [entered, h]

theorem delivered_snoc (hrun : run step new ms = some s) (m : Move E L) :
    delivered (ms ++ [m]) = delivered ms ++ (gives s m).toList :=
  observe_snoc m hrun

theorem handled_snoc (hrun : run step new ms = some s) (m : Move E L) :
    handled (ms ++ [m]) = handled ms + (finishes s m).toList.length := by
  rw [handled, observe_snoc m hrun, length_append]
  rfl

section
variable (h : Ordered ms s taken)
include h

theorem Ordered.aside (hrun : run step new ms = some s) (hgives : gives s m = none)
    (hfinishes : finishes s m = none) (hchannel : t.channel = s.channel ++ (enters m).toList)
    (hbuffer : t.buffer = s.buffer) (hpc : t.pc = s.pc)
    (hslot : 0 < t.waking ∨ .listenerChanged ∈ entered (ms ++ [m]) ↔ t.listener.isSome = true)
    (hheld : ∀ l, s.pc = .delivering l → t.listener = s.listener) :
    Ordered (ms ++ [m]) t taken := by
  have hdelivered : delivered (ms ++ [m]) = delivered ms := by
    rw [delivered_snoc hrun, hgives]
    exact append_nil _
  have hhandled : handled (ms ++ [m]) = handled ms := by
    rw [handled_snoc hrun, hfinishes]
    rfl
  refine ⟨?_, ?_, hslot, fun l hl => ?_, ?_, ?_⟩
  · rw [hchannel, ← append_assoc, ← h.fifo, entered_snoc]
  · rw [hdelivered, hbuffer]
    exact h.once
  · rw [hpc] at hl
    rw [hheld l hl]
    exact h.held l hl
  · rw [hhandled, hpc]
    exact h.done
  · rw [hhandled, hdelivered]
    exact h.flushed

theorem Ordered.recv (hrun : run step new ms = some s) {msg : DispatchMsg E}
    {rest : List (DispatchMsg E)} (hpc : s.pc = .receiving) (hchannel : s.channel = msg :: rest) :
    Ordered (ms ++ [.recv]) { s with
      channel := rest, buffer := s.buffer ++ msg.event?.toList, pc := .locking }
      (taken ++ [msg]) := by
  have hdelivered : delivered (ms ++ [.recv]) = delivered ms :=
    (delivered_snoc hrun _).trans (append_nil _)
  have hhandled : handled (ms ++ [.recv]) = handled ms := handled_snoc hrun _
  have hdone : taken.length = handled ms := by
    rw [h.done, hpc]
    rfl
  refine ⟨?_, ?_, ?_, fun l hl => (by cases hl), ?_, ?_⟩
  · rw [entered_snoc, h.fifo, hchannel]
    simp [enters]
  · rw [hdelivered, ← append_assoc, h.once, events, events, filterMap_append]
    cases msg <;> rfl
  · rw [entered_snoc]
    simpa [enters] using h.slot
  · rw [hhandled, length_append, hdone]
    rfl
  · have hflushed := h.flushed
    rw [← hdone, take_length] at hflushed
    rw [hhandled, hdelivered, ← hdone, take_left]
    exact hflushed

theorem Ordered.lock (hrun : run step new ms = some s) (hpc : s.pc = .locking) :
    Ordered (ms ++ [.lock]) { s with pc := s.listener.elim .receiving .delivering } taken := by
  have hdelivered : delivered (ms ++ [.lock]) = delivered ms :=
    (delivered_snoc hrun _).trans (append_nil _)
  have hentered : entered (ms ++ [.lock]) = entered ms := (entered_snoc ms _).trans (append_nil _)
  have hhandled := handled_snoc hrun .lock
  have hdone := h.done
  rw [hpc] at hdone
  cases hl : s.listener with
  | none =>
    -- nothing has been announced yet
    have hsilent : .listenerChanged ∉ taken := by
      intro hmem
      have := h.slot.mp (.inr (h.fifo ▸ mem_append_left _ hmem))
      simp [hl] at this
    rw [finishes, hl] at hhandled
    refine ⟨hentered ▸ h.fifo, hdelivered ▸ h.once, ?_, fun l hl => (by cases hl), ?_,
      fun hmem => absurd (mem_of_mem_take hmem) hsilent⟩
    · rw [hentered]
      exact hl ▸ h.slot
    · rw [hhandled]
      exact hdone
  | some =>
    rw [finishes, hl] at hhandled
    refine ⟨hentered ▸ h.fifo, hdelivered ▸ h.once, ?_, ?_, ?_, ?_⟩
    · rw [hentered]
      exact hl ▸ h.slot
    · rintro _ ⟨⟩
      rfl
    · rw [hhandled]
      exact hdone
    · rw [hhandled, hdelivered]
      exact h.flushed

theorem Ordered.deliver (hrun : run step new ms = some s) {e : E} {rest : List E}
    (hpc : s.pc = .delivering l) (hbuffer : s.buffer = e :: rest) :
    Ordered (ms ++ [.deliver]) { s with buffer := rest } taken := by
  have hgives : gives s .deliver = some (e, l) := by rw [gives, hpc, hbuffer]
  have hdelivered := delivered_snoc hrun .deliver
  rw [hgives] at hdelivered
  have hentered : entered (ms ++ [.deliver]) = entered ms :=
    (entered_snoc ms _).trans (append_nil _)
  have hhandled : handled (ms ++ [.deliver]) = handled ms := handled_snoc hrun _
  refine ⟨hentered ▸ h.fifo, ?_, hentered ▸ h.slot, h.held, hhandled ▸ h.done, ?_⟩
  · rw [hdelivered, ← h.once, hbuffer]
    simp
  · rw [hhandled, hdelivered, map_append]
    exact fun hmem => (h.flushed hmem).trans (prefix_append _ _)

theorem Ordered.unlock (hrun : run step new ms = some s) (hpc : s.pc = .delivering l)
    (hbuffer : s.buffer = []) :
    Ordered (ms ++ [.unlock]) { s with pc := .receiving } taken := by
  have hdelivered : delivered (ms ++ [.unlock]) = delivered ms :=
    (delivered_snoc hrun _).trans (append_nil _)
  have hentered : entered (ms ++ [.unlock]) = entered ms := (entered_snoc ms _).trans (append_nil _)
  have hhandled : handled (ms ++ [.unlock]) = handled ms + 1 := handled_snoc hrun _
  have hdone : taken.length = handled ms + 1 := by
    rw [h.done, hpc]
    rfl
  refine ⟨hentered ▸ h.fifo, hdelivered ▸ h.once, hentered ▸ h.slot, fun l hl => (by cases hl),
    hhandled ▸ hdone, fun _ => ?_⟩
  have honce := h.once
  rw [hbuffer, append_nil] at honce
  rw [hhandled, hdelivered, take_of_length_le hdone.le, honce]

theorem Ordered.step (hrun : run step new ms = some s) (hs : s.step m = some t) :
    ∃ taken', Ordered (ms ++ [m]) t taken' := by
  cases m with
  | dispatch =>
    cases hs
    refine ⟨taken, h.aside hrun rfl rfl rfl rfl rfl ?_ fun _ _ => rfl⟩
    rw [entered_snoc]
    simpa [enters] using h.slot
  | setListener l =>
    simp only [Dispatcher.step] at hs
    split at hs
    · cases hs
    · rename_i hpc
      cases hs
      refine ⟨taken, h.aside hrun rfl rfl (append_nil _).symm rfl rfl ?_
        fun l hl => absurd hl (hpc l)⟩
      exact ⟨fun _ => rfl, fun _ => .inl (Nat.succ_pos _)⟩
  | wake =>
    simp only [Dispatcher.step] at hs
    split at hs
    · cases hs
    · rename_i n hn
      cases hs
      refine ⟨taken, h.aside hrun rfl rfl rfl rfl rfl ⟨fun _ => h.slot.mp (.inl ?_), fun _ =>
        .inr ?_⟩ fun _ _ => rfl⟩
      · rw [hn]
        exact Nat.succ_pos n
      · rw [entered_snoc]
        exact mem_append_right _ (mem_singleton_self _)
  | recv =>
    simp only [Dispatcher.step] at hs
    split at hs
    · rename_i msg rest hpc hchannel
      cases hs
      exact ⟨_, h.recv hrun hpc hchannel⟩
    · cases hs
  | lock =>
    simp only [Dispatcher.step] at hs
    split at hs
    · rename_i hpc
      cases hs
      exact ⟨_, h.lock hrun hpc⟩
    · cases hs
  | deliver =>
    simp only [Dispatcher.step] at hs
    split at hs
    · rename_i l e rest hpc hbuffer
      cases hs
      exact ⟨_, h.deliver hrun hpc hbuffer⟩
    · cases hs
  | unlock =>
    simp only [Dispatcher.step] at hs
    split at hs
    · rename_i l hpc hbuffer
      cases hs
      exact ⟨_, h.unlock hrun hpc hbuffer⟩
    · cases hs

end

theorem ordered_of_run (hrun : run step new ms = some s) : ∃ taken, Ordered ms s taken :=
  run_induction ⟨[], ordered_new⟩
    (fun _ _ _ _ hrun h hs => h.elim fun _ h => h.step hrun hs) hrun

end Steps

/-! ## The thread on its own -/

def Move.own : Move E L → Bool
  | .recv | .lock | .deliver | .unlock => true
  | _ => false

def Leads (s t : Dispatcher E L) : Prop :=
  ∃ ms : List (Move E L), (∀ m ∈ ms, m.own = true) ∧ run step s ms = some t

theorem Leads.cons {m : Move E L} (hm : m.own = true) (hs : s.step m = some t) (h : Leads t u) :
    Leads s u := by
  obtain ⟨ms, hown, hrun⟩ := h
  exact ⟨m :: ms, forall_mem_cons.mpr ⟨hm, hown⟩, by rw [run, hs]; exact hrun⟩

theorem Leads.refl (s : Dispatcher E L) : Leads s s := ⟨[], by simp, rfl⟩

theorem leads_delivering (channel : List (DispatchMsg E)) (listener : Option L) (n : ℕ)
    (buffer : List E) (l : L) : Leads ⟨channel, listener, n, buffer, .delivering l⟩
      ⟨channel, listener, n, [], .receiving⟩ := by
  induction buffer with
  | nil => exact .cons (m := .unlock) rfl rfl (.refl _)
  | cons e buffer ih => exact .cons (m := .deliver) rfl rfl ih

theorem leads_locking (channel : List (DispatchMsg E)) (l : L) (n : ℕ) (buffer : List E) :
    Leads ⟨channel, some l, n, buffer, .locking⟩ ⟨channel, some l, n, [], .receiving⟩ :=
  .cons (m := .lock) rfl rfl (leads_delivering channel (some l) n buffer l)

theorem Leads.trans (h : Leads s t) (h' : Leads t u) : Leads s u := by
  obtain ⟨ms, hown, hrun⟩ := h
  obtain ⟨ms', hown', hrun'⟩ := h'
  refine ⟨ms ++ ms', fun m hm => ?_, by rw [run_append, hrun]; exact hrun'⟩
  exact (mem_append.mp hm).elim (hown m) (hown' m)

theorem leads_receiving (channel : List (DispatchMsg E)) (l : L) (n : ℕ) (buffer : List E)
    (h : channel = [] → buffer = []) : Leads ⟨channel, some l, n, buffer, .receiving⟩
      ⟨[], some l, n, [], .receiving⟩ := by
  induction channel generalizing buffer with
  | nil =>
    obtain rfl := h rfl
    exact .refl _
  | cons msg rest ih =>
    exact .cons (m := .recv) rfl rfl ((leads_locking rest l n _).trans (ih [] fun _ => rfl))

/-- Once every registration is announced, the thread gives all events without anyone's help. -/
theorem Ordered.drains {ms : List (Move E L)} {taken : List (DispatchMsg E)}
    (h : Ordered ms s taken) {l : L} (hl : s.listener = some l) (hw : s.waking = 0) :
    Leads s ⟨[], some l, 0, [], .receiving⟩ := by
  obtain ⟨channel, listener, n, buffer, pc⟩ := s
  obtain rfl : listener = some l := hl
  obtain rfl : n = 0 := hw
  cases pc with
  | receiving =>
    refine leads_receiving channel l 0 buffer fun hc => ?_
    obtain rfl := hc
    have hentered : entered ms = taken := h.fifo.trans (append_nil _)
    have hmem : .listenerChanged ∈ taken := by
      rcases h.slot.mpr rfl with hpos | hmem
      · cases hpos
      · exact hentered ▸ hmem
    have hdone : handled ms = taken.length := h.done.symm
    have hflushed := h.flushed
    rw [hdone, take_length, ← h.once] at hflushed
    exact append_right_eq_self.mp ((hflushed hmem).eq_of_length_le (by simp))
  | locking =>
    exact (leads_locking channel l 0 buffer).trans (leads_receiving channel l 0 [] fun _ => rfl)
  | delivering l' =>
    exact (leads_delivering channel (some l) 0 buffer l').trans
      (leads_receiving channel l 0 [] fun _ => rfl)

/-- The callbacks run in the order in which events entered the channel, each for an event of its
own; what is not given yet is buffered or in the channel. A callback is that of the listener
registered at the moment. Once the thread has handled a registration, all events that entered
before it have been given; and once all registrations are announced, the thread can give the rest
alone. -/
theorem every_event_reaches_one_listener {ms : List (Move E L)} {s : Dispatcher E L}
    (hrun : run step new ms = some s) :
    (delivered ms).map Prod.fst <+: events (entered ms) ∧
    (delivered ms).map Prod.fst ++ s.buffer ++ events s.channel = events (entered ms) ∧
    (∀ pre post v, ms = pre ++ .deliver :: post → run step new pre = some v →
      ∃ e l, v.listener = some l ∧ delivered (pre ++ [.deliver]) = delivered pre ++ [(e, l)]) ∧
    (∀ pre post, entered ms = pre ++ .listenerChanged :: post → pre.length < handled ms →
      events pre <+: (delivered ms).map Prod.fst) ∧
    ∀ l, s.listener = some l → s.waking = 0 → Leads s ⟨[], some l, 0, [], .receiving⟩ := by
  obtain ⟨taken, h⟩ := ordered_of_run hrun
  have hall : (delivered ms).map Prod.fst ++ s.buffer ++ events s.channel =
      events (entered ms) := by
    rw [h.once, h.fifo, events, events, events, filterMap_append]
  refine ⟨⟨_, by rw [← append_assoc]; exact hall⟩, hall, ?_, ?_, fun l hl => h.drains hl⟩
  · rintro pre post v rfl hpre
    rw [run_append, hpre, Option.bind_some] at hrun
    obtain ⟨v', hv', -⟩ := Option.bind_eq_some_iff.mp hrun
    obtain ⟨taken', hv⟩ := ordered_of_run hpre
    simp only [step] at hv'
    split at hv'
    · rename_i l e rest hpc hbuffer
      refine ⟨e, l, hv.held l hpc, ?_⟩
      rw [delivered_snoc hpre, gives, hpc, hbuffer]
      rfl
    · cases hv'
  · intro pre post hentered hlt
    -- the announcement is among the messages that were handled
    have htake : taken.take (handled ms) = (entered ms).take (handled ms) := by
      rw [h.fifo, take_append_of_le_length (h.done ▸ Nat.le_add_right ..)]
    have hpre : pre ++ [.listenerChanged] <+: taken.take (handled ms) := by
      rw [htake, hentered]
      refine prefix_take_iff.mpr ⟨⟨post, by simp⟩, ?_⟩
      rw [length_append]
      exact hlt
    refine IsPrefix.trans ?_ (h.flushed (hpre.subset (by simp)))
    exact ((prefix_append pre _).trans hpre).filterMap _

/-- An event waits for the first listener, which gets it before its announcement comes; a second
one takes the next event. -/
def twoListeners : List (Move ℕ String) :=
  [.dispatch 1, .recv, .lock, .setListener "a", .dispatch 2, .recv, .lock, .deliver, .deliver,
    .unlock, .wake, .recv, .lock, .unlock, .dispatch 3, .setListener "b", .recv, .lock, .deliver,
    .unlock, .wake, .recv, .lock, .unlock]

theorem every_event_reaches_one_listener_twice : ∃ s, run step new twoListeners = some s ∧
    delivered twoListeners = [(1, "a"), (2, "a"), (3, "b")] ∧
    (delivered twoListeners).map Prod.fst ++ s.buffer ++ events s.channel = [1, 2, 3] ∧
    events (entered twoListeners) = [1, 2, 3] ∧
    [1, 2] <+: (delivered twoListeners).map Prod.fst := by
  obtain ⟨s, hs⟩ : ∃ s, run step new twoListeners = some s := by decide
  obtain ⟨-, hall, -, hflushed, -⟩ := every_event_reaches_one_listener hs
  refine ⟨s, hs, by decide, hall.trans (by decide), by decide, ?_⟩
  exact hflushed [.event 1, .event 2] [.event 3, .listenerChanged] (by decide) (by decide)

end Dispatcher
end Rosette.Ffi
