import Rosette.Ffi.Shared
import Rosette.Foundation.Trace

/-! # Message numbers

A message is numbered by a counter that is not under the lock of the store and wraps around after
its last value, and the store is written to disk together with the counter, by whichever thread has
changed something. The threads are followed here from one lock, one access of the counter and one
write to the next.
-/
namespace Rosette.Ffi.History
open Foundation Option Function

def msgId (n : UInt64) : String := "msg-" ++ toString n

/-- A message that has no number yet. -/
structure Draft where
  conversation : String
  body : String
  mine : Bool
  timestampMs : ℤ
  delivery : DeliveryState

def Draft.message (d : Draft) (n : UInt64) : ChatMessage :=
  ⟨msgId n, d.body, d.mine, d.timestampMs, d.delivery⟩

def record (s : UiStore) (d : Draft) (n : UInt64) : UiStore :=
  if d.mine then s.recordSent d.conversation (d.message n)
  else s.recordReceived d.conversation (d.message n)

inductive Stage where
  | idle
  /-- `handle_command` is about to lock the store. -/
  | sending (d : Draft)
  /-- It holds the store and has still to draw a number. -/
  | numbering (d : Draft)
  /-- `forward_event` draws its number before it locks the store. -/
  | arriving (d : Draft)
  | arrived (d : Draft) (n : UInt64)
  /-- The store is held, and the message has its number. -/
  | filling (d : Draft) (n : UInt64)
  | marking (conversation : String)
  | opening (peerName : Option String)
  /-- `persist_ui`, before it has locked the disk. -/
  | persisting
  /-- It holds the disk and is about to lock the store. -/
  | opened
  /-- It holds both and has still to read the counter. -/
  | loading
  | loaded (seq : UInt64)
  /-- The bytes are made, and the store is released. -/
  | committing (store : UiStore) (seq : UInt64)

structure Process where
  store : UiStore
  seq : UInt64
  storeLock : Option ℕ
  diskLock : Option ℕ
  threads : ℕ → Stage

/-- The row of the database, and the process that runs. -/
structure World where
  uiState : Option (UiStore × UInt64)
  process : Option Process

inductive Job where
  | send (conversation body : String) (timestampMs : ℤ) (delivery : DeliveryState)
  | receive (conversation body : String) (timestampMs : ℤ)
  | markVerified (conversation : String)
  | createConversation (peerName : Option String)

def Job.stage : Job → Stage
  | .send conversation body timestampMs delivery =>
    .sending ⟨conversation, body, true, timestampMs, delivery⟩
  | .receive conversation body timestampMs =>
    .arriving ⟨conversation, body, false, timestampMs, .received⟩
  | .markVerified conversation => .marking conversation
  | .createConversation peerName => .opening peerName

inductive Move where
  | start (i : ℕ) (job : Job)
  /-- A thread goes on. A write to disk may fail. -/
  | go (i : ℕ) (diskOk : Bool)
  | crash
  | newPersistent

namespace Process

def put (p : Process) (i : ℕ) (stage : Stage) : Process :=
  { p with threads := update p.threads i stage }

def go (p : Process) (i : ℕ) : Option Process :=
  match p.threads i with
  | .idle => none
  | .sending d =>
    if p.storeLock.isNone then some ({ p with storeLock := some i }.put i (.numbering d)) else none
  | .numbering d => some ({ p with seq := p.seq + 1 }.put i (.filling d p.seq))
  | .arriving d => some ({ p with seq := p.seq + 1 }.put i (.arrived d p.seq))
  | .arrived d n =>
    if p.storeLock.isNone then some ({ p with storeLock := some i }.put i (.filling d n)) else none
  | .filling d n =>
    some ({ p with store := record p.store d n, storeLock := none }.put i .persisting)
  | .marking id =>
    if p.storeLock.isNone then
      if p.store.conversations.any (·.id = id) then
        some ({ p with store := p.store.update id fun c => { c with verified := true } }.put i
          .persisting)
      else some (p.put i .idle)
    else none
  | .opening peerName =>
    if p.storeLock.isNone then
      some ({ p with store := p.store.createConversation peerName }.put i .persisting)
    else none
  | .persisting =>
    if p.diskLock.isNone then some ({ p with diskLock := some i }.put i .opened) else none
  | .opened =>
    if p.storeLock.isNone then some ({ p with storeLock := some i }.put i .loading) else none
  | .loading => some (p.put i (.loaded p.seq))
  | .loaded seq => some ({ p with storeLock := none }.put i (.committing p.store seq))
  | .committing _ _ => some ({ p with diskLock := none }.put i .idle)

/-- The number that a step draws. -/
def draws (p : Process) (i : ℕ) : Option UInt64 :=
  match p.threads i with
  | .numbering _ | .arriving _ => some p.seq
  | _ => none

/-- What a step writes to disk. -/
def writes (p : Process) (i : ℕ) : Option (UiStore × UInt64) :=
  match p.threads i with
  | .committing store seq => some (store, seq)
  | _ => none

end Process

def newPersistent (uiState : Option (UiStore × UInt64)) : Process :=
  ⟨uiState.elim .empty Prod.fst, uiState.elim 1 Prod.snd, none, none, fun _ => .idle⟩

/-- Where the next process starts to count. -/
def World.counter (w : World) : ℕ := (newPersistent w.uiState).seq.toNat

def World.drawn (w : World) : Move → Option UInt64
  | .go i _ => w.process.bind (·.draws i)
  | _ => none

def World.step (w : World) : Move → Option World
  | .start i job =>
    w.process.bind fun p =>
      match p.threads i with
      | .idle => some { w with process := some (p.put i job.stage) }
      | _ => none
  | .go i diskOk =>
    w.process.bind fun p => (p.go i).map fun p' =>
      ⟨if diskOk then (p.writes i).or w.uiState else w.uiState, some p'⟩
  | .crash => some { w with process := none }
  | .newPersistent =>
    match w.process with
    | none => some { w with process := some (newPersistent w.uiState) }
    | some _ => none

/-! ## The numbers in a store -/

/-- The message at this place of a conversation. -/
def At (s : UiStore) (conversation : String) (i : ℕ) (m : ChatMessage) : Prop :=
  ∃ l, s.messages conversation = some l ∧ l[i]? = some m

/-- Every message has a number below this one. -/
def Below (s : UiStore) (seq : UInt64) : Prop :=
  ∀ conversation i m, At s conversation i m → ∃ n < seq, m.id = msgId n

/-- No two messages have one id. -/
def Distinct (s : UiStore) : Prop :=
  ∀ c i m c' i' m', At s c i m → At s c' i' m' → m.id = m'.id → c = c' ∧ i = i'

def Has (s : UiStore) (n : UInt64) : Prop := ∃ conversation i m, At s conversation i m ∧
    m.id = msgId n

theorem msgId_injective : Function.Injective msgId := by
  intro a b h
  have hs : toString a = toString b := by
    have := congrArg String.toList h
    rw [msgId, msgId, String.toList_append, String.toList_append] at this
    exact String.toList_injective (List.append_cancel_left this)
  refine UInt64.toNat_inj.mp ?_
  rw [← Nat.ofDigitChars_ten_toDigits (n := a.toNat),
    ← Nat.ofDigitChars_ten_toDigits (n := b.toNat), String.ofList_injective hs]

section Stores
variable {s s' : UiStore} {v n : UInt64} {d : Draft}

theorem Below.mono {v' : UInt64} (h : Below s v) (hle : v ≤ v') : Below s v' := by
  intro c i m hm
  obtain ⟨n, hn, hid⟩ := h c i m hm
  exact ⟨n, UInt64.lt_of_lt_of_le hn hle, hid⟩

theorem Below.not_has (h : Below s v) (hn : v ≤ n) : ¬ Has s n := by
  rintro ⟨c, i, m, hm, hid⟩
  obtain ⟨k, hk, hk'⟩ := h c i m hm
  obtain rfl := msgId_injective (hk'.symm.trans hid)
  exact UInt64.not_lt.mpr hn hk

def Kept (s s' : UiStore) : Prop := ∀ c i m, At s' c i m → At s c i m

theorem Kept.below (h : Kept s s') (hb : Below s v) : Below s' v :=
  fun c i m hm => hb c i m (h c i m hm)

theorem Kept.distinct (h : Kept s s') (hd : Distinct s) : Distinct s' :=
  fun c i m c' i' m' hm hm' => hd c i m c' i' m' (h c i m hm) (h c' i' m' hm')

theorem Kept.not_has (h : Kept s s') (hn : ¬ Has s n) : ¬ Has s' n := by
  rintro ⟨c, i, m, hm, hid⟩
  exact hn ⟨c, i, m, h c i m hm, hid⟩

theorem kept_update (s : UiStore) (id : String) (f : Conversation → Conversation) :
    Kept s (s.update id f) :=
  fun _ _ _ hm => hm

theorem kept_createConversation (s : UiStore) (peerName : Option String) :
    Kept s (s.createConversation peerName) := by
  rintro c i m ⟨l, hl, hi⟩
  have hmessages : (s.createConversation peerName).messages = update s.messages
      conversationId (some ((s.messages conversationId).getD [])) := by
    unfold UiStore.createConversation
    split_ifs <;> rfl
  rw [hmessages] at hl
  by_cases hc : c = conversationId
  · subst hc
    cases hold : s.messages conversationId with
    | none =>
      rw [hold] at hl
      cases hl
      cases hi
    | some =>
      rw [hold] at hl
      cases hl
      exact ⟨_, hold, hi⟩
  · rw [update_of_ne hc] at hl
    exact ⟨l, hl, hi⟩

theorem messages_record (s : UiStore) (d : Draft) (n : UInt64) : (record s d n).messages =
    update s.messages d.conversation
      ((s.messages d.conversation).map (· ++ [d.message n])) := by
  unfold record
  split_ifs <;> rfl

theorem at_record {c : String} {i : ℕ} {m : ChatMessage} (h : At (record s d n) c i m) :
    At s c i m ∨ c = d.conversation ∧ m = d.message n ∧
      ∃ l, s.messages d.conversation = some l ∧ i = l.length := by
  obtain ⟨l, hl, hi⟩ := h
  rw [messages_record] at hl
  by_cases hc : c = d.conversation
  · subst hc
    rw [update_self] at hl
    obtain ⟨l₀, hold, rfl⟩ := map_eq_some_iff.mp hl
    rcases Nat.lt_or_ge i l₀.length with hlt | hge
    · rw [List.getElem?_append_left hlt] at hi
      exact .inl ⟨l₀, hold, hi⟩
    · rw [List.getElem?_append_right hge] at hi
      obtain ⟨hlast, rfl⟩ := getElem?_eq_some_iff.mp hi
      rw [List.length_singleton] at hlast
      refine .inr ⟨rfl, ?_, l₀, hold, by omega⟩
      simp
  · rw [update_of_ne hc] at hl
    exact .inl ⟨l, hl, hi⟩

theorem Below.record (h : Below s v) (hn : n < v) (d : Draft) : Below (record s d n) v := by
  intro c i m hm
  rcases at_record hm with hm | ⟨-, rfl, -⟩
  · exact h c i m hm
  · exact ⟨n, hn, rfl⟩

theorem Distinct.record (h : Distinct s) (hn : ¬ Has s n) (d : Draft) :
    Distinct (record s d n) := by
  intro c i m c' i' m' hm hm' hid
  rcases at_record hm with hm | ⟨rfl, rfl, l, hl, rfl⟩
  · rcases at_record hm' with hm' | ⟨-, rfl, -⟩
    · exact h c i m c' i' m' hm hm' hid
    · exact absurd ⟨c, i, m, hm, hid⟩ hn
  · rcases at_record hm' with hm' | ⟨rfl, rfl, l', hl', rfl⟩
    · exact absurd ⟨c', i', m', hm', hid.symm⟩ hn
    · obtain rfl := mem_unique hl hl'
      exact ⟨rfl, rfl⟩

theorem has_record {k : UInt64} (h : Has (record s d n) k) : Has s k ∨ k = n := by
  obtain ⟨c, i, m, hm, hid⟩ := h
  rcases at_record hm with hm | ⟨-, rfl, -⟩
  · exact .inl ⟨c, i, m, hm, hid⟩
  · exact .inr (msgId_injective hid).symm

end Stores

/-! ## Threads -/

def Stage.number : Stage → Option UInt64
  | .arrived _ n => some n
  | .filling _ n => some n
  | _ => none

/-- The thread holds the store where it says so, its number is free, and what it has read of the
counter is above all numbers in the store. -/
def Stage.Sound (p : Process) (i : ℕ) : Stage → Prop
  | .numbering _ => p.storeLock = some i
  | .arrived _ n => n < p.seq ∧ ¬ Has p.store n
  | .filling _ n => p.storeLock = some i ∧ n < p.seq ∧ ¬ Has p.store n
  | .loading => p.storeLock = some i
  | .loaded seq => p.storeLock = some i ∧ Below p.store seq ∧ seq ≤ p.seq
  | .committing store seq => Below store seq ∧ Distinct store ∧ seq ≤ p.seq
  | _ => True

structure Process.Sound (p : Process) : Prop where
  below : Below p.store p.seq
  distinct : Distinct p.store
  threads : ∀ i, (p.threads i).Sound p i
  apart : ∀ i j n, i ≠ j → (p.threads i).number = some n → (p.threads j).number ≠ some n

section Threads
variable {p q : Process} {i j : ℕ} {st : Stage} {store : UiStore}

/-- What another thread does leaves a thread sound: it counts on, does not touch the store of one
that holds it, and does not take its number. -/
theorem Stage.Sound.other (h : st.Sound p j) (hseq : p.seq ≤ q.seq)
    (hlock : p.storeLock = some j → q.storeLock = some j ∧ q.store = p.store)
    (hfree : ∀ n, st.number = some n → ¬ Has p.store n → ¬ Has q.store n) : st.Sound q j := by
  cases st with
  | numbering | loading => exact (hlock h).1
  | arrived d n => exact ⟨UInt64.lt_of_lt_of_le h.1 hseq, hfree n rfl h.2⟩
  | filling d n =>
    exact ⟨(hlock h.1).1, UInt64.lt_of_lt_of_le h.2.1 hseq, hfree n rfl h.2.2⟩
  | loaded =>
    obtain ⟨hl, hs⟩ := hlock h.1
    exact ⟨hl, hs ▸ h.2.1, UInt64.le_trans h.2.2 hseq⟩
  | committing => exact ⟨h.1, h.2.1, UInt64.le_trans h.2.2 hseq⟩
  | _ => trivial

variable (h : p.Sound)
include h

theorem Process.Sound.put (hthreads : q.threads = p.threads) (hbelow : Below q.store q.seq)
    (hdistinct : Distinct q.store) (hseq : p.seq ≤ q.seq)
    (hlock : ∀ j ≠ i, p.storeLock = some j → q.storeLock = some j ∧ q.store = p.store)
    (hfree : ∀ j n, j ≠ i → (p.threads j).number = some n → ¬ Has p.store n → ¬ Has q.store n)
    (hst : st.Sound (q.put i st) i)
    (hnumber : ∀ n, st.number = some n → (p.threads i).number = some n ∨ p.seq ≤ n) :
    (q.put i st).Sound := by
  have hother : ∀ j, j ≠ i → (q.put i st).threads j = p.threads j := by
    intro j hj
    rw [Process.put, ← hthreads]
    exact update_of_ne hj _ _
  have hself : (q.put i st).threads i = st := update_self ..
  -- a number that is new is above those of the other threads
  have hnew : ∀ j n, j ≠ i → st.number = some n → (p.threads j).number ≠ some n := by
    intro j n hj hn hj'
    rcases hnumber n hn with hi | hge
    · exact h.apart j i n hj hj' hi
    · have hsound := h.threads j
      cases hstage : p.threads j with
      | arrived =>
        rw [hstage] at hsound hj'
        cases hj'
        exact absurd hsound.1 (UInt64.not_lt.mpr hge)
      | filling =>
        rw [hstage] at hsound hj'
        cases hj'
        exact absurd hsound.2.1 (UInt64.not_lt.mpr hge)
      | _ =>
        rw [hstage] at hj'
        cases hj'
  refine ⟨hbelow, hdistinct, fun j => ?_, fun j k n hjk hj => ?_⟩
  · by_cases hj : j = i
    · subst hj
      rw [hself]
      exact hst
    · rw [hother j hj]
      exact (h.threads j).other hseq (hlock j hj) fun n hn => hfree j n hj hn
  · by_cases hji : j = i
    · subst hji
      rw [hself] at hj
      rw [hother k (Ne.symm hjk)]
      exact hnew k n (Ne.symm hjk) hj
    · rw [hother j hji] at hj
      by_cases hki : k = i
      · subst hki
        rw [hself]
        exact fun hk => hnew j n hji hk hj
      · rw [hother k hki]
        exact h.apart j k n hjk hj

theorem Process.Sound.take {storeLock diskLock : Option ℕ}
    (hlock : storeLock = p.storeLock ∨ p.storeLock = none)
    (hst : st.Sound ({ p with storeLock, diskLock }.put i st) i)
    (hnumber : ∀ n, st.number = some n → (p.threads i).number = some n ∨ p.seq ≤ n) :
    ({ p with storeLock, diskLock }.put i st).Sound := by
  refine h.put rfl h.below h.distinct (UInt64.le_refl _) (fun j _ hj => ?_)
    (fun _ _ _ _ hn => hn) hst hnumber
  rcases hlock with rfl | hlock
  · exact ⟨hj, rfl⟩
  · cases hj.symm.trans hlock

theorem Process.Sound.draw (hroom : p.seq < p.seq + 1) (hnumber : st.number = some p.seq)
    (hst : st.Sound ({ p with seq := p.seq + 1 }.put i st) i) :
    ({ p with seq := p.seq + 1 }.put i st).Sound := by
  have hle := UInt64.le_of_lt hroom
  refine h.put rfl (h.below.mono hle) h.distinct hle (fun _ _ hj => ⟨hj, rfl⟩)
    (fun _ _ _ _ hn => hn) hst fun n hn => .inr ?_
  exact mem_unique hnumber hn ▸ UInt64.le_refl _

theorem Process.Sound.release (hlock : p.storeLock = some i ∨ p.storeLock = none)
    (hbelow : Below store p.seq) (hdistinct : Distinct store)
    (hfree : ∀ j n, j ≠ i → (p.threads j).number = some n → ¬ Has p.store n → ¬ Has store n)
    (hst : st.Sound ({ p with store, storeLock := none }.put i st) i) (hnumber : st.number = none) :
    ({ p with store, storeLock := none }.put i st).Sound := by
  refine h.put rfl hbelow hdistinct (UInt64.le_refl _) (fun j hji hj => ?_) hfree hst fun n hn => ?_
  swap
  · cases hnumber.symm.trans hn
  rcases hlock with hlock | hlock
  · cases hlock.symm.trans hj
    exact absurd rfl hji
  · cases hlock.symm.trans hj

theorem Process.Sound.keep (hlock : p.storeLock = none) (hkept : Kept p.store store) :
    ({ p with store }.put i .persisting).Sound := by
  have := h.release (.inr hlock) (hkept.below h.below) (hkept.distinct h.distinct)
    (fun _ _ _ _ => hkept.not_has) (show Stage.Sound _ i .persisting from trivial) rfl
  rwa [← hlock] at this

theorem Process.Sound.go (hroom : (p.draws i).isSome → p.seq < p.seq + 1) (hg : p.go i = some q) :
    q.Sound := by
  have hi := h.threads i
  have hnext := h.below.not_has (UInt64.le_refl _)
  unfold Process.draws at hroom
  unfold Process.go at hg
  cases hstage : p.threads i with
  | idle => simp [hstage] at hg
  | sending | opened =>
    rw [hstage] at hg
    obtain ⟨hfree, ⟨⟩⟩ := ite_none_right_eq_some.mp hg
    exact h.take (.inr (isNone_iff_eq_none.mp hfree)) rfl (by rintro _ ⟨⟩)
  | numbering =>
    rw [hstage] at hg hi hroom
    cases hg
    exact h.draw (hroom rfl) rfl ⟨hi, hroom rfl, hnext⟩
  | arriving =>
    rw [hstage] at hg hroom
    cases hg
    exact h.draw (hroom rfl) rfl ⟨hroom rfl, hnext⟩
  | arrived =>
    rw [hstage] at hg hi
    obtain ⟨hfree, ⟨⟩⟩ := ite_none_right_eq_some.mp hg
    refine h.take (.inr (isNone_iff_eq_none.mp hfree)) ⟨rfl, hi.1, hi.2⟩ ?_
    rintro _ ⟨⟩
    exact .inl (by rw [hstage]; rfl)
  | filling d =>
    rw [hstage] at hg hi
    cases hg
    refine h.release (.inl hi.1) (h.below.record hi.2.1 d) (h.distinct.record hi.2.2 d) ?_
      trivial rfl
    intro j k hj hk hnot hhas
    rcases has_record hhas with hhas | rfl
    · exact hnot hhas
    · exact h.apart j i k hj hk (by rw [hstage]; rfl)
  | marking =>
    rw [hstage] at hg
    obtain ⟨hfree, hg⟩ := ite_none_right_eq_some.mp hg
    split_ifs at hg
    · cases hg
      exact h.keep (isNone_iff_eq_none.mp hfree) (kept_update _ _ _)
    · cases hg
      exact h.take (.inl rfl) trivial (by rintro _ ⟨⟩)
  | opening =>
    rw [hstage] at hg
    obtain ⟨hfree, ⟨⟩⟩ := ite_none_right_eq_some.mp hg
    exact h.keep (isNone_iff_eq_none.mp hfree) (kept_createConversation _ _)
  | persisting =>
    rw [hstage] at hg
    obtain ⟨hfree, ⟨⟩⟩ := ite_none_right_eq_some.mp hg
    exact h.take (.inl rfl) trivial (by rintro _ ⟨⟩)
  | loading =>
    rw [hstage] at hg hi
    cases hg
    exact h.take (.inl rfl) ⟨hi, h.below, UInt64.le_refl _⟩ (by rintro _ ⟨⟩)
  | loaded =>
    rw [hstage] at hg hi
    cases hg
    exact h.release (.inl hi.1) h.below h.distinct (fun _ _ _ _ hn => hn)
      ⟨hi.2.1, h.distinct, hi.2.2⟩ rfl
  | committing =>
    rw [hstage] at hg
    cases hg
    exact h.take (.inl rfl) trivial (by rintro _ ⟨⟩)

theorem Process.Sound.writes {row : UiStore × UInt64} (hw : p.writes i = some row) :
    Below row.1 row.2 ∧ Distinct row.1 ∧ row.2 ≤ p.seq := by
  have hi := h.threads i
  unfold Process.writes at hw
  cases hstage : p.threads i with
  | committing =>
    rw [hstage] at hw hi
    cases hw
    exact hi
  | _ => simp [hstage] at hw

end Threads

/-! ## Runs -/

theorem Process.seq_go {p q : Process} {i : ℕ} (hg : p.go i = some q) :
    q.seq = p.seq + (p.draws i).elim 0 fun _ => 1 := by
  unfold Process.go at hg
  unfold Process.draws
  cases hstage : p.threads i with
  | idle => simp [hstage] at hg
  | marking =>
    rw [hstage] at hg
    obtain ⟨-, hg⟩ := ite_none_right_eq_some.mp hg
    split_ifs at hg <;> cases hg <;> simp [Process.put]
  | numbering | arriving | filling | loading | loaded | committing =>
    rw [hstage] at hg
    cases hg
    simp [Process.put]
  | _ =>
    rw [hstage] at hg
    obtain ⟨-, ⟨⟩⟩ := ite_none_right_eq_some.mp hg
    simp [Process.put]

/-- The row and the process are sound, and have counted up to this. -/
structure World.Sound (v : ℕ) (w : World) : Prop where
  row : ∀ row, w.uiState = some row → (Below row.1 row.2 ∧ Distinct row.1) ∧ row.2.toNat ≤ v
  fresh : w.uiState = none → 1 ≤ v
  process : ∀ p, w.process = some p → p.Sound ∧ p.seq.toNat ≤ v

section Runs
variable {w w' : World} {m : Move} {v : ℕ}

theorem sound_newPersistent (h : w.Sound v) :
    (newPersistent w.uiState).Sound ∧ (newPersistent w.uiState).seq.toNat ≤ v := by
  have hstore : (Below (newPersistent w.uiState).store (newPersistent w.uiState).seq ∧
      Distinct (newPersistent w.uiState).store) ∧ (newPersistent w.uiState).seq.toNat ≤ v := by
    cases huiState : w.uiState with
    | some row => exact h.row row huiState
    | none =>
      have hnone : ∀ c i m, ¬ At UiStore.empty c i m := by rintro c i m ⟨l, ⟨⟩, -⟩
      exact ⟨⟨fun c i m hm => absurd hm (hnone c i m),
        fun c i m _ _ _ hm => absurd hm (hnone c i m)⟩, h.fresh huiState⟩
  exact ⟨⟨hstore.1.1, hstore.1.2, fun _ => trivial, by rintro _ _ _ - ⟨⟩⟩, hstore.2⟩

theorem Process.seq_counts {p p' : Process} {i : ℕ} (hg : p.go i = some p') (hv : p.seq.toNat ≤ v)
    (hroom : v + (p.draws i).toList.length < 2 ^ 64) :
    p'.seq.toNat ≤ v + (p.draws i).toList.length ∧
      ((p.draws i).isSome → p.seq < p.seq + 1) := by
  have hseq := Process.seq_go hg
  cases hd : p.draws i with
  | none =>
    rw [hseq, hd]
    simpa using hv
  | some =>
    simp only [hd, toList_some, List.length_singleton] at hroom
    have hnat : (p.seq + 1).toNat = p.seq.toNat + 1 := by
      exact Nat.mod_eq_of_lt (by simp; omega)
    rw [hseq, hd, elim_some, hnat]
    refine ⟨by simpa using hv, fun _ => UInt64.lt_iff_toNat_lt.mpr ?_⟩
    omega

/-- As long as the counter has not come to its last value, a step counts what it draws. -/
theorem World.Sound.step (h : w.Sound v) (hroom : v + (w.drawn m).toList.length < 2 ^ 64)
    (hs : w.step m = some w') : w'.Sound (v + (w.drawn m).toList.length) := by
  cases m with
  | start i job =>
    obtain ⟨p, hp, hs⟩ := bind_eq_some_iff.mp hs
    split at hs
    · cases hs
      refine ⟨h.row, h.fresh, ?_⟩
      rintro _ ⟨⟩
      refine ⟨(h.process p hp).1.take (.inl rfl) ?_ ?_, (h.process p hp).2⟩
      · cases job <;> trivial
      · cases job <;> rintro _ ⟨⟩
    · cases hs
  | go i diskOk =>
    obtain ⟨p, hp, hs⟩ := bind_eq_some_iff.mp hs
    obtain ⟨p', hg, rfl⟩ := map_eq_some_iff.mp hs
    obtain ⟨hsound, hv⟩ := h.process p hp
    have hdrawn : w.drawn (.go i diskOk) = p.draws i := by rw [World.drawn, hp, bind_some]
    rw [hdrawn] at hroom ⊢
    have hcount := Process.seq_counts hg hv hroom
    refine ⟨fun row hrow => ?_, fun hnone => ?_, ?_⟩
    · have hwritten : (Below row.1 row.2 ∧ Distinct row.1) ∧ row.2.toNat ≤ v := by
        split_ifs at hrow
        · rcases or_eq_some_iff.mp hrow with hw | ⟨-, hold⟩
          · obtain ⟨hbelow, hdistinct, hle⟩ := hsound.writes hw
            exact ⟨⟨hbelow, hdistinct⟩, (UInt64.le_iff_toNat_le.mp hle).trans hv⟩
          · exact h.row row hold
        · exact h.row row hrow
      exact ⟨hwritten.1, hwritten.2.trans (Nat.le_add_right _ _)⟩
    · refine (h.fresh ?_).trans (Nat.le_add_right _ _)
      split_ifs at hnone
      · exact (or_eq_none_iff.mp hnone).2
      · exact hnone
    · rintro _ ⟨⟩
      exact ⟨hsound.go hcount.2 hg, hcount.1⟩
  | crash =>
    cases hs
    exact ⟨h.row, h.fresh, by rintro _ ⟨⟩⟩
  | newPersistent =>
    simp only [World.step] at hs
    split at hs
    · cases hs
      refine ⟨h.row, h.fresh, ?_⟩
      rintro _ ⟨⟩
      exact sound_newPersistent h
    · cases hs

/-- No process runs, and if the conversations were ever stored, there was no message. -/
structure World.Begins (w : World) : Prop where
  process : w.process = none
  row : ∀ row, w.uiState = some row → ∀ c i m, ¬ At row.1 c i m

/-- Whatever the threads do, in whichever order, and wherever the process dies, no two messages of
the history have one id, the next number is not in use, and the counter that is stored is above the
number of every message that is stored with it. The numbers drawn must not use up the counter. -/
theorem message_ids_never_repeat {start w : World} {ms : List Move} (hstart : start.Begins)
    (hroom : start.counter + (observe World.step World.drawn start ms).length < 2 ^ 64)
    (hrun : run World.step start ms = some w) :
    (∀ p, w.process = some p → Distinct p.store ∧ ¬ Has p.store p.seq) ∧
    ∀ row, w.uiState = some row → Below row.1 row.2 ∧ Distinct row.1 := by
  have key : start.counter + (observe World.step World.drawn start ms).length < 2 ^ 64 →
      w.Sound (start.counter + (observe World.step World.drawn start ms).length) := by
    refine run_induction (fun _ => ⟨fun row hrow => ?_, fun hnone => ?_, fun p hp => ?_⟩) ?_ hrun
    · have hnone := hstart.row row hrow
      refine ⟨⟨fun c i m hm => absurd hm (hnone c i m),
        fun c i m _ _ _ hm => absurd hm (hnone c i m)⟩, ?_⟩
      simp [World.counter, newPersistent, hrow]
    · simp [World.counter, newPersistent, hnone]
    · cases hstart.process.symm.trans hp
    · intro ms w m w' hw ih hs hlt
      rw [observe_snoc m hw, List.length_append, ← Nat.add_assoc] at hlt ⊢
      exact (ih (by omega)).step hlt hs
  have hsound := key hroom
  refine ⟨fun p hp => ?_, fun row hrow => (hsound.row row hrow).1⟩
  obtain ⟨hp, -⟩ := hsound.process p hp
  exact ⟨hp.distinct, hp.below.not_has (UInt64.le_refl _)⟩

end Runs

def goes (i n : ℕ) : List Move := .replicate n (.go i true)

/-- Two messages come in while the badge is set: the second draws its number first and is stored
last. The process dies before the last of the writes, and one more message is sent. -/
def crossing : List Move :=
  let opens : List Move := .newPersistent :: .start 0 (.createConversation none) :: goes 0 6
  let arrives : List Move := [.start 1 (.receive conversationId "a" 0),
    .start 2 (.receive conversationId "b" 0), .start 3 (.markVerified conversationId)]
  let restarts : List Move := [.crash, .newPersistent, .start 0 (.send conversationId "c" 1 .sent)]
  [opens, arrives, goes 2 1, goes 1 3, goes 3 1, goes 2 2, goes 3 5, goes 2 4, restarts,
    goes 0 3].flatten

/-- The ids of the conversation's messages, in memory and on disk, and the counter there. -/
def listed (w : World) : Option (List String) × Option (List String × UInt64) :=
  (w.process.bind fun p => (p.store.messages conversationId).map (List.map (·.id)),
    w.uiState.bind fun row => (row.1.messages conversationId).map fun l => (l.map (·.id), row.2))

theorem message_ids_never_repeat_crossing : ∃ w p,
    run World.step ⟨none, none⟩ crossing = some w ∧
    listed w = (some ["msg-2", "msg-1", "msg-3"], some (["msg-2", "msg-1"], 3)) ∧
    w.process = some p ∧ Distinct p.store ∧ ¬ Has p.store p.seq := by
  obtain ⟨w, hw, hlisted⟩ : ∃ w, run World.step ⟨none, none⟩ crossing = some w ∧ listed w =
      (some ["msg-2", "msg-1", "msg-3"], some (["msg-2", "msg-1"], 3)) := by decide +kernel
  obtain ⟨p, hp, -⟩ := bind_eq_some_iff.mp (congrArg Prod.fst hlisted)
  obtain ⟨hshown, -⟩ := message_ids_never_repeat ⟨rfl, by rintro _ ⟨⟩⟩ (by decide +kernel) hw
  exact ⟨w, p, hw, hlisted, hp, hshown p hp⟩

end Rosette.Ffi.History
