import Rosette.Core.Plain
import Rosette.Foundation.Trace
import Rosette.Ffi.Actor

/-! # One database, one engine

The slot for the engine is read when a call begins and filled when it ends. In between, and
after a call that has timed out, another call finds it empty and starts a thread of its own.
As long as no call begins while another is under way, or while a thread of an earlier one
still runs, there is one engine.
-/
namespace Rosette.Ffi
open Foundation Proto Rosette.Core Engine List Option

variable {mls : OpenMls} {p : Process mls} {m : Move} {i : ℕ} {errand : Errand}

def Thread.busy (t : Thread mls) : Bool := t.task.live || t.caller

/-- A call that starts a thread finds none at work. -/
def Phone.undisturbed (w : Phone mls) (m : Move) : Bool :=
  match w.process with
  | none => true
  | some p => (p.starts m).isNone || p.threads.all fun t => !t.busy

def Process.Runs (p : Process mls) (i : ℕ) : Prop :=
  ∃ t, p.threads[i]? = some t ∧ t.task.live = true

/-- At most one engine thread runs, and the stored channel leads to it. -/
def Process.Exclusive (p : Process mls) : Prop :=
  (∀ i j, p.Runs i → p.Runs j → i = j) ∧ ∀ i k, p.Runs i → p.backend = some k → k = i

/-- Only one thread is at work, and commands go to it. -/
structure Process.Single (p : Process mls) : Prop where
  one : ∀ (i j : ℕ) (t u : Thread mls), p.threads[i]? = some t → p.threads[j]? = some u →
    t.busy = true →
    u.busy = true → i = j
  backend : ∀ (i : ℕ) (t : Thread mls) k, p.threads[i]? = some t → t.busy = true →
    p.backend = some k → k = i

section Steps
variable {h : Host mls} {p' : Process mls} {disk disk' : Database mls} {o : Outcome mls}
  {t : Thread mls}

theorem starts_backend (hs : p.starts m = some errand) : p.backend = none := by
  cases m with
  | createContactLink =>
    simp only [Process.starts, Process.createContactLink] at hs
    split at hs
    · assumption
    · cases hs
  | pairWithLink =>
    simp only [Process.starts, Process.pairWithLink] at hs
    split_ifs at hs with hlink
    rw [not_or, not_isSome_iff_eq_none] at hlink
    exact hlink.2
  | _ => cases hs

theorem live_of_step {closed : Bool} {task : Task mls} {tm : ThreadMove}
    (hs : task.step h p disk closed tm = some o) : task.live = true := by
  cases task with
  | ended => cases hs
  | _ => rfl

theorem Process.Single.set (hp : p.Single) {t' : Thread mls} (hi : p.threads[i]? = some t)
    (ht : t.busy = true) (hthreads : p'.threads = p.threads.set i t')
    (hback : ∀ k, p'.backend = some k → k = i) : p'.Single := by
  have hat : ∀ j u, p'.threads[j]? = some u → u.busy = true → j = i := by
    intro j u hj hu
    by_contra hne
    rw [hthreads, getElem?_set_ne (Ne.symm hne)] at hj
    exact hne (hp.one j i u t hj hi hu ht)
  refine ⟨fun j k u v hj hk hu hv => (hat j u hj hu).trans (hat k v hk hv).symm, ?_⟩
  intro j u k hj hu hk
  rw [hat j u hj hu]
  exact hback k hk

theorem Process.Single.installed (hp : p.Single) {u : Thread mls} (hi : p.threads[i]? = some t)
    (ht : t.task.live = true) (hu : u ∈ (p.installed i t o).threads) :
    u.task = o.task ∨ u.task = .ended := by
  obtain ⟨j, hj⟩ := getElem?_of_mem hu
  by_cases hij : j = i
  · subst hij
    left
    obtain ⟨hlt, -⟩ := List.getElem?_eq_some_iff.mp hi
    rw [Process.installed, getElem?_set_self hlt] at hj
    rw [← some.inj hj]
  · right
    rw [Process.installed, getElem?_set_ne (Ne.symm hij)] at hj
    cases htask : u.task with
    | ended => rfl
    | _ =>
      have hbusy : u.busy = true := by rw [Thread.busy, htask]; rfl
      exact absurd (hp.one j i u t hj hi hbusy (by rw [Thread.busy, ht, Bool.true_or])) hij

theorem Process.Single.spawn (hp : p.Single) {start : Option Errand}
    (hquiet : ∀ errand, start = some errand →
      p.backend = none ∧ ∀ t ∈ p.threads, t.busy = false) : (p.spawn start).Single := by
  cases start with
  | none => exact hp
  | some errand =>
    obtain ⟨hnone, hidle⟩ := hquiet errand rfl
    have hlast : ∀ i t, (p.spawn (some errand)).threads[i]? = some t → t.busy = true →
        i = p.threads.length := by
      intro i t hi ht
      by_contra hne
      have hmem : t ∈ p.threads := by
        rcases Nat.lt_or_ge i p.threads.length with hlt | hge
        · rw [Process.spawn, getElem?_append_left hlt] at hi
          exact mem_of_getElem? hi
        · have hlen := getElem?_eq_none (l := (p.spawn (some errand)).threads) (i := i) (by
            rw [Process.spawn, length_append, length_singleton]
            omega)
          simp [hlen] at hi
      simp [hidle t hmem] at ht
    refine ⟨fun i j t u hi hj ht hu => (hlast i t hi ht).trans (hlast j u hj hu).symm, ?_⟩
    intro i t k _ _ hk
    cases hnone.symm.trans hk

theorem Process.Single.step (hp : p.Single)
    (hquiet : ∀ errand, p.starts m = some errand → ∀ t ∈ p.threads, t.busy = false)
    (hs : p.Stepped h disk m disk' p') : p'.Single := by
  cases hs with
  | called => exact hp.spawn fun errand he => ⟨starts_backend he, hquiet errand he⟩
  | aside starts engine threads backend =>
    refine ⟨?_, ?_⟩
    · rw [threads]
      exact hp.one
    · rw [threads, backend]
      exact hp.backend
  | @returned i task word backend found filled =>
    have hbusy : (⟨task, word, true⟩ : Thread mls).busy = true := Bool.or_true _
    refine hp.set found hbusy rfl fun k hk => ?_
    rcases filled with rfl | rfl
    · exact hp.backend i _ k found hbusy hk
    · exact (some.inj hk).symm
  | @thread i t tm o move found stepped =>
    have hbusy : t.busy = true := by rw [Thread.busy, live_of_step stepped, Bool.true_or]
    exact hp.set found hbusy rfl fun k hk => hp.backend i t k found hbusy hk

theorem single_of_nil (hp : p.threads = []) : p.Single := by
  have hnone : ∀ (i : ℕ) (t : Thread mls), p.threads[i]? ≠ some t := by
    intro i t hi
    simp [hp] at hi
  exact ⟨fun i j t u hi => absurd hi (hnone i t), fun i t k hi => absurd hi (hnone i t)⟩

theorem single_newPersistent (disk : Database mls) (displayName : String)
    (relayCfg : Option (String × Bytes 32)) : (newPersistent disk displayName relayCfg).Single := by
  have hzero : ∀ i t, (newPersistent disk displayName relayCfg).threads[i]? = some t → i = 0 := by
    intro i t hi
    simp only [newPersistent] at hi
    split_ifs at hi
    · obtain ⟨hlt, -⟩ := List.getElem?_eq_some_iff.mp hi
      exact Nat.lt_one_iff.mp hlt
    · cases hi
  refine ⟨fun i j t u hi hj _ _ => (hzero i t hi).trans (hzero j u hj).symm, ?_⟩
  intro i t k hi _ hk
  rw [hzero i t hi]
  simp only [newPersistent] at hk
  split_ifs at hk
  exact (some.inj hk).symm

end Steps

theorem quiet_of_undisturbed {w : Phone mls} (hw : w.undisturbed m = true) (hp : w.process = some p)
    (hs : p.starts m = some errand) : ∀ t ∈ p.threads, t.busy = false := by
  intro t ht
  simp only [Phone.undisturbed, hp, hs, isNone_some, Bool.false_or, List.all_eq_true] at hw
  simpa using hw t ht

/-- As long as each call that starts a thread finds none at work, there is one engine. -/
theorem one_engine_at_a_time (h : Host mls) {w w' : Phone mls} {ms : List Move}
    (hstart : ∀ p, w.process = some p → p.threads = []) (hrun : run (Phone.step h) w ms = some w')
    (hcalm : Along (Phone.step h) (fun w m => w.undisturbed m = true) w ms) {p : Process mls}
    (hp : w'.process = some p) : p.Exclusive := by
  have hsingle : ∀ q, w'.process = some q → q.Single := by
    refine run_invariant_along (fun q hq => ?_) (fun v m v' hv hm hs q hq => ?_) hcalm hrun
    · exact single_of_nil (hstart q hq)
    · rcases Phone.step_cases hs with
        ⟨displayName, relayCfg, -, rfl⟩ | rfl | ⟨q₀, q', hq₀, hq', hst⟩
      · cases hq
        exact single_newPersistent _ _ _
      · cases hq
      · obtain rfl := mem_unique hq' hq
        exact (hv q₀ hq₀).step (fun errand => quiet_of_undisturbed hm hq₀) hst
  have hbusy : ∀ {t : Thread mls}, t.task.live = true → t.busy = true := by
    intro t ht
    rw [Thread.busy, ht, Bool.true_or]
  refine ⟨?_, ?_⟩
  · rintro i j ⟨t, hi, ht⟩ ⟨u, hj, hu⟩
    exact (hsingle p hp).one i j t u hi hj (hbusy ht) (hbusy hu)
  · rintro i k ⟨t, hi, ht⟩ hk
    exact (hsingle p hp).backend i t k hi (hbusy ht) hk

/-! ## Two runs -/

def Host.plain : Host OpenMls.plain where
  crypto := .plain
  lossy bytes := String.ofList (bytes.map fun b => Char.ofNat b.toNat)
  peerName _ := none

/-- A new phone starts the application. -/
def launched : Phone OpenMls.plain :=
  ⟨.empty .plain, some (newPersistent (.empty .plain) "ann" (some ("relay", .fill 0)))⟩

/-- A thread looks for an identity. -/
def looksUp (i rand : ℕ) : List Move :=
  [.thread i (.openDisk true rand), .thread i (.readSession true rand)]

/-- It gets a mailbox. -/
def connects (i : ℕ) : List Move :=
  [.thread i (.boot (.connected i ⟨true, 0⟩)),
    .thread i (.boot (.replied (.powChallenge ⟨.fill 1, 8⟩) ⟨true, 1⟩ ⟨0, true⟩)),
    .thread i (.boot (.replied (.queueCreated (.fill 2) (.fill 3)) ⟨true, 2⟩ ⟨0, true⟩)),
    .thread i (.boot (.replied .ok ⟨true, 3⟩ ⟨0, true⟩))]

/-- It attaches the database, hands its link out and goes on as an actor. -/
def reports (i : ℕ) : List Move :=
  [.thread i (.attach true true), .thread i (.report 5 true), .thread i (.check true)]

def Task.writes {mls : OpenMls} : Task mls → Bool
  | .acting a => a.core.store.isSome
  | _ => false

theorem runs_of_writes (h : (p.threads.map fun t => t.task.writes)[i]? = some true) : p.Runs i := by
  rw [getElem?_map] at h
  obtain ⟨t, ht, hw⟩ := map_eq_some_iff.mp h
  refine ⟨t, ht, ?_⟩
  cases htask : t.task with
  | ended =>
    rw [htask] at hw
    cases hw
  | _ => rfl

/-- A link is asked for and handed out. -/
def handedOut : List Move :=
  [.createContactLink] ++ looksUp 0 1 ++ connects 0 ++ reports 0 ++ [.answered 0]

theorem one_engine_at_a_time_handedOut : ∃ w p,
    run (Phone.step .plain) launched handedOut = some w ∧ w.process = some p ∧ p.Runs 0 ∧
      p.backend = some 0 ∧ p.Exclusive := by
  obtain ⟨w, p, hw, hp, hwrites, hbackend⟩ :
      ∃ w p, run (Phone.step .plain) launched handedOut = some w ∧ w.process = some p ∧
        p.threads.map (fun t => t.task.writes) = [true] ∧ p.backend = some 0 := by decide +kernel
  refine ⟨w, p, hw, hp, runs_of_writes (by rw [hwrites]; rfl), hbackend, ?_⟩
  exact one_engine_at_a_time .plain (by rintro _ ⟨⟩; rfl) hw (by decide +kernel) hp

/-- Two calls at once: both find the slot empty, and two actors run on one database. -/
theorem two_engines_run : ∃ w p,
    run (Phone.step .plain) launched ([.createContactLink, .createContactLink] ++ looksUp 0 1 ++
      looksUp 1 2 ++ connects 0 ++ connects 1 ++ reports 0 ++ reports 1 ++
      [.answered 0, .answered 1]) = some w ∧ w.process = some p ∧
    p.threads.map (fun t => t.task.writes) = [true, true] ∧ p.backend = some 1 ∧
    ¬ p.Exclusive := by
  obtain ⟨w, p, hw, hp, hwrites, hbackend⟩ : ∃ w p, run (Phone.step .plain) launched
      ([.createContactLink, .createContactLink] ++ looksUp 0 1 ++ looksUp 1 2 ++ connects 0 ++
        connects 1 ++ reports 0 ++ reports 1 ++ [.answered 0, .answered 1]) = some w ∧
      w.process = some p ∧ p.threads.map (fun t => t.task.writes) = [true, true] ∧
      p.backend = some 1 := by decide +kernel
  refine ⟨w, p, hw, hp, hwrites, hbackend, fun hex => ?_⟩
  have hzero : p.Runs 0 := runs_of_writes (by rw [hwrites]; rfl)
  cases hex.2 0 1 hzero hbackend

end Rosette.Ffi
