import Rosette.Core.Plain
import Rosette.Network.Listeners

/-! # Worlds that come about

A world starts with a relay and with devices that are switched off. Whatever
happens from there, every process keeps to its own connections, and every
connection to one mailbox.
-/
namespace Rosette.Network
open Foundation Proto Rosette.Core Relay Engine List Function

variable {mls : OpenMls} {ι : Type} {c : Crypto} {w : World mls ι} {e : ChatEngine mls}

/-- Nothing has happened yet. Devices may hold files from before. -/
def World.boot (persistent : Bool) (files : ι → Store mls) : World mls ι where
  service := .boot persistent
  conns _ := .fresh none
  nextConn := 0
  nodes i := ⟨.off, [], files i⟩

def Reached [DecidableEq ι] (c : Crypto) (w : World mls ι) : Prop :=
  ∃ persistent files es, run (World.step c) (World.boot persistent files) es = some w

def Process.mailboxQid : Process mls → Option QueueId
  | .off => none
  | .starting stage => stage.mailboxQid
  | .running e _ => some e.mailboxQid

/-- What holds of every world that comes about. -/
structure Sound (c : Crypto) (w : World mls ι) : Prop where
  orderly : Orderly c w
  solo : ∀ i k, (w.nodes i).process.Uses k → Solo w k (w.nodes i).process.mailboxQid
  /-- A constructor has one request under way at a time. -/
  booting : ∀ i stage k rid, (w.nodes i).process = .starting stage →
    stage.awaits = some (k, rid) → ∀ f ∈ (w.conns k).up, f.1 = rid

theorem orderly_boot (c : Crypto) (persistent : Bool) (files : ι → Store mls) :
    Orderly c (World.boot persistent files) where
  explains := explains_boot c persistent
  consistent := consistent_boot persistent
  owned _ _ hk := hk.elim
  unopened k _ := ⟨rfl, rfl, fun _ => not_mem_nil⟩
  numbered k := ⟨by rintro rid ⟨⟩, nodup_nil⟩

theorem sound_boot (c : Crypto) (persistent : Bool) (files : ι → Store mls) :
    Sound c (World.boot persistent files) :=
  ⟨orderly_boot c persistent files, fun _ _ hk => hk.elim, by rintro i stage k rid ⟨⟩⟩

namespace Sound
variable {w' : World mls ι} {j : ι} {h : Happening mls ι}

theorem moved (hS : Sound c w) (hm : Moved c w h w') : Sound c w' := by
  obtain ⟨hn, -, hup⟩ := hm.grows
  refine ⟨hS.orderly.moved hm, fun i k hk => ?_, fun i stage k rid hp ha f hf => ?_⟩
  · rw [hn] at hk ⊢
    obtain ⟨hown, hlt⟩ := hS.orderly.owned i k hk
    exact (hS.solo i k hk).moved ⟨by rw [hown]; rfl, hlt⟩ hm
  · rw [hn] at hp
    rcases hup k f hf with hf | rfl
    · exact hS.booting i stage k rid hp ha f hf
    · have hown := (hS.orderly.owned i k (by rw [hp]; exact ⟨rid, ha⟩)).1
      cases hm with
      | outside opened owner => simp [hown] at owner

theorem aside {A : QueueId → Prop} (hS : Sound c w) (ho : Orderly c w') (ha : Aside A w w' j)
    (hsolo : ∀ k, (w'.nodes j).process.Uses k → Solo w' k (w'.nodes j).process.mailboxQid)
    (hboot : ∀ stage k rid, (w'.nodes j).process = .starting stage →
      stage.awaits = some (k, rid) → ∀ f ∈ (w'.conns k).up, f.1 = rid) : Sound c w' := by
  have hconn : ∀ i k, i ≠ j → (w.nodes i).process.Uses k → w'.conns k = w.conns k := by
    intro i k hi hk
    obtain ⟨hown, hlt⟩ := hS.orderly.owned i k hk
    refine ha.conns k hlt (fun hj => hi ?_)
    rw [hown] at hj
    exact Option.some.inj hj
  refine ⟨ho, fun i k hk => ?_, fun i stage k rid hp hw f hf => ?_⟩
  · by_cases hi : i = j
    · subst hi
      exact hsolo k hk
    · rw [ha.nodes i hi] at hk ⊢
      exact (hS.solo i k hk).same ha.service (hconn i k hi hk)
  · by_cases hi : i = j
    · subst hi
      exact hboot stage k rid hp hw f hf
    · rw [ha.nodes i hi] at hp
      rw [hconn i k hi (by rw [hp]; exact ⟨rid, hw⟩)] at hf
      exact hS.booting i stage k rid hp hw f hf

variable [DecidableEq ι]

theorem resumed (hS : Sound c w) {pc : Pc} {w₁ : World mls ι} {t : Turn mls}
    (hp : (w.nodes j).process = .running e pc) (hr : Resumed c w j e pc h w₁ t) :
    Sound c (w₁.install j t) := by
  obtain ⟨q, hq⟩ := exists_addressee (w.conns e.relay).received
  refine hS.aside (hS.orderly.resumed hp hr) (aside_resumed hS.orderly hp hq hr)
    (fun k hk => ?_) (fun stage k rid hst => ?_)
  · rw [World.install_self] at hk ⊢
    refine Solo.resumed hS.orderly hp (fun k' hk' => ?_) hr hk
    have hs := hS.solo j k'
    rw [hp] at hs
    exact hs hk'
  · simp [World.install_self] at hst

theorem installBoot_await (w : World mls ι) (j : ι) (stage : Boot mls) (k : ConnId)
    (msg : ClientMessage) :
    ((w.installBoot j (.await stage (k, msg))).nodes j).process = .starting stage ∧
    (w.installBoot j (.await stage (k, msg))).conns k = (w.conns k).write msg :=
  ⟨by simp [World.installBoot, World.setNode], w.send_conns_self k msg⟩

theorem installBoot (hS : Sound c w) {bt : BootTurn mls} {k : ConnId} {box : Option QueueId}
    (hk : (w.conns k).owner = some j ∧ k < w.nextConn) (hs : Solo w k box)
    (hup : (w.conns k).up = []) (hon : bt.On k (w.conns k).nextCall box) :
    Sound c (w.installBoot j bt) := by
  have ho := hS.orderly.installBoot hon hk
  have ha := aside_installBoot hon hk.1
  cases bt with
  | await stage frame =>
    obtain ⟨k₀, msg⟩ := frame
    obtain ⟨hst, hk₀, -, hbox⟩ := hon
    obtain rfl : k = k₀ := hk₀.symm
    obtain ⟨hproc, hconn⟩ := installBoot_await w j stage k msg
    have hservice := ha.service
    refine hS.aside ho ha (fun k' hk' => ?_) (fun stage' k' rid' hst' hw f hf => ?_)
    · rw [hproc] at hk' ⊢
      obtain ⟨rid', hk'⟩ := hk'
      rw [hst] at hk'
      cases hk'
      change Solo _ _ stage.mailboxQid
      rcases hbox with ⟨q, rfl, hq, hmsg⟩ | ⟨hq, hmsg⟩
      · have hrec : (w.conns k).received = [] := eq_nil_iff_forall_not_mem.mpr fun p hp => by
          cases hs.received p hp
        have hqueue : (w.service.relay.channels k).queue = [] :=
          eq_nil_iff_forall_not_mem.mpr fun p hp => by cases hs.queue p hp
        have hmsg : msg = .subscribe [q] := hmsg
        rw [hq]
        refine Solo.opened (?_ : _ = [((w.conns k).nextCall, _)]) ?_ ?_ fun p hp => ?_
        · rw [hconn, Conn.write, hup, hmsg, nil_append]
        · rw [hconn, Conn.write, hrec]
        · rw [hservice, hqueue]
        · cases (hs.tuned p hp).1
      · rw [hq]
        refine hs.congr hservice ?_ ?_ <;> rw [hconn]
        · rfl
        · exact .write hs.single hmsg
    · rw [hproc] at hst'
      cases hst'
      rw [hst] at hw
      cases hw
      rw [hconn, Conn.write, hup] at hf
      rw [mem_singleton.mp hf]
  | up =>
    obtain ⟨rfl, rfl⟩ := hon
    refine hS.aside ho ha (fun k' hk' => ?_) (fun stage' k' rid' hst' => ?_)
    · simp only [World.installBoot, World.setNode, update_self] at hk' ⊢
      rcases hk' with rfl | ⟨caller, rid', hpc⟩
      · exact hs.same rfl rfl
      · cases hpc
    · simp only [World.installBoot, World.setNode, update_self] at hst'
      cases hst'
  | failed =>
    refine hS.aside ho ha (fun k' hk' => ?_) (fun stage' k' rid' hst' => ?_)
    · simp only [World.installBoot, World.setNode, update_self] at hk'
      exact hk'.elim
    · simp only [World.installBoot, World.setNode, update_self] at hst'
      cases hst'

theorem starting (hS : Sound c w) {stage : Boot mls} (hp : (w.nodes j).process = .starting stage)
    (hj : h.node = some j) (hs : w.stepBoot c j stage h = some w') : Sound c w' := by
  rcases stepBoot_cases hj hs with ⟨bt, d, k, rid, reply, hk, hm, hbt, rfl⟩ | ⟨o, rfl, rfl⟩ | rfl
  · have huses : (w.nodes j).process.Uses k := by rw [hp]; exact ⟨rid, hk⟩
    have hsolo := hS.solo j k huses
    rw [hp] at hsolo
    have hup : (w.conns k).up = [] := by
      refine eq_nil_iff_forall_not_mem.mpr fun f hf => ?_
      obtain rfl := hS.booting j stage k rid hp hk f hf
      exact ((hS.orderly.numbered k).unanswered hf reply).2 hm
    exact hS.installBoot (hS.orderly.owned j k huses) hsolo hup (on_onReply hk hbt)
  · have hconn : (w.dial (some j)).conns w.nextConn = .fresh (some j) := w.dial_self (some j)
    have hdial : Sound c (w.dial (some j)) := by
      refine hS.aside (hS.orderly.dial (some j)) (.dial (A := fun _ => False) w j)
        (fun k hk => ?_) (fun stage k rid hst ha => ?_)
      · change (w.nodes j).process.Uses k at hk
        rw [hp] at hk
        obtain ⟨rid, ⟨⟩⟩ := hk
      · change (w.nodes j).process = _ at hst
        rw [hp] at hst
        cases hst
        cases ha
    obtain ⟨-, hqueue, hidle⟩ := hS.orderly.unopened w.nextConn le_rfl
    have hsolo : Solo (w.dial (some j)) w.nextConn none :=
      .blank (by rw [hconn]; rfl) (by rw [hconn]; rfl) hqueue hidle
    exact hdial.installBoot ⟨by rw [hconn]; rfl, Nat.lt_succ_self _⟩ hsolo (by rw [hconn]; rfl)
      (on_onConnected _ _ _)
  · refine hS.aside (hS.orderly.setNode fun k hk => hk.elim) (.setNode (A := fun _ => False) w j _)
      (fun k hk => ?_) (fun stage k rid hst => ?_)
    · simp only [World.setNode, update_self] at hk
      exact hk.elim
    · simp only [World.setNode, update_self] at hst
      cases hst

theorem step (hS : Sound c w) (hs : w.step c h = some w') : Sound c w' := by
  have ho' := hS.orderly.step hs
  unfold World.step at hs
  split at hs
  · exact hS.moved (moved_of_stepNetwork hs)
  · rename_i i hi
    split at hs
    · rename_i hp
      refine hS.aside ho' (aside_off hs) (fun k hk => ?_) (fun stage k rid hst ha => ?_)
      all_goals
        cases h with
        | start =>
          simp only [World.stepOff] at hs
          split at hs
          · rename_i stage' hstage
            cases hs
            simp only [World.setNode, update_self] at *
            first
              | obtain ⟨rid, hk⟩ := hk
                simp [launch_awaits hstage] at hk
              | cases hst
                simp [launch_awaits hstage] at ha
          · cases hs
            first
              | rw [hp] at hk
                exact hk.elim
              | rw [hp] at hst
                cases hst
        | _ => cases hs
    · rename_i stage hp
      exact hS.starting hp hi hs
    · rename_i e pc hp
      rcases stepEngine_cases hi hs with ⟨w₁, t, hr, rfl⟩ | ⟨rfl, rfl⟩
      · exact hS.resumed hp hr
      · refine hS.aside ho' (.setNode (A := fun _ => False) w i _)
          (fun k hk => ?_) (fun stage k rid hst => ?_)
        · simp only [World.setNode, update_self] at hk
          exact hk.elim
        · simp only [World.setNode, update_self] at hst
          cases hst

end Sound

theorem Reached.sound [DecidableEq ι] (h : Reached c w) : Sound c w := by
  obtain ⟨persistent, files, es, hrun⟩ := h
  exact run_invariant (sound_boot c persistent files) (fun _ _ _ hS hs => hS.step hs) hrun

/-! ## Two devices meet

The listener is the device `false`, on connection 0 and mailbox 1; the scanner is the
device `true`, on mailbox 2. Their inbox is queue 3.
-/
section Meeting

/-- A request of the device is served and its reply read. -/
def exchange (i : Bool) (k : ConnId) (amb : Ambient) : List (Happening OpenMls.plain Bool) :=
  [.serve k amb, .reply k, .replied i ⟨0, true⟩]

/-- The listener connects, mints a mailbox and subscribes to it. -/
def listenerUp : List (Happening OpenMls.plain Bool) :=
  [.start false (.connect "" "" (.fill 0) (.new .plain "" 7) []), .connected false] ++
    exchange false 0 (.fill 1) ++ exchange false 0 (.fill 1) ++ exchange false 0 (.fill 1)

def shownLink : ContactLink := ⟨1, [3, 7, 9], [⟨"", .fill 0, .fill 1, .fill 1⟩]⟩

/-- The scanner reads the link, founds the group, and sends the bootstrap payload. -/
def scannerUp (k : ConnId) : List (Happening OpenMls.plain Bool) :=
  [.start true (.pair "" shownLink.toBytes (.new .plain "" 8) []), .connected true] ++
    exchange true k (.fill 2) ++ exchange true k (.fill 2) ++ exchange true k (.fill 2) ++
    exchange true k (.fill 3) ++ exchange true k (.fill 3) ++ exchange true k (.fill 3)

/-- The listener takes the payload and acks it. -/
def listenerJoins : List (Happening OpenMls.plain Bool) :=
  [.call false .awaitPairing ⟨0, true⟩, .deliver 0, .push false ⟨0, true⟩] ++
    exchange false 0 (.fill 1)

def meeting : List (Happening OpenMls.plain Bool) :=
  listenerUp ++ [.attachStore false ⟨0, true⟩, .contactLink false ⟨9, true⟩] ++ scannerUp 1 ++
    listenerJoins

def quietWorld : World OpenMls.plain Bool := World.boot true (fun _ => Store.empty _)

def Process.idleEngine : Process mls → Option (ChatEngine mls)
  | .running e .idle => some e
  | _ => none

theorem Process.eq_of_idleEngine {p : Process mls} (h : p.idleEngine = some e) :
    p = .running e .idle := by
  unfold Process.idleEngine at h
  split at h
  · cases h
    rfl
  · cases h

@[irreducible] def pairedWorld : World OpenMls.plain Bool :=
  (run (World.step .plain) quietWorld meeting).get (by decide +kernel)

@[irreducible] def pairedEngine (i : Bool) : ChatEngine OpenMls.plain :=
  (pairedWorld.nodes i).process.idleEngine.get (by revert i; decide +kernel)

theorem paired_reached : Reached .plain pairedWorld := by
  refine ⟨true, fun _ => Store.empty _, meeting, ?_⟩
  unfold pairedWorld
  exact (Option.some_get _).symm

theorem paired_running (i : Bool) :
    (pairedWorld.nodes i).process = .running (pairedEngine i) .idle := by
  refine Process.eq_of_idleEngine ?_
  unfold pairedEngine
  exact (Option.some_get _).symm

/-- In every world that comes about, through whatever crashes, losses and restarts, a request of a
connection is under way or has one reply, up to `2 ^ 64` calls under an id of its own, and a device
shares its connection with no other: the relay serves it one mailbox, and what arrives on it is for
that mailbox. -/
theorem connections_stay_apart {ι : Type} [DecidableEq ι] {c : Crypto} {w : World mls ι}
    (hw : Reached c w) (k : ConnId) :
    ((w.conns k).nextCall ≤ 2 ^ 64 → (w.conns k).requestIds.Nodup) ∧
    ∀ i, (w.nodes i).process.Uses k →
      (∀ j, (w.nodes j).process.Uses k → j = i) ∧
      (∀ q, k ∈ w.service.relay.inner.subscribers q →
        (w.nodes i).process.mailboxQid = some q) ∧
      ∀ p ∈ (w.conns k).received, (w.nodes i).process.mailboxQid = some p.1 := by
  have hS := hw.sound
  refine ⟨(hS.orderly.numbered k).requestIds_nodup,
    fun i hi => ⟨fun j hj => ?_, fun q hq => ?_, ?_⟩⟩
  · have hi' := (hS.orderly.owned i k hi).1
    have hj' := (hS.orderly.owned j k hj).1
    exact Option.some.inj (hj'.symm.trans hi')
  · exact ((hS.solo i k hi).tuned q hq).1
  · exact (hS.solo i k hi).received

theorem connections_stay_apart_paired : ∃ k, (pairedWorld.nodes true).process.Uses k ∧
    ¬ (pairedWorld.nodes false).process.Uses k := by
  have huses : (pairedWorld.nodes true).process.Uses (pairedEngine true).relay := by
    rw [paired_running]
    exact Or.inl rfl
  refine ⟨_, huses, fun hother => ?_⟩
  cases ((connections_stay_apart paired_reached _).2 true huses).1 false hother

end Meeting

end Rosette.Network
