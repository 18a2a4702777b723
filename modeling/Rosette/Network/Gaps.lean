import Rosette.Engine.Writing
import Rosette.Network.Devices
import Rosette.Network.Reached

/-! # A failed write and the writes after it

A device runs with a store whose transactions may fail. The error goes to the caller,
who may go on using the engine. If no write succeeds after one has failed, until the
process dies or the store is attached anew, the file always fits together, and no message
its session knows is handed to the session again, however often the device crashes and
resumes. A write that succeeds after a failed one leaves a gap.
-/
namespace Rosette.Network
open Foundation Proto Rosette.Core Relay Engine Option Function World

variable {mls : OpenMls} {ι : Type} {c : Crypto} {h : Happening mls ι} {d : Draw} {b : Bool}
  {w w' : World mls ι} {i : ι} {e : ChatEngine mls}

/-- The same event, its write ending as given. -/
def Happening.withDisk (diskOk : Bool) : Happening mls ι → Happening mls ι
  | .call i asked d => .call i asked ⟨d.rand, diskOk⟩
  | .contactLink i d => .contactLink i ⟨d.rand, diskOk⟩
  | .attachStore i d => .attachStore i ⟨d.rand, diskOk⟩
  | .push i d => .push i ⟨d.rand, diskOk⟩
  | .replied i d => .replied i ⟨d.rand, diskOk⟩
  | .lost i d => .lost i ⟨d.rand, diskOk⟩
  | h => h

theorem Happening.withDisk_draw (hd : h.draw = some d) : h.withDisk d.diskOk = h := by
  cases h <;> cases hd <;> rfl

theorem Happening.draw_withDisk (hd : (h.withDisk b).draw = some d) : d.diskOk = b := by
  cases h <;> cases hd <;> rfl

/-- A call of the device has returned with a failed write. -/
def refused (w w' : World mls ι) (i : ι) : Bool :=
  ((w'.nodes i).results.drop (w.nodes i).results.length).any (fun r =>
    r.failure = some .storeFailed)

def wrote (w w' : World mls ι) (i : ι) : Bool :=
  (w'.nodes i).disk.revision ≠ (w.nodes i).disk.revision

section Disk
variable [DecidableEq ι] {w₁ : World mls ι} {pc : Pc} {h : Happening mls ι} {d : Draw}

theorem hinges_install {written failed : Turn mls} (hn : w₁.nodes = w.nodes)
    (hp : (w.nodes i).process = .running e pc) (h : Hinges e written failed) :
    refused w (w₁.install i failed) i = true ∧ wrote w (w₁.install i written) i = true := by
  obtain ⟨⟨r, hr, hfail⟩, st, st', hst, hst', hrev⟩ := h
  constructor
  · rw [refused, install_self, hn, hr]
    simp [hfail]
  · rw [wrote, install_self, decide_eq_true_eq]
    simp only [Node.disk, hp, hst, hst', getD_some, hrev]
    omega

variable (hi : h.node = some i)
include hi

/-- An event with a write in it fails with it; to any other event the disk does not matter. -/
theorem step_disk :
    w.step c (h.withDisk true) = w.step c (h.withDisk false) ∨
    (∀ w', w.step c (h.withDisk false) = some w' → refused w w' i = true) ∧
      ∀ w', w.step c (h.withDisk true) = some w' → wrote w w' i = true := by
  have hsome : ∀ {t t' : World mls ι},
      refused w t' i = true ∧ wrote w t i = true →
      (∀ w', some t' = some w' → refused w w' i = true) ∧
        ∀ w', some t = some w' → wrote w w' i = true := by
    rintro t t' ⟨hr, hw⟩
    exact ⟨by rintro _ ⟨⟩; exact hr, by rintro _ ⟨⟩; exact hw⟩
  have hnode : ∀ b, (h.withDisk b).node = some i := by
    intro b
    cases h <;> exact hi
  unfold World.step
  rw [hnode, hnode]
  dsimp only
  cases hp : (w.nodes i).process with
  | off | starting => cases h <;> exact .inl rfl
  | running e pc =>
    cases h with
    | call j call d =>
      simp only [Happening.withDisk, World.stepEngine]
      split_ifs
      · rcases hinges_start c e (w.link e.relay) d.rand call with
          h | h
        · exact .inl (by rw [h])
        · exact .inr (hsome (hinges_install rfl hp h))
      · exact .inl rfl
    | attachStore =>
      simp only [Happening.withDisk, World.stepEngine]
      split_ifs
      · refine .inr (hsome ⟨?_, ?_⟩)
        · rw [refused]
          simp [finish, ChatEngine.attachStore, ChatEngine.persist, Result.failure]
        · rw [wrote]
          simp only [finish, ChatEngine.attachStore, ChatEngine.persist]
          simp [Node.disk, Store.commit]
      · exact .inl rfl
    | push j d =>
      simp only [Happening.withDisk, World.stepEngine]
      split
      · rename_i r p rest hrec
        rcases hinges_onPush c e (w.link e.relay) d.rand r p with
          h | h
        · exact .inl (by rw [h])
        · exact .inr (hsome (hinges_install rfl hp h))
      · exact .inl rfl
    | replied j d =>
      simp only [Happening.withDisk, World.stepEngine]
      cases w.answer (pc.awaits e) with
      | none => exact .inl rfl
      | some p =>
        simp only [bind_some]
        rcases hinges_onReply c e (w.link p.1) d.rand p.2 pc with h | ⟨t, t', ht, ht', h⟩
        · exact .inl (by rw [h])
        · rw [ht, ht']
          exact .inr (hsome (hinges_install rfl hp h))
    | _ => exact .inl rfl

theorem step_unwritten (hd : h.draw = some d) (hok : d.diskOk = true) (hs : w.step c h = some w')
    (hw : wrote w w' i = false) :
    w.step c (h.withDisk false) = some w' := by
  have hself := Happening.withDisk_draw hd
  rw [hok] at hself
  rcases step_disk hi with he | ⟨-, hwrote⟩
  · rw [← he, hself, hs]
  · rw [hself] at hwrote
    simp [hwrote w' hs] at hw

theorem step_unrefused (hd : h.draw = some d) (hok : d.diskOk = false) (hs : w.step c h = some w')
    (hr : refused w w' i = false) :
    w.step c (h.withDisk true) = some w' := by
  have hself := Happening.withDisk_draw hd
  rw [hok] at hself
  rcases step_disk hi with he | ⟨hrefused, -⟩
  · rw [he, hself, hs]
  · rw [hself] at hrefused
    simp [hrefused w' hs] at hr

end Disk

/-- The regime of an engine whose writes all succeed. -/
abbrev completeRegime (c : Crypto) (mls : OpenMls) : Regime mls :=
  (Surroundings.writing mls true).regime (Complete c)

/-- The regime of an engine whose writes all fail. -/
abbrev settledRegime (c : Crypto) (mls : OpenMls) : Regime mls :=
  (Surroundings.writing mls false).regime (Settled c)

theorem lasting_settled {n : Node mls} (h : Lasting (completeRegime c mls) (Store.Whole c) n) :
    Lasting (settledRegime c mls) (Store.Whole c) n := by
  cases h with
  | off process file => exact .off process file
  | starting process returning file => exact .starting process returning file
  | running process holds =>
    refine .running process (Regime.holds_mono ?_ ?_ ?_ ?_ holds)
    · exact fun h => Complete.toSettled h
    · exact fun r _ => by cases r <;> trivial
    · exact fun _ h => ⟨h.1.toSettled, h.2⟩
    · exact fun _ h => ⟨h.1.toSettled, h.2⟩

theorem complete_recovers : Recovers (completeRegime c mls) (Store.Whole c) := by
  intro st rec s conn rs hF _
  refine ⟨⟨hF, ?_, ?_⟩, ?_⟩
  · rintro p ⟨⟩
  · rintro _ ⟨⟩
    exact hF
  · rintro _ ⟨⟩
    exact hF

theorem settled_recovers : Recovers (settledRegime c mls) (Store.Whole c) :=
  fun conn rs hF hy => (complete_recovers conn rs hF hy).toSettled

theorem disk_whole (hf : (w.nodes i).file.Whole c)
    (hl : Lasting (settledRegime c mls) (Store.Whole c) (w.nodes i)) :
    (w.nodes i).disk.Whole c :=
  hl.disk_of_file hf fun _ _ _ hh => (Surroundings.holds_condition hh).stored

theorem attached_complete (he : Settled c e) (st : Store mls) :
    Complete c (e.attachStore true st).1 := by
  have hcovers : Remembers mls c (st.seen ∪ e.seen) e.trace := fun a ha =>
    Finset.mem_union_right _ (he.seen a ha)
  refine ⟨⟨he.seen, he.calls, ?_⟩, ?_⟩
  · rintro _ ⟨⟩
    exact hcovers
  · rintro _ ⟨⟩
    exact hcovers

theorem grants_complete (hl : Resumes i h)
    (hd : ∀ d, h.node = some i → h.draw = some d → d.diskOk = true) :
    Grants (.writing mls true) (Complete c) w i h where
  call _ _ _ := trivial
  link e _ d _ _ hA := by
    rw [ChatEngine.contactLink_fst]
    exact hA.congr rfl rfl rfl rfl
  attach e _ d hh _ hA := by
    subst hh
    rw [hd d rfl rfl]
    exact attached_complete hA.toSettled _
  invited _ _ _ _ _ _ _ := trivial
  disk := hd
  start := hl

theorem grants_settled (hl : Resumes i h) (hw : (w.nodes i).disk.Whole c)
    (hd : ∀ d, h.node = some i → h.draw = some d → d.diskOk = false) :
    Grants (.writing mls false) (Settled c) w i h where
  call _ _ _ := trivial
  link e _ d _ _ hA := by
    rw [ChatEngine.contactLink_fst]
    exact hA.congr rfl rfl rfl rfl
  attach e _ d hh _ hA := by
    subst hh
    rw [hd d rfl rfl]
    refine ⟨hA.seen, hA.calls, ?_⟩
    rintro _ ⟨⟩
    exact hw
  invited _ _ _ _ _ _ _ := trivial
  disk := hd
  start := hl

theorem resumes_withDisk (hl : Resumes i h) : Resumes i (h.withDisk b) := by
  intro launch hh
  cases h with
  | start => exact hl launch hh
  | _ => cases hh

/-- A world, and whether a write of the device has failed since its engine came up or wrote
all ids. -/
structure Marked (mls : OpenMls) (ι : Type) where
  world : World mls ι
  failed : Bool

/-- What is known of the device: its files fit together, and unless a write has failed the table
is complete. -/
structure Fits (c : Crypto) (i : ι) (m : Marked mls ι) : Prop where
  file : (m.world.nodes i).file.Whole c
  settled : Lasting (settledRegime c mls) (Store.Whole c) (m.world.nodes i)
  complete : m.failed = false →
    Lasting (completeRegime c mls) (Store.Whole c) (m.world.nodes i)

/-- An engine as its constructor leaves it, idle, with or without a store. -/
structure JustUp (c : Crypto) (w : World mls ι) (i : ι) (e : ChatEngine mls) : Prop where
  process : (w.nodes i).process = .running e .idle
  trace : e.trace = .empty
  calls : e.calls = []
  file : (w.nodes i).file.Whole c
  stored : ∀ st, e.store = some st → st.Whole c

theorem JustUp.fits (h : JustUp c w i e) : Fits c i ⟨w, false⟩ := by
  have hnone : ∀ ids, Remembers mls c ids e.trace := by
    rw [h.trace]
    rintro ids a (ha | ha | ⟨ha, -⟩) <;> cases ha
  have hcalls : ∀ p ∈ e.calls, ∀ a, Effect mls c p.1 a → a.messageId ≠ p.2.messageId := by
    rw [h.calls]
    rintro p ⟨⟩
  have hc : Complete c e := ⟨⟨hnone _, hcalls, h.stored⟩, fun _ _ => hnone _⟩
  have hl : Lasting (completeRegime c mls) (Store.Whole c) (w.nodes i) := .running h.process hc
  exact ⟨h.file, lasting_settled hl, fun _ => hl⟩

theorem JustUp.told (h : JustUp c w i e) (hst : ∀ st, e.store = some st → st.Tells c e.session) :
    Lasting ((Surroundings.any mls).regime (Told c e.session)) (Store.Tells c e.session)
      (w.nodes i) := by
  have htold : Told c e.session e :=
    ⟨h.trace ▸ .start, by rw [h.calls]; rintro p ⟨⟩, hst⟩
  exact .running h.process htold

variable [DecidableEq ι]

/-- The process dies, or all ids are written. -/
def Happening.clears (i : ι) : Happening mls ι → Bool
  | .crash j => j = i
  | .attachStore j d => j = i ∧ d.diskOk = true
  | _ => false

namespace Marked

def step (c : Crypto) (i : ι) (m : Marked mls ι) (h : Happening mls ι) :
    Option (Marked mls ι) :=
  (m.world.step c h).map (fun w' =>
    ⟨w', if h.clears i then false else m.failed || refused m.world w' i⟩)

/-- Once a write has failed, none succeeds until the mark is cleared. -/
def StaysDown (c : Crypto) (i : ι) (m : Marked mls ι) (h : Happening mls ι) : Prop :=
  m.failed = true → h.clears i = false →
    (m.world.step c h).all (fun w' => !wrote m.world w' i) = true

instance (c : Crypto) (i : ι) (m : Marked mls ι) (h : Happening mls ι) :
    Decidable (StaysDown c i m h) :=
  inferInstanceAs (Decidable (_ → _ → _))

theorem run_world {m : Marked mls ι} {es : List (Happening mls ι)}
    (h : run (World.step c) m.world es = some w') :
    ∃ m', run (Marked.step c i) m es = some m' ∧ m'.world = w' := by
  induction es generalizing m with
  | nil => exact ⟨m, rfl, some.inj h⟩
  | cons a es ih =>
    obtain ⟨u, hu, hr⟩ := bind_eq_some_iff.mp h
    obtain ⟨m', hm', rfl⟩ := ih (m := ⟨u, if a.clears i then false
      else m.failed || refused m.world u i⟩) hr
    refine ⟨m', ?_, rfl⟩
    rw [run, Marked.step, hu]
    exact hm'

end Marked

section Step
variable {m m' : Marked mls ι} {h : Happening mls ι} {d : Draw}

theorem file_whole (hf : (w.nodes i).file.Whole c)
    (hl : Lasting (settledRegime c mls) (Store.Whole c) (w.nodes i)) (hs : w.step c h = some w') :
    (w'.nodes i).file.Whole c :=
  hl.file_step hf (disk_whole hf hl) hs

theorem step_complete (hf : (w.nodes i).file.Whole c)
    (hn : Lasting (completeRegime c mls) (Store.Whole c) (w.nodes i)) (hl : Resumes i h)
    (hd : ∀ d, h.node = some i → h.draw = some d → d.diskOk = true) (hs : w.step c h = some w') :
    Lasting (completeRegime c mls) (Store.Whole c) (w'.nodes i) :=
  Lasting.step_condition (complete_stable c) complete_recovers (grants_complete hl hd)
    (fun _ _ _ _ _ => disk_whole hf (lasting_settled hn)) hn hs

theorem step_settled (hf : (w.nodes i).file.Whole c)
    (hn : Lasting (settledRegime c mls) (Store.Whole c) (w.nodes i)) (hl : Resumes i h)
    (hd : ∀ d, h.node = some i → h.draw = some d → d.diskOk = false) (hs : w.step c h = some w') :
    Lasting (settledRegime c mls) (Store.Whole c) (w'.nodes i) :=
  Lasting.step_condition (settled_stable c) settled_recovers
    (grants_settled hl (disk_whole hf hn) hd) (fun _ _ _ _ _ => disk_whole hf hn) hn hs

theorem crashed (hf : (w.nodes i).file.Whole c)
    (hn : Lasting (settledRegime c mls) (Store.Whole c) (w.nodes i))
    (hs : w.step c (.crash i) = some w') :
    Lasting (completeRegime c mls) (Store.Whole c) (w'.nodes i) := by
  have hfile := file_whole hf hn hs
  have hoff : (w'.nodes i).process = .off := by
    simp only [World.step, Happening.node] at hs
    split at hs
    · cases hs
    · cases hs
      simp only [World.setNode, update_self]
    · cases hs
      simp only [World.setNode, update_self]
  exact .off hoff hfile

theorem reattached (hn : Lasting (settledRegime c mls) (Store.Whole c) (w.nodes i))
    (hd : d.diskOk = true) (hs : w.step c (.attachStore i d) = some w') :
    Lasting (completeRegime c mls) (Store.Whole c) (w'.nodes i) := by
  simp only [World.step, Happening.node] at hs
  cases hn with
  | off process | starting process =>
    rw [process] at hs
    cases hs
  | @running e pc process holds =>
    rw [process] at hs
    simp only [World.stepEngine] at hs
    split_ifs at hs
    cases hs
    rw [hd]
    refine .running (?_ : _ = Process.running (e.attachStore true (w.nodes i).disk).1 .idle) ?_
    · rw [install_self]
      rfl
    · exact attached_complete (Surroundings.holds_condition holds) _

variable (hm : Fits c i m)
include hm

theorem Fits.step_drawless (hl : Resumes i h) (hi : h.node = some i) (hd : h.draw = none)
    (hs : m.step c i h = some m') : Fits c i m' := by
  obtain ⟨w', hw, rfl⟩ := map_eq_some_iff.mp hs
  have hnone : ∀ {b} d, h.node = some i → h.draw = some d → d.diskOk = b := by
    intro b d _ hd'
    simp [hd] at hd'
  refine ⟨file_whole hm.file hm.settled hw, step_settled hm.file hm.settled hl hnone hw,
    fun hmark => ?_⟩
  by_cases hc : h = .crash i
  · subst hc
    exact crashed hm.file hm.settled hw
  · have hclears : h.clears i = false := by
      cases h with
      | crash =>
        cases hi
        exact absurd rfl hc
      | attachStore => cases hd
      | _ => rfl
    rw [hclears] at hmark
    exact step_complete hm.file (hm.complete (Bool.or_eq_false_iff.mp hmark).1) hl hnone hw

theorem Fits.step_working (hl : Resumes i h) (hdown : m.StaysDown c i h) (hi : h.node = some i)
    (hd : h.draw = some d) (hok : d.diskOk = true) (hs : m.step c i h = some m') : Fits c i m' := by
  obtain ⟨w', hw, rfl⟩ := map_eq_some_iff.mp hs
  have hfile := file_whole hm.file hm.settled hw
  cases hmark : m.failed with
  | false =>
    have hnew := step_complete hm.file (hm.complete hmark) hl (fun d' _ hd' => by
      rw [hd] at hd'
      cases hd'
      exact hok) hw
    exact ⟨hfile, lasting_settled hnew, fun _ => hnew⟩
  | true =>
    cases hc : h.clears i with
    | true =>
      obtain rfl : h = .attachStore i d := by
        cases h with
        | attachStore =>
          cases hi
          cases hd
          rfl
        | crash => cases hd
        | _ => cases hc
      have hnew := reattached hm.settled hok hw
      exact ⟨hfile, lasting_settled hnew, fun _ => hnew⟩
    | false =>
      have hquiet : wrote m.world w' i = false := by
        have hall := hdown hmark hc
        rw [hw] at hall
        simpa using hall
      refine ⟨hfile, step_settled hm.file hm.settled (resumes_withDisk hl)
        (fun d' _ hd' => Happening.draw_withDisk hd') (step_unwritten hi hd hok hw hquiet), ?_⟩
      rintro ⟨⟩

theorem Fits.step_broken (hl : Resumes i h) (hi : h.node = some i) (hd : h.draw = some d)
    (hok : d.diskOk = false) (hs : m.step c i h = some m') :
    Fits c i m' := by
  obtain ⟨w', hw, rfl⟩ := map_eq_some_iff.mp hs
  have hsettled := step_settled hm.file hm.settled hl (fun d' _ hd' => by
    rw [hd] at hd'
    cases hd'
    exact hok) hw
  refine ⟨file_whole hm.file hm.settled hw, hsettled, fun hmark => ?_⟩
  have hclears : h.clears i = false := by
    cases h with
    | attachStore =>
      cases hd
      simp [Happening.clears, hok]
    | crash => cases hd
    | _ => rfl
  rw [hclears] at hmark
  obtain ⟨hmark, hkept⟩ := Bool.or_eq_false_iff.mp hmark
  exact step_complete hm.file (hm.complete hmark) (resumes_withDisk hl)
    (fun d' _ hd' => Happening.draw_withDisk hd') (step_unrefused hi hd hok hw hkept)

theorem Fits.step_aside (hi : h.node ≠ some i) (hs : m.step c i h = some m') :
    Fits c i m' := by
  obtain ⟨w', hw, rfl⟩ := map_eq_some_iff.mp hs
  have hn := step_nodes_of_ne hw hi
  refine ⟨file_whole hm.file hm.settled hw, hn ▸ hm.settled, fun hmark => ?_⟩
  have hclears : h.clears i = false := by
    cases h with
    | crash => exact decide_eq_false (fun he => hi (congrArg some he))
    | attachStore => exact decide_eq_false (fun he => hi (congrArg some he.1))
    | _ => rfl
  rw [hclears] at hmark
  rw [hn]
  exact hm.complete (Bool.or_eq_false_iff.mp hmark).1

theorem Fits.step (hl : Resumes i h) (hdown : m.StaysDown c i h) (hs : m.step c i h = some m') :
    Fits c i m' := by
  by_cases hi : h.node = some i
  · cases hd : h.draw with
    | none => exact hm.step_drawless hl hi hd hs
    | some d =>
      cases hok : d.diskOk with
      | true => exact hm.step_working hl hdown hi hd hok hs
      | false => exact hm.step_broken hl hi hd hok hs
  · exact hm.step_aside hi hs

end Step

/-! ## Two runs -/
section Instances

/-- The test for an engine that has just come up, without a store. -/
def upAfresh (w : World mls ι) (i : ι) : Bool :=
  match (w.nodes i).process with
  | .running e pc => pc = .idle ∧ e.trace = .empty ∧ e.calls.isEmpty ∧ e.store.isNone ∧
      (w.nodes i).file.trace = .empty
  | _ => false

omit [DecidableEq ι] in
theorem justUp_of_upAfresh (h : upAfresh w i = true) : ∃ e, JustUp c w i e := by
  unfold upAfresh at h
  split at h
  · rename_i e pc hp
    obtain ⟨rfl, htrace, hcalls, hstore, hfile⟩ := of_decide_eq_true h
    refine ⟨e, hp, htrace, List.isEmpty_iff.mp hcalls, ?_, fun st hst => ?_⟩
    · rw [Store.Whole, hfile]
      rintro a (ha | ha | ⟨ha, -⟩) <;> cases ha
    · simp [hst] at hstore
  · cases h

/-- The listener attaches its store and joins the scanner's group. -/
def joining : List (Happening OpenMls.plain Bool) :=
  [.attachStore false ⟨0, true⟩, .contactLink false ⟨9, true⟩] ++ scannerUp 1 ++ listenerJoins

/-- The scanner sends a message; the listener reads it, its disk in this state. -/
def passing (plaintext : List UInt8) (diskOk : Bool) : List (Happening OpenMls.plain Bool) :=
  [.call true (.sendMessage plaintext) ⟨0, true⟩] ++ exchange true 1 (.fill 0) ++
    [.deliver 0, .call false .nextEvent ⟨0, true⟩, .push false ⟨0, diskOk⟩]

/-- The listener crashes, resumes, and is sent what it has not acked. -/
def resuming : List (Happening OpenMls.plain Bool) :=
  [.crash false, .start false .resume, .connected false] ++ exchange false 2 (.fill 0) ++
    [.call false .nextEvent ⟨0, true⟩, .deliver 2, .push false ⟨0, true⟩]

/-- The file tells of a message whose id it lacks. -/
def gapped (w : World mls ι) (i : ι) : Bool :=
  (w.nodes i).disk.trace.consumed.any (fun a => a.messageId ∉ (w.nodes i).disk.seen)

/-- The session has been handed a message it had taken in. -/
def handedAgain (w : World mls ι) (i : ι) : Bool :=
  match (w.nodes i).process with
  | .running e _ => e.calls.any (fun p => p.1.consumed.any (fun a => a.messageId = p.2.messageId))
  | _ => false

end Instances
end Rosette.Network
