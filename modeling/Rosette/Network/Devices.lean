import Rosette.Engine.Histories
import Rosette.Network.Listeners

/-! # Devices that crash and come back

A device loses its process and keeps its file. What holds of the engine at every await
point, and of the file an engine leaves behind, holds through any number of crashes if
an engine resumed from such a file starts out right.
-/
namespace Rosette.Network
open Foundation Proto Rosette.Core Relay Engine Function World

variable {mls : OpenMls} {ι : Type} {c : Crypto} {st : Store mls} {w w' : World mls ι} {i : ι}
  {h : Happening mls ι} {F : Store mls → Prop}

/-- The record and the session that a store yields. -/
structure Yields (st : Store mls) (rec : PersistedEngine) (s : ChatSession mls) : Prop where
  record : st.engine = some rec
  session : ∃ snap, st.session = some snap ∧ ChatSession.restore snap = .ok s

/-- The engine a resume ends with. -/
def resumedEngine (st : Store mls) (rec : PersistedEngine) (s : ChatSession mls) (conn : ConnId) :
    ChatEngine mls :=
  (Origin.resume rec s st).engine conn (rec.mailboxQid, rec.mailboxKey)

/-- A constructor on its way back from the store. -/
inductive Returning (st : Store mls) : Boot mls → Prop where
  | connecting {rec s} (yields : Yields st rec s) : Returning st (.connecting (.resume rec s st))
  | subscribing {rec s conn rid} (yields : Yields st rec s) :
    Returning st (.subscribing (.resume rec s st) conn (rec.mailboxQid, rec.mailboxKey) rid)

theorem returning_of_resume {stage : Boot mls} (h : Engine.resume st = .ok stage) :
    Returning st stage := by
  unfold Engine.resume at h
  split at h
  · rename_i rec snap hrec hsnap
    split at h
    · cases h
    · rename_i s hs
      cases h
      exact .connecting ⟨hrec, snap, hsnap, hs⟩
  · cases h

section Return
variable [DecidableEq ι] {stage : Boot mls}

theorem Returning.step (hb : Returning st stage) (hi : h.node = some i)
    (hs : w.stepBoot c i stage h = some w') :
    (w'.nodes i).file = (w.nodes i).file ∧ ((w'.nodes i).process = .off ∨
      (∃ stage', (w'.nodes i).process = .starting stage' ∧ Returning st stage') ∨
      ∃ rec s conn, Yields st rec s ∧
        (w'.nodes i).process = .running (resumedEngine st rec s conn) .idle) := by
  have hself : ∀ (w : World mls ι) (n : Node mls), (w.setNode i n).nodes i = n :=
    fun w n => update_self ..
  have hfailed : ∀ (w : World mls ι) err, (w.installBoot i (.failed err)).nodes i =
      { w.nodes i with process := .off } := fun w err => hself w _
  rcases stepBoot_cases hi hs with ⟨bt, d, k, rid, reply, hk, -, hbt, rfl⟩ | ⟨o, rfl, rfl⟩ | rfl
  · cases hb with
    | connecting => cases hk
    | @subscribing rec s conn rid yields =>
      cases reply with
      | ok =>
        cases hbt
        have hup : (w.installBoot i (.up (resumedEngine st rec s conn))).nodes i =
          { w.nodes i with process := .running (resumedEngine st rec s conn) .idle } := hself w _
        rw [show subscribed (w.link k) d (Origin.resume rec s st) conn
          (rec.mailboxQid, rec.mailboxKey) = .up (resumedEngine st rec s conn) from rfl, hup]
        exact ⟨rfl, .inr (.inr ⟨_, _, _, yields, rfl⟩)⟩
      | error | powChallenge | queueCreated =>
        cases hbt
        rw [hfailed]
        exact ⟨rfl, .inl rfl⟩
  · cases hb with
    | @connecting rec s yields =>
      simp only [Boot.onConnected, request]
      split_ifs
      · have hawait : ∀ (w : World mls ι) stage frame,
            (w.installBoot i (.await stage frame)).nodes i =
              { w.nodes i with process := .starting stage } := fun w stage frame => hself _ _
        rw [hawait]
        exact ⟨rfl, .inr (.inl ⟨_, rfl, .subscribing yields⟩)⟩
      · rw [hfailed]
        exact ⟨rfl, .inl rfl⟩
  · rw [hself]
    exact ⟨rfl, .inl rfl⟩

/-- What other devices and the network do leaves a device alone. -/
theorem step_nodes_of_ne (hs : w.step c h = some w') (hi : h.node ≠ some i) :
    w'.nodes i = w.nodes i := by
  unfold World.step at hs
  split at hs
  · exact congrFun (moved_of_stepNetwork hs).grows.1 i
  · rename_i j hj
    have hij : i ≠ j := by
      rintro rfl
      exact hi hj
    have hset : ∀ (w : World mls ι) (n : Node mls), (w.setNode j n).nodes i = w.nodes i :=
      fun w n => update_of_ne hij ..
    have hboot : ∀ (w : World mls ι) (bt : BootTurn mls),
        (w.installBoot j bt).nodes i = w.nodes i := by
      intro w bt
      cases bt with
      | await => exact (hset _ _).trans (by rw [send_nodes])
      | up | failed => exact hset _ _
    split at hs
    · exact (aside_off hs).nodes i hij
    · rcases stepBoot_cases hj hs with ⟨bt, -, -, -, -, -, -, -, rfl⟩ | ⟨o, -, rfl⟩ | rfl
      · exact hboot w bt
      · exact hboot _ _
      · exact hset w _
    · rcases stepEngine_cases hj hs with ⟨w₁, t, hr, rfl⟩ | ⟨-, rfl⟩
      · rw [install_of_ne _ hij, nodes_resumed hr]
      · exact hset w _

end Return

/-- A device whose engine keeps to the regime `R` and whose file, while no engine runs, is
as `F` says. -/
inductive Lasting (R : Regime mls) (F : Store mls → Prop) (n : Node mls) : Prop where
  | off (process : n.process = .off) (file : F n.file)
  | starting {stage} (process : n.process = .starting stage) (returning : Returning n.file stage)
      (file : F n.file)
  | running {e pc} (process : n.process = .running e pc) (holds : R.holds e n.results pc)

/-- A resume from such a file gives an engine of the regime. -/
def Recovers (R : Regime mls) (F : Store mls → Prop) : Prop :=
  ∀ {st rec s} conn rs, F st → Yields st rec s → R.rest (resumedEngine st rec s conn) rs

/-- The device makes no other engine than from its file. -/
def Resumes (i : ι) (h : Happening mls ι) : Prop := ∀ launch, h = .start i launch → launch = .resume

namespace Lasting
variable {R : Regime mls}

theorem disk {n : Node mls} (hn : Lasting R F n)
    (hF : ∀ e rs pc, R.holds e rs pc → ∃ st, e.store = some st ∧ F st) : F n.disk := by
  cases hn with
  | off process file | starting process returning file =>
    rw [Node.disk, process]
    exact file
  | running process holds =>
    obtain ⟨st, hst, hf⟩ := hF _ _ _ holds
    rw [Node.disk, process]
    simp only [hst]
    exact hf

theorem disk_of_file {n : Node mls} (hn : Lasting R F n) (hf : F n.file)
    (hF : ∀ e rs pc, R.holds e rs pc → ∀ st, e.store = some st → F st) : F n.disk := by
  cases hn with
  | off process | starting process =>
    rw [Node.disk, process]
    exact hf
  | @running e pc process holds =>
    rw [Node.disk, process]
    cases hst : e.store with
    | none =>
      simp only [hst]
      exact hf
    | some st =>
      simp only [hst]
      exact hF _ _ _ holds st hst

variable [DecidableEq ι]

theorem step (hn : Lasting R F (w.nodes i)) (hR : R.Closed c) (hF : Recovers R F)
    (hstart : Resumes i h)
    (hcrash : ∀ e pc, (w.nodes i).process = .running e pc → h = .crash i → F (w.nodes i).disk)
    (hserves : ∀ e pc, (w.nodes i).process = .running e pc →
      R.holds e (w.nodes i).results pc → ∃ q, Serves c R w i e pc (w.nodes i).results q h)
    (hs : w.step c h = some w') : Lasting R F (w'.nodes i) := by
  by_cases hi : h.node = some i
  · unfold World.step at hs
    rw [hi] at hs
    dsimp only at hs
    cases hn with
    | off process file =>
      rw [process] at hs
      cases h with
      | start j launch =>
        cases hi
        obtain rfl := hstart launch rfl
        simp only [World.stepOff] at hs
        split at hs
        · rename_i stage hstage
          cases hs
          have hself := update_self (f := w.nodes) i { w.nodes i with process := .starting stage }
          refine .starting (?_ : _ = Process.starting stage) ?_ ?_ <;>
            simp only [World.setNode, hself]
          · exact returning_of_resume hstage
          · exact file
        · cases hs
          exact .off process file
      | _ => cases hs
    | starting process returning file =>
      rw [process] at hs
      obtain ⟨hfile, hp | ⟨stage', hp, hb⟩ | ⟨rec, s, conn, hy, hp⟩⟩ := returning.step hi hs
      · exact .off hp (hfile ▸ file)
      · exact .starting hp (hfile ▸ hb) (hfile ▸ file)
      · exact .running hp (hF conn _ file hy)
    | @running e pc process holds =>
      rw [process] at hs
      rcases stepEngine_cases hi hs with ⟨w₁, t, hr, rfl⟩ | ⟨hh, rfl⟩
      · obtain ⟨q, hserves⟩ := hserves e pc process holds
        refine .running (?_ : _ = Process.running t.engine t.pc) ?_ <;> rw [install_self]
        rw [nodes_resumed hr]
        exact holds_resumed hR holds hserves hr
      · have hself := update_self (f := w.nodes) i
          { w.nodes i with process := .off, file := (w.nodes i).disk }
        refine .off ?_ ?_ <;> simp only [World.setNode, hself]
        exact hcrash e pc process hh
  · rw [step_nodes_of_ne hs hi]
    exact hn

/-- A file changes in a crash only, to what was on disk. -/
theorem file_step (hn : Lasting R F (w.nodes i)) (hf : F (w.nodes i).file)
    (hdisk : F (w.nodes i).disk) (hs : w.step c h = some w') : F (w'.nodes i).file := by
  by_cases hi : h.node = some i
  · unfold World.step at hs
    rw [hi] at hs
    dsimp only at hs
    cases hn with
    | off process =>
      rw [process] at hs
      cases h with
      | start =>
        simp only [World.stepOff] at hs
        split at hs
        · cases hs
          simp only [World.setNode, update_self]
          exact hf
        · cases hs
          exact hf
      | _ => cases hs
    | starting process returning =>
      rw [process] at hs
      rw [(returning.step hi hs).1]
      exact hf
    | running process =>
      rw [process] at hs
      rcases stepEngine_cases hi hs with ⟨w₁, t, hr, rfl⟩ | ⟨-, rfl⟩
      · rw [install_self, nodes_resumed hr]
        exact hf
      · simp only [World.setNode, update_self]
        exact hdisk
  · rw [step_nodes_of_ne hs hi]
    exact hf

end Lasting

section Conditions
variable {S : Surroundings mls} {A : ChatEngine mls → Prop}

theorem Lasting.condition {n : Node mls} {e : ChatEngine mls} {pc : Pc}
    (hn : Lasting (S.regime A) F n) (hp : n.process = .running e pc) : A e := by
  cases hn with
  | off process | starting process => cases hp.symm.trans process
  | running process holds =>
    cases hp.symm.trans process
    exact Surroundings.holds_condition holds

/-- The surroundings of one device meet what is assumed of them. -/
structure Grants (S : Surroundings mls) (A : ChatEngine mls → Prop) (w : World mls ι) (i : ι)
    (h : Happening mls ι) : Prop where
  call : ∀ call d, h = .call i call d → S.permits call
  link : ∀ e pc d, h = .contactLink i d → (w.nodes i).process = .running e pc → A e →
    A (e.contactLink d.rand).1
  attach : ∀ e pc d, h = .attachStore i d → (w.nodes i).process = .running e pc → A e →
    A (e.attachStore d.diskOk (w.nodes i).disk).1
  invited : ∀ e p rest d, h = .push i d →
    (w.nodes i).process = .running e (.receiving .awaitPairing) →
    (w.conns e.relay).received = p :: rest → S.invites e p.2
  disk : ∀ d, h.node = some i → h.draw = some d → S.writes d.diskOk
  start : Resumes i h

/-- What the surroundings grant is what the regime of a stable condition needs. -/
theorem serves_of_stable (hA : Stable c S A) (hg : Grants S A w i h) (hi : h.node = some i)
    {e : ChatEngine mls} {pc : Pc} (hp : (w.nodes i).process = .running e pc) {rs : List Result}
    (hh : (S.regime A).holds e rs pc) : ∃ q, Serves c (S.regime A) w i e pc rs q h := by
  have hcond := Surroundings.holds_condition hh
  obtain ⟨q, hq⟩ := exists_addressee (w.conns e.relay).received
  refine ⟨q, hg.call, fun d hd => hg.link e pc d hd hp hcond,
    fun d hd => hg.attach e pc d hd hp hcond,
    fun p rest hr => ⟨hq p rest hr, fun _ => trivial⟩, fun p rest d hd hpc hr => ?_,
    fun d hd => hg.disk d hi hd, fun _ _ _ _ _ => trivial, fun s rid hpc _ _ => ?_,
    fun k conn rid d _ hpc => ?_⟩
  · exact hg.invited e p rest d hd (by rw [hp, hpc]) hr
  · rw [hpc] at hh
    exact hh
  · rw [hpc] at hh
    cases k with
    | receiving | sending => exact ⟨hA.relay conn hh.1, hh.2⟩

variable [DecidableEq ι]

theorem Lasting.step_condition (hA : Stable c S A) (hF : Recovers (S.regime A) F)
    (hg : Grants S A w i h) (hcrash : ∀ e pc, (w.nodes i).process = .running e pc → A e →
      h = .crash i → F (w.nodes i).disk)
    (hn : Lasting (S.regime A) F (w.nodes i)) (hs : w.step c h = some w') :
    Lasting (S.regime A) F (w'.nodes i) := by
  by_cases hi : h.node = some i
  · have hcrash' : ∀ e pc, (w.nodes i).process = .running e pc → h = .crash i →
        F (w.nodes i).disk := fun e pc hp => hcrash e pc hp (hn.condition hp)
    exact hn.step (Surroundings.regime_closed hA) hF hg.start hcrash'
      (fun e pc hp hh => serves_of_stable hA hg hi hp hh) hs
  · rw [step_nodes_of_ne hs hi]
    exact hn

/-! ## Traces -/

section Traces
variable {s₀ : ChatSession mls} {es : List (Happening mls ι)}

/-- A session that comes back from a file has lived through what the file tells. -/
theorem told_recovers (S : Surroundings mls) :
    Recovers (S.regime (Told c s₀)) (Store.Tells c s₀) := by
  rintro st rec s conn rs htells ⟨-, snap, hsnap, hs⟩
  obtain ⟨s', rfl, hlived⟩ := htells snap hsnap
  refine ⟨.restored hlived hs, by rintro p ⟨⟩, ?_⟩
  rintro _ ⟨⟩
  exact htells

/-- Whatever happens, the file and the engine of a device tell of what their sessions have lived
through, if they do so at first. -/
theorem run_told (hf : (w.nodes i).file.Tells c s₀)
    (hw : Lasting ((Surroundings.any mls).regime (Told c s₀)) (Store.Tells c s₀) (w.nodes i))
    (hes : ∀ h ∈ es, Resumes i h) (hrun : run (World.step c) w es = some w') :
    (w'.nodes i).disk.Tells c s₀ ∧
    ∀ e pc, (w'.nodes i).process = .running e pc → Told c s₀ e := by
  have hdisk : ∀ {n : Node mls}, n.file.Tells c s₀ →
      Lasting ((Surroundings.any mls).regime (Told c s₀)) (Store.Tells c s₀) n →
      n.disk.Tells c s₀ := fun hf hn =>
    hn.disk_of_file hf fun _ _ _ hh => (Surroundings.holds_condition hh).stored
  have key : (∀ h ∈ es, Resumes i h) → (w'.nodes i).file.Tells c s₀ ∧
      Lasting ((Surroundings.any mls).regime (Told c s₀)) (Store.Tells c s₀) (w'.nodes i) := by
    refine run_induction (fun _ => ⟨hf, hw⟩) ?_ hrun
    intro es u h v _ ih hs hes
    obtain ⟨hf, hn⟩ := ih fun h' hh' => hes h' (List.mem_append_left _ hh')
    have hg : Grants (.any mls) (Told c s₀) u i h :=
      { call := fun _ _ _ => trivial
        link := fun _ _ d _ _ hA => hA.linked d.rand
        attach := fun e _ d _ _ hA => by
          apply Told.persist
          exact ⟨hA.session, hA.calls, by rintro _ ⟨⟩; exact hdisk hf hn⟩
        invited := fun _ _ _ _ _ _ _ => trivial
        disk := fun _ _ _ => trivial
        start := hes h (List.mem_append_right _ (List.mem_singleton.mpr rfl)) }
    exact ⟨hn.file_step hf (hdisk hf hn) hs, hn.step_condition (told_stable c _ s₀)
      (told_recovers _) hg (fun _ _ _ _ _ => hdisk hf hn) hs⟩
  obtain ⟨hf, hn⟩ := key hes
  exact ⟨hdisk hf hn, fun _ _ hp => hn.condition hp⟩

end Traces
end Conditions
end Rosette.Network
