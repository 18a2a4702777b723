import Rosette.Core.Keys
import Rosette.Network.Devices
import Rosette.Network.Reached

/-! # Contact links and crashes

A contact link can be answered only with the private half of its key package. Making
the link puts that half into the session's storage in memory; it reaches the file with
the next write-through, whichever operation makes it. A crash before that loses it.
-/
namespace Rosette.Network
open Foundation Proto Rosette.Core Relay Engine Option

variable {mls : OpenMls} {ι : Type} {c : Crypto} {L : KeyLaws mls} {k : mls.KeyPackage} {rev : ℕ}
  {row : Option (SessionSnapshot mls)} {e : ChatEngine mls}

/-- The session a device has, or would restore, has the private half of the package. -/
def HoldsKey (L : KeyLaws mls) (k : mls.KeyPackage) (n : Node mls) : Prop :=
  match n.process with
  | .running e _ => L.Holds e.session.provider k
  | _ => ∃ snap, n.file.session = some snap ∧ L.Holds snap.storage k

/-- The file since the link was made, at revision `rev` with the session row `row`: the key is
in it once it has been written again. -/
structure Filed (L : KeyLaws mls) (k : mls.KeyPackage) (rev : ℕ)
    (row : Option (SessionSnapshot mls))
    (st : Store mls) : Prop where
  le : rev ≤ st.revision
  unwritten : st.revision = rev → st.session = row
  written : rev < st.revision → ∃ snap, st.session = some snap ∧ L.Holds snap.storage k

/-- The engine since the link was made. -/
structure Linked (L : KeyLaws mls) (k : mls.KeyPackage) (rev : ℕ)
    (row : Option (SessionSnapshot mls)) (e : ChatEngine mls) : Prop where
  held : L.Holds e.session.provider k
  stored : ∃ st, e.store = some st ∧ Filed L k rev row st

section Engine

theorem Linked.congr (h : Linked L k rev row e) {e' : ChatEngine mls} (hst : e'.store = e.store)
    (hs : L.Holds e'.session.provider k) : Linked L k rev row e' := ⟨hs, hst ▸ h.stored⟩

theorem Linked.persist (h : Linked L k rev row e) (diskOk : Bool) (ids : Finset MessageId) :
    Linked L k rev row (e.persist diskOk ids).1 := by
  obtain ⟨st, hst, hf⟩ := h.stored
  cases diskOk with
  | true =>
    rw [ChatEngine.persist_stored hst]
    have hlt : rev < st.revision + 1 := Nat.lt_succ_of_le hf.le
    exact ⟨h.held, _, rfl, hlt.le, fun heq => absurd heq hlt.ne', fun _ => ⟨_, rfl, h.held⟩⟩
  | false => simpa [ChatEngine.persist, hst] using h

/-- No Welcome for the package gets to the pairing. -/
def unanswered (L : KeyLaws mls) (k : mls.KeyPackage) : Surroundings mls where
  permits _ := True
  invites _ envelope := ∀ payload w,
    decodeFrom BootstrapPayload.codec envelope.paddedCiphertext = some payload →
    mls.deserialize payload.welcomeWire = .ok (.welcome w) → ¬ L.For w k
  writes _ := True

theorem linked_stable (c : Crypto) (L : KeyLaws mls) (k : mls.KeyPackage) (rev : ℕ)
    (row : Option (SessionSnapshot mls)) :
    Stable c (unanswered L k) (Linked L k rev row) where
  events _ h := h.congr rfl h.held
  relay _ h := h.congr rfl h.held
  refused h _ ha := by
    obtain ⟨s, rfl, rfl⟩ := absorb_refused ha
    exact h.congr rfl (L.processed h.held _)
  taken _ h _ ha := by
    obtain ⟨s, merged, rfl, rfl⟩ := absorb_taken ha
    refine Linked.persist ?_ _ _
    exact h.congr rfl (L.processed h.held _)
  unjoined {e envelope payload s err} h hi hdec hj := by
    have hk := L.joined h.held payload.treeWire (fun w hw => hi _ w hdec hw)
    rw [hj] at hk
    exact h.congr rfl hk
  joined {e envelope payload s diskOk} _ h hi hdec hj := by
    have hk := L.joined h.held payload.treeWire (fun w hw => hi _ w hdec hw)
    rw [hj] at hk
    have h' : Linked L k rev row (e.joined s envelope payload) := h.congr rfl hk
    exact h'.persist _ _
  unencrypted rand plaintext h _ := h.congr rfl (L.encrypted h.held rand plaintext)
  encrypted {e rand plaintext s wire envelope diskOk} _ h hs _ := by
    have hk := L.encrypted h.held rand plaintext
    rw [hs] at hk
    have h' : Linked L k rev row ((e.author s envelope).note envelope.messageId) := h.congr rfl hk
    exact h'.persist _ _
  unbuilt rand _ h _ := h.congr rfl (L.updated h.held rand)
  built {e rand s wire envelope} _ h hs _ := by
    have hk := L.updated h.held rand
    rw [hs] at hk
    exact h.congr rfl hk
  unmerged _ _ h hm := by
    have hk := L.merged h.held
    rw [hm] at hk
    exact h.congr rfl hk
  merged {e s diskOk} envelope _ _ h hm := by
    have hk := L.merged h.held
    rw [hm] at hk
    have h' : Linked L k rev row ((e.note envelope.messageId).merge s envelope) := h.congr rfl hk
    exact h'.persist _ _
  discarded _ h := h.congr rfl (L.discarded h.held)

theorem linked_recovers : Recovers ((unanswered L k).regime (Linked L k rev row))
    (fun st => rev < st.revision ∧ Filed L k rev row st) := by
  intro st rec s conn rs hF hy
  obtain ⟨snap, hsnap, hs⟩ := hy.session
  obtain ⟨snap', hsnap', hk⟩ := hF.2.written hF.1
  obtain rfl := mem_unique hsnap hsnap'
  refine ⟨?_, st, rfl, hF.2⟩
  change L.Holds s.provider k
  rw [KeyLaws.restored hs]
  exact hk

end Engine

/-- The application resumes after crashes, and no Welcome for the package is taken. -/
structure Waits (L : KeyLaws mls) (k : mls.KeyPackage) (i : ι) (w : World mls ι)
    (h : Happening mls ι) : Prop where
  resumes : ∀ launch, h = .start i launch → launch = .resume
  unanswered : ∀ d e p rest, h = .push i d →
    (w.nodes i).process = .running e (.receiving .awaitPairing) →
    (w.conns e.relay).received = p :: rest → (Network.unanswered L k).invites e p.2

/-- A crash comes only after the file has been written beyond the revision. -/
def CrashesWritten (rev : ℕ) (i : ι) (w : World mls ι) (h : Happening mls ι) : Prop :=
  h = .crash i → rev < (w.nodes i).disk.revision

theorem contactLink_keyPackage {rand : ℕ} {link : ContactLink}
    (hlink : (e.contactLink rand).2 = .ok link)
    (hk : (e.session.generateKeyPackage rand).2 = .ok k) :
    link.keyPackage = mls.keyPackageBytes k := by
  unfold ChatEngine.contactLink at hlink
  rcases hg : e.session.generateKeyPackage rand with ⟨s, r⟩
  rw [hg] at hk hlink
  obtain rfl : r = .ok k := hk
  dsimp only at hlink
  split at hlink
  · cases hlink
  · rename_i hnew
    cases hlink
    rw [(ContactLink.new_eq_ok hnew).1]

section Runs
variable {w w' : World mls ι} {i : ι} {h : Happening mls ι}

/-- The device since the link was made. -/
def Carries (L : KeyLaws mls) (k : mls.KeyPackage) (rev : ℕ) (row : Option (SessionSnapshot mls))
    (n : Node mls) : Prop :=
  Lasting ((Network.unanswered L k).regime (Linked L k rev row))
    (fun st => rev < st.revision ∧ Filed L k rev row st) n

theorem Carries.holdsKey {n : Node mls} (hn : Carries L k rev row n) : HoldsKey L k n := by
  unfold HoldsKey
  cases hn with
  | off process file | starting process returning file =>
    rw [process]
    exact file.2.written file.1
  | running process holds =>
    rw [process]
    exact (Surroundings.holds_condition holds).held

variable [DecidableEq ι]

theorem Carries.step (hn : Carries L k rev row (w.nodes i)) (hw : Waits L k i w h)
    (hc : CrashesWritten rev i w h) (hs : w.step c h = some w') :
    Carries L k rev row (w'.nodes i) := by
  refine Lasting.step_condition (linked_stable c L k rev row) linked_recovers ?_
    (fun e pc hp hA hh => ?_) hn hs
  · refine ⟨fun _ _ _ => trivial, fun e pc d _ _ hA => ?_, fun e pc d _ hp hA => ?_,
      fun e p rest d hh hp hr => hw.unanswered d e p rest hh hp hr, fun _ _ _ => trivial,
        hw.resumes⟩
    · have hk := L.newKeyPackage d.rand e.session.identity hA.held
      rw [ChatEngine.contactLink_fst]
      exact hA.congr rfl hk
    · obtain ⟨st, hst, hf⟩ := hA.stored
      have hdisk : (w.nodes i).disk = st := by
        rw [Node.disk, hp]
        simp only [hst, getD_some]
      have h' : Linked L k rev row { e with store := some (w.nodes i).disk } :=
        hA.congr (by rw [hdisk, hst]) hA.held
      exact h'.persist _ _
  · obtain ⟨st, hst, hf⟩ := hA.stored
    have hdisk : (w.nodes i).disk = st := by
      rw [Node.disk, hp]
      simp only [hst, getD_some]
    have hlt := hc hh
    rw [hdisk] at hlt ⊢
    exact ⟨hlt, hf⟩

theorem Carries.written_of_crash (hn : Carries L k rev row (w.nodes i))
    (hnew : ∀ snap, row = some snap → ¬ L.Holds snap.storage k)
    (hkey : ∀ w', w.step c (.crash i) = some w' → HoldsKey L k (w'.nodes i)) :
    rev < (w.nodes i).disk.revision := by
  cases hn with
  | off process file | starting process returning file =>
    rw [Node.disk, process]
    exact file.1
  | @running e pc process holds =>
    obtain ⟨st, hst, hf⟩ := (Surroundings.holds_condition holds).stored
    have hdisk : (w.nodes i).disk = st := by
      rw [Node.disk, process]
      simp only [hst, getD_some]
    have hkey := hkey (w.setNode i { w.nodes i with process := .off, file := (w.nodes i).disk })
      (by simp only [World.step, Happening.node, process, World.stepEngine])
    simp only [HoldsKey, World.setNode, Function.update_self, hdisk] at hkey
    obtain ⟨snap, hsnap, hk⟩ := hkey
    rw [hdisk]
    refine lt_of_le_of_ne hf.le fun heq => hnew snap ?_ hk
    rw [← hf.unwritten heq.symm, hsnap]

theorem run_carries {es : List (Happening mls ι)} (hn : Carries L k rev row (w.nodes i))
    (hw : Along (World.step c) (Waits L k i) w es)
    (hc : Along (World.step c) (CrashesWritten rev i) w es)
    (hrun : run (World.step c) w es = some w') : Carries L k rev row (w'.nodes i) := by
  have hboth : Along (World.step c)
      (fun w h => Waits L k i w h ∧ CrashesWritten rev i w h) w es := by
    rw [along_iff] at hw hc ⊢
    exact fun pre h post u hes hu => ⟨hw pre h post u hes hu, hc pre h post u hes hu⟩
  exact run_invariant_along hn (fun u h v hu hh hs => hu.step hh.1 hh.2 hs) hboth hrun

theorem carries_of_contactLink {st : Store mls} {d : Draw}
    (hp : (w.nodes i).process = .running e .idle) (hst : e.store = some st)
    (hk : (e.session.generateKeyPackage d.rand).2 = .ok k)
    (hs : w.step c (.contactLink i d) = some w') :
    Carries L k st.revision st.session (w'.nodes i) := by
  simp only [World.step, Happening.node, hp] at hs
  cases hs
  have hmade : (mls.newKeyPackage d.rand e.session.provider e.session.identity).2 = .ok k := by
    unfold ChatSession.generateKeyPackage at hk
    cases hm : (mls.newKeyPackage d.rand e.session.provider e.session.identity).2 with
    | error => rw [hm] at hk; cases hk
    | ok => rw [hm] at hk; cases hk; rfl
  have hheld := L.made hmade
  have hlinked : Linked L k st.revision st.session (e.contactLink d.rand).1 := by
    have hfiled : Filed L k st.revision st.session st :=
      ⟨le_rfl, fun _ => rfl, fun hlt => absurd hlt (lt_irrefl _)⟩
    rw [ChatEngine.contactLink_fst]
    exact ⟨hheld, st, hst, hfiled⟩
  refine .running (?_ : _ = Process.running (e.contactLink d.rand).1 .idle) hlinked
  rw [World.install_self]
  rfl

/-- The private half of a link's key package is there after every crash, until a Welcome for it
comes, if and only if every crash comes after a write-through that followed the link. The
link itself makes none. -/
theorem contactLink_survives_iff {e : ChatEngine mls} {st : Store mls} {d : Draw}
    {link : ContactLink} {es : List (Happening mls ι)} (hp : (w.nodes i).process = .running e .idle)
    (hst : e.store = some st) (hlink : (e.contactLink d.rand).2 = .ok link)
    (hk : (e.session.generateKeyPackage d.rand).2 = .ok k)
    (hs : w.step c (.contactLink i d) = some w') (hes : Along (World.step c) (Waits L k i) w' es) :
    link.keyPackage = mls.keyPackageBytes k ∧
    (Along (World.step c) (CrashesWritten st.revision i) w' es →
      ∀ pre post u, es = pre ++ post → run (World.step c) w' pre = some u →
        HoldsKey L k (u.nodes i)) ∧
    ((∀ snap, st.session = some snap → ¬ L.Holds snap.storage k) →
      (∀ pre post u, es = pre ++ post → run (World.step c) w' pre = some u →
        HoldsKey L k (u.nodes i)) →
      Along (World.step c) (CrashesWritten st.revision i) w' es) := by
  have hn : Carries L k st.revision st.session (w'.nodes i) := carries_of_contactLink hp hst hk hs
  refine ⟨contactLink_keyPackage hlink hk, fun hc pre post u hpost hu => ?_, fun hnew hall => ?_⟩
  · subst hpost
    exact (run_carries hn (along_of_append hes) (along_of_append hc) hu).holdsKey
  · rw [along_iff] at hes ⊢
    -- as long as the key is there after every crash so far, the device carries it
    have hcarries : ∀ pre u, run (World.step c) w' pre = some u → ∀ post, es = pre ++ post →
        Carries L k st.revision st.session (u.nodes i) := by
      intro pre u hu
      refine run_induction (fun _ _ => hn) ?_ hu
      intro pre u h v hu ih hv post hpost
      have hpost' : es = pre ++ h :: post := by rw [hpost, List.append_assoc]; rfl
      have hu' := ih (h :: post) hpost'
      refine hu'.step (hes pre h post u hpost' hu) (fun hh => ?_) hv
      subst hh
      refine hu'.written_of_crash (c := c) hnew fun v' hv' => ?_
      refine hall (pre ++ [.crash i]) post v' hpost ?_
      rw [run_snoc, hu]
      exact hv'
    rintro pre h post u hpost hu rfl
    refine (hcarries pre u hu (.crash i :: post) hpost).written_of_crash
      (c := c) hnew fun v' hv' => ?_
    refine hall (pre ++ [.crash i]) post v' (by rw [hpost, List.append_assoc]; rfl) ?_
    rw [run_snoc, hu]
    exact hv'

end Runs

/-- A device whose engine is idle and has a store. -/
def idleAttached (w : World mls ι) (i : ι) : Bool :=
  match (w.nodes i).process with
  | .running e pc => pc = .idle ∧ e.store.isSome
  | _ => false

/-- The file is written after the link, the device crashes, and resumes. -/
def linkKept : List (Happening OpenMls.plain Bool) :=
  [.attachStore false ⟨0, true⟩, .crash false, .start false .resume]

theorem contactLink_survives_iff_linkKept : ∃ w k rev, run (World.step .plain) quietWorld
    (listenerUp ++ [.attachStore false ⟨0, true⟩] ++ [.contactLink false ⟨9, true⟩]) = some w ∧
    Along (World.step .plain) (Waits KeyLaws.plain k false) w linkKept ∧
    (Along (World.step .plain) (CrashesWritten rev false) w linkKept →
      ∀ pre post u, linkKept = pre ++ post → run (World.step .plain) w pre = some u →
        HoldsKey KeyLaws.plain k (u.nodes false)) := by
  obtain ⟨w₀, hw₀, hready⟩ : ∃ w₀, run (World.step .plain) quietWorld
      (listenerUp ++ [.attachStore false ⟨0, true⟩]) = some w₀ ∧ idleAttached w₀ false = true := by
    decide +kernel
  obtain ⟨w, hw⟩ : ∃ w, run (World.step .plain) quietWorld (listenerUp ++
      [.attachStore false ⟨0, true⟩] ++ [.contactLink false ⟨9, true⟩]) = some w := by
    decide +kernel
  have hs := hw
  rw [run_snoc, hw₀] at hs
  unfold idleAttached at hready
  split at hready
  · rename_i e pc hp
    obtain ⟨rfl, hst⟩ := of_decide_eq_true hready
    obtain ⟨st, hst⟩ := isSome_iff_exists.mp hst
    have hwaits : Along (World.step .plain) (Waits KeyLaws.plain (e.session.identity, 9) false) w
        linkKept := by
      refine along_of_forall w fun u h hh => ?_
      simp only [linkKept, List.mem_cons, List.not_mem_nil, or_false] at hh
      rcases hh with rfl | rfl | rfl
      · exact ⟨by rintro _ ⟨⟩, by rintro _ _ _ _ ⟨⟩⟩
      · exact ⟨by rintro _ ⟨⟩, by rintro _ _ _ _ ⟨⟩⟩
      · exact ⟨by rintro _ ⟨⟩; rfl, by rintro _ _ _ _ ⟨⟩⟩
    exact ⟨w, (e.session.identity, 9), st.revision, hw, hwaits,
      (contactLink_survives_iff hp hst rfl rfl hs hwaits).2.1⟩
  · cases hready

/-- The listener attaches its store, shows a link, crashes and resumes. The scanner answers the
link, and the listener takes the answer. -/
def linkLost : List (Happening OpenMls.plain Bool) :=
  listenerUp ++ [.attachStore false ⟨0, true⟩, .contactLink false ⟨9, true⟩, .crash false,
    .start false .resume, .connected false] ++ exchange false 1 (.fill 0) ++ scannerUp 2 ++
    [.call false .awaitPairing ⟨0, true⟩, .deliver 1, .push false ⟨0, true⟩]

/-- The link was shown, its key is gone, and the answer to it is refused. -/
def unanswerable (n : Node OpenMls.plain) : Bool :=
  match n.process with
  | .running e _ => e.session.provider.keys = [] ∧
      n.results.any (fun r => match r with
        | .link (.ok link) => decide (link = shownLink)
        | _ => false) ∧
      n.results.any (fun r => match r with
        | .paired (.error err) => decide (err = .session (.mls "no matching key package"))
        | _ => false)
  | _ => false

theorem contactLink_lost_in_crash : ∃ w, run (World.step .plain) quietWorld linkLost = some w ∧
    Result.link (.ok shownLink) ∈ (w.nodes false).results ∧
    ¬ HoldsKey KeyLaws.plain (7, 9) (w.nodes false) ∧
    Result.paired (.error (.session (.mls "no matching key package"))) ∈
      (w.nodes false).results := by
  obtain ⟨w, hw, hu⟩ : ∃ w, run (World.step .plain) quietWorld linkLost = some w ∧
      unanswerable (w.nodes false) := by decide +kernel
  refine ⟨w, hw, ?_⟩
  unfold unanswerable at hu
  split at hu
  · rename_i e pc hp
    obtain ⟨hkeys, hlink, hrefused⟩ := of_decide_eq_true hu
    obtain ⟨r, hr, hshown⟩ := List.any_eq_true.mp hlink
    obtain ⟨r', hr', herr⟩ := List.any_eq_true.mp hrefused
    refine ⟨?_, ?_, ?_⟩
    · split at hshown
      · rw [← of_decide_eq_true hshown]
        exact hr
      · cases hshown
    · simp only [HoldsKey, hp]
      change (9 : UInt8) ∉ e.session.provider.keys
      rw [hkeys]
      exact List.not_mem_nil
    · split at herr
      · rw [← of_decide_eq_true herr]
        exact hr'
      · cases herr
  · cases hu

end Rosette.Network
