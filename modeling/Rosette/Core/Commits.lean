import Rosette.Core.Session

/-! # What is assumed of OpenMLS about commits

A group state is read through two relations: the commits a member has merged since a
common start, with the one it has built and not merged, and which bytes are a commit
by whom on top of which others. The session wrapper inherits the laws.
-/
namespace Rosette.Core
open Foundation Proto

abbrev Wire := List UInt8

/-- The documented behaviour of OpenMLS around commits, for members named by `κ`. -/
structure CommitLaws (mls : OpenMls) (κ : Type) where
  /-- The member holds this state: commits merged, oldest first, and the pending one. -/
  Stands : κ → mls.Identity → mls.Provider × mls.Group → List Wire → Option Wire → Prop
  /-- The bytes are a commit by the member on top of these. -/
  Commits : κ → List Wire → Wire → Prop
  build : ∀ {i id s merged}, Stands i id s merged none → ∀ rand s' r,
    mls.selfUpdate rand id s = (s', r) → mls.epoch s'.2 = mls.epoch s.2 ∧
      (∀ err, r = .error err → Stands i id s' merged none) ∧
      ∀ wire, r = .ok wire → Stands i id s' merged (some wire) ∧ Commits i merged wire
  /-- One commit at a time. -/
  busy : ∀ {i id s merged wire}, Stands i id s merged (some wire) → ∀ rand,
    ∃ err, mls.selfUpdate rand id s = (s, .error err)
  merge : ∀ {i id s merged wire}, Stands i id s merged (some wire) →
    ∃ s', mls.mergePendingCommit s = (s', .ok ()) ∧ Stands i id s' (merged ++ [wire]) none ∧
      mls.epoch s'.2 = mls.epoch s.2 + 1
  clear : ∀ {i id s merged pending}, Stands i id s merged pending →
    ∃ s', mls.clearPendingCommit s = (s', .ok ()) ∧ Stands i id s' merged none ∧
      mls.epoch s'.2 = mls.epoch s.2
  /-- A commit for the current epoch by another member merges and advances the epoch by one.
  Trailing zeros are ignored. -/
  apply : ∀ {i j id s merged pending wire padded}, Stands i id s merged pending →
    Commits j merged wire → j ≠ i → pad wire = some padded →
    ∃ m s₁ staged s₂, mls.deserialize padded = .ok (.protocol m) ∧
      mls.processMessage s m = (s₁, .ok (.stagedCommit staged)) ∧
      mls.mergeStagedCommit s₁ staged = (s₂, .ok ()) ∧
      Stands i id s₂ (merged ++ [wire]) none ∧ mls.epoch s₂.2 = mls.epoch s.2 + 1
  /-- A commit names its author and what it builds on. -/
  tells : ∀ {i j merged merged' wire wire'}, Commits i merged wire → Commits j merged' wire' →
    pad wire = pad wire' → (pad wire).isSome → i = j ∧ merged = merged'

namespace CommitLaws
variable {mls : OpenMls} {κ : Type} (L : CommitLaws mls κ)

/-- The session of a member: what it has merged, what is pending, and its epoch. -/
def Holds (i : κ) (s : ChatSession mls) (merged : List Wire) (pending : Option Wire)
    (epoch : UInt64) : Prop :=
  ∃ g, s.group = some g ∧ L.Stands i s.identity (s.provider, g) merged pending ∧
    mls.epoch g = epoch

variable {L} {i j : κ} {s s' : ChatSession mls} {merged : List Wire} {pending : Option Wire}
  {epoch : UInt64} {wire : Wire}

theorem Holds.epoch_eq (h : L.Holds i s merged pending epoch) : s.epoch = .ok epoch := by
  obtain ⟨g, hg, -, rfl⟩ := h
  rw [ChatSession.epoch, hg]

theorem withGroup_eq {α : Type} {g : mls.Group} (hg : s.group = some g)
    {f : mls.Provider × mls.Group → (mls.Provider × mls.Group) × Except String α}
    {pg : mls.Provider × mls.Group} {r : Except String α} (hf : f (s.provider, g) = (pg, r)) :
    s.withGroup f = ({ s with provider := pg.1, group := some pg.2 }, r.mapError .mls) := by
  rw [ChatSession.withGroup, hg]
  simp only [hf]

theorem Holds.selfUpdate (h : L.Holds i s merged pending epoch) {rand : ℕ}
    {r : Except SessionError Wire} (hs : s.selfUpdate rand = (s', r)) :
    (∀ err, r = .error err → L.Holds i s' merged pending epoch) ∧
    ∀ wire, r = .ok wire → L.Holds i s' merged (some wire) epoch ∧ L.Commits i merged wire := by
  obtain ⟨g, hg, hst, rfl⟩ := h
  rcases hu : mls.selfUpdate rand s.identity (s.provider, g) with ⟨pg, r'⟩
  rw [ChatSession.selfUpdate, withGroup_eq hg hu] at hs
  cases hs
  cases pending with
  | none =>
    obtain ⟨hep, herr, hok⟩ := L.build hst rand pg r' hu
    refine ⟨fun err he => ?_, fun wire hw => ?_⟩
    · cases r' with
      | error e => exact ⟨pg.2, rfl, herr e rfl, hep⟩
      | ok => cases he
    · cases r' with
      | error => cases hw
      | ok =>
        cases hw
        exact ⟨⟨pg.2, rfl, (hok _ rfl).1, hep⟩, (hok _ rfl).2⟩
  | some =>
    obtain ⟨err, hb⟩ := L.busy hst rand
    rw [hb] at hu
    cases hu
    exact ⟨fun _ _ => ⟨g, rfl, hst, rfl⟩, by rintro wire ⟨⟩⟩

theorem Holds.busy (h : L.Holds i s merged (some wire) epoch) (rand : ℕ) :
    ∃ s' err, s.selfUpdate rand = (s', .error err) := by
  obtain ⟨g, hg, hst, -⟩ := h
  obtain ⟨err, hb⟩ := L.busy hst rand
  exact ⟨_, _, withGroup_eq hg hb⟩

theorem Holds.mergePendingCommit (h : L.Holds i s merged (some wire) epoch) :
    ∃ s', s.mergePendingCommit = (s', .ok ()) ∧
      L.Holds i s' (merged ++ [wire]) none (epoch + 1) := by
  obtain ⟨g, hg, hst, rfl⟩ := h
  obtain ⟨pg, hm, hst', hep⟩ := L.merge hst
  exact ⟨_, withGroup_eq hg hm, pg.2, rfl, hst', hep⟩

theorem Holds.discardPendingCommit (h : L.Holds i s merged pending epoch) :
    ∃ s', s.discardPendingCommit = (s', .ok ()) ∧ L.Holds i s' merged none epoch := by
  obtain ⟨g, hg, hst, rfl⟩ := h
  obtain ⟨pg, hm, hst', hep⟩ := L.clear hst
  exact ⟨_, withGroup_eq hg hm, pg.2, rfl, hst', hep⟩

theorem Holds.processIncoming (h : L.Holds i s merged pending epoch) (hc : L.Commits j merged wire)
    (hj : j ≠ i) {padded : List UInt8} (hp : pad wire = some padded) :
    ∃ s', s.processIncoming padded = (s', .ok .commitApplied) ∧
      L.Holds i s' (merged ++ [wire]) none (epoch + 1) := by
  obtain ⟨g, hg, hst, rfl⟩ := h
  obtain ⟨m, pg₁, staged, pg₂, hd, hproc, hmerge, hst', hep⟩ := L.apply hst hc hj hp
  have h₁ := withGroup_eq hg (f := fun g => mls.processMessage g m) hproc
  have h₂ := withGroup_eq (s := { s with provider := pg₁.1, group := some pg₁.2 }) rfl
    (f := fun g => mls.mergeStagedCommit g staged) hmerge
  refine ⟨{ s with provider := pg₂.1, group := some pg₂.2 }, ?_, pg₂.2, rfl, hst', hep⟩
  rw [ChatSession.processIncoming, hg, hd]
  simp only [h₁, Except.mapError, h₂]

/-- What is assumed beside, where a session meets messages of any kind: a commit can be built
whenever none is pending, reading a message leaves the commits alone, and merging a commit of
anyone advances the epoch by one and leaves none pending. -/
structure AtWork (L : CommitLaws mls κ) : Prop where
  builds : ∀ {i id s merged}, L.Stands i id s merged none → ∀ rand,
    ∃ s' wire, mls.selfUpdate rand id s = (s', .ok wire)
  reads : ∀ {i id s merged pending m s' bytes}, L.Stands i id s merged pending →
    mls.processMessage s m = (s', .ok (.application bytes)) →
    L.Stands i id s' merged pending ∧ mls.epoch s'.2 = mls.epoch s.2
  merges : ∀ {i id s merged pending m s₁ staged s₂}, L.Stands i id s merged pending →
    mls.processMessage s m = (s₁, .ok (.stagedCommit staged)) →
    mls.mergeStagedCommit s₁ staged = (s₂, .ok ()) →
    ∃ merged', L.Stands i id s₂ merged' none ∧ mls.epoch s₂.2 = mls.epoch s.2 + 1

theorem Holds.builds (hL : L.AtWork) (h : L.Holds i s merged none epoch) (rand : ℕ) :
    ∃ s' wire, s.selfUpdate rand = (s', .ok wire) := by
  obtain ⟨g, hg, hst, rfl⟩ := h
  obtain ⟨pg, wire, hb⟩ := hL.builds hst rand
  exact ⟨_, wire, withGroup_eq hg hb⟩

/-- What a session with no commit pending makes of any message it takes in. -/
theorem Holds.incoming (hL : L.AtWork) (h : L.Holds i s merged none epoch) {bytes : List UInt8}
    {r : Incoming} (hs : s.processIncoming bytes = (s', .ok r)) :
    (∀ content, r = .application content → L.Holds i s' merged none epoch) ∧
    (r = .commitApplied → ∃ merged', L.Holds i s' merged' none (epoch + 1)) := by
  obtain ⟨g, hg, hst, rfl⟩ := h
  rw [ChatSession.processIncoming, hg] at hs
  dsimp only at hs
  split at hs
  · cases hs
  · rename_i m hm
    rcases hp : mls.processMessage (s.provider, g) m with ⟨pg, err | r'⟩
    · rw [withGroup_eq hg hp] at hs
      cases hs
    · rw [withGroup_eq hg hp] at hs
      cases r' with
      | application =>
        cases hs
        obtain ⟨hst', hep⟩ := hL.reads hst hp
        exact ⟨fun _ _ => ⟨pg.2, rfl, hst', hep⟩, by rintro ⟨⟩⟩
      | stagedCommit staged =>
        simp only [Except.mapError] at hs
        rcases hm : mls.mergeStagedCommit pg staged with ⟨pg', err | _⟩
        · rw [withGroup_eq rfl hm] at hs
          cases hs
        · rw [withGroup_eq rfl hm] at hs
          cases hs
          obtain ⟨merged', hst', hep⟩ := hL.merges hst hp hm
          exact ⟨by rintro _ ⟨⟩, fun _ => ⟨merged', pg'.2, rfl, hst', hep⟩⟩
      | other => cases hs
  · cases hs

end CommitLaws
end Rosette.Core
