import Rosette.Core.Plain

/-! # The members of a stored group

The safety number is computed from the signature keys of the members. What OpenMLS keeps in its
storage is the group it works on, so a session that is written and restored has the same
members; only a commit or a new group can change them.
-/
namespace Rosette.Core
open Foundation Proto Option

/-- The signature keys of a group's members, and what OpenMLS does with them. -/
structure MemberLaws (mls : OpenMls) (K : Type) where
  keys : mls.Group → K
  /-- Under the id of the group, storage has one with the same members. -/
  Saved : mls.Provider × mls.Group → Prop
  saved : ∀ {p g}, Saved (p, g) → ∃ g', mls.load p (mls.groupId g) = .ok (some g') ∧
    keys g' = keys g
  loaded : ∀ {p gid g}, mls.load p gid = .ok (some g) → Saved (p, g)
  newKeyPackage : ∀ {p g} rand me, Saved (p, g) → Saved ((mls.newKeyPackage rand p me).1, g)
  newGroup : ∀ {rand p me p' g}, mls.newGroup rand p me = (p', .ok g) → Saved (p', g)
  addMembers : ∀ {s} rand me packages, Saved s → Saved (mls.addMembers rand me s packages).1
  joinGroup : ∀ {p w tree p' g}, mls.joinGroup p w tree = (p', .ok g) → Saved (p', g)
  mergePendingCommit : ∀ {s}, Saved s → Saved (mls.mergePendingCommit s).1
  /-- A message of one's own concerns no member. -/
  createMessage : ∀ {s} rand me plaintext, Saved s →
    Saved (mls.createMessage rand me s plaintext).1 ∧
      keys (mls.createMessage rand me s plaintext).1.2 = keys s.2
  processMessage : ∀ {s} m, Saved s → Saved (mls.processMessage s m).1
  mergeStagedCommit : ∀ {s} staged, Saved s → Saved (mls.mergeStagedCommit s staged).1

namespace MemberLaws
variable {mls : OpenMls} {K : Type} (L : MemberLaws mls K) {s s' : ChatSession mls}

def of (s : ChatSession mls) : Option K := s.group.map L.keys

def InStore (s : ChatSession mls) : Prop := ∀ g, s.group = some g → L.Saved (s.provider, g)

/-- The keys of the session that is restored from a snapshot. -/
def ofSnapshot (snap : SessionSnapshot mls) : Option K :=
  match ChatSession.restore snap with
  | .ok s => L.of s
  | .error _ => none

variable {L} {α : Type} {rand : ℕ} {k : K}

theorem inStore_withGroup (h : L.InStore s)
    {f : mls.Provider × mls.Group → (mls.Provider × mls.Group) × Except String α}
    (hf : ∀ x, L.Saved x → L.Saved (f x).1) : L.InStore (s.withGroup f).1 := by
  unfold ChatSession.withGroup
  split
  · exact h
  · rename_i g hg
    rintro _ ⟨⟩
    exact hf _ (h g hg)

theorem inStore_processIncoming (h : L.InStore s) (bytes : List UInt8) :
    L.InStore (s.processIncoming bytes).1 := by
  unfold ChatSession.processIncoming
  split
  · exact h
  · split
    · exact h
    · rename_i m hm
      have hp := inStore_withGroup h fun x hx =>
        L.processMessage m hx
      split
      · rename_i hr
        rwa [hr] at hp
      · rename_i hr
        rwa [hr] at hp
      · rename_i s₁ staged hr
        rw [hr] at hp
        have hs := inStore_withGroup hp fun x hx =>
          L.mergeStagedCommit staged hx
        split
        · rename_i hq
          rwa [hq] at hs
        · rename_i hq
          rwa [hq] at hs
      · rename_i hr
        rwa [hr] at hp
    · exact h

theorem inStore_encryptApplication (h : L.InStore s) (rand : ℕ) (plaintext : List UInt8) :
    L.InStore (s.encryptApplication rand plaintext).1 :=
  inStore_withGroup h fun _ hx => (L.createMessage rand s.identity plaintext hx).1

theorem of_encryptApplication (h : L.InStore s) (rand : ℕ) (plaintext : List UInt8) :
    L.of (s.encryptApplication rand plaintext).1 = L.of s := by
  unfold ChatSession.encryptApplication ChatSession.withGroup
  split
  · rfl
  · rename_i g hg
    rw [of, of, hg]
    exact congrArg some (L.createMessage rand s.identity plaintext (h g hg)).2

theorem inStore_generateKeyPackage (h : L.InStore s) (rand : ℕ) :
    L.InStore (s.generateKeyPackage rand).1 :=
  fun g hg => L.newKeyPackage rand s.identity (h g hg)

theorem joined {welcomeWire treeWire : List UInt8}
    (hj : s.joinFromWelcome welcomeWire treeWire = (s', .ok ())) :
    (∃ k, L.of s' = some k) ∧ L.InStore s' := by
  unfold ChatSession.joinFromWelcome at hj
  split at hj
  · cases hj
  · split at hj
    · cases hj
    · split at hj
      · cases hj
      · rename_i p g hg
        cases hj
        refine ⟨⟨L.keys g, rfl⟩, ?_⟩
        rintro _ ⟨⟩
        exact L.joinGroup hg
  · cases hj

theorem inStore_createGroup (hc : s.createGroup rand = (s', .ok ())) :
    (∃ k, L.of s' = some k) ∧ L.InStore s' := by
  unfold ChatSession.createGroup at hc
  split at hc
  · cases hc
  · rename_i p g hg
    cases hc
    refine ⟨⟨L.keys g, rfl⟩, ?_⟩
    rintro _ ⟨⟩
    exact L.newGroup hg

theorem of_withGroup (h : L.of s = some k)
    (f : mls.Provider × mls.Group → (mls.Provider × mls.Group) × Except String α) :
    ∃ k', L.of (s.withGroup f).1 = some k' := by
  obtain ⟨g, hg, -⟩ := map_eq_some_iff.mp h
  rw [ChatSession.withGroup, hg]
  exact ⟨_, rfl⟩

theorem added {packages : List mls.KeyPackage} {welcome : List UInt8} (hk : L.of s = some k)
    (h : L.InStore s) (ha : s.addMembers rand packages = (s', .ok welcome)) :
    (∃ k, L.of s' = some k) ∧ L.InStore s' := by
  have hadd := inStore_withGroup h
    fun x hx => L.addMembers rand s.identity packages hx
  obtain ⟨k₁, hk₁⟩ := of_withGroup hk fun g => mls.addMembers rand s.identity g packages
  unfold ChatSession.addMembers at ha
  split at ha
  · cases ha
  · rename_i s₁ welcome' hs₁
    rw [hs₁] at hadd hk₁
    have hmerge := inStore_withGroup hadd fun x hx =>
      L.mergePendingCommit hx
    obtain ⟨k₂, hk₂⟩ := of_withGroup hk₁ mls.mergePendingCommit
    split at ha
    · cases ha
    · rename_i hs₂
      cases ha
      rw [ChatSession.mergePendingCommit] at hs₂
      rw [hs₂] at hmerge hk₂
      exact ⟨⟨k₂, hk₂⟩, hmerge⟩

theorem inStore_restore {snap : SessionSnapshot mls} (hr : ChatSession.restore snap = .ok s) :
    L.InStore s := by
  unfold ChatSession.restore at hr
  split at hr
  · cases hr
    rintro _ ⟨⟩
  · split at hr
    · cases hr
    · cases hr
    · rename_i g hg
      cases hr
      rintro _ ⟨⟩
      exact L.loaded hg

theorem ofSnapshot_snapshot (h : L.InStore s) (hk : L.of s = some k) :
    L.ofSnapshot s.snapshot = some k := by
  obtain ⟨g, hg, rfl⟩ := map_eq_some_iff.mp hk
  obtain ⟨g', hload, hkeys⟩ := L.saved (h g hg)
  have hrestore : ChatSession.restore s.snapshot = .ok ⟨s.provider, s.identity, some g'⟩ := by
    simp only [ChatSession.restore, ChatSession.snapshot, hg, map_some, hload]
  simp only [ofSnapshot, hrestore, of, map_some, hkeys]

end MemberLaws

/-- In the stand-in a member knows itself and the founder of the group. -/
def MemberLaws.plain : MemberLaws OpenMls.plain (UInt8 × Option UInt8) where
  keys g := (PlainGroup.me g, (PlainGroup.history g).head?)
  Saved s := PlainStorage.group s.1 = some s.2
  saved h := ⟨_, congrArg Except.ok h, rfl⟩
  loaded h := Except.ok.inj h
  newKeyPackage _ _ h := h
  newGroup h := by
    cases h
    rfl
  addMembers {s} _ _ packages h := by
    change PlainStorage.group (plainAddMembers s packages).1.1 =
        some (plainAddMembers s packages).1.2
    rcases packages with _ | ⟨package, _ | ⟨other, rest⟩⟩
    · exact h
    · rfl
    · exact h
  joinGroup {p w tree p' g} h := by
    change plainJoin p w = (p', .ok g) at h
    unfold plainJoin at h
    split at h
    · cases h
      rfl
    · cases h
  mergePendingCommit {s} h := by
    change PlainStorage.group (plainMergePending s).1.1 = some (plainMergePending s).1.2
    unfold plainMergePending
    split_ifs
    · rfl
    · exact h
  createMessage {s} _ _ plaintext h := by
    change PlainStorage.group (plainCreateMessage s plaintext).1.1 =
        some (plainCreateMessage s plaintext).1.2 ∧
      (PlainGroup.me (plainCreateMessage s plaintext).1.2,
        (PlainGroup.history (plainCreateMessage s plaintext).1.2).head?) = _
    unfold plainCreateMessage
    split_ifs
    · exact ⟨rfl, rfl⟩
    · exact ⟨h, rfl⟩
  processMessage {s} m h := by
    change PlainStorage.group (plainProcess s m).1.1 = some (plainProcess s m).1.2
    unfold plainProcess plainCommit plainMessage
    repeat' split
    all_goals first | rfl | exact h
  mergeStagedCommit _ _ := rfl

end Rosette.Core
