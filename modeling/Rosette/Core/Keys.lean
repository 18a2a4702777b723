import Rosette.Core.Plain

/-! # What is assumed of OpenMLS about key packages

Generating a key package leaves its private half in the provider's storage. It stays
there until a Welcome for the package comes in. The session wrapper inherits this.
-/
namespace Rosette.Core
open Foundation Proto

structure KeyLaws (mls : OpenMls) where
  /-- The storage has the private half. -/
  Holds : mls.Provider → mls.KeyPackage → Prop
  /-- The Welcome is for the package. -/
  For : mls.Welcome → mls.KeyPackage → Prop
  made : ∀ {rand p me k}, (mls.newKeyPackage rand p me).2 = .ok k →
    Holds (mls.newKeyPackage rand p me).1 k
  newKeyPackage : ∀ {p k} rand me, Holds p k → Holds (mls.newKeyPackage rand p me).1 k
  joinGroup : ∀ {p k w} tree, ¬ For w k → Holds p k → Holds (mls.joinGroup p w tree).1 k
  selfUpdate : ∀ {s k} rand me, Holds s.1 k → Holds (mls.selfUpdate rand me s).1.1 k
  mergePendingCommit : ∀ {s k}, Holds s.1 k → Holds (mls.mergePendingCommit s).1.1 k
  clearPendingCommit : ∀ {s k}, Holds s.1 k → Holds (mls.clearPendingCommit s).1.1 k
  createMessage : ∀ {s k} rand me plaintext, Holds s.1 k →
    Holds (mls.createMessage rand me s plaintext).1.1 k
  processMessage : ∀ {s k} m, Holds s.1 k → Holds (mls.processMessage s m).1.1 k
  mergeStagedCommit : ∀ {s k} staged, Holds s.1 k → Holds (mls.mergeStagedCommit s staged).1.1 k

namespace KeyLaws
variable {mls : OpenMls} (L : KeyLaws mls) {s s' : ChatSession mls} {k : mls.KeyPackage}

theorem withGroup {α : Type} (h : L.Holds s.provider k)
    {f : mls.Provider × mls.Group → (mls.Provider × mls.Group) × Except String α}
    (hf : ∀ g, L.Holds (f (s.provider, g)).1.1 k) : L.Holds (s.withGroup f).1.provider k := by
  unfold ChatSession.withGroup
  split
  · exact h
  · exact hf _

theorem restored {snap : SessionSnapshot mls} (h : ChatSession.restore snap = .ok s) :
    s.provider = snap.storage := by
  unfold ChatSession.restore at h
  split at h
  · cases h
    rfl
  · split at h
    · cases h
    · cases h
    · cases h
      rfl

variable (h : L.Holds s.provider k)
include h

theorem encrypted (rand : ℕ) (plaintext : List UInt8) :
    L.Holds (s.encryptApplication rand plaintext).1.provider k :=
  L.withGroup h fun _ => L.createMessage rand _ plaintext h

theorem updated (rand : ℕ) : L.Holds (s.selfUpdate rand).1.provider k :=
  L.withGroup h fun _ => L.selfUpdate rand _ h

theorem merged : L.Holds s.mergePendingCommit.1.provider k :=
  L.withGroup h fun _ => L.mergePendingCommit h

theorem discarded : L.Holds s.discardPendingCommit.1.provider k :=
  L.withGroup h fun _ => L.clearPendingCommit h

theorem processed (bytes : List UInt8) :
    L.Holds (s.processIncoming bytes).1.provider k := by
  unfold ChatSession.processIncoming
  split
  · exact h
  · split
    · exact h
    · rename_i m _
      have hm : L.Holds (s.withGroup (fun g => mls.processMessage g m)).1.provider k :=
        L.withGroup h fun _ => L.processMessage m h
      split
      · rename_i heq
        rw [heq] at hm
        exact hm
      · rename_i heq
        rw [heq] at hm
        exact hm
      · rename_i s₁ staged heq
        rw [heq] at hm
        have hm' : L.Holds (s₁.withGroup (fun g => mls.mergeStagedCommit g staged)).1.provider k :=
          L.withGroup hm fun _ => L.mergeStagedCommit staged hm
        split
        · rename_i heq'
          rw [heq'] at hm'
          exact hm'
        · rename_i heq'
          rw [heq'] at hm'
          exact hm'
      · rename_i heq
        rw [heq] at hm
        exact hm
    · exact h

theorem joined {welcomeWire : List UInt8} (treeWire : List UInt8)
    (hfor : ∀ w, mls.deserialize welcomeWire = .ok (.welcome w) → ¬ L.For w k) :
    L.Holds (s.joinFromWelcome welcomeWire treeWire).1.provider k := by
  unfold ChatSession.joinFromWelcome
  split
  · exact h
  · rename_i w hw
    split
    · exact h
    · rename_i tree _
      have hj := L.joinGroup tree (hfor w hw) h
      split
      · rename_i heq
        rw [heq] at hj
        exact hj
      · rename_i heq
        rw [heq] at hj
        exact hj
  · exact h

end KeyLaws

def KeyLaws.plain : KeyLaws OpenMls.plain where
  Holds p k := k.2 ∈ p.keys
  For w k := w.key = k.2
  made h := by
    cases h
    exact List.mem_cons_self
  newKeyPackage _ _ h := List.mem_cons_of_mem _ h
  joinGroup {p k w} tree hfor h := by
    change k.2 ∈ (plainJoin p w).1.keys
    unfold plainJoin
    split_ifs
    · exact (List.mem_erase_of_ne (Ne.symm hfor)).mpr h
    · exact h
  selfUpdate {s k} _ _ h := by
    change k.2 ∈ (plainSelfUpdate s).1.1.keys
    unfold plainSelfUpdate
    split_ifs <;> exact h
  mergePendingCommit {s k} h := by
    change k.2 ∈ (plainMergePending s).1.1.keys
    unfold plainMergePending
    split_ifs <;> exact h
  clearPendingCommit h := h
  createMessage {s k} _ _ plaintext h := by
    change k.2 ∈ (plainCreateMessage s plaintext).1.1.keys
    unfold plainCreateMessage
    split_ifs <;> exact h
  processMessage {s k} m h := by
    change k.2 ∈ (plainProcess s m).1.1.keys
    unfold plainProcess
    split_ifs
    · unfold plainCommit
      split
      · exact h
      · split_ifs <;> exact h
    · unfold plainMessage
      split
      · split_ifs <;> exact h
      · exact h
  mergeStagedCommit _ h := h

end Rosette.Core
