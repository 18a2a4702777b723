import Rosette.Core.Commits

/-! # What is assumed of OpenMLS about application messages

One member of a group at one epoch. It is handed messages of the others and builds
messages of its own. A message that comes after all those handed over before is read;
one that comes too late may be read or refused.
-/
namespace Rosette.Core
open Foundation Proto

/-- The documented behaviour of OpenMLS around application messages, for one member. -/
structure ReadLaws (mls : OpenMls) where
  /-- The member has been handed these padded messages and has built these wires. -/
  Stands : mls.Identity → mls.Provider × mls.Group → List (List UInt8) → List Wire → Prop
  /-- The bytes are the message of another member whose turn it is after those. -/
  Follows : List (List UInt8) → List UInt8 → Prop
  /-- The bytes are a message of another member whose turn has passed. -/
  Late : List (List UInt8) → List UInt8 → Prop
  /-- What a message says. -/
  content : List UInt8 → List UInt8
  read : ∀ {id s past sent bytes}, Stands id s past sent → Follows past bytes →
    ∃ m s', mls.deserialize bytes = .ok (.protocol m) ∧
      mls.processMessage s m = (s', .ok (.application (content bytes))) ∧
      Stands id s' (past ++ [bytes]) sent
  late : ∀ {id s past sent bytes}, Stands id s past sent → Late past bytes →
    ∃ m s' r, mls.deserialize bytes = .ok (.protocol m) ∧ mls.processMessage s m = (s', r) ∧
      Stands id s' (past ++ [bytes]) sent ∧
      ((∃ err, r = .error err) ∨ r = .ok (.application (content bytes)))
  create : ∀ {id s past sent}, Stands id s past sent → ∀ rand plaintext s' r,
    mls.createMessage rand id s plaintext = (s', r) →
      (∀ err, r = .error err → Stands id s' past sent) ∧
      ∀ wire, r = .ok wire → Stands id s' past (sent ++ [wire]) ∧
        ∀ bytes, pad wire = some bytes → content bytes = plaintext
  /-- Key packages are none of the group's business. -/
  newKeyPackage : ∀ {id p g past sent}, Stands id (p, g) past sent → ∀ rand,
    Stands id ((mls.newKeyPackage rand p id).1, g) past sent

namespace ReadLaws
variable {mls : OpenMls} (L : ReadLaws mls)

/-- The session of a member: what it was handed, and what it built. -/
def Holds (s : ChatSession mls) (past : List (List UInt8)) (sent : List Wire) : Prop :=
  ∃ g, s.group = some g ∧ L.Stands s.identity (s.provider, g) past sent

variable {L} {s s' : ChatSession mls} {past : List (List UInt8)} {sent : List Wire}
  {bytes : List UInt8}

theorem Holds.read (h : L.Holds s past sent) (hf : L.Follows past bytes) :
    ∃ s', s.processIncoming bytes = (s', .ok (.application (L.content bytes))) ∧
      L.Holds s' (past ++ [bytes]) sent := by
  obtain ⟨g, hg, hst⟩ := h
  obtain ⟨m, pg, hd, hp, hst'⟩ := L.read hst hf
  have hw := CommitLaws.withGroup_eq hg (f := fun g => mls.processMessage g m) hp
  refine ⟨{ s with provider := pg.1, group := some pg.2 }, ?_, pg.2, rfl, hst'⟩
  rw [ChatSession.processIncoming, hg, hd]
  simp only [hw, Except.mapError]

theorem Holds.late (h : L.Holds s past sent) (hl : L.Late past bytes) :
    ∃ s' r, s.processIncoming bytes = (s', r) ∧ L.Holds s' (past ++ [bytes]) sent ∧
      ((∃ err, r = .error err) ∨ r = .ok (.application (L.content bytes))) := by
  obtain ⟨g, hg, hst⟩ := h
  obtain ⟨m, pg, r, hd, hp, hst', hr⟩ := L.late hst hl
  have hw := CommitLaws.withGroup_eq hg (f := fun g => mls.processMessage g m) hp
  rcases hr with ⟨err, rfl⟩ | rfl
  · refine ⟨{ s with provider := pg.1, group := some pg.2 }, .error (.mls err), ?_,
      ⟨pg.2, rfl, hst'⟩, .inl ⟨_, rfl⟩⟩
    rw [ChatSession.processIncoming, hg, hd]
    simp only [hw, Except.mapError]
  · refine ⟨{ s with provider := pg.1, group := some pg.2 }, .ok (.application (L.content bytes)),
      ?_, ⟨pg.2, rfl, hst'⟩, .inr rfl⟩
    rw [ChatSession.processIncoming, hg, hd]
    simp only [hw, Except.mapError]

theorem Holds.encryptApplication (h : L.Holds s past sent) {rand : ℕ} {plaintext : List UInt8}
    {r : Except SessionError Wire} (hs : s.encryptApplication rand plaintext = (s', r)) :
    (∀ err, r = .error err → L.Holds s' past sent) ∧
    ∀ wire, r = .ok wire → L.Holds s' past (sent ++ [wire]) ∧
      ∀ bytes, pad wire = some bytes → L.content bytes = plaintext := by
  obtain ⟨g, hg, hst⟩ := h
  rcases hc : mls.createMessage rand s.identity (s.provider, g) plaintext with ⟨pg, r'⟩
  have hw := CommitLaws.withGroup_eq hg
    (f := fun g => mls.createMessage rand s.identity g plaintext) hc
  rw [ChatSession.encryptApplication, hw] at hs
  cases hs
  obtain ⟨herr, hok⟩ := L.create hst rand plaintext pg r' hc
  cases r' with
  | error err => exact ⟨fun _ _ => ⟨pg.2, rfl, herr err rfl⟩, by rintro wire ⟨⟩⟩
  | ok wire =>
    refine ⟨by rintro err ⟨⟩, ?_⟩
    rintro _ ⟨⟩
    exact ⟨⟨pg.2, rfl, (hok wire rfl).1⟩, (hok wire rfl).2⟩

theorem Holds.generateKeyPackage (h : L.Holds s past sent) (rand : ℕ) :
    L.Holds (s.generateKeyPackage rand).1 past sent := by
  obtain ⟨g, hg, hst⟩ := h
  exact ⟨g, hg, L.newKeyPackage hst rand⟩

end ReadLaws
end Rosette.Core
