import Rosette.Proto.Wire

/-! # The relay's identity file

A relay makes its certificate and key once and keeps them in one file; clients pin the hash of the
certificate. A write that fails may leave any beginning of the file behind.
-/
namespace Rosette.Relay
open Foundation Proto Codec List

structure RelayIdentity where
  certDer : List UInt8
  keyDer : List UInt8
  fingerprint : Bytes 32
deriving DecidableEq

/-- A start of the relay: whether the file can be read, what would be generated, and how much of
it reaches the file. Without a length the write goes through. -/
structure Start where
  readable : Bool
  certDer : List UInt8
  keyDer : List UInt8
  torn : Option ℕ

namespace RelayIdentity
variable (c : Crypto)

def fingerprintOf (certDer : List UInt8) : Bytes 32 := c.sha256 certDer

def generate (certDer keyDer : List UInt8) : RelayIdentity :=
  ⟨certDer, keyDer, fingerprintOf c certDer⟩

def toFileBytes (i : RelayIdentity) : List UInt8 :=
  leBytes 4 (i.certDer.length % 2 ^ 32) ++ (i.certDer ++ i.keyDer)

def fromFileBytes (bytes : List UInt8) : Option RelayIdentity :=
  let certLen := leValue (bytes.take 4)
  let rest := bytes.drop 4
  -- the key is whatever follows, and is not looked into
  if bytes.length < 4 ∨ rest.length < certLen ∨ rest.drop certLen = [] then none
  else some (generate c (rest.take certLen) (rest.drop certLen))

/-- The file afterwards, and the identity the relay comes up with. -/
def loadOrCreate (file : Option (List UInt8)) (s : Start) :
    Option (List UInt8) × Option RelayIdentity :=
  if s.readable then
    match file with
    | some bytes => (some bytes, fromFileBytes c bytes)
    | none =>
      let identity := generate c s.certDer s.keyDer
      match s.torn with
      | none => (some identity.toFileBytes, some identity)
      | some n => (some (identity.toFileBytes.take n), none)
  else (file, none)

/-- What a relay that is started time after time comes up with. -/
def restarts : Option (List UInt8) → List Start → List (Option RelayIdentity)
  | _, [] => []
  | file, s :: rest => (loadOrCreate c file s).2 :: restarts (loadOrCreate c file s).1 rest

variable {c} {certDer keyDer bytes : List UInt8} {i j : RelayIdentity} {starts : List Start}

theorem fromFileBytes_toFileBytes (hcert : certDer.length < 2 ^ 32) (hkey : keyDer ≠ []) :
    fromFileBytes c (generate c certDer keyDer).toFileBytes = some (generate c certDer keyDer) := by
  have hlen : leValue (leBytes 4 certDer.length) = certDer.length := leValue_leBytes 4 _ hcert
  have htake : (generate c certDer keyDer).toFileBytes.take 4 = leBytes 4 certDer.length := by
    rw [toFileBytes, generate, Nat.mod_eq_of_lt hcert, take_left' (leBytes_length 4 _)]
  have hdrop : (generate c certDer keyDer).toFileBytes.drop 4 = certDer ++ keyDer := by
    rw [toFileBytes, generate, drop_left' (leBytes_length 4 _)]
  rw [fromFileBytes, htake, hlen]
  simp [toFileBytes, generate, hkey]

theorem toFileBytes_fromFileBytes (h : fromFileBytes c bytes = some i) :
    i.toFileBytes = bytes ∧ i = generate c i.certDer i.keyDer := by
  rw [fromFileBytes, Option.ite_none_left_eq_some] at h
  obtain ⟨hfits, h⟩ := h
  obtain ⟨hlen, hcert, -⟩ : 4 ≤ bytes.length ∧ leValue (bytes.take 4) ≤ (bytes.drop 4).length ∧
      (bytes.drop 4).drop (leValue (bytes.take 4)) ≠ [] := by
    simpa only [not_or, not_lt] using hfits
  cases h
  have hfour : (bytes.take 4).length = 4 := by simpa using hlen
  have hlt : leValue (bytes.take 4) < 2 ^ 32 := by simpa [hfour] using leValue_lt (bytes.take 4)
  refine ⟨?_, rfl⟩
  rw [toFileBytes, generate, length_take, min_eq_left hcert, Nat.mod_eq_of_lt hlt, take_append_drop]
  have hback := leBytes_leValue (bytes.take 4)
  rw [hfour] at hback
  rw [hback, take_append_drop]

theorem of_mem_restarts (h : some i ∈ restarts c (some bytes) starts) :
    fromFileBytes c bytes = some i := by
  induction starts with
  | nil => cases h
  | cons s rest ih =>
    have hfile : (loadOrCreate c (some bytes) s).1 = some bytes := by
      unfold loadOrCreate
      split_ifs <;> rfl
    rw [restarts, hfile] at h
    rcases mem_cons.mp h with h | h
    · unfold loadOrCreate at h
      split_ifs at h
      exact h.symm
    · exact ih h

/-- All that a row of starts comes up with is read from one file. -/
theorem exists_file (hcert : ∀ s ∈ starts, s.certDer.length < 2 ^ 32)
    (hkey : ∀ s ∈ starts, s.keyDer ≠ []) (file : Option (List UInt8)) :
    ∃ bytes, ∀ i, some i ∈ restarts c file starts → fromFileBytes c bytes = some i := by
  cases file with
  | some bytes => exact ⟨bytes, fun i hi => of_mem_restarts hi⟩
  | none =>
    induction starts with
    | nil => exact ⟨[], nofun⟩
    | cons s rest ih =>
      obtain ⟨hcert₀, hcert⟩ := forall_mem_cons.mp hcert
      obtain ⟨hkey₀, hkey⟩ := forall_mem_cons.mp hkey
      rw [restarts, loadOrCreate]
      split_ifs
      · cases s.torn with
        | none =>
          refine ⟨(generate c s.certDer s.keyDer).toFileBytes, fun i hi => ?_⟩
          rcases mem_cons.mp hi with hi | hi
          · rw [Option.some.inj hi]
            exact fromFileBytes_toFileBytes hcert₀ hkey₀
          · exact of_mem_restarts hi
        | some n => exact ⟨_, fun i hi => of_mem_restarts ((mem_cons.mp hi).resolve_left nofun)⟩
      · obtain ⟨bytes, hbytes⟩ := ih hcert hkey
        exact ⟨bytes, fun i hi => hbytes i ((mem_cons.mp hi).resolve_left nofun)⟩

/-- Whatever becomes of single reads and writes, all starts that come up present one identity,
with the fingerprint of its certificate, and it is read back from the bytes it is written as. -/
theorem identity_survives_restarts (c : Crypto) (file : Option (List UInt8)) (starts : List Start)
    (hcert : ∀ s ∈ starts, s.certDer.length < 2 ^ 32) (hkey : ∀ s ∈ starts, s.keyDer ≠ []) :
    ∀ i, some i ∈ restarts c file starts → fromFileBytes c i.toFileBytes = some i ∧
      i.fingerprint = fingerprintOf c i.certDer ∧
      ∀ j, some j ∈ restarts c file starts → j = i := by
  obtain ⟨bytes, hbytes⟩ := exists_file hcert hkey file
  intro i hi
  obtain ⟨hwritten, hmade⟩ := toFileBytes_fromFileBytes (hbytes i hi)
  refine ⟨hwritten ▸ hbytes i hi, congrArg fingerprint hmade, fun j hj => ?_⟩
  exact Option.mem_unique (hbytes j hj) (hbytes i hi)

theorem identity_survives_restarts_twice :
    some (generate .plain [1] [2]) ∈
      restarts .plain none [⟨true, [1], [2], none⟩, ⟨true, [3], [4], none⟩] ∧
    ¬ some (generate .plain [3] [4]) ∈
      restarts .plain none [⟨true, [1], [2], none⟩, ⟨true, [3], [4], none⟩] := by
  refine ⟨mem_cons_self .., fun hother => ?_⟩
  have hsame := (identity_survives_restarts .plain none _ (by simp) (by simp) _
    (mem_cons_self ..)).2.2 _ hother
  exact absurd hsame (by decide)

-- a write that is torn inside the key is not noticed
example : restarts .plain none [⟨true, [1], [2, 3], some 6⟩, ⟨true, [4], [5], none⟩] =
    [none, some (generate .plain [1] [2])] := by decide

end RelayIdentity
end Rosette.Relay
