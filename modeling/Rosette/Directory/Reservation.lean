import Rosette.Directory.Handles

/-! # Whose a handle is

An erasure keeps the handle in the row it scrubs, so an erased account still holds it. A
second claim overwrites it: the old slot is then free like any other, and since a claim
takes the first free one, the next newcomer under the nickname is given it.
-/
namespace Rosette.Directory
open Function

/-- A claim by the user that goes through. -/
def HandleOp.moves (userId : UserId) (db : Database) : HandleOp → Bool
  | .claim id nickname =>
    match db.claimUsername id nickname with
    | .ok (.ok _, _) => id == userId
    | _ => false
  | _ => false

def settled (userId : UserId) : Database → List HandleOp → Bool
  | _, [] => true
  | db, op :: ops => !op.moves userId db && settled userId (handleStep db op) ops

variable {db : Database} {userId : UserId} {handle : Text × ℕ}

/-- Whatever is done, a user who does not claim again keeps their handle. -/
theorem handleRow_step {op : HandleOp} (h : db.handleRow userId = some handle)
    (hop : op.moves userId db = false) : (handleStep db op).handleRow userId = some handle := by
  obtain ⟨r, hr, hh⟩ := Option.bind_eq_some_iff.mp h
  cases op with
  | signup phoneHash =>
    rw [handleStep]
    cases hl : db.users.liveWith phoneHash with
    | some =>
      rw [Database.findOrCreatePendingUser_found hl]
      exact h
    | none =>
      have hne : userId ≠ db.users.next := by
        rintro rfl
        simp [db.users.unassigned _ le_rfl] at hr
      rw [Database.findOrCreatePendingUser_created hl, Database.handleRow, Users.insert_row,
        update_of_ne hne, hr]
      exact hh
  | claim id nickname =>
    rw [handleStep]
    cases hc : db.claimUsername id nickname with
    | error => exact h
    | ok p =>
      obtain ⟨outcome, db'⟩ := p
      rcases Database.claimUsername_cases hc with ⟨-, rfl⟩ | ⟨slot, width, rfl, hclaimed⟩
      · exact h
      · have hne : userId ≠ id := by
          rintro rfl
          simp [HandleOp.moves, hc] at hop
        rw [Database.handleRow, hclaimed.rows, update_of_ne hne, hr]
        exact hh
  | erase =>
    simp only [handleStep, Database.eraseUser, Database.handleRow, Users.modify_row, update_apply]
    split_ifs with hid
    · subst hid
      rw [hr]
      exact hh
    · exact h

theorem handleRow_settled {ops : List HandleOp} (h : db.handleRow userId = some handle)
    (hops : settled userId db ops = true) :
    (ops.foldl handleStep db).handleRow userId = some handle := by
  induction ops generalizing db with
  | nil => exact h
  | cons op ops ih =>
    rw [settled, Bool.and_eq_true, Bool.not_eq_true'] at hops
    exact ih (handleRow_step h hops.1) hops.2

/-- After any operations, a handle is still its holder's and nobody else's, as long as no
further claim of that holder has gone through. -/
theorem handle_stays_with_holder (before after : List HandleOp) (userId : UserId)
    (handle : Text × ℕ) (hheld : (handleRun before).handleRow userId = some handle)
    (hsettled : settled userId (handleRun before) after = true) (id : UserId) :
    (handleRun (before ++ after)).handleRow id = some handle ↔ id = userId := by
  have hkept : (handleRun (before ++ after)).handleRow userId = some handle := by
    rw [handleRun, List.foldl_append]
    exact handleRow_settled hheld hsettled
  constructor
  · intro hid
    obtain ⟨r, hr, hh⟩ := Option.bind_eq_some_iff.mp hid
    obtain ⟨s, hs, hh'⟩ := Option.bind_eq_some_iff.mp hkept
    exact (Handles.run (before ++ after)).unique id userId r s handle hr hs hh hh'
  · rintro rfl
    exact hkept

def nick : Text := ['n', 'i', 'c', 'k']

def firstClaim : List HandleOp := [.signup ['a'] 0, .signup ['b'] 0, .claim 1 nick]

/-- The first account is erased, and its slot does not go to the second. -/
theorem handle_stays_with_holder_erased :
    (handleRun firstClaim).handleRow 1 = some (nick, 1) ∧
      (handleRun (firstClaim ++ [.erase 1 1, .claim 2 nick])).handleRow 2 = some (nick, 2) ∧
      (handleRun (firstClaim ++ [.erase 1 1, .claim 2 nick])).handleRow 2 ≠ some (nick, 1) := by
  have hheld : (handleRun firstClaim).handleRow 1 = some (nick, 1) := by decide +kernel
  refine ⟨hheld, by decide +kernel, fun htwo => ?_⟩
  have hone := (handle_stays_with_holder firstClaim [.erase 1 1, .claim 2 nick] 1 (nick, 1) hheld
    (by decide +kernel) 2).mp htwo
  exact absurd hone (by decide)

/-- The first account claims again, and the second one is given the slot it left. -/
theorem abandoned_handle_changes_hands :
    (handleRun firstClaim).handleRow 1 = some (nick, 1) ∧
      (handleRun (firstClaim ++ [.claim 1 nick, .claim 2 nick])).handleRow 2 = some (nick, 1) := by
  decide +kernel

end Rosette.Directory
