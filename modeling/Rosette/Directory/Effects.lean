import Rosette.Directory.Actions

/-! # What a statement can do to the tables

Said once for every statement; the invariants of the tables are read off it.
-/
namespace Rosette.Directory

/-- The database after a statement. -/
inductive Effect (amb : Ambient) (db : Database) : Statement → Database → Prop where
  | same {s} : Effect amb db s db
  | created {hash} (free : db.users.liveWith hash = none) :
    Effect amb db (.findOrCreatePendingUser hash)
      { db with users := db.users.insert hash amb.now free }
  | found {hash} : Effect amb db (.findOrCreatePendingUser hash) { db with users := db.users.skip }
  | verified {userId} : Effect amb db (.markVerified userId) (db.markVerified userId)
  | opened {userId} : Effect amb db (.createSession userId) { db with
      sessions := Function.update db.sessions amb.token (some ⟨userId, amb.now⟩) }
  | claimed {userId nickname slot width} :
    Effect amb db (.claimTransaction userId nickname) { db with
      nicknameWidths := Function.update db.nicknameWidths nickname (some width)
      users := db.users.modify userId (fun r => { r with handle := some (nickname, slot) })
        (fun _ h => ⟨h, rfl⟩) }
  | searchable {userId searchable hash} :
    Effect amb db (.setSearchable userId searchable hash) (db.setSearchable userId searchable hash)
  | offered {userId link} : Effect amb db (.setPairingBootstrap userId link) { db with
      pairingBootstrap := Function.update db.pairingBootstrap userId (some (link, amb.now)) }
  | taken {userId} : Effect amb db (.consumePairingBootstrap userId) { db with
      pairingBootstrap := Function.update db.pairingBootstrap userId none }
  | erased {userId} : Effect amb db (.eraseUser userId) (db.eraseUser userId amb.now)
  | uploaded {userId row} : Effect amb db (.upsertBackup userId row) { db with
      backups := Function.update db.backups userId (some ⟨row, 0, none, amb.now⟩) }
  | checked {userId auth isPin record} (held : db.backups userId = some record) :
    Effect amb db (.verifyBackupAuth userId auth isPin) { db with
      backups := Function.update db.backups userId
        (some (record.verifyAuth auth isPin amb.now).2) }

namespace Statement
variable {amb : Ambient} {db db' : Database} {s : Statement} {r : s.Result}

theorem effect_of_run (h : s.run amb db = .ok (r, db')) : Effect amb db s db' := by
  cases s with
  | findOrCreatePendingUser hash =>
    cases hl : db.users.liveWith hash with
    | some =>
      simp only [run, Database.findOrCreatePendingUser_found hl, Except.ok.injEq,
        Prod.mk.injEq] at h
      obtain ⟨-, rfl⟩ := h
      exact .found
    | none =>
      simp only [run, Database.findOrCreatePendingUser_created hl, Except.ok.injEq,
        Prod.mk.injEq] at h
      obtain ⟨-, rfl⟩ := h
      exact .created hl
  | markVerified =>
    cases h
    exact .verified
  | createSession =>
    simp only [run, Database.createSession] at h
    split_ifs at h
    cases h
    exact .opened
  | claimTransaction =>
    obtain ⟨-, -, rfl⟩ | ⟨slot, width, -, -, rfl⟩ := Database.claimTransaction_cases h
    · exact .same
    · exact .claimed
  | setSearchable userId searchable =>
    cases h
    exact .searchable
  | setPairingBootstrap =>
    simp only [run, Database.setPairingBootstrap] at h
    split_ifs at h
    · cases h
      exact .offered
    · cases h
  | consumePairingBootstrap =>
    simp only [run, Database.consumePairingBootstrap] at h
    split_ifs at h
    · cases h
      exact .taken
    · cases h
      exact .same
  | eraseUser =>
    cases h
    exact .erased
  | upsertBackup =>
    simp only [run, Database.upsertBackup] at h
    split_ifs at h
    · cases h
      exact .uploaded
    · cases h
  | verifyBackupAuth userId =>
    simp only [run, Database.verifyBackupAuth] at h
    cases hb : db.backups userId with
    | none =>
      simp only [hb] at h
      cases h
      exact .same
    | some =>
      simp only [hb] at h
      cases h
      exact .checked hb
  | _ =>
    cases h
    exact .same

/-- The statement reached the database and went through. -/
def Takes (s : Statement) (amb : Ambient) (db db' : Database) : Prop :=
  amb.fate ≠ .failed ∧ ∃ r, s.run amb db = .ok (r, db')

theorem Takes.effect (h : s.Takes amb db db') : Effect amb db s db' := by
  obtain ⟨-, r, hrun⟩ := h
  exact effect_of_run hrun

theorem run_of_exec (h : (s.exec amb db).1 = .ok r) :
    s.run amb db = .ok (r, (s.exec amb db).2) := by
  revert h
  unfold exec
  cases amb.fate <;> cases s.run amb db <;> simp +contextual [Prod.ext_iff]

theorem exec_of_run (hfate : amb.fate ≠ .failed) (h : s.run amb db = .ok (r, db')) :
    (s.exec amb db).2 = db' := by
  unfold exec
  rw [h]
  cases hf : amb.fate with
  | answered | unheard => rfl
  | failed => exact absurd hf hfate

theorem exec_cases (amb : Ambient) (s : Statement) (db : Database) :
    (s.exec amb db).2 = db ∨ s.Takes amb db (s.exec amb db).2 := by
  cases hf : amb.fate with
  | failed =>
    left
    simp [exec, hf]
  | answered | unheard =>
    cases h : s.run amb db with
    | error =>
      left
      simp [exec, hf, h]
    | ok p =>
      right
      have hfate : amb.fate ≠ .failed := by simp [hf]
      exact ⟨hfate, p.1, by rw [exec_of_run hfate h, h]⟩

end Statement

theorem exec_takes (env : Env) (amb : Ambient) (a : Action) (s : AppState) :
    (exec env amb a s).2.db = s.db ∨
      ∃ st, a = .statement st ∧ st.Takes amb s.db (exec env amb a s).2.db := by
  cases a with
  | statement st =>
    rcases Statement.exec_cases amb st s.db with h | h
    · exact .inl h
    · exact .inr ⟨st, rfl, h⟩
  | restoreTokenUser => exact .inl (AppState.restoreTokenUser_db ..)
  | _ => exact .inl rfl

end Rosette.Directory
