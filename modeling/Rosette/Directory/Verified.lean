import Rosette.Directory.Restore

/-! # Callers are verified

A verified row stays so until it is erased, and an erased row is never live again. A session is
opened for a user just marked verified, or for one whose recovery bundle was found; the bundle was
uploaded under a session. So the flag is carried from one session to the next, and a token that
resolves is never one of a user that is not verified.
-/
namespace Rosette.Directory
open Foundation Program List Option Function

variable {amb : Ambient} {userId : UserId}

/-- The user has a row, and it is verified if it is live. -/
def Database.Vouched (db : Database) (userId : UserId) : Prop :=
  ∃ r, db.users.row userId = some r ∧ (r.live = true → r.verified = true)

section Tables
variable {db db' : Database} {s : Statement}

theorem Database.Vouched.modify (h : db.Vouched userId) {i : UserId} {f : UserRow → UserRow}
    (hrow : db'.users.row = update db.users.row i ((db.users.row i).map f))
    (hf : ∀ r, (f r).live = true → (r.live = true → r.verified = true) → (f r).verified = true) :
    db'.Vouched userId := by
  obtain ⟨r, hr, hv⟩ := h
  unfold Database.Vouched
  rw [hrow]
  by_cases hi : userId = i
  · subst hi
    rw [update_self, hr]
    exact ⟨f r, rfl, fun hl => hf r hl hv⟩
  · rw [update_of_ne hi]
    exact ⟨r, hr, hv⟩

variable (h : Effect amb db s db')
include h

theorem Effect.vouched (hv : db.Vouched userId) :
    db'.Vouched userId := by
  cases h with
  | created =>
    obtain ⟨r, hr, hlive⟩ := hv
    refine ⟨r, ?_, hlive⟩
    have hne : userId ≠ db.users.next := by
      rintro rfl
      simp [db.users.unassigned _ le_rfl] at hr
    rw [Users.insert_row, update_of_ne hne, hr]
  | verified => exact hv.modify rfl fun _ _ _ => rfl
  | claimed | searchable => exact hv.modify rfl fun _ hl h => h hl
  | erased => exact hv.modify rfl fun _ hl _ => by cases hl
  | _ => exact hv

theorem Effect.backups {record : BackupRecord} (hb : db'.backups userId = some record) :
    (∃ old, db.backups userId = some old) ∨ ∃ row, s = .upsertBackup userId row := by
  cases h with
  | uploaded =>
    simp only [update_apply] at hb
    split_ifs at hb with hi
    · subst hi
      exact .inr ⟨_, rfl⟩
    · exact .inl ⟨record, hb⟩
  | checked held =>
    simp only [update_apply] at hb
    split_ifs at hb with hi
    · exact .inl ⟨_, hi ▸ held⟩
    · exact .inl ⟨record, hb⟩
  | erased =>
    simp only [Database.eraseUser, update_apply] at hb
    split_ifs at hb
    exact .inl ⟨record, hb⟩
  | _ => exact .inl ⟨record, hb⟩

end Tables

/-- The entry shows that the user is verified, or erased by now. -/
def Vouches (userId : UserId) : Record → Prop
  | .did _ _ (.statement (.markVerified id)) r => id = userId ∧ r = .ok ()
  | .did _ _ (.statement (.sessionUserId _)) r => r = .ok (some userId)
  | .did _ _ (.statement (.backupSalts id)) r => id = userId ∧ ∃ salts, r = .ok (some salts)
  | _ => False

/-- Whatever leads to a user leads to one that was verified. -/
structure VerifiedTold (s : AppState) (h : List Record) : Prop where
  sessions : ∀ token row, s.db.sessions token = some row → s.db.Vouched row.userId
  backups : ∀ userId record, s.db.backups userId = some record → s.db.Vouched userId
  entries : ∀ x ∈ h, ∀ userId, Vouches userId x → s.db.Vouched userId
  rows : ∀ x ∈ h, ∀ hash userId, Leads hash userId x → ∃ r, s.db.users.row userId = some r

namespace VerifiedTold
variable {env : Env} {s : AppState} {h : List Record} {id : ℕ} {request : Request}

theorem initial : VerifiedTold .initial [] where
  sessions := fun _ _ hrow => by cases hrow
  backups := fun _ _ hrow => by cases hrow
  entries := fun _ hx => by cases hx
  rows := fun _ hx => by cases hx

theorem idle (hs : VerifiedTold s h) {x : Record} (hx : ∀ id amb a r, x ≠ .did id amb a r) :
    VerifiedTold s (h ++ [x]) := by
  have hold : ∀ y ∈ h ++ [x], y ∈ h ∨ ∀ id amb a r, y ≠ .did id amb a r := by
    intro y hy
    rcases mem_append.mp hy with hy | hy
    · exact .inl hy
    · exact .inr (mem_singleton.mp hy ▸ hx)
  refine ⟨hs.sessions, hs.backups, fun y hy userId hv => ?_, fun y hy hash userId hl => ?_⟩
  · rcases hold y hy with hy | hy
    · exact hs.entries y hy userId hv
    · cases y with
      | did id amb a r => exact absurd rfl (hy id amb a r)
      | _ => exact hv.elim
  · rcases hold y hy with hy | hy
    · exact hs.rows y hy hash userId hl
    · cases y with
      | did id amb a r => exact absurd rfl (hy id amb a r)
      | _ => exact hl.elim

theorem vouched_exec (env : Env) (amb : Ambient) (a : Action) (hv : s.db.Vouched userId) :
    (exec env amb a s).2.db.Vouched userId := by
  rcases exec_takes env amb a s with heq | ⟨st, -, htakes⟩
  · rwa [heq]
  · exact htakes.effect.vouched hv

section
variable (hs : VerifiedTold s h)
include hs

theorem vouched_of_marked
    (hground : InTurn env request (own id h) (.statement (.markVerified userId)))
    (hr : (exec env amb (.statement (.markVerified userId)) s).1 = .ok ()) :
    (exec env amb (.statement (.markVerified userId)) s).2.db.Vouched userId := by
  obtain ⟨hash, hfound⟩ := hground
  obtain ⟨amb', hmem⟩ := mem_own.mp hfound
  obtain ⟨r, hrow⟩ := hs.rows _ hmem hash userId ⟨rfl, rfl⟩
  have hrun := Statement.run_of_exec hr
  simp only [Statement.run, Except.ok.injEq, Prod.mk.injEq, true_and] at hrun
  refine ⟨{ r with verified := true }, ?_, fun _ => rfl⟩
  change ((Statement.markVerified userId).exec amb s.db).2.users.row userId = _
  rw [← hrun, Database.markVerified, Users.modify_row, update_self, hrow, map_some]

theorem vouched_of_resolved {token : Text}
    (hr : (exec env amb (.statement (.sessionUserId token)) s).1 = .ok (some userId)) :
    s.db.Vouched userId := by
  have hrun := Statement.run_of_exec hr
  simp only [Statement.run, Except.ok.injEq, Prod.mk.injEq] at hrun
  obtain ⟨row, hrow, hvalid⟩ := bind_eq_some_iff.mp hrun.1
  obtain ⟨-, ⟨⟩⟩ := ite_none_right_eq_some.mp hvalid
  exact hs.sessions token row hrow

theorem vouched_of_salts {salts : List UInt8 × List UInt8}
    (hr : (exec env amb (.statement (.backupSalts userId)) s).1 = .ok (some salts)) :
    s.db.Vouched userId := by
  have hrun := Statement.run_of_exec hr
  simp only [Statement.run, Except.ok.injEq, Prod.mk.injEq] at hrun
  obtain ⟨record, hrecord, -⟩ := map_eq_some_iff.mp hrun.1
  exact hs.backups userId record hrecord

theorem vouched_of_opens
    (hground : InTurn env request (own id h) (.statement (.createSession userId))) :
    s.db.Vouched userId := by
  rcases hground.2 with hmarked | ⟨salts, hsalts⟩
  · obtain ⟨amb', hmem⟩ := mem_own.mp hmarked
    exact hs.entries _ hmem userId ⟨rfl, rfl⟩
  · obtain ⟨amb', hmem⟩ := mem_own.mp hsalts
    exact hs.entries _ hmem userId ⟨rfl, salts, rfl⟩

theorem vouched_of_authenticated {authorization : Option Text}
    (hauth : Authenticated authorization (own id h) userId) : s.db.Vouched userId := by
  obtain ⟨token, -, hresolved⟩ := hauth
  obtain ⟨amb', hmem⟩ := mem_own.mp hresolved
  exact hs.entries _ hmem userId rfl

theorem acted {a : Action} (hground : InTurn env request (own id h) a) :
    VerifiedTold (exec env amb a s).2 (h ++ [.did id amb a (exec env amb a s).1]) where
  sessions token row hrow := by
    refine vouched_exec env amb a ?_
    rcases exec_takes env amb a s with heq | ⟨st, rfl, htakes⟩
    · exact hs.sessions token row (heq ▸ hrow)
    · rcases htakes.effect.sessions hrow with hold | ⟨rfl, -, -⟩
      · exact hs.sessions token row hold
      · exact hs.vouched_of_opens hground
  backups userId record hrecord := by
    refine vouched_exec env amb a ?_
    rcases exec_takes env amb a s with heq | ⟨st, rfl, htakes⟩
    · exact hs.backups userId record (heq ▸ hrecord)
    · rcases htakes.effect.backups hrecord with ⟨old, hold⟩ | ⟨row, rfl⟩
      · exact hs.backups userId old hold
      · obtain ⟨authorization, upload, -, hauth, -⟩ := hground
        exact hs.vouched_of_authenticated hauth
  entries x hx userId hv := by
    rcases mem_append.mp hx with hx | hx
    · exact vouched_exec env amb a (hs.entries x hx userId hv)
    · obtain rfl := mem_singleton.mp hx
      cases a with
      | statement st =>
        cases st with
        | markVerified =>
          obtain ⟨rfl, hr⟩ := hv
          exact hs.vouched_of_marked hground hr
        | sessionUserId => exact vouched_exec env amb _ (hs.vouched_of_resolved hv)
        | backupSalts =>
          obtain ⟨rfl, salts, hr⟩ := hv
          exact vouched_exec env amb _ (hs.vouched_of_salts hr)
        | _ => exact hv.elim
      | _ => exact hv.elim
  rows x hx hash userId hl := by
    rcases mem_append.mp hx with hx | hx
    · obtain ⟨r, hr⟩ := hs.rows x hx hash userId hl
      obtain ⟨r', hr', -⟩ := SessionsTold.users_follow env amb a s userId r hr
      exact ⟨r', hr'⟩
    · obtain rfl := mem_singleton.mp hx
      obtain ⟨r, hr, -⟩ := SessionsTold.row_of_leads hl
      exact ⟨r, hr⟩

end

theorem run {es : List ApiEvent} {w : World}
    (hrun : run (api env).step (Host.start .initial) es = some w) :
    VerifiedTold w.state w.history :=
  Host.run_keeps (handle_inTurn env) initial
    ⟨fun _ _ _ _ hs => hs.idle (fun _ _ _ _ hx => by cases hx),
      fun _ _ _ _ _ _ _ hs _ hground => hs.acted hground,
      fun _ _ _ _ _ hs _ _ => hs.idle (fun _ _ _ _ hx => by cases hx),
      fun _ _ hs => ⟨hs.sessions, hs.backups, hs.entries, hs.rows⟩⟩ hrun

end VerifiedTold

/-- In every run, whatever the interleaving, the failures and the vendor's answers, a token that
resolves is one of a verified user, and a lookup that reads the tier of a live caller reads the
verified one. -/
theorem authenticated_caller_is_verified (env : Env) {es : List ApiEvent} {w : World}
    (hrun : run (api env).step (Host.start .initial) es = some w) (amb : Ambient) :
    (∀ token userId, (exec env amb (.statement (.sessionUserId token)) w.state).1 =
        .ok (some userId) →
      ∃ r, w.state.db.users.row userId = some r ∧ r.live = true ∧ r.verified = true) ∧
    ∀ id userId r verified, w.stands id = some (.statement (.isVerified userId)) →
      w.state.db.users.row userId = some r → r.live = true →
      (exec env amb (.statement (.isVerified userId)) w.state).1 = .ok verified →
      verified = some true := by
  have htold := VerifiedTold.run hrun
  constructor
  · intro token userId hr
    obtain ⟨r, hrow, hverified⟩ := htold.vouched_of_resolved hr
    have hresolved := Statement.run_of_exec hr
    simp only [Statement.run, Except.ok.injEq, Prod.mk.injEq] at hresolved
    obtain ⟨row, -, hvalid⟩ := bind_eq_some_iff.mp hresolved.1
    obtain ⟨⟨-, hlive⟩, ⟨⟩⟩ := ite_none_right_eq_some.mp hvalid
    rw [hrow] at hlive
    exact ⟨r, hrow, hlive, hverified hlive⟩
  · intro id userId r verified hstands hrow hlive hr
    obtain ⟨request, -, authorization, hauth⟩ :=
      (Host.run_lawful (handle_inTurn env) hrun).stands hstands
    obtain ⟨r', hrow', hverified⟩ := htold.vouched_of_authenticated hauth
    obtain rfl := mem_unique hrow hrow'
    have hread := Statement.run_of_exec hr
    simp only [Statement.run, Except.ok.injEq, Prod.mk.injEq] at hread
    rw [← hread.1, Database.isVerified, hrow, filter_some, if_pos hlive, map_some,
      hverified hlive]

/-- The session a restore has opened is one of a verified user. -/
theorem authenticated_caller_is_verified_restoring : ∃ w r,
    run (api sampleEnv).step (Host.start .initial) restoreBegun = some w ∧
      (exec sampleEnv (calm 60 []) (.statement (.sessionUserId ['r'])) w.state).1 = .ok (some 1) ∧
      w.state.db.users.row 1 = some r ∧ r.verified = true := by
  obtain ⟨w, hrun, hresolves⟩ :
      ∃ w, run (api sampleEnv).step (Host.start .initial) restoreBegun = some w ∧
      w.state.db.sessionUserId ['r'] 60 == some 1 := by decide +kernel
  have hresolved : (exec sampleEnv (calm 60 []) (.statement (.sessionUserId ['r'])) w.state).1 =
      .ok (some 1) := congrArg Except.ok (eq_of_beq hresolves)
  obtain ⟨r, hrow, -, hverified⟩ :=
    (authenticated_caller_is_verified sampleEnv hrun (calm 60 [])).1 ['r'] 1 hresolved
  exact ⟨w, r, hrun, hresolved, hrow, hverified⟩

end Rosette.Directory
