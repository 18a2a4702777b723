import Rosette.Directory.Sessions

/-! # Erasure under concurrency

An erasure scrubs the user's row and deletes what hangs on the account, in one
transaction. A request that looked the user up before it can still write afterwards:
five statements write for a user without asking whether the row is live. Nothing else
can undo an erasure.
-/
namespace Rosette.Directory
open Foundation Program Function

variable {db db' : Database} {userId : UserId} {r : UserRow}

/-- Nothing personal is left in the row. -/
structure UserRow.Scrubbed (r : UserRow) : Prop where
  phoneHash : r.phoneHash = []
  phoneHashPrefix : r.phoneHashPrefix = []
  phoneSearchHash : r.phoneSearchHash = []
  phoneSearchHashPrefix : r.phoneSearchHashPrefix = []
  searchable : r.searchable = false
  verified : r.verified = false

/-- Nothing of the user is left in any table. -/
structure Database.Cleared (db : Database) (userId : UserId) (r : UserRow) : Prop where
  row : r.Scrubbed
  pairing : db.pairingBootstrap userId = none
  backup : db.backups userId = none
  session : ∀ token s, db.sessions token = some s → s.userId ≠ userId

theorem Database.Cleared.frame (h : db.Cleared userId r)
    (hp : db'.pairingBootstrap = db.pairingBootstrap) (hb : db'.backups = db.backups)
    (hs : db'.sessions = db.sessions) : db'.Cleared userId r where
  row := h.row
  pairing := hp ▸ h.pairing
  backup := hb ▸ h.backup
  session := hs ▸ h.session

/-- Every row with a deletion time is an erased user's. -/
def Database.ErasureComplete (db : Database) : Prop :=
  ∀ userId r, db.users.row userId = some r → r.live = false → db.Cleared userId r

/-- Whom a statement writes for without asking whether the row is live. -/
def Statement.writesFor : Statement → Option UserId
  | .markVerified userId => some userId
  | .createSession userId => some userId
  | .setSearchable userId true _ => some userId
  | .setPairingBootstrap userId _ => some userId
  | .upsertBackup userId _ => some userId
  | _ => none

section Step
variable {amb : Ambient} {s : Statement}

theorem Effect.erasureComplete (heff : Effect amb db s db') (h : db.ErasureComplete)
    (hlive : ∀ userId r, s.writesFor = some userId → db.users.row userId = some r →
      r.live = true) : db'.ErasureComplete := by
  intro userId r hr hdead
  -- a write for the user would have found the row live
  have spared : ∀ r', db.users.row userId = some r' → r'.live = false →
      s.writesFor ≠ some userId := by
    intro r' hr' hd hw
    simp [hlive userId r' hw hr'] at hd
  cases heff with
  | same => exact h userId r hr hdead
  | found => exact (h userId r hr hdead).frame rfl rfl rfl
  | created =>
    simp only [Users.insert_row, update_apply] at hr
    split_ifs at hr
    · cases hr
      cases hdead
    · exact (h userId r hr hdead).frame rfl rfl rfl
  | verified =>
    rcases updated_cases hr with ⟨hr, -⟩ | ⟨r', hr', rfl, rfl⟩
    · exact (h userId r hr hdead).frame rfl rfl rfl
    · exact absurd rfl (spared r' hr' hdead)
  | opened =>
    have hold := h userId r hr hdead
    refine ⟨hold.row, hold.pairing, hold.backup, fun token session hs => ?_⟩
    simp only [update_apply] at hs
    split_ifs at hs
    · cases hs
      rintro rfl
      exact spared r hr hdead rfl
    · exact hold.session token session hs
  | claimed =>
    rcases updated_cases hr with ⟨hr, -⟩ | ⟨r', hr', rfl, rfl⟩
    · exact (h userId r hr hdead).frame rfl rfl rfl
    · obtain ⟨⟨h₁, h₂, h₃, h₄, h₅, h₆⟩, hp, hb, hs⟩ := h userId r' hr' hdead
      exact ⟨⟨h₁, h₂, h₃, h₄, h₅, h₆⟩, hp, hb, hs⟩
  | @searchable u b =>
    rcases updated_cases hr with ⟨hr, -⟩ | ⟨r', hr', rfl, rfl⟩
    · exact (h userId r hr hdead).frame rfl rfl rfl
    · cases b with
      | true => exact absurd rfl (spared r' hr' hdead)
      | false =>
        obtain ⟨⟨h₁, h₂, -, -, -, h₆⟩, hp, hb, hs⟩ := h userId r' hr' hdead
        exact ⟨⟨h₁, h₂, rfl, rfl, rfl, h₆⟩, hp, hb, hs⟩
  | @offered u =>
    have hold := h userId r hr hdead
    have hne : userId ≠ u := fun he => spared r hr hdead (congrArg some he.symm)
    refine ⟨hold.row, ?_, hold.backup, hold.session⟩
    exact (update_of_ne hne _ _).trans hold.pairing
  | taken =>
    have hold := h userId r hr hdead
    refine ⟨hold.row, ?_, hold.backup, hold.session⟩
    simp only [update_apply]
    split_ifs
    · rfl
    · exact hold.pairing
  | erased =>
    rcases updated_cases hr with ⟨hr, hne⟩ | ⟨r', hr', rfl, rfl⟩
    · have hold := h userId r hr hdead
      refine ⟨hold.row, ?_, ?_, fun token session hs => ?_⟩
      · exact (update_of_ne hne _ _).trans hold.pairing
      · exact (update_of_ne hne _ _).trans hold.backup
      · exact hold.session token session (Option.filter_eq_some_iff.mp hs).1
    · refine ⟨⟨rfl, rfl, rfl, rfl, rfl, rfl⟩, ?_, ?_, fun token session hs => ?_⟩
      · exact update_self ..
      · exact update_self ..
      · simpa using (Option.filter_eq_some_iff.mp hs).2
  | @uploaded u row =>
    have hold := h userId r hr hdead
    have hne : userId ≠ u := fun he => spared r hr hdead (congrArg some he.symm)
    refine ⟨hold.row, hold.pairing, ?_, hold.session⟩
    exact (update_of_ne hne _ _).trans hold.backup
  | @checked u auth isPin record held =>
    have hold := h userId r hr hdead
    have hne : userId ≠ u := by
      rintro rfl
      simp [hold.backup] at held
    refine ⟨hold.row, hold.pairing, ?_, hold.session⟩
    exact (update_of_ne hne _ _).trans hold.backup

theorem Statement.Takes.not_erasureComplete (h : s.Takes amb db db')
    (hw : s.writesFor = some userId) (hr : db.users.row userId = some r) (hdead : r.live = false) :
    ¬ db'.ErasureComplete := by
  intro hcomplete
  obtain ⟨-, result, hrun⟩ := h
  cases s with
  | markVerified u =>
    obtain rfl := Option.some.inj hw
    cases hrun
    have hrow : (db.markVerified u).users.row u = some { r with verified := true } := by
      simp [Database.markVerified, hr]
    cases (hcomplete u _ hrow hdead).row.verified
  | createSession u =>
    obtain rfl := Option.some.inj hw
    simp only [Statement.run, Database.createSession] at hrun
    split_ifs at hrun
    cases hrun
    exact (hcomplete u r hr hdead).session amb.token _ (update_self ..) rfl
  | setSearchable u b hash =>
    cases b with
    | false => cases hw
    | true =>
      obtain rfl := Option.some.inj hw
      cases hrun
      have hrow : (db.setSearchable u true hash).users.row u = some { r with
          searchable := true
          phoneSearchHash := hash.getD []
          phoneSearchHashPrefix := hashPrefix (hash.getD []) } := by
        simp [Database.setSearchable, hr]
      cases (hcomplete u _ hrow hdead).row.searchable
  | setPairingBootstrap u =>
    obtain rfl := Option.some.inj hw
    simp only [Statement.run, Database.setPairingBootstrap] at hrun
    split_ifs at hrun
    · cases hrun
      have hnone := (hcomplete u r hr hdead).pairing
      simp at hnone
    · cases hrun
  | upsertBackup u =>
    obtain rfl := Option.some.inj hw
    simp only [Statement.run, Database.upsertBackup] at hrun
    split_ifs at hrun
    · cases hrun
      have hnone := (hcomplete u r hr hdead).backup
      simp at hnone
    · cases hrun
  | _ => cases hw

end Step

/-- A write that goes through finds its user live. -/
def FindsLive (w : World) : ApiEvent → Prop
  | .act id amb => ∀ s db' userId r, w.stands id = some (.statement s) →
    s.Takes amb w.state.db db' → s.writesFor = some userId →
    w.state.db.users.row userId = some r → r.live = true
  | _ => True

theorem erasureComplete_initial : Database.empty.ErasureComplete := by
  intro userId r hr
  cases hr

theorem erasureComplete_step {env : Env} {w v : World} {e : ApiEvent}
    (h : w.state.db.ErasureComplete) (hlive : FindsLive w e) (hstep : (api env).step w e = some v) :
    v.state.db.ErasureComplete := by
  cases Host.moved_of_step hstep with
  | arrived | answered | dropped | restarted => exact h
  | @did id amb a next at_ =>
    rcases exec_takes env amb a w.state with heq | ⟨s, rfl, htakes⟩
    · show ((exec env amb a w.state).2.db).ErasureComplete
      rw [heq]
      exact h
    · exact htakes.effect.erasureComplete h
        (fun userId r hw hr =>
          hlive s _ userId r (Host.stands_eq_some.mpr ⟨next, at_⟩) htakes hw hr)

/-- Erasures are complete in every state of a run exactly if every write of the run that
goes through finds its user live. -/
theorem erasure_complete_iff (env : Env) (es : List ApiEvent) :
    (∀ pre post w, es = pre ++ post →
      run (api env).step (Host.start .initial) pre = some w → w.state.db.ErasureComplete) ↔
    Along (api env).step FindsLive (Host.start .initial) es := by
  constructor
  · intro hall
    refine along_iff.mpr fun pre e post w hes hrun => ?_
    cases e with
    | act id amb =>
      intro s db' userId r hat htakes hw hr
      by_contra hdead
      obtain ⟨next, hat⟩ := Host.stands_eq_some.mp hat
      have hstep : ∃ v, (api env).step w (.act id amb) = some v ∧ v.state.db = db' := by
        obtain ⟨hfate, result, hok⟩ := htakes
        simp only [Host.step, hat]
        exact ⟨_, rfl, Statement.exec_of_run hfate hok⟩
      obtain ⟨v, hv, rfl⟩ := hstep
      refine htakes.not_erasureComplete hw hr (by simpa using hdead)
        (hall (pre ++ [.act id amb]) post v (by simp [hes]) ?_)
      rw [run_snoc, hrun]
      exact hv
    | _ => trivial
  · rintro halong pre post w rfl hrun
    exact run_invariant_along
      erasureComplete_initial (fun _ _ _ h hlive hstep => erasureComplete_step h hlive hstep)
      (along_of_append halong) hrun

section Sample

/-- A request to store a contact link authenticates, the account is deleted, and only then
is the link written. -/
def racedErasure : List ApiEvent :=
  verifiedRun ++ serve 1 (.setPairingBootstrap sampleBearer ['l']) 1 (calm 1 []) ++
    serve 2 (.deleteAccount sampleBearer) 2 (calm 2 []) ++ [.act 1 (calm 3 [])]

theorem erased_user_keeps_link : ∃ w,
    run (api sampleEnv).step (Host.start .initial) racedErasure = some w ∧
      ¬ w.state.db.ErasureComplete := by
  obtain ⟨w, r, hrun, hr, hdead, hsome⟩ :
      ∃ w r, run (api sampleEnv).step (Host.start .initial) racedErasure = some w ∧
        w.state.db.users.row 1 = some r ∧ r.live = false ∧
        (w.state.db.pairingBootstrap 1).isSome = true := by decide +kernel
  refine ⟨w, hrun, fun h => ?_⟩
  simp [(h 1 r hr hdead).pairing] at hsome

end Sample
end Rosette.Directory
