import Rosette.Directory.Verified
import Rosette.Foundation.Alone

/-! # From an upload to its return

A recovery bundle is uploaded, a restore is begun, and a second request presents the token with a
proof. Other requests run in between. As long as the bundle is neither replaced nor erased, and the
token neither lost nor redeemed by another request, the salts handed out are those of the upload,
and the request that brings the right proof is answered with the row.
-/
namespace Rosette.Directory
open Foundation Program List Option Function Host

variable {env : Env} {amb : Ambient} {a : Action} {s : AppState} {userId : UserId} {row : BackupRow}
  {token : Text} {w v : World} {ev : ApiEvent} {id : ℕ}

/-- The bundle of the user is this one, whatever the count of attempts. -/
def Database.Holds (db : Database) (userId : UserId) (row : BackupRow) : Prop :=
  ∃ record, db.backups userId = some record ∧ record.row = row

theorem BackupRecord.verifyAuth_row (b : BackupRecord) (auth : List UInt8) (isPin : Bool)
    (now : ℤ) :
    (b.verifyAuth auth isPin now).2.row = b.row := by
  unfold verifyAuth
  split
  · rfl
  · split_ifs
    · rfl
    · rfl
    · dsimp only
      split_ifs <;> rfl

theorem BackupRecord.verifyAuth_right {b : BackupRecord} {isPin : Bool} {now : ℤ}
    (hfree : isPin = true → b.lockedAt now = none) :
    (b.verifyAuth (b.authHash isPin) isPin now).1 = .matched b.row := by
  have hopen : (if isPin then b.lockedAt now else none) = none := by
    cases isPin with
    | false => rfl
    | true => exact hfree rfl
  rw [verifyAuth, hopen]
  simp only [ctEq_eq_true.mpr, if_true]

def Action.sparesBundle (userId : UserId) (amb : Ambient) : Action → Bool
  | .statement (.upsertBackup id _) | .statement (.eraseUser id) =>
    id ≠ userId || amb.fate = .failed
  | _ => true

def Action.sparesToken (token : Text) (expiresAt : ℤ) (amb : Ambient) : Action → Bool
  | .createRestoreToken _ _ => amb.token ≠ token
  | .restoreTokenUser t => t ≠ token || amb.now < expiresAt
  | .consumeRestoreToken t => t ≠ token
  | _ => true

section Exec
variable {expiresAt : ℤ}

theorem Effect.holds {db db' : Database} {st : Statement} (h : Effect amb db st db')
    (hup : ∀ row, st ≠ .upsertBackup userId row) (herase : st ≠ .eraseUser userId)
    (hh : db.Holds userId row) : db'.Holds userId row := by
  obtain ⟨record, hrecord, hrow⟩ := hh
  cases h with
  | @uploaded id row' =>
    have hne : userId ≠ id := fun h => hup row' (h ▸ rfl)
    exact ⟨record, (update_of_ne hne _ _).trans hrecord, hrow⟩
  | @checked id auth isPin record' held =>
    by_cases hid : userId = id
    · subst hid
      obtain rfl := mem_unique held hrecord
      exact ⟨_, update_self .., (record'.verifyAuth_row auth isPin amb.now).trans hrow⟩
    · exact ⟨record, (update_of_ne hid _ _).trans hrecord, hrow⟩
  | @erased id =>
    have hne : userId ≠ id := fun h => herase (h ▸ rfl)
    exact ⟨record, (update_of_ne hne _ _).trans hrecord, hrow⟩
  | _ => exact ⟨record, hrecord, hrow⟩

theorem holds_exec (hspares : a.sparesBundle userId amb = true) (hh : s.db.Holds userId row) :
    (exec env amb a s).2.db.Holds userId row := by
  rcases exec_takes env amb a s with heq | ⟨st, rfl, htakes⟩
  · rwa [heq]
  · refine htakes.effect.holds ?_ ?_ hh
    · rintro row' rfl
      simp [Action.sparesBundle, htakes.1] at hspares
    · rintro rfl
      simp [Action.sparesBundle, htakes.1] at hspares

theorem held_exec (hspares : a.sparesToken token expiresAt amb = true)
    (hheld : s.restoreTokens token = some (userId, expiresAt)) :
    (exec env amb a s).2.restoreTokens token = some (userId, expiresAt) := by
  cases a with
  | createRestoreToken =>
    have hne : token ≠ amb.token := Ne.symm (of_decide_eq_true hspares)
    exact (update_of_ne hne _ _).trans hheld
  | consumeRestoreToken t =>
    have hne : token ≠ t := Ne.symm (of_decide_eq_true hspares)
    exact (update_of_ne hne _ _).trans hheld
  | restoreTokenUser =>
    simp only [exec, AppState.restoreTokenUser]
    split
    · rename_i id at_ hentry
      split_ifs with hlate
      · exact hheld
      · refine (update_of_ne ?_ _ _).trans hheld
        rintro rfl
        obtain ⟨-, rfl⟩ := Prod.mk.inj (mem_unique hentry hheld)
        simp [Action.sparesToken, hlate] at hspares
    · exact hheld
  | _ => exact hheld

end Exec

/-! ## The two conditions on a run -/

def keepsBundle (userId : UserId) (w : World) : ApiEvent → Bool
  | .act id amb => (w.stands id).all (Action.sparesBundle userId amb)
  | _ => true

/-- The token is not lost, drawn again, found expired or redeemed by another request; the
database answers the owner's request, and the row is not locked if it brings the PIN. -/
def undisturbed (token : Text) (expiresAt : ℤ) (owner : ℕ) (w : World) : ApiEvent → Bool
  | .act id amb => (w.stands id).all fun a =>
    (a.sparesToken token expiresAt amb || id = owner && a = .consumeRestoreToken token) &&
      (id ≠ owner || match a with
        | .statement (.verifyBackupAuth userId _ isPin) => amb.fate = .answered &&
          (!isPin || (w.state.db.backups userId).all fun b => (b.lockedAt amb.now).isNone)
        | _ => true)
  | .restart => false
  | _ => true

section Runs

theorem holds_step (hm : (api env).Moved w ev v) (hc : keepsBundle userId w ev = true)
    (hh : w.state.db.Holds userId row) : v.state.db.Holds userId row := by
  cases hm with
  | @did id amb a next at_ =>
    refine holds_exec ?_ hh
    rw [keepsBundle, stands_eq_some.mpr ⟨next, at_⟩] at hc
    exact hc
  | _ => exact hh

/-- The salts the request was given are those of the row. -/
def SaltsRead (userId : UserId) (row : BackupRow) (id : ℕ) (h : List Record) : Prop :=
  ∀ amb salts, .did id amb (.statement (.backupSalts userId)) (.ok (some salts)) ∈ h →
    salts = (row.saltA, row.saltPa)

theorem saltsRead_step (hm : (api env).Moved w ev v) (hh : w.state.db.Holds userId row)
    (hs : SaltsRead userId row id w.history) : SaltsRead userId row id v.history := by
  intro amb salts hmem
  cases hm with
  | did =>
    rcases mem_append.mp hmem with hmem | hmem
    · exact hs amb salts hmem
    · have hnew := mem_singleton.mp hmem
      injection hnew with hid hamb ha hr
      subst ha
      have hread := Statement.run_of_exec (eq_of_heq hr).symm
      simp only [Statement.run, Except.ok.injEq, Prod.mk.injEq] at hread
      obtain ⟨record, hrecord, rfl⟩ := hh
      rw [Database.backupSalts, hrecord] at hread
      exact (some.inj hread.1).symm
  | arrived | answered => exact hs amb salts (by simpa using hmem)
  | dropped | restarted => exact hs amb salts hmem

end Runs

/-! ## The owner's request -/

/-- A request to complete a restore, with what its fields stand for. -/
structure Completion (env : Env) where
  id : ℕ
  token : Text
  method : Text
  text : Text
  auth : List UInt8
  isPin : Bool
  enabled : env.accountsEnabled = true
  known : isPinMethod method = some isPin
  decoded : env.b64Decode text = some auth
  sized : auth.length = 32

namespace Completion
variable (c : Completion env) (userId : UserId) (row : BackupRow)

def request : Request := .restoreComplete c.token c.method c.text

def outcome (env : Env) (row : BackupRow) : Except ApiError Reply :=
  .ok (.bundle (bundleOf env row))

/-- The proof has matched; the token is about to be removed. -/
def Redeems (p : Handler Reply) : Prop :=
  ∃ next, p = .act (.consumeRestoreToken c.token) next ∧ next () = .done (outcome env row)

/-- The token was good; the proof is about to be compared. -/
def Proves (p : Handler Reply) : Prop :=
  ∃ next, p = .act (.statement (.verifyBackupAuth userId c.auth c.isPin)) next ∧
    c.Redeems row (next (.ok (some (.matched row))))

/-- The token is about to be looked up. -/
def Looks (p : Handler Reply) : Prop :=
  ∃ next, p = .act (.restoreTokenUser c.token) next ∧ c.Proves userId row (next (some userId))

theorem looks_request : c.Looks userId row (handle env c.request) := by
  have hsome : ∀ {α : Type} (e : ApiError) (x : α) (f : α → Handler Reply),
      (orRefuse e (some x) >>= f) = f x := fun _ _ _ => rfl
  change c.Looks userId row (restoreComplete env c.token c.method c.text)
  unfold restoreComplete
  simp only [c.enabled, c.known, c.decoded, hsome, c.sized]
  exact ⟨_, rfl, _, rfl, _, rfl, rfl⟩

def Held (expiresAt : ℤ) (w : World) : Prop :=
  w.state.restoreTokens c.token = some (userId, expiresAt)

/-- The request has not gone wrong: its token is there until it has been looked up, and whatever
it was answered is the bundle. -/
structure OnCourse (expiresAt : ℤ) (w : World) : Prop where
  started : ∀ p, w.pending c.id = some p → begun c.id w.history = true
  held : begun c.id w.history = false → c.Held userId expiresAt w
  pending : ∀ p, w.pending c.id = some p → c.Looks userId row p ∧ c.Held userId expiresAt w ∨
    c.Proves userId row p ∨ c.Redeems row p ∨ p = .done (outcome env row)
  answered : ∀ o, .answered c.id o ∈ w.history → o = outcome env row

variable {c userId row} {expiresAt : ℤ}

theorem held_step (hm : (api env).Moved w ev v)
    (hc : undisturbed c.token expiresAt c.id w ev = true)
    (hother : ∀ amb next, ev = .act c.id amb →
      w.pending c.id ≠ some (.act (.consumeRestoreToken c.token) next))
    (hheld : c.Held userId expiresAt w) : c.Held userId expiresAt v := by
  cases hm with
  | @did id amb a next at_ =>
    refine held_exec ?_ hheld
    rw [undisturbed, stands_eq_some.mpr ⟨next, at_⟩, all_some, Bool.and_eq_true,
      Bool.or_eq_true, Bool.and_eq_true, decide_eq_true_eq, decide_eq_true_eq] at hc
    rcases hc.1 with hspares | ⟨rfl, rfl⟩
    · exact hspares
    · exact absurd at_ (hother amb next rfl)
  | restarted => cases hc
  | _ => exact hheld

section Exec

theorem exec_lookup (hheld : s.restoreTokens c.token = some (userId, expiresAt))
    (hlive : amb.now < expiresAt) :
    exec env amb (.restoreTokenUser c.token) s = (some userId, s) := by
  simp only [exec, AppState.restoreTokenUser, hheld, if_pos hlive]

theorem exec_proof (hproof : c.auth = if c.isPin then row.authPinHash else row.authPhraseHash)
    (hholds : s.db.Holds userId row) (hfate : amb.fate = .answered)
    (hfree : c.isPin = true → (s.db.backups userId).all (fun b => (b.lockedAt amb.now).isNone)) :
    (exec env amb (.statement (.verifyBackupAuth userId c.auth c.isPin)) s).1 =
      .ok (some (.matched row)) := by
  obtain ⟨record, hrecord, rfl⟩ := hholds
  have hmatch : (record.verifyAuth c.auth c.isPin amb.now).1 = .matched record.row := by
    rw [hproof]
    refine record.verifyAuth_right fun hpin => isNone_iff_eq_none.mp ?_
    simpa only [hrecord, all_some] using hfree hpin
  simp only [exec, Statement.exec, Statement.run, hfate, verifyBackupAuth_eq hrecord, hmatch]

end Exec

theorem OnCourse.acted (h : c.OnCourse userId row expiresAt w)
    (hproof : c.auth = if c.isPin then row.authPinHash else row.authPhraseHash)
    (hholds : w.state.db.Holds userId row) {next : a.Result → Handler Reply}
    (hat : w.pending c.id = some (.act a next))
    (hc : undisturbed c.token expiresAt c.id w (.act c.id amb) = true) :
    c.Proves userId row (next (exec env amb a w.state).1) ∨
      c.Redeems row (next (exec env amb a w.state).1) ∨
      next (exec env amb a w.state).1 = .done (outcome env row) := by
  rw [undisturbed, stands_eq_some.mpr ⟨next, hat⟩, all_some, Bool.and_eq_true] at hc
  rcases h.pending _ hat with ⟨⟨next', hlooks, hnext⟩, hheld⟩ | ⟨next', hproves, hnext⟩ |
    ⟨next', hredeems, hnext⟩ | hdone
  · cases hlooks
    have hlive : amb.now < expiresAt := by simpa [Action.sparesToken] using hc.1
    rw [exec_lookup hheld hlive]
    exact .inl hnext
  · cases hproves
    have hheard : amb.fate = .answered ∧ (c.isPin = false ∨
        (w.state.db.backups userId).all (fun b => (b.lockedAt amb.now).isNone) = true) := by
      simpa only [ne_eq, not_true_eq_false, decide_false, Bool.false_or, Bool.and_eq_true,
        decide_eq_true_eq, Bool.or_eq_true, Bool.not_eq_true'] using hc.2
    rw [exec_proof hproof hholds hheard.1 fun hpin => hheard.2.resolve_left (by simp [hpin])]
    exact .inr (.inl hnext)
  · cases hredeems
    exact .inr (.inr hnext)
  · cases hdone

/-- From now on the database answers, the token lives, and the row is not locked if the request
brings the PIN. -/
def Timely (isPin : Bool) (userId : UserId) (expiresAt : ℤ) (s : AppState) (ambs : ℕ → Ambient) :
    Prop :=
  ∀ n, (ambs n).fate = .answered ∧ (ambs n).now < expiresAt ∧
    (isPin = true → (s.db.backups userId).all (fun b => (b.lockedAt (ambs n).now).isNone))

theorem OnCourse.alone (h : c.OnCourse userId row expiresAt w)
    (hproof : c.auth = if c.isPin then row.authPinHash else row.authPhraseHash)
    (hholds : w.state.db.Holds userId row) {ambs : ℕ → Ambient}
    (ht : Timely c.isPin userId expiresAt w.state ambs) {p : Handler Reply}
    (hp : w.pending c.id = some p) :
    (p.alone (exec env) ambs w.state).1 = outcome env row := by
  have hredeems : ∀ {p : Handler Reply} {ambs : ℕ → Ambient} {s : AppState}, c.Redeems row p →
      (p.alone (exec env) ambs s).1 = outcome env row := by
    rintro p ambs s ⟨next, rfl, hnext⟩
    change ((next ()).alone (exec env) _ _).1 = _
    rw [hnext]
    rfl
  have hproves : ∀ {p : Handler Reply} {ambs : ℕ → Ambient}, c.Proves userId row p →
      Timely c.isPin userId expiresAt w.state ambs →
      (p.alone (exec env) ambs w.state).1 = outcome env row := by
    rintro p ambs ⟨next, rfl, hnext⟩ ht
    rw [Program.alone, exec_proof hproof hholds (ht 0).1 (ht 0).2.2]
    exact hredeems hnext
  rcases h.pending p hp with ⟨⟨next, rfl, hnext⟩, hheld⟩ | hp | hp | rfl
  · rw [Program.alone, exec_lookup hheld (ht 0).2.1]
    exact hproves hnext fun n => ht (n + 1)
  · exact hproves hp ht
  · exact hredeems hp
  · rfl

theorem begun_snoc {h : List Record} {x : Record} (hx : ∀ request, x ≠ .arrived id request) :
    begun id (h ++ [x]) = begun id h := by
  cases x with
  | arrived i request =>
    have hne : i ≠ id := fun h => hx request (h ▸ rfl)
    simp [begun, hne]
  | _ => simp [begun]

theorem OnCourse.frame (h : c.OnCourse userId row expiresAt w)
    (hpending : ∀ p, v.pending c.id = some p → w.pending c.id = some p)
    (hbegun : begun c.id v.history = begun c.id w.history)
    (hheld : c.Held userId expiresAt w → c.Held userId expiresAt v)
    (hanswered : ∀ o, .answered c.id o ∈ v.history →
      .answered c.id o ∈ w.history ∨ o = outcome env row) : c.OnCourse userId row expiresAt v where
  started p hp := hbegun.trans (h.started p (hpending p hp))
  held hb := hheld (h.held (hbegun.symm.trans hb))
  pending p hp := (h.pending p (hpending p hp)).imp_left fun hlooks => ⟨hlooks.1, hheld hlooks.2⟩
  answered o ho := (hanswered o ho).elim (h.answered o) fun ho => ho

theorem OnCourse.step (h : c.OnCourse userId row expiresAt w)
    (hproof : c.auth = if c.isPin then row.authPinHash else row.authPhraseHash)
    (hholds : w.state.db.Holds userId row) (hm : (api env).Moved w ev v)
    (hc : undisturbed c.token expiresAt c.id w ev = true)
    (harrive : ∀ request, ev = .arrive c.id request → request = c.request) :
    c.OnCourse userId row expiresAt v := by
  have hheld := fun hother (hh : c.Held userId expiresAt w) => held_step hm hc hother hh
  cases hm with
  | @arrived id request fresh =>
    by_cases hid : id = c.id
    · subst hid
      obtain rfl := harrive request rfl
      have hbegun : begun c.id (w.history ++ [.arrived c.id c.request]) = true :=
        begun_iff.mpr ⟨c.request, mem_append_right _ (mem_singleton_self _)⟩
      refine ⟨fun p hp => hbegun, fun hb => ?_, fun p hp => ?_, fun o ho => ?_⟩
      · cases hbegun.symm.trans hb
      · simp only [update_self] at hp
        cases hp
        exact .inl ⟨c.looks_request userId row, h.held fresh⟩
      · exact h.answered o (by simpa using ho)
    · refine h.frame (fun p hp => ?_) (begun_snoc fun r hr => ?_) (fun hh => hh) fun o ho => ?_
      · simpa only [update_of_ne (Ne.symm hid)] using hp
      · injection hr with hr
        exact hid hr
      · exact .inl (by simpa using ho)
  | @did id amb a next at_ =>
    have hsame : begun c.id (w.history ++ [.did id amb a ((api env).exec amb a w.state).1]) =
        begun c.id w.history := begun_snoc fun r hr => by cases hr
    by_cases hid : id = c.id
    · subst hid
      have hbegun := h.started _ at_
      refine ⟨fun p hp => hsame.trans hbegun, fun hb => ?_, fun p hp => ?_, fun o ho => ?_⟩
      · cases hbegun.symm.trans (hsame.symm.trans hb)
      · simp only [update_self] at hp
        cases hp
        exact .inr (h.acted hproof hholds at_ hc)
      · exact h.answered o (by simpa using ho)
    · refine h.frame (fun p hp => ?_) hsame (hheld ?_) fun o ho => .inl (by simpa using ho)
      · simpa only [update_of_ne (Ne.symm hid)] using hp
      · intro amb' next' he
        cases he
        exact absurd rfl hid
  | @answered id o' at_ =>
    refine h.frame (fun p hp => ?_) (begun_snoc fun r hr => by cases hr) (fun hh => hh)
      fun o ho => ?_
    · simp only [update_apply] at hp
      split_ifs at hp
      exact hp
    · rcases mem_append.mp ho with ho | ho
      · exact .inl ho
      · cases mem_singleton.mp ho
        rcases h.pending _ at_ with ⟨⟨next, hp, -⟩, -⟩ | ⟨next, hp, -⟩ | ⟨next, hp, -⟩ | hp
        · cases hp
        · cases hp
        · cases hp
        · exact .inr (Program.done.inj hp)
  | dropped =>
    refine h.frame (fun p hp => ?_) rfl (fun hh => hh) fun o ho => .inl ho
    simp only [update_apply] at hp
    split_ifs at hp
    exact hp
  | restarted => cases hc

end Completion

/-! ## The whole way -/

section Way
variable {es : List ApiEvent} {ttlSecs : ℤ} {mint : Ambient}

theorem holds_of_upload (hrun : run (api env).step (Host.start .initial) es = some w)
    (hstands : w.stands id = some (.statement (.upsertBackup userId row)))
    (hfate : amb.fate ≠ .failed) (hstep : (api env).step w (.act id amb) = some v) :
    v.state.db.Holds userId row := by
  obtain ⟨request, -, authorization, upload, -, hauth, -⟩ :=
    (run_lawful (handle_inTurn env) hrun).stands hstands
  obtain ⟨r, hr, -⟩ := (VerifiedTold.run hrun).vouched_of_authenticated hauth
  obtain ⟨next, hpending⟩ := stands_eq_some.mp hstands
  cases moved_of_step hstep with
  | @did _ _ a next' at_ =>
    cases hpending.symm.trans at_
    have hup : (Statement.upsertBackup userId row).run amb w.state.db = .ok ((), { w.state.db with
        backups := update w.state.db.backups userId (some ⟨row, 0, none, amb.now⟩) }) := by
      simp only [Statement.run, Database.upsertBackup, hr, isSome_some, if_true, Except.map]
    have hdb := Statement.exec_of_run hfate hup
    refine ⟨⟨row, 0, none, amb.now⟩, ?_, rfl⟩
    change ((Statement.upsertBackup userId row).exec amb w.state.db).2.backups userId = _
    rw [hdb]
    exact update_self ..

theorem holds_run (hh : w.state.db.Holds userId row) (hs : SaltsRead userId row id w.history)
    (hkeeps : Along (api env).step (fun w ev => keepsBundle userId w ev = true) w es)
    (hrun : run (api env).step w es = some v) :
    v.state.db.Holds userId row ∧ SaltsRead userId row id v.history := by
  refine run_invariant_along ⟨hh, hs⟩ ?_ hkeeps hrun
  intro t ev t' ht hc hstep
  have hm := moved_of_step hstep
  exact ⟨holds_step hm hc ht.1, saltsRead_step hm ht.1 ht.2⟩

/-- A restore that was answered names the token it drew, and the salts that it read. -/
theorem token_of_begun (hrun : run (api env).step (Host.start .initial) es = some w)
    (hstands : w.stands id = some (.createRestoreToken userId ttlSecs))
    (hstep : (api env).step w (.act id mint) = some v) {after : List ApiEvent} {x : World}
    (hafter : run (api env).step v after = some x) {sessionToken saltA saltPa : Text}
    (hanswer : .answered id (.ok (.restoreBegun token sessionToken saltA saltPa)) ∈ x.history) :
    token = mint.token ∧ ∃ amb salts,
      .did id amb (.statement (.backupSalts userId)) (.ok (some salts)) ∈ x.history ∧
      saltA = env.b64Encode salts.1 ∧ saltPa = env.b64Encode salts.2 := by
  have hv : run (api env).step (Host.start .initial) (es ++ [.act id mint]) = some v := by
    rw [run_snoc, hrun]
    exact hstep
  have hx : run (api env).step (Host.start .initial) (es ++ [.act id mint] ++ after) = some x := by
    rw [run_append, hv]
    exact hafter
  obtain ⟨rest, hrest⟩ := history_run hafter
  obtain ⟨next, hpending⟩ := stands_eq_some.mp hstands
  -- the token is in the history, and the answer is not, once the token is drawn
  have hdrawn : .did id mint (.createRestoreToken userId ttlSecs) mint.token ∈ v.history ∧
      ∀ o, .answered id o ∉ v.history := by
    have hsilent := (run_lawful (handle_inTurn env) hv).silent
    cases moved_of_step hstep with
    | @did _ _ a next' at_ =>
      cases hpending.symm.trans at_
      exact ⟨mem_append_right _ (mem_singleton_self _), hsilent id _ (update_self ..)⟩
  rw [← hrest] at hanswer
  obtain ⟨mid, post, hsplit⟩ := append_of_mem ((mem_append.mp hanswer).resolve_left (hdrawn.2 _))
  obtain ⟨-, request, -, before, userId', ttlSecs', salts, hpast, honce, hsalts, hA, hPa⟩ :=
    (run_lawful (handle_inTurn env) hx).history (v.history ++ mid) _ post
      (by rw [← hrest, hsplit, append_assoc])
  have hmint : (⟨.createRestoreToken userId ttlSecs, mint.token⟩ : Σ a : Action, a.Result) ∈
      own id (v.history ++ mid) := mem_own.mpr ⟨mint, mem_append_left _ hdrawn.1⟩
  rw [hpast] at hmint
  rcases mem_append.mp hmint with hmint | hmint
  · exact absurd rfl (honce _ hmint userId ttlSecs mint.token)
  · cases mem_singleton.mp hmint
    have hread : (⟨.statement (.backupSalts userId), .ok (some salts)⟩ : Σ a : Action, a.Result) ∈
        own id (v.history ++ mid) := hpast ▸ mem_append_left _ hsalts
    obtain ⟨amb, hmem⟩ := mem_own.mp hread
    refine ⟨rfl, amb, salts, ?_, hA, hPa⟩
    rw [← hrest, hsplit, ← append_assoc]
    exact mem_append_left _ hmem

theorem held_of_drawn (hstands : w.stands id = some (.createRestoreToken userId ttlSecs))
    (hstep : (api env).step w (.act id mint) = some v) :
    v.state.restoreTokens mint.token = some (userId, mint.now + ttlSecs) := by
  obtain ⟨next, hpending⟩ := stands_eq_some.mp hstands
  cases moved_of_step hstep with
  | @did _ _ a next' at_ =>
    cases hpending.symm.trans at_
    exact update_self ..

theorem Completion.onCourse_run {c : Completion env} {expiresAt : ℤ}
    (hproof : c.auth = if c.isPin then row.authPinHash else row.authPhraseHash)
    (hholds : w.state.db.Holds userId row) (hcourse : c.OnCourse userId row expiresAt w)
    (hkeeps : Along (api env).step (fun w ev => keepsBundle userId w ev = true) w es)
    (hcalm : Along (api env).step (fun w ev =>
      undisturbed c.token expiresAt c.id w ev = true) w es)
    (harrive : ∀ request, .arrive c.id request ∈ es → request = c.request)
    (hrun : run (api env).step w es = some v) : c.OnCourse userId row expiresAt v := by
  induction es generalizing w with
  | nil =>
    cases hrun
    exact hcourse
  | cons ev es ih =>
    obtain ⟨t, hstep, hrest⟩ := bind_eq_some_iff.mp hrun
    have hm := moved_of_step hstep
    refine ih (holds_step hm hkeeps.1 hholds) ?_ (hkeeps.2 t hstep) (hcalm.2 t hstep) ?_ hrest
    · refine hcourse.step hproof hholds hm hcalm.1 fun request hev => ?_
      exact harrive request (hev ▸ mem_cons_self)
    · exact fun request hmem => harrive request (mem_cons_of_mem _ hmem)

/-- An upload that reached the database, a restore begun after it and answered, and a run up to
now in which the bundle is not replaced and the token not disturbed. -/
structure Handshake (env : Env) where
  userId : UserId
  authorization : Option Text
  upload : BackupPutRequest
  row : BackupRow
  ttlSecs : ℤ
  /-- The requests that upload, that begin the restore, and that complete it. -/
  put : ℕ
  opener : ℕ
  owner : ℕ
  stored : Ambient
  drawn : Ambient
  before : List ApiEvent
  between : List ApiEvent
  after : List ApiEvent
  uploading : World
  uploaded : World
  drawing : World
  drew : World
  now : World
  token : Text
  sessionToken : Text
  saltA : Text
  saltPa : Text
  run_before : run (api env).step (Host.start .initial) before = some uploading
  arrived : .arrived put (.putBackup authorization upload) ∈ uploading.history
  uploads : uploading.stands put = some (.statement (.upsertBackup userId row))
  reaches : stored.fate ≠ .failed
  step_stored : (api env).step uploading (.act put stored) = some uploaded
  opens_later : begun opener uploaded.history = false
  run_between : run (api env).step uploaded between = some drawing
  draws : drawing.stands opener = some (.createRestoreToken userId ttlSecs)
  step_drawn : (api env).step drawing (.act opener drawn) = some drew
  completes_later : begun owner drew.history = false
  run_after : run (api env).step drew after = some now
  answered : .answered opener (.ok (.restoreBegun token sessionToken saltA saltPa)) ∈ now.history
  keeps : Along (api env).step (fun w ev => keepsBundle userId w ev = true) uploaded
    (between ++ .act opener drawn :: after)
  quiet : Along (api env).step
    (fun w ev => undisturbed token (drawn.now + ttlSecs) owner w ev = true)
    drew after

namespace Handshake
variable (j : Handshake env)

def expiresAt : ℤ := j.drawn.now + j.ttlSecs

theorem run_uploaded :
    run (api env).step (Host.start .initial) (j.before ++ [.act j.put j.stored]) =
      some j.uploaded := by
  rw [run_snoc, j.run_before]
  exact j.step_stored

theorem run_drawing :
    run (api env).step (Host.start .initial) (j.before ++ [.act j.put j.stored] ++ j.between) =
      some j.drawing := by
  rw [run_append, j.run_uploaded]
  exact j.run_between

theorem run_drew :
    run (api env).step (Host.start .initial)
      (j.before ++ [.act j.put j.stored] ++ j.between ++ [.act j.opener j.drawn]) =
        some j.drew := by
  rw [run_snoc, j.run_drawing]
  exact j.step_drawn

theorem run_since : run (api env).step j.uploaded (j.between ++ .act j.opener j.drawn :: j.after) =
    some j.now := by
  rw [run_append, j.run_between, bind_some, run, j.step_drawn, bind_some, j.run_after]

theorem upload_row : j.upload.row env = some j.row := by
  obtain ⟨request, harrived, authorization, upload, rfl, -, hrow⟩ :=
    (run_lawful (handle_inTurn env) j.run_before).stands j.uploads
  have hsame := arrived_unique (run_lawful (handle_inTurn env) j.run_before).history
    harrived j.arrived
  cases hsame
  exact hrow

theorem holds_uploaded : j.uploaded.state.db.Holds j.userId j.row :=
  holds_of_upload j.run_before j.uploads j.reaches j.step_stored

theorem salts_uploaded : SaltsRead j.userId j.row j.opener j.uploaded.history := by
  intro amb salts hmem
  have hnone := own_of_not_begun
    (run_lawful (handle_inTurn env) j.run_uploaded).history j.opens_later
  have hown := mem_own.mpr ⟨amb, hmem⟩
  rw [hnone] at hown
  exact absurd hown not_mem_nil

theorem holds_now : j.now.state.db.Holds j.userId j.row ∧
    SaltsRead j.userId j.row j.opener j.now.history :=
  holds_run j.holds_uploaded j.salts_uploaded j.keeps j.run_since

theorem begun_with : j.token = j.drawn.token ∧ j.saltA = env.b64Encode j.row.saltA ∧
    j.saltPa = env.b64Encode j.row.saltPa := by
  obtain ⟨htoken, amb, salts, hread, hA, hPa⟩ :=
    token_of_begun j.run_drawing j.draws j.step_drawn j.run_after j.answered
  have hsalts := j.holds_now.2 amb salts hread
  rw [hsalts] at hA hPa
  exact ⟨htoken, hA, hPa⟩

theorem onCourse {c : Completion env} (hid : c.id = j.owner) (htoken : c.token = j.token)
    (hproof : c.auth = if c.isPin then j.row.authPinHash else j.row.authPhraseHash)
    (harrive : ∀ request, .arrive j.owner request ∈ j.after → request = c.request) :
    c.OnCourse j.userId j.row j.expiresAt j.now := by
  have hlawful := run_lawful (handle_inTurn env) j.run_drew
  have hfresh : begun c.id j.drew.history = false := hid ▸ j.completes_later
  have hheld : c.Held j.userId j.expiresAt j.drew := by
    rw [Completion.Held, htoken, j.begun_with.1]
    exact held_of_drawn j.draws j.step_drawn
  have hnot : ∀ p, j.drew.pending c.id ≠ some p := by
    intro p hp
    obtain ⟨request, hr, -⟩ := hlawful.pending c.id p hp
    cases hfresh.symm.trans (begun_iff.mpr ⟨request, hr⟩)
  have hstart : c.OnCourse j.userId j.row j.expiresAt j.drew :=
    ⟨fun p hp => absurd hp (hnot p), fun _ => hheld, fun p hp => absurd hp (hnot p),
      fun o ho => absurd ho (not_answered_of_not_begun hlawful.history hfresh o)⟩
  have hsplit : j.between ++ .act j.opener j.drawn :: j.after =
      j.between ++ [.act j.opener j.drawn] ++ j.after := by simp
  have hrun : run (api env).step j.uploaded (j.between ++ [.act j.opener j.drawn]) =
      some j.drew := by
    rw [run_snoc, j.run_between]
    exact j.step_drawn
  have hkeeps := hsplit ▸ j.keeps
  have hholds := (holds_run j.holds_uploaded j.salts_uploaded (along_of_append hkeeps) hrun).1
  refine Completion.onCourse_run hproof hholds hstart (along_after hkeeps hrun) ?_ ?_ j.run_after
  · rw [htoken, hid]
    exact j.quiet
  · rwa [hid]

end Handshake
end Way

/-! ## Where a bundle comes from -/
section Origin
variable {h : List Record}

/-- A request that presented a token of the user sent the bundle, and wrote it. -/
def Uploaded (env : Env) (userId : UserId) (row : BackupRow) (h : List Record) : Prop :=
  ∃ pre id amb r post authorization upload,
    h = pre ++ .did id amb (.statement (.upsertBackup userId row)) r :: post ∧
    .arrived id (.putBackup authorization upload) ∈ pre ∧
    Authenticated authorization (own id pre) userId ∧ upload.row env = some row

theorem Uploaded.snoc (hu : Uploaded env userId row h) (x : Record) :
    Uploaded env userId row (h ++ [x]) := by
  obtain ⟨pre, id, amb, r, post, authorization, upload, rfl, hup⟩ := hu
  exact ⟨pre, id, amb, r, post ++ [x], authorization, upload, by simp, hup⟩

/-- A statement leaves the bundles that it found, erases one or uploads one. -/
theorem Effect.holds_cases {db db' : Database} {st : Statement} (h : Effect amb db st db')
    (hh : db'.Holds userId row) : db.Holds userId row ∨ st = .upsertBackup userId row := by
  obtain ⟨record, hrecord, rfl⟩ := hh
  cases h with
  | @uploaded id row' =>
    by_cases hid : userId = id
    · subst hid
      simp only [update_self, some.injEq] at hrecord
      subst hrecord
      exact .inr rfl
    · exact .inl ⟨record, (update_of_ne hid _ _).symm.trans hrecord, rfl⟩
  | @checked id auth isPin old held =>
    by_cases hid : userId = id
    · subst hid
      simp only [update_self, some.injEq] at hrecord
      subst hrecord
      exact .inl ⟨old, held, (old.verifyAuth_row auth isPin amb.now).symm⟩
    · exact .inl ⟨record, (update_of_ne hid _ _).symm.trans hrecord, rfl⟩
  | @erased id =>
    by_cases hid : userId = id
    · subst hid
      cases (update_self ..).symm.trans hrecord
    · exact .inl ⟨record, (update_of_ne hid _ _).symm.trans hrecord, rfl⟩
  | _ => exact .inl ⟨record, hrecord, rfl⟩

/-- In every run, whatever the interleaving and the failures, a stored bundle is one that its user
has sent, and the user is verified. -/
theorem stored_bundle_is_owners (env : Env) {es : List ApiEvent} {w : World}
    (hrun : run (api env).step (Host.start .initial) es = some w) {userId : UserId}
    {record : BackupRecord} (hb : w.state.db.backups userId = some record) :
    w.state.db.Vouched userId ∧ Uploaded env userId record.row w.history := by
  refine ⟨(VerifiedTold.run hrun).backups userId record hb, ?_⟩
  have htold := Host.run_keeps
    (I := fun s h => ∀ userId row, s.db.Holds userId row → Uploaded env userId row h)
    (handle_inTurn env) (fun _ _ ⟨_, hnone, _⟩ => nomatch hnone)
    ⟨fun _ _ _ _ hI userId row hh => (hI userId row hh).snoc _, ?_,
      fun _ _ _ _ _ hI _ _ userId row hh => (hI userId row hh).snoc _, fun _ _ hI => hI⟩ hrun
  · exact htold userId record.row ⟨record, hb, rfl⟩
  -- only an upload brings in a bundle, and it is made in turn
  intro s h id amb a request _ hI harrived hturn userId row hh
  rcases exec_takes env amb a s with heq | ⟨st, rfl, htakes⟩
  · exact (hI userId row (heq ▸ hh)).snoc _
  · rcases htakes.effect.holds_cases hh with hold | rfl
    · exact (hI userId row hold).snoc _
    · obtain ⟨authorization, upload, rfl, hauth, hrow⟩ := hturn
      exact ⟨h, id, amb, _, [], authorization, upload, rfl, harrived, hauth, hrow⟩

theorem stored_bundle_is_owners_restoring : ∃ w record,
    run (api sampleEnv).step (Host.start .initial) restoreBegun = some w ∧
      w.state.db.backups 1 = some record ∧ Uploaded sampleEnv 1 record.row w.history := by
  obtain ⟨w, hrun, hheld⟩ : ∃ w, run (api sampleEnv).step (Host.start .initial) restoreBegun =
      some w ∧ (w.state.db.backups 1).isSome = true := by decide +kernel
  obtain ⟨record, hb⟩ := isSome_iff_exists.mp hheld
  exact ⟨w, record, hrun, hb, (stored_bundle_is_owners sampleEnv hrun hb).2⟩

end Origin
end Rosette.Directory
