import Rosette.Directory.Effects
import Rosette.Directory.Turns

/-! # What a session token proves

A session row is written at the end of a path on which the vendor approved a code, for
the user that the hash of that number led to. A row keeps its phone hash for as long as
it is live, and an erasure is final, so a token that still resolves carries all of it.
-/
namespace Rosette.Directory
open Foundation Program List Option Function

variable {hash token : Text} {amb : Ambient} {userId : UserId} {h : List Record} {x : Record}

namespace Users

/-- Every row is still there, and a live one is the live row it was. -/
def Follows (u u' : Users) : Prop :=
  ∀ id r, u.row id = some r → ∃ r', u'.row id = some r' ∧
    (r'.live = true → r.live = true ∧ r'.phoneHash = r.phoneHash)

variable {u u' : Users}

theorem Follows.of_row_eq (h : u'.row = u.row) : u.Follows u' :=
  fun id r hr => ⟨r, by rw [h, hr], fun hl => ⟨hl, rfl⟩⟩

theorem Follows.insert {now : ℤ} (h : u.liveWith hash = none) :
    u.Follows (u.insert hash now h) := by
  intro id r hr
  refine ⟨r, ?_, fun hl => ⟨hl, rfl⟩⟩
  have hne : id ≠ u.next := by
    rintro rfl
    simp [u.unassigned _ le_rfl] at hr
  rw [insert_row, update_of_ne hne, hr]

theorem Follows.modify {id : UserId} {f : UserRow → UserRow}
    (hf : ∀ r, (f r).live = true → r.live = true ∧ (f r).phoneHash = r.phoneHash) :
    u.Follows (u.modify id f hf) := by
  intro i r hr
  rw [modify_row, update_apply]
  split_ifs with hi
  · subst hi
    exact ⟨f r, by rw [hr, map_some], hf r⟩
  · exact ⟨r, hr, fun hl => ⟨hl, rfl⟩⟩

end Users

section Tables
variable {db db' : Database} {s : Statement}

theorem Effect.users (h : Effect amb db s db') : db.users.Follows db'.users := by
  cases h with
  | created free => exact .insert free
  | verified | claimed | searchable =>
    refine .modify ?_
    exact fun _ hl => ⟨hl, rfl⟩
  | erased => exact .modify fun _ hl => by cases hl
  | _ => exact .of_row_eq rfl

theorem Effect.sessions (h : Effect amb db s db') {row : SessionRow}
    (hrow : db'.sessions token = some row) : db.sessions token = some row ∨
      s = .createSession row.userId ∧ amb.token = token ∧ amb.now = row.createdAt := by
  cases h with
  | opened =>
    simp only [update_apply] at hrow
    split_ifs at hrow with ht
    · cases hrow
      exact .inr ⟨rfl, ht.symm, rfl⟩
    · exact .inl hrow
  | erased => exact .inl (filter_eq_some_iff.mp hrow).1
  | _ => exact .inl hrow

theorem liveWith_of_findOrCreate
    (h : ((Statement.findOrCreatePendingUser hash).exec amb db).1 = .ok userId) :
    ((Statement.findOrCreatePendingUser hash).exec amb db).2.users.liveWith hash =
      some userId := by
  have hrun := Statement.run_of_exec h
  generalize ((Statement.findOrCreatePendingUser hash).exec amb db).2 = db' at hrun ⊢
  cases hl : db.users.liveWith hash with
  | some =>
    simp only [Statement.run, Database.findOrCreatePendingUser_found hl, Except.ok.injEq,
      Prod.mk.injEq] at hrun
    obtain ⟨rfl, rfl⟩ := hrun
    have hrow := Users.liveWith_eq_some.mp hl
    exact Users.liveWith_eq_some.mpr hrow
  | none =>
    simp only [Statement.run, Database.findOrCreatePendingUser_created hl, Except.ok.injEq,
      Prod.mk.injEq] at hrun
    obtain ⟨rfl, rfl⟩ := hrun
    exact Users.liveWith_eq_some.mpr ⟨_, update_self .., rfl, rfl⟩

theorem liveWith_of_findUser
    (h : ((Statement.findUserByPhoneHash hash).exec amb db).1 = .ok (some userId)) :
    ((Statement.findUserByPhoneHash hash).exec amb db).2.users.liveWith hash = some userId := by
  have hrun := Statement.run_of_exec h
  simp only [Statement.run, Except.ok.injEq, Prod.mk.injEq] at hrun
  rw [← hrun.2]
  exact hrun.1

end Tables

def Erases (userId : UserId) : Record → Prop
  | .did _ amb (.statement (.eraseUser id)) _ => id = userId ∧ amb.fate ≠ .failed
  | _ => False

def Leads (hash : Text) (userId : UserId) : Record → Prop
  | .did _ _ (.statement (.findOrCreatePendingUser h)) r => h = hash ∧ r = .ok userId
  | .did _ _ (.statement (.findUserByPhoneHash h)) r => h = hash ∧ r = .ok (some userId)
  | _ => False

/-- The token was drawn for the user at that time, and the user has not been erased since. -/
def Minted (h : List Record) (token : Text) (userId : UserId) (createdAt : ℤ) : Prop :=
  ∃ pre id amb r post, h = pre ++ .did id amb (.statement (.createSession userId)) r :: post ∧
    amb.token = token ∧ amb.now = createdAt ∧ ∀ x ∈ post, ¬ Erases userId x

theorem Minted.snoc {createdAt : ℤ} (hm : Minted h token userId createdAt)
    (hx : ¬ Erases userId x) :
    Minted (h ++ [x]) token userId createdAt := by
  obtain ⟨pre, id, amb, r, post, rfl, htoken, hat, hpost⟩ := hm
  refine ⟨pre, id, amb, r, post ++ [x], by simp, htoken, hat, ?_⟩
  intro y hy
  rcases mem_append.mp hy with hy | hy
  · exact hpost y hy
  · rw [mem_singleton.mp hy]
    exact hx

/-- The tables and the history tell the same story. -/
structure SessionsTold (s : AppState) (h : List Record) : Prop where
  minted : ∀ token row, s.db.sessions token = some row → ∃ r, s.db.users.row row.userId = some r ∧
    (r.live = true → Minted h token row.userId row.createdAt)
  led : ∀ x hash userId, x ∈ h → Leads hash userId x → ∃ r, s.db.users.row userId = some r ∧
    (r.live = true → r.phoneHash = hash)

namespace SessionsTold
variable {env : Env} {s : AppState} {id : ℕ} {a : Action} {request : Request}

theorem initial : SessionsTold .initial [] where
  minted := fun _ _ hrow => by cases hrow
  led := fun _ _ _ hx => by cases hx

theorem idle (hs : SessionsTold s h) (hx : ∀ id amb a r, x ≠ .did id amb a r) :
    SessionsTold s (h ++ [x]) where
  minted token row hrow := by
    obtain ⟨r, hr, hm⟩ := hs.minted token row hrow
    refine ⟨r, hr, fun hl => (hm hl).snoc ?_⟩
    cases x with
    | did id amb a r => exact absurd rfl (hx id amb a r)
    | arrived | answered => exact not_false
  led y hash userId hy hlead := by
    rcases mem_append.mp hy with hy | hy
    · exact hs.led y hash userId hy hlead
    · rw [mem_singleton.mp hy] at hlead
      cases x with
      | did id amb a r => exact absurd rfl (hx id amb a r)
      | arrived | answered => exact hlead.elim

theorem users_follow (env : Env) (amb : Ambient) (a : Action) (s : AppState) :
    s.db.users.Follows (exec env amb a s).2.db.users := by
  rcases exec_takes env amb a s with heq | ⟨st, -, htakes⟩
  · rw [heq]
    exact .of_row_eq rfl
  · exact htakes.effect.users

theorem not_live_of_erases {r : UserRow} (hx : Erases userId (.did id amb a (exec env amb a s).1))
    (hr : (exec env amb a s).2.db.users.row userId = some r) : r.live = false := by
  cases a with
  | statement st =>
    cases st with
    | eraseUser u =>
      obtain ⟨rfl, hfate⟩ := hx
      have hdb : (exec env amb (.statement (.eraseUser u)) s).2.db = s.db.eraseUser u amb.now :=
        Statement.exec_of_run hfate rfl
      rw [hdb, Database.eraseUser, Users.modify_row, update_self] at hr
      obtain ⟨r', -, rfl⟩ := map_eq_some_iff.mp hr
      rfl
    | _ => exact hx.elim
  | _ => exact hx.elim

theorem row_of_leads (hx : Leads hash userId (.did id amb a (exec env amb a s).1)) :
    ∃ r, (exec env amb a s).2.db.users.row userId = some r ∧
      (r.live = true → r.phoneHash = hash) := by
  have hlive : (exec env amb a s).2.db.users.liveWith hash = some userId := by
    cases a with
    | statement st =>
      cases st with
      | findOrCreatePendingUser =>
        obtain ⟨rfl, hr⟩ := hx
        exact liveWith_of_findOrCreate hr
      | findUserByPhoneHash =>
        obtain ⟨rfl, hr⟩ := hx
        exact liveWith_of_findUser hr
      | _ => exact hx.elim
    | _ => exact hx.elim
  obtain ⟨r, hr, -, hh⟩ := Users.liveWith_eq_some.mp hlive
  exact ⟨r, hr, fun _ => hh⟩

theorem leads_of_inTurn
    (hturn : InTurn env request (own id h) (.statement (.createSession userId))) :
    request.opensSession ∧ ∃ hash, Approved env (own id h) hash ∧
      ∃ x ∈ h, Leads hash userId x := by
  obtain ⟨hopens, hash, happroved, hfound | hfound⟩ := hturn.1
  · obtain ⟨amb, hmem⟩ := mem_own.mp hfound
    exact ⟨hopens, hash, happroved, _, hmem, rfl, rfl⟩
  · obtain ⟨amb, hmem⟩ := mem_own.mp hfound
    exact ⟨hopens, hash, happroved, _, hmem, rfl, rfl⟩

theorem acted (hs : SessionsTold s h) (hturn : InTurn env request (own id h) a) :
    SessionsTold (exec env amb a s).2 (h ++ [.did id amb a (exec env amb a s).1]) where
  minted token row hrow := by
    have hold : s.db.sessions token = some row ∨
        a = .statement (.createSession row.userId) ∧ amb.token = token ∧
          amb.now = row.createdAt := by
      rcases exec_takes env amb a s with heq | ⟨st, rfl, htakes⟩
      · exact .inl (heq ▸ hrow)
      · rcases htakes.effect.sessions hrow with hsame | ⟨rfl, htoken, hat⟩
        · exact .inl hsame
        · exact .inr ⟨rfl, htoken, hat⟩
    rcases hold with hold | ⟨rfl, htoken, hat⟩
    · obtain ⟨r, hr, hm⟩ := hs.minted token row hold
      obtain ⟨r', hr', hlive⟩ := users_follow env amb a s row.userId r hr
      refine ⟨r', hr', fun hl => (hm (hlive hl).1).snoc fun hx => ?_⟩
      simp [not_live_of_erases hx hr'] at hl
    · obtain ⟨-, hash, -, x, hx, hlead⟩ := leads_of_inTurn hturn
      obtain ⟨r, hr, -⟩ := hs.led x hash row.userId hx hlead
      obtain ⟨r', hr', -⟩ := users_follow env amb _ s row.userId r hr
      exact ⟨r', hr', fun _ => ⟨h, id, amb, _, [], rfl, htoken, hat, by simp⟩⟩
  led x hash userId hx hlead := by
    rcases mem_append.mp hx with hx | hx
    · obtain ⟨r, hr, hhash⟩ := hs.led x hash userId hx hlead
      obtain ⟨r', hr', hlive⟩ := users_follow env amb a s userId r hr
      refine ⟨r', hr', fun hl => ?_⟩
      rw [(hlive hl).2]
      exact hhash (hlive hl).1
    · rw [mem_singleton.mp hx] at hlead
      exact row_of_leads hlead

theorem run {es : List ApiEvent} {w : World}
    (hrun : run (api env).step (Host.start .initial) es = some w) :
    SessionsTold w.state w.history :=
  Host.run_keeps (handle_inTurn env) initial
    ⟨fun _ _ _ _ hs => hs.idle (fun _ _ _ _ hx => by cases hx),
      fun _ _ _ _ _ _ _ hs _ hturn => hs.acted hturn,
      fun _ _ _ _ _ hs _ _ => hs.idle (fun _ _ _ _ hx => by cases hx),
      fun _ _ hs => ⟨hs.minted, hs.led⟩⟩ hrun

end SessionsTold

/-- A token that resolves was drawn within its lifetime by a request whose code the vendor
approved, for a number whose hash is the one in the user's row, and the user has not been
erased since. -/
theorem session_proves_code (env : Env) {es : List ApiEvent} {w : World}
    (hrun : run (api env).step (Host.start .initial) es = some w) {amb : Ambient} {token : Text}
    {userId : UserId}
    (hresolved : (exec env amb (.statement (.sessionUserId token)) w.state).1 =
      .ok (some userId)) :
    ∃ row pre id request e164 code check mint r post,
      w.state.db.users.row userId = some row ∧
      w.history = pre ++ .did id mint (.statement (.createSession userId)) r :: post ∧
      mint.token = token ∧ amb.now - sessionTtlDays * 24 * 3600 < mint.now ∧
      .arrived id request ∈ pre ∧ request.opensSession ∧
      .did id check (.verifyCode e164 code) (.ok true) ∈ pre ∧
      env.phoneHash e164 = some row.phoneHash ∧
      ∀ x ∈ post, ¬ Erases userId x := by
  have htold := SessionsTold.run hrun
  have horder := (Host.run_lawful (handle_inTurn env) hrun).history
  have hlookup := Statement.run_of_exec hresolved
  simp only [Statement.run, Except.ok.injEq, Prod.mk.injEq] at hlookup
  obtain ⟨session, hsession, hvalid⟩ := bind_eq_some_iff.mp hlookup.1
  split_ifs at hvalid with hcheck
  cases hvalid
  obtain ⟨row, hrow, hlive⟩ := (any_eq_true _ _).mp hcheck.2
  obtain ⟨row', hrow', hminted⟩ := htold.minted token session hsession
  obtain rfl := Option.mem_unique hrow hrow'
  obtain ⟨pre, id, mint, r, post, hsplit, htoken, hat, hpost⟩ := hminted hlive
  obtain ⟨request, harrived, hturn⟩ := horder pre _ post hsplit
  obtain ⟨hopens, hash, ⟨e164, code, hcode, hhash⟩, x, hx, hlead⟩ :=
    SessionsTold.leads_of_inTurn hturn
  obtain ⟨check, hcode⟩ := mem_own.mp hcode
  -- the lookup of the same request fixes the hash in the row
  have hled : row.phoneHash = hash := by
    obtain ⟨row', hrow', hphone⟩ :=
      htold.led x hash session.userId (by rw [hsplit]; exact mem_append_left _ hx) hlead
    obtain rfl := mem_unique hrow hrow'
    exact hphone hlive
  refine ⟨row, pre, id, request, e164, code, check, mint, r, post, hrow, hsplit, htoken, ?_,
    harrived, hopens, hcode, hled ▸ hhash, hpost⟩
  rw [hat]
  exact hcheck.1

section Sample

def sampleEnv : Env where
  accountsEnabled := true
  searchEnabled := true
  phoneHash := some
  phoneRateKey := length
  ipRateKey := id
  b64Decode := fun text => some (text.map (fun c => UInt8.ofNat c.toNat))
  b64Encode := map (fun b => Char.ofNat b.toNat)
  attestationKey := none
  sign := fun _ _ => []

def samplePhone : Text := ['+', '1', '2', '3', '4', '5', '6', '7', '8']

def sampleBearer : Option Text := some (bearer ++ ['s'])

def calm (now : ℤ) (token : Text) : Ambient := ⟨now, 0, token, [], .ok (), .ok true, .answered⟩

/-- A request that arrives and takes some steps without interruption. -/
def serve (id : ℕ) (request : Request) (steps : ℕ) (amb : Ambient) : List ApiEvent :=
  .arrive id request :: replicate steps (.act id amb)

def verifiedRun : List ApiEvent :=
  serve 0 (.verify 0 samplePhone ['1']) 7 (calm 0 ['s']) ++ [.answer 0]

theorem session_proves_code_verify : ∃ w,
    run (api sampleEnv).step (Host.start .initial) verifiedRun = some w ∧
      ∃ row e164 id check code, w.state.db.users.row 1 = some row ∧
        sampleEnv.phoneHash e164 = some row.phoneHash ∧
        .did id check (.verifyCode e164 code) (.ok true) ∈ w.history := by
  obtain ⟨w, hrun, hresolves⟩ :
      ∃ w, run (api sampleEnv).step (Host.start .initial) verifiedRun = some w ∧
      w.state.db.sessionUserId ['s'] 60 == some 1 := by decide +kernel
  have hresolved : (exec sampleEnv (calm 60 []) (.statement (.sessionUserId ['s'])) w.state).1 =
      .ok (some 1) := congrArg Except.ok (eq_of_beq hresolves)
  obtain ⟨row, pre, id, request, e164, code, check, mint, r, post, hrow, hsplit, -, -, -, -, hcode,
    hhash, -⟩ := session_proves_code sampleEnv hrun hresolved
  refine ⟨w, hrun, row, e164, id, check, code, hrow, hhash, ?_⟩
  rw [hsplit]
  exact mem_append_left _ hcode

end Sample
end Rosette.Directory
