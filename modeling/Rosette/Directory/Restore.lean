import Rosette.Directory.Lockout
import Rosette.Directory.Sessions

/-! # Restoring a backup

A restore takes two requests. The first proves the phone number and leaves a token in the
process's memory; the second presents the token and a proof of the PIN or the phrase, and
is answered with the ciphertexts of the row the proof was compared with. Reading the token
and removing it are two accesses to the map with a transaction between them.
-/
namespace Rosette.Directory
open Foundation Program List Option Function Host

variable {auth : List UInt8} {isPin : Bool} {row : BackupRow} {amb : Ambient} {a : Action}
  {s : AppState} {es : List ApiEvent} {w : World} {id : ℕ}

theorem BackupRecord.verifyAuth_matched {b : BackupRecord} {now : ℤ}
    (h : (b.verifyAuth auth isPin now).1 = .matched row) :
    row = b.row ∧ auth = b.authHash isPin ∧
      (isPin = true → ∀ until_, b.lockedUntil = some until_ → until_ ≤ now) := by
  unfold verifyAuth at h
  split at h
  · cases h
  · rename_i hfree
    split_ifs at h with heq
    · cases h
      refine ⟨rfl, ctEq_eq_true.mp heq, ?_⟩
      rintro rfl until_ hu
      by_contra hlt
      rw [if_pos rfl] at hfree
      have := lockedAt_eq_some.mpr ⟨hu, (by omega : now < until_)⟩
      simp [hfree] at this
    · dsimp only at h
      split_ifs at h

section Tokens
variable {env : Env} {token : Text}

/-- An entry of the token map is an old one or the one just drawn. -/
theorem restoreTokens_cases {x : UserId × ℤ}
    (h : (exec env amb a s).2.restoreTokens token = some x) :
    s.restoreTokens token = some x ∨ ∃ userId ttlSecs,
      a = .createRestoreToken userId ttlSecs ∧ amb.token = token ∧
        x = (userId, amb.now + ttlSecs) := by
  cases a with
  | createRestoreToken userId ttlSecs =>
    simp only [exec, AppState.createRestoreToken, update_apply] at h
    split_ifs at h with ht
    · exact .inr ⟨userId, ttlSecs, rfl, ht.symm, (some.inj h).symm⟩
    · exact .inl h
  | restoreTokenUser =>
    left
    simp only [exec, AppState.restoreTokenUser] at h
    split at h
    · split_ifs at h
      · exact h
      · simp only [update_apply] at h
        split_ifs at h
        exact h
    · exact h
  | consumeRestoreToken =>
    left
    simp only [exec, AppState.consumeRestoreToken, update_apply] at h
    split_ifs at h
    exact h
  | _ => exact .inl h

theorem restoreTokenUser_eq_some {userId : UserId}
    (h : (s.restoreTokenUser amb token).1 = some userId) :
    ∃ expiresAt, s.restoreTokens token = some (userId, expiresAt) ∧ amb.now < expiresAt := by
  unfold AppState.restoreTokenUser at h
  split at h
  · rename_i u expiresAt hentry
    split_ifs at h with hlt
    cases h
    exact ⟨expiresAt, hentry, hlt⟩
  · cases h

theorem restoreTokens_of_spares (h : Spares ⟨a, (exec env amb a s).1⟩) :
    (exec env amb a s).2.restoreTokens = s.restoreTokens := by
  cases a with
  | createRestoreToken | consumeRestoreToken => exact h.elim
  | restoreTokenUser =>
    obtain ⟨userId, hsome⟩ := ne_none_iff_exists'.mp h
    obtain ⟨expiresAt, hentry, hlt⟩ := restoreTokenUser_eq_some hsome
    simp only [exec, AppState.restoreTokenUser, hentry, if_pos hlt]
  | _ => rfl

end Tokens

/-- The token was drawn for the user with that expiry. -/
def Drawn (h : List Record) (token : Text) (userId : UserId) (expiresAt : ℤ) : Prop :=
  ∃ id mint ttlSecs, .did id mint (.createRestoreToken userId ttlSecs) token ∈ h ∧
    expiresAt = mint.now + ttlSecs

def TokensTold (s : AppState) (h : List Record) : Prop :=
  ∀ token userId expiresAt, s.restoreTokens token = some (userId, expiresAt) →
    Drawn h token userId expiresAt

variable {h : List Record} {token : Text} {userId : UserId} {expiresAt : ℤ} {env : Env}

theorem Drawn.snoc (hd : Drawn h token userId expiresAt) (x : Record) :
    Drawn (h ++ [x]) token userId expiresAt := by
  obtain ⟨id, mint, ttlSecs, hmem, heq⟩ := hd
  exact ⟨id, mint, ttlSecs, mem_append_left _ hmem, heq⟩

theorem TokensTold.acted (hs : TokensTold s h) (id : ℕ) (amb : Ambient) (a : Action) :
    TokensTold (exec env amb a s).2 (h ++ [.did id amb a (exec env amb a s).1]) := by
  intro token userId expiresAt hentry
  rcases restoreTokens_cases hentry with hold | ⟨u, ttlSecs, rfl, rfl, hx⟩
  · exact (hs token userId expiresAt hold).snoc _
  · cases hx
    exact ⟨id, amb, ttlSecs, mem_append_right _ (mem_singleton.mpr rfl), rfl⟩

theorem TokensTold.run (hrun : run (api env).step (Host.start .initial) es = some w) :
    TokensTold w.state w.history :=
  run_keeps (handle_inTurn env) (fun _ _ _ hentry => by cases hentry)
    ⟨fun _ _ _ _ hs t u e hentry => (hs t u e hentry).snoc _,
      fun _ _ id amb a _ _ hs _ _ => hs.acted id amb a,
      fun _ _ _ _ _ hs _ _ t u e hentry => (hs t u e hentry).snoc _,
      fun _ _ _ _ _ _ hentry => by cases hentry⟩ hrun

section Bundle
variable (env : Env) (es : List ApiEvent) (id : ℕ)

/-- The request compared the proof with the user's row as it stood then, met no lock if the
proof was of the PIN, and the bundle is that row's. -/
def Compared (userId : UserId) (auth : List UInt8) (isPin : Bool) (b : RestoreCompleteResponse) :
    Prop :=
  ∃ pre cmp post v record, es = pre ++ .act id cmp :: post ∧
    run (api env).step (Host.start .initial) pre = some v ∧
    v.stands id = some (.statement (.verifyBackupAuth userId auth isPin)) ∧
    v.state.db.backups userId = some record ∧ auth = record.authHash isPin ∧
    (isPin = true → ∀ until_, record.lockedUntil = some until_ → until_ ≤ cmp.now) ∧
    b = bundleOf env record.row

/-- The request looked the token up within its lifetime, after a first request had drawn it
for the user whose number the vendor approved a code for. -/
def Presented (token : Text) (userId : UserId) : Prop :=
  ∃ pre look post v first phone code mint e164 check hash found,
    es = pre ++ .act id look :: post ∧
    run (api env).step (Host.start .initial) pre = some v ∧
    v.stands id = some (.restoreTokenUser token) ∧
    .arrived first (.restoreBegin phone code) ∈ v.history ∧
    .did first mint (.createRestoreToken userId restoreTokenTtlSecs) token ∈ v.history ∧
    look.now < mint.now + restoreTokenTtlSecs ∧
    (∃ code, .did first check (.verifyCode e164 code) (.ok true) ∈ v.history) ∧
    env.phoneHash e164 = some hash ∧
    .did first found (.statement (.findUserByPhoneHash hash)) (.ok (some userId)) ∈ v.history

variable {env es id} (hrun : run (api env).step (Host.start .initial) es = some w) {userId : UserId}

include hrun

theorem compared_of_did {cmp : Ambient}
    (h : .did id cmp (.statement (.verifyBackupAuth userId auth isPin))
      (.ok (some (.matched row))) ∈ w.history) :
    Compared env es id userId auth isPin (bundleOf env row) := by
  obtain ⟨pre, post, v, hes, hpre, hat, hanswer⟩ := move_of_did hrun h
  have hrun' := Statement.run_of_exec hanswer
  simp only [Statement.run, Except.ok.injEq] at hrun'
  cases hb : v.state.db.backups userId with
  | none =>
    simp only [Database.verifyBackupAuth, hb] at hrun'
    cases hrun'
  | some record =>
    rw [verifyBackupAuth_eq hb, Prod.mk.injEq, some.injEq] at hrun'
    obtain ⟨rfl, heq, hfree⟩ := BackupRecord.verifyAuth_matched hrun'.1
    exact ⟨pre, cmp, post, v, record, hes, hpre, hat, hb, heq, hfree, rfl⟩

theorem presented_of_did {token : Text} {look : Ambient}
    (h : .did id look (.restoreTokenUser token) (some userId) ∈ w.history) :
    Presented env es id token userId := by
  obtain ⟨pre, post, v, hes, hpre, hat, hanswer⟩ := move_of_did hrun h
  obtain ⟨expiresAt, hentry, hlt⟩ := restoreTokenUser_eq_some hanswer
  obtain ⟨first, mint, ttlSecs, hmint, rfl⟩ := TokensTold.run hpre token userId expiresAt hentry
  -- the first request was in its turn when it drew the token
  obtain ⟨before, after, hsplit⟩ := append_of_mem hmint
  obtain ⟨request, harrived, hturn⟩ :=
    (run_lawful (handle_inTurn env) hpre).history before _ after hsplit
  obtain ⟨⟨phone, code, rfl⟩, rfl, hash, ⟨e164, code', hcode, hhash⟩, hfound⟩ := hturn
  obtain ⟨check, hcode⟩ := mem_own.mp hcode
  obtain ⟨found, hfound⟩ := mem_own.mp hfound
  have hin : ∀ x ∈ before, x ∈ v.history := fun x hx => by
    rw [hsplit]
    exact mem_append_left _ hx
  exact ⟨pre, look, post, v, first, phone, code, mint, e164, check, hash, found, hes, hpre, hat,
    hin _ harrived, hmint, hlt, ⟨code', hin _ hcode⟩, hhash, hin _ hfound⟩

/-- What lies behind an answer that carries a bundle. -/
theorem bundle_path {b : RestoreCompleteResponse} (h : .answered id (.ok (.bundle b)) ∈ w.history) :
    ∃ token method text userId auth isPin row look cmp done,
      .arrived id (.restoreComplete token method text) ∈ w.history ∧
      isPinMethod method = some isPin ∧ env.b64Decode text = some auth ∧ b = bundleOf env row ∧
      .did id look (.restoreTokenUser token) (some userId) ∈ w.history ∧
      .did id cmp (.statement (.verifyBackupAuth userId auth isPin))
        (.ok (some (.matched row))) ∈ w.history ∧
      .did id done (.consumeRestoreToken token) () ∈ w.history := by
  obtain ⟨pre, post, hsplit⟩ := append_of_mem h
  obtain ⟨-, request, harrived, hends⟩ :=
    (run_lawful (handle_inTurn env) hrun).history pre _ post hsplit
  obtain ⟨token, method, text, userId, auth, isPin, row, rfl, hmethod, htext, rfl, hpast⟩ := hends
  have hin : ∀ x ∈ pre, x ∈ w.history := fun x hx => by
    rw [hsplit]
    exact mem_append_left _ hx
  have hown : ∀ x ∈ own id pre, ∃ amb, .did id amb x.1 x.2 ∈ w.history := fun x hx => by
    obtain ⟨amb, hmem⟩ := mem_own.mp hx
    exact ⟨amb, hin _ hmem⟩
  obtain ⟨look, hlook⟩ := hown _ (by rw [hpast]; exact mem_cons_self)
  obtain ⟨cmp, hcmp⟩ := hown _ (by rw [hpast]; exact mem_cons_of_mem _ mem_cons_self)
  obtain ⟨done, hdone⟩ := hown _ (by
    rw [hpast]
    exact mem_cons_of_mem _ (mem_cons_of_mem _ mem_cons_self))
  exact ⟨token, method, text, userId, auth, isPin, row, look, cmp, done, hin _ harrived, hmethod,
    htext, rfl, hlook, hcmp, hdone⟩

end Bundle

/-- A bundle is answered only to a request that presented a live token of a user whose number
was proved, together with a proof that equals the hash stored for the user, and it is the
bundle of the row that proof was compared with. -/
theorem bundle_on_both_proofs (env : Env) {es : List ApiEvent} {w : World}
    (hrun : run (api env).step (Host.start .initial) es = some w) {id : ℕ}
    {b : RestoreCompleteResponse} (hanswer : .answered id (.ok (.bundle b)) ∈ w.history) :
    ∃ token method text userId auth isPin,
      .arrived id (.restoreComplete token method text) ∈ w.history ∧
      isPinMethod method = some isPin ∧ env.b64Decode text = some auth ∧
      Compared env es id userId auth isPin b ∧ Presented env es id token userId := by
  obtain ⟨token, method, text, userId, auth, isPin, row, look, cmp, done, harrived, hmethod, htext,
    rfl, hlook, hcmp, -⟩ := bundle_path hrun hanswer
  exact ⟨token, method, text, userId, auth, isPin, harrived, hmethod, htext,
    compared_of_did hrun hcmp, presented_of_did hrun hlook⟩

def bundleId : Record → Option ℕ
  | .answered id (.ok (.bundle _)) => some id
  | _ => none

def presents (h : List Record) (token : Text) (id : ℕ) : Bool :=
  h.any (fun
    | .arrived i (.restoreComplete t _ _) => i = id && t = token
    | _ => false)

def bundlesFor (token : Text) (h : List Record) : List ℕ :=
  (h.filterMap bundleId).filter (presents h token)

def drawnTokens (h : List Record) : List Text :=
  h.filterMap (fun
    | .did _ _ (.createRestoreToken _ _) token => some token
    | _ => none)

theorem Drawn.mem (hd : Drawn h token userId expiresAt) : token ∈ drawnTokens h := by
  obtain ⟨id, mint, ttlSecs, hmem, -⟩ := hd
  exact mem_filterMap.mpr ⟨_, hmem, rfl⟩

/-- Random tokens do not repeat. -/
def drawsFresh (w : World) : ApiEvent → Bool
  | .act id amb =>
    match w.stands id with
    | some (.createRestoreToken _ _) => decide (amb.token ∉ drawnTokens w.history)
    | _ => true
  | _ => true

/-- A token is still in the map when it is consumed. -/
def consumesHeld (w : World) : ApiEvent → Bool
  | .act id _ =>
    match w.stands id with
    | some (.consumeRestoreToken token) => (w.state.restoreTokens token).isSome
    | _ => true
  | _ => true

def Consumed (h : List Record) (token : Text) (id : ℕ) : Prop :=
  ∃ amb, .did id amb (.consumeRestoreToken token) () ∈ h

/-- A consumed token is out of the map for good, and one request consumed it. -/
structure SpentOnce (s : AppState) (h : List Record) : Prop where
  told : TokensTold s h
  gone : ∀ token id, Consumed h token id → s.restoreTokens token = none ∧ token ∈ drawnTokens h
  once : ∀ token i j, Consumed h token i → Consumed h token j → i = j

namespace SpentOnce
variable {env : Env} {h : List Record} {v : World} {e : ApiEvent}

theorem start : SpentOnce .initial [] where
  told := fun _ _ _ hentry => by cases hentry
  gone := fun _ _ hc => by
    obtain ⟨_, hmem⟩ := hc
    cases hmem
  once := fun _ _ _ hc => by
    obtain ⟨_, hmem⟩ := hc
    cases hmem

theorem idle (hs : SpentOnce s h) {x : Record} (hx : ∀ id amb a r, x ≠ .did id amb a r) :
    SpentOnce s (h ++ [x]) := by
  have back : ∀ {token id}, Consumed (h ++ [x]) token id → Consumed h token id := by
    rintro token id ⟨amb, hmem⟩
    rcases mem_append.mp hmem with hmem | hmem
    · exact ⟨amb, hmem⟩
    · exact absurd (mem_singleton.mp hmem).symm (hx id amb _ _)
  refine ⟨fun t u exp hentry => (hs.told t u exp hentry).snoc _, fun token id hc => ?_,
    fun token i j hi hj => hs.once token i j (back hi) (back hj)⟩
  obtain ⟨hnone, hdrawn⟩ := hs.gone token id (back hc)
  exact ⟨hnone, by rw [drawnTokens, filterMap_append]; exact mem_append_left _ hdrawn⟩

theorem acted (hs : SpentOnce s h)
    (hfresh : ∀ userId ttlSecs, a = .createRestoreToken userId ttlSecs → amb.token ∉ drawnTokens h)
    (hheld : ∀ token, a = .consumeRestoreToken token → (s.restoreTokens token).isSome = true) :
    SpentOnce (exec env amb a s).2 (h ++ [.did id amb a (exec env amb a s).1]) := by
  -- a consumption in the longer history is an old one or this action
  have back : ∀ {token i}, Consumed (h ++ [.did id amb a (exec env amb a s).1]) token i →
      Consumed h token i ∨ i = id ∧ a = .consumeRestoreToken token := by
    rintro token i ⟨amb', hmem⟩
    rcases mem_append.mp hmem with hmem | hmem
    · exact .inl ⟨amb', hmem⟩
    · cases mem_singleton.mp hmem
      exact .inr ⟨rfl, rfl⟩
  have still : ∀ {token i}, Consumed h token i → a ≠ .consumeRestoreToken token := by
    rintro token i hc rfl
    have := hheld token rfl
    simp [(hs.gone token i hc).1] at this
  refine ⟨hs.told.acted id amb a, fun token i hc => ?_, fun token i j hi hj => ?_⟩
  · rcases back hc with hold | ⟨rfl, rfl⟩
    · obtain ⟨hnone, hdrawn⟩ := hs.gone token i hold
      refine ⟨?_, by rw [drawnTokens, filterMap_append]; exact mem_append_left _ hdrawn⟩
      rw [eq_none_iff_forall_ne_some]
      intro x hentry
      rcases restoreTokens_cases hentry with hentry | ⟨u, ttlSecs, ha, rfl, -⟩
      · simp [hnone] at hentry
      · exact hfresh u ttlSecs ha hdrawn
    · obtain ⟨⟨userId, expiresAt⟩, hentry⟩ := isSome_iff_exists.mp (hheld token rfl)
      exact ⟨update_self .., ((hs.told token userId expiresAt hentry).snoc _).mem⟩
  · rcases back hi with hi | ⟨hi, ha⟩ <;> rcases back hj with hj | ⟨hj, ha'⟩
    · exact hs.once token i j hi hj
    · exact absurd ha' (still hi)
    · exact absurd ha (still hj)
    · exact hi.trans hj.symm

theorem step (hs : SpentOnce w.state w.history) (hfresh : drawsFresh w e) (hheld : consumesHeld w e)
    (hstep : (api env).step w e = some v) :
    SpentOnce v.state v.history := by
  cases moved_of_step hstep with
  | arrived | answered => exact hs.idle fun _ _ _ _ hx => by cases hx
  | dropped => exact hs
  | restarted =>
    refine ⟨fun _ _ _ hentry => (by cases hentry), fun token id hc => ?_, hs.once⟩
    exact ⟨rfl, (hs.gone token id hc).2⟩
  | @did id amb a next at_ =>
    have hat : w.stands id = some a := stands_eq_some.mpr ⟨next, at_⟩
    refine hs.acted ?_ ?_
    · rintro u ttlSecs rfl
      simpa [drawsFresh, hat] using hfresh
    · rintro token rfl
      simpa [consumesHeld, hat] using hheld

theorem run (hrun : run (api env).step (Host.start .initial) es = some w)
    (hfresh : Along (api env).step (fun w e => drawsFresh w e) (Host.start .initial) es)
    (hheld : Along (api env).step (fun w e => consumesHeld w e) (Host.start .initial) es) :
    SpentOnce w.state w.history := by
  have hboth : Along (api env).step (fun w e => drawsFresh w e ∧ consumesHeld w e)
      (Host.start .initial) es := by
    rw [along_iff] at hfresh hheld ⊢
    exact fun pre e post t hes ht => ⟨hfresh pre e post t hes ht, hheld pre e post t hes ht⟩
  exact run_invariant_along start (fun _ _ _ hs hc hstep => hs.step hc.1 hc.2 hstep) hboth hrun

end SpentOnce

theorem mem_bundlesFor (hid : id ∈ bundlesFor token h) :
    (∃ b, .answered id (.ok (.bundle b)) ∈ h) ∧
      ∃ method text, .arrived id (.restoreComplete token method text) ∈ h := by
  obtain ⟨hanswered, hpresents⟩ := mem_filter.mp hid
  obtain ⟨x, hx, hxid⟩ := mem_filterMap.mp hanswered
  obtain ⟨y, hy, hyid⟩ := any_eq_true.mp hpresents
  refine ⟨?_, ?_⟩
  · unfold bundleId at hxid
    split at hxid
    · cases hxid
      exact ⟨_, hx⟩
    · cases hxid
  · split at hyid
    · simp only [Bool.and_eq_true, decide_eq_true_eq] at hyid
      obtain ⟨rfl, rfl⟩ := hyid
      exact ⟨_, _, hy⟩
    · cases hyid

/-- A secret that was wrong or locked. -/
def RefusesSecret : Except ApiError Reply → Prop
  | .error (.wrongSecret _) => True
  | .error (.locked _) => True
  | _ => False

/-- A token whose every consumption finds it in the map is answered with one bundle at most;
and no action of a request that is refused for its secret touches the tokens. -/
theorem restore_token_single_use (env : Env) {es : List ApiEvent} {w : World}
    (hrun : run (api env).step (Host.start .initial) es = some w) :
    (Along (api env).step (fun w e => drawsFresh w e) (Host.start .initial) es →
      Along (api env).step (fun w e => consumesHeld w e) (Host.start .initial) es →
      ∀ token, (bundlesFor token w.history).length ≤ 1) ∧
    ∀ pre id outcome post, w.history = pre ++ .answered id outcome :: post →
      RefusesSecret outcome → ∀ amb a r, .did id amb a r ∈ pre →
      ∃ before after v, es = before ++ .act id amb :: after ∧
        run (api env).step (Host.start .initial) before = some v ∧
        v.stands id = some a ∧
        (exec env amb a v.state).2.restoreTokens = v.state.restoreTokens := by
  have horder := (Host.run_lawful (handle_inTurn env) hrun).history
  constructor
  · intro hfresh hheld token
    have hspent := SpentOnce.run hrun hfresh hheld
    have hconsumed : ∀ id ∈ bundlesFor token w.history, Consumed w.history token id := by
      intro id hid
      obtain ⟨⟨b, hanswered⟩, method, text, harrived⟩ := mem_bundlesFor hid
      obtain ⟨token', method', text', _, _, _, _, _, _, done, harrived', -, -, -, -, -, hdone⟩ :=
        bundle_path hrun hanswered
      cases Host.arrived_unique horder harrived harrived'
      exact ⟨done, hdone⟩
    have hnodup : (bundlesFor token w.history).Nodup := by
      refine Nodup.filter _ (Host.nodup_answers ?_ horder)
      intro x id hx
      unfold bundleId at hx
      split at hx
      · cases hx
        exact ⟨_, rfl⟩
      · cases hx
    match hlist : bundlesFor token w.history with
    | [] => simp
    | [_] => simp
    | i :: j :: rest =>
      rw [hlist] at hnodup hconsumed
      have hij := hspent.once token i j (hconsumed i (by simp)) (hconsumed j (by simp))
      simp [hij] at hnodup
  · intro pre id outcome post hsplit hrefuses amb a r hdid
    obtain ⟨-, request, -, hends⟩ := horder pre _ post hsplit
    have hspares : Spares ⟨a, r⟩ := by
      have hown : (⟨a, r⟩ : Σ a : Action, a.Result) ∈ own id pre := mem_own.mpr ⟨amb, hdid⟩
      unfold RefusesSecret at hrefuses
      split at hrefuses
      · exact hends _ hown
      · exact hends _ hown
      · exact hrefuses.elim
    obtain ⟨before, after, v, hes, hbefore, hat, rfl⟩ :=
      Host.move_of_did hrun (by rw [hsplit]; exact mem_append_left _ hdid)
    exact ⟨before, after, v, hes, hbefore, hat, restoreTokens_of_spares hspares⟩

section Sample

def sampleSalt : Text := replicate 16 'a'

def sampleProof : Text := replicate 32 'p'

/-- A verified user uploads a backup and begins a restore; its token is `r`. -/
def restoreBegun : List ApiEvent :=
  verifiedRun ++
    serve 1 (.putBackup sampleBearer ⟨['b'], ['w'], sampleSalt, ['v'], sampleSalt, sampleProof,
      sampleSalt, sampleProof, sampleSalt⟩) 2 (calm 1 []) ++
    serve 2 (.restoreBegin samplePhone ['1']) 5 (calm 2 ['r'])

def completion : Request := .restoreComplete ['r'] "pin".toList sampleProof

def lookup (id : ℕ) : List ApiEvent := serve id completion 1 (calm 3 [])

def finish (id : ℕ) : List ApiEvent := [.act id (calm 3 []), .act id (calm 3 []), .answer id]

theorem bundle_on_both_proofs_once : ∃ w id b,
    run (api sampleEnv).step (Host.start .initial) (restoreBegun ++ lookup 3 ++ finish 3) = some w ∧
      .answered id (.ok (.bundle b)) ∈ w.history ∧
      ∃ token userId, Presented sampleEnv
        (restoreBegun ++ lookup 3 ++ finish 3) id token userId := by
  obtain ⟨w, hrun, hone⟩ : ∃ w, run (api sampleEnv).step (Host.start .initial)
      (restoreBegun ++ lookup 3 ++ finish 3) = some w ∧
        bundlesFor ['r'] w.history == [3] := by decide +kernel
  obtain ⟨⟨b, hanswered⟩, -⟩ := mem_bundlesFor
    (show 3 ∈ bundlesFor ['r'] w.history by rw [eq_of_beq hone]; simp)
  obtain ⟨token, _, _, userId, _, _, -, -, -, -, hpresented⟩ :=
    bundle_on_both_proofs sampleEnv hrun hanswered
  exact ⟨w, 3, b, hrun, hanswered, token, userId, hpresented⟩

theorem restore_token_single_use_once : ∃ w,
    run (api sampleEnv).step (Host.start .initial) (restoreBegun ++ lookup 3 ++ finish 3) = some w ∧
      bundlesFor ['r'] w.history = [3] ∧ (bundlesFor ['r'] w.history).length ≤ 1 := by
  obtain ⟨w, hrun, hone⟩ : ∃ w, run (api sampleEnv).step (Host.start .initial)
      (restoreBegun ++ lookup 3 ++ finish 3) = some w ∧
        bundlesFor ['r'] w.history == [3] := by decide +kernel
  exact ⟨w, hrun, eq_of_beq hone, (restore_token_single_use sampleEnv hrun).1
    (by decide +kernel) (by decide +kernel) ['r']⟩

/-- Two completions with one token: both look it up before either removes it. -/
def racedRestore : List ApiEvent := restoreBegun ++ lookup 3 ++ lookup 4 ++ finish 3 ++ finish 4

theorem restore_token_used_twice : ∃ w,
    run (api sampleEnv).step (Host.start .initial) racedRestore = some w ∧
      ¬ (bundlesFor ['r'] w.history).length ≤ 1 := by decide +kernel

end Sample
end Rosette.Directory
