import Rosette.Directory.Api

/-! # What a handler has done before it acts

The text of a handler fixes the order of its actions: no user is found or created before the
cooldown is read, no session is opened before the vendor approved a code, and a bundle is
the end of one particular path. A handler writes for a user only once the user is known to
it: by a session token that resolved, by a code that was approved and recorded, or by a
recovery bundle that was found. Each handler is walked once here, along its own lines.
-/
namespace Rosette.Directory
open Foundation Program List

variable {P : Past → Action → Prop} {past : Past} {e : ApiError} {env : Env}
  {authorization : Option Text} {f : UserId → Handler Reply} {rawPhone code : Text}

abbrev Past := List (Σ a : Action, a.Result)

section Rules
variable {α β : Type} {Q : Past → Except ApiError β → Prop}

theorem act_then {a : Action} {f : a.Result → Handler β} (h : P past a)
    (rest : ∀ r, Obeys P Q (past ++ [⟨a, r⟩]) (f r)) : Obeys P Q past (act a >>= f) :=
  .perform_then h rest

theorem query_then {s : Statement} {f : s.Result → Handler β} (h : P past (.statement s))
    (rest : ∀ r, Obeys P Q (past ++ [⟨.statement s, .ok r⟩]) (f r))
    (fails : ∀ e, Q (past ++ [⟨.statement s, .error e⟩]) (.error .internal)) :
    Obeys P Q past (query s >>= f) := by
  refine act_then h fun r => ?_
  cases r with
  | ok r => exact rest r
  | error e => exact fails e

theorem orRefuse_then {o : Option α} {f : α → Handler β}
    (rest : ∀ a, o = some a → Obeys P Q past (f a)) (fails : Q past (.error e)) :
    Obeys P Q past (orRefuse e o >>= f) := by
  cases o with
  | none => exact fails
  | some a => exact rest a rfl

theorem require_then {c : Bool} {f : Unit → Handler β} (rest : c = true → Obeys P Q past (f ()))
    (fails : Q past (.error e)) : Obeys P Q past (require c e >>= f) := by
  cases c with
  | false => exact fails
  | true => exact rest rfl

end Rules

/-- The token of the request has resolved to the user. -/
def Authenticated (authorization : Option Text) (past : Past) (userId : UserId) : Prop :=
  ∃ token, bearerToken authorization = some token ∧
    ⟨.statement (.sessionUserId token), .ok (some userId)⟩ ∈ past

section Fronts
variable {Q : Past → Except ApiError Reply → Prop}

theorem authenticate_walk (resolves : ∀ token, P past (.statement (.sessionUserId token)))
    (unauthorized : ∀ past, Q past (.error .unauthorized))
    (internal : ∀ past, Q past (.error .internal))
    (rest : ∀ past userId, Authenticated authorization past userId → Obeys P Q past (f userId)) :
    Obeys P Q past (authenticate authorization >>= f) := by
  rw [authenticate, Program.bind_assoc]
  refine orRefuse_then (fun token htoken => ?_) (unauthorized _)
  rw [Program.bind_assoc]
  refine query_then (resolves token) (fun user => ?_) (fun _ => internal _)
  refine orRefuse_then (fun userId huser => rest _ userId ⟨token, htoken, ?_⟩) (unauthorized _)
  rw [huser]
  exact mem_append_right _ (mem_singleton_self _)

theorem admitLookup_walk {f : Unit → Handler Reply}
    (resolves : ∀ token, P past (.statement (.sessionUserId token)))
    (tier : ∀ past userId, Authenticated authorization past userId →
      P past (.statement (.isVerified userId)))
    (counts : ∀ past userId verified, ⟨.statement (.isVerified userId), .ok verified⟩ ∈ past →
      P past (.bump .caller userId
        (if verified.getD false then verifiedSearchPerMinute else unverifiedSearchPerMinute)))
    (fails : ∀ past, ∀ e ∈ [ApiError.featureDisabled, .unauthorized, .internal, .rateLimited],
      Q past (.error e))
    (rest : ∀ past, Obeys P Q past (f ())) :
    Obeys P Q past (admitLookup env authorization >>= f) := by
  rw [admitLookup, Program.bind_assoc]
  refine require_then (fun _ => ?_) (fails _ _ (by simp))
  rw [Program.bind_assoc]
  refine authenticate_walk resolves (fun _ => fails _ _ (by simp)) (fun _ => fails _ _ (by simp))
    fun past userId huser => ?_
  rw [Program.bind_assoc]
  refine query_then (tier past userId huser) (fun verified => ?_) (fun _ => fails _ _ (by simp))
  refine act_then (counts _ userId verified ?_) fun admitted => ?_
  · exact mem_append_right _ (mem_singleton_self _)
  · exact require_then (fun _ => rest _) (fails _ _ (by simp))

/-- Past a code check the vendor's answer is known to be yes. -/
theorem verifyPhone_walk {f : Text → Handler Reply}
    (checks : ∀ e164, P past (.verifyCode e164 code))
    (fails : ∀ past,
      ∀ e ∈ [invalidPhone, .internal, .badRequest "code rejected", .vendorUnavailable],
        Q past (.error e))
    (rest : ∀ e164 hash, env.phoneHash e164 = some hash →
      Obeys P Q (past ++ [⟨.verifyCode e164 code, .ok true⟩]) (f hash)) :
    Obeys P Q past (verifyPhone env rawPhone code >>= f) := by
  rw [verifyPhone, Program.bind_assoc]
  refine orRefuse_then (fun e164 _ => ?_) (fails _ _ (by simp))
  refine act_then (checks e164) fun checked => ?_
  rcases checked with (_ | _) | (_ | _)
  · exact fails _ _ (by simp)
  · exact fails _ _ (by simp)
  · exact fails _ _ (by simp)
  · exact orRefuse_then (fun hash hhash => rest e164 hash hhash) (fails _ _ (by simp))

theorem handleFor_walk {userId : UserId} {f : Option Text → Handler Reply}
    (reads : ∀ past userId, P past (.statement (.handleRow userId)))
    (widths : ∀ past nickname, P past (.statement (.nicknameWidth nickname)))
    (rest : ∀ past handle, Obeys P Q past (f handle)) :
    Obeys P Q past (handleFor userId >>= f) := by
  refine act_then (reads _ _) fun row => ?_
  rcases row with _ | (_ | ⟨nickname, discriminator⟩)
  · exact rest _ none
  · exact rest _ none
  · refine act_then (widths _ _) fun width => ?_
    cases width with
    | error => exact rest _ none
    | ok => exact rest _ _

theorem searchResults_walk {entries : List PhoneEntry} {f : List SearchResultEntry → Handler Reply}
    (reads : ∀ past userId, P past (.statement (.handleRow userId)))
    (widths : ∀ past nickname, P past (.statement (.nicknameWidth nickname)))
    (rest : ∀ past results, Obeys P Q past (f results)) :
    Obeys P Q past (searchResults entries >>= f) := by
  induction entries generalizing past f with
  | nil => exact rest _ []
  | cons entry entries ih =>
    rw [searchResults, Program.bind_assoc]
    refine handleFor_walk reads widths fun past handle => ?_
    rw [Program.bind_assoc]
    refine ih fun past results => ?_
    cases handle with
    | none | some => exact rest _ _

end Fronts

/-- The vendor has approved a code for a number of this hash. -/
def Approved (env : Env) (past : Past) (hash : Text) : Prop :=
  ∃ e164 code, ⟨.verifyCode e164 code, .ok true⟩ ∈ past ∧ env.phoneHash e164 = some hash

def Request.opensSession : Request → Prop
  | .verify _ _ _ => True
  | .restoreBegin _ _ => True
  | _ => False

def BackupPutRequest.row (env : Env) (upload : BackupPutRequest) : Option BackupRow := do
  let blob ← env.b64Decode upload.blob
  let wPin ← env.b64Decode upload.wPin
  let saltP ← env.b64Decode upload.saltP
  let wPhrase ← env.b64Decode upload.wPhrase
  let saltF ← env.b64Decode upload.saltF
  let authPinHash ← env.b64Decode upload.authPin
  let saltA ← env.b64Decode upload.saltA
  let authPhraseHash ← env.b64Decode upload.authPhrase
  let saltPa ← env.b64Decode upload.saltPa
  return ⟨blob, wPin, saltP, wPhrase, saltF, authPinHash, saltA, authPhraseHash, saltPa⟩

/-- What a handler has behind it at each of its actions. -/
def InTurn (env : Env) (request : Request) (past : Past) : Action → Prop
  | .bump .phone _ limit => limit = verifyAttemptsPerMinute
  | .verifyCode _ _ => ∀ e164 code r, ⟨.verifyCode e164 code, r⟩ ∉ past
  | .statement (.findOrCreatePendingUser hash) =>
    ⟨.statement (.isPhoneInCooldown hash), .ok false⟩ ∈ past
  | .statement (.markVerified userId) =>
    ∃ hash, ⟨.statement (.findOrCreatePendingUser hash), .ok userId⟩ ∈ past
  | .statement (.createSession userId) => (request.opensSession ∧ ∃ hash, Approved env past hash ∧
    (⟨.statement (.findOrCreatePendingUser hash), .ok userId⟩ ∈ past ∨
      ⟨.statement (.findUserByPhoneHash hash), .ok (some userId)⟩ ∈ past)) ∧
    (⟨.statement (.markVerified userId), .ok ()⟩ ∈ past ∨
      ∃ salts, ⟨.statement (.backupSalts userId), .ok (some salts)⟩ ∈ past)
  | .statement (.isVerified userId) => ∃ authorization, Authenticated authorization past userId
  | .statement (.setSearchable userId searchable hash) => ∃ authorization phoneSearchHash,
    request = .setSearchable authorization searchable phoneSearchHash ∧
      Authenticated authorization past userId ∧ hash.isSome = searchable ∧
      hash = if searchable then phoneSearchHash else none
  | .statement (.upsertBackup userId row) => ∃ authorization upload,
    request = .putBackup authorization upload ∧ Authenticated authorization past userId ∧
      upload.row env = some row
  | .createRestoreToken userId ttlSecs => (∃ phone code, request = .restoreBegin phone code) ∧
    ttlSecs = restoreTokenTtlSecs ∧ ∃ hash, Approved env past hash ∧
      ⟨.statement (.findUserByPhoneHash hash), .ok (some userId)⟩ ∈ past
  | .consumeRestoreToken token => ∃ method auth, request = .restoreComplete token method auth
  | _ => True

/-- An action that leaves the restore tokens as they are. -/
def Spares : (Σ a : Action, a.Result) → Prop
  | ⟨.createRestoreToken _ _, _⟩ => False
  | ⟨.restoreTokenUser _, r⟩ => r ≠ none
  | ⟨.consumeRestoreToken _, _⟩ => False
  | _ => True

/-- What a handler has behind it when it ends. A restore that has begun tells the token drawn last,
and the salts that were found. -/
def Ends (env : Env) (request : Request) (past : Past) : Except ApiError Reply → Prop
  | .ok (.restoreBegun token _ saltA saltPa) => ∃ before userId ttlSecs salts,
    past = before ++ [⟨.createRestoreToken userId ttlSecs, token⟩] ∧
      (∀ x ∈ before, ∀ v ttl r, x ≠ ⟨.createRestoreToken v ttl, r⟩) ∧
      ⟨.statement (.backupSalts userId), .ok (some salts)⟩ ∈ before ∧
      saltA = env.b64Encode salts.1 ∧ saltPa = env.b64Encode salts.2
  | .ok (.bundle b) => ∃ token method text userId auth isPin row,
    request = .restoreComplete token method text ∧ isPinMethod method = some isPin ∧
      env.b64Decode text = some auth ∧ b = bundleOf env row ∧
      past = [⟨.restoreTokenUser token, some userId⟩,
        ⟨.statement (.verifyBackupAuth userId auth isPin), .ok (some (.matched row))⟩,
        ⟨.consumeRestoreToken token, ()⟩]
  | .error (.wrongSecret _) | .error (.locked _) => ∀ x ∈ past, Spares x
  | _ => True

section Handlers
variable {request : Request}

/-- Whatever the program does comes in its turn. -/
abbrev Turns (env : Env) (request : Request) :=
  Obeys (InTurn env request) (Ends env request)

theorem authenticate_then
    (rest : ∀ past userId, Authenticated authorization past userId →
      Turns env request past (f userId)) :
    Turns env request past (authenticate authorization >>= f) :=
  authenticate_walk (fun _ => trivial) (fun _ => trivial) (fun _ => trivial) rest

theorem ends_of_refused (hsecret : ∀ remaining, e ≠ .wrongSecret remaining)
    (hlocked : ∀ seconds, e ≠ .locked seconds) : Ends env request past (.error e) := by
  cases e with
  | wrongSecret remaining => exact absurd rfl (hsecret remaining)
  | locked seconds => exact absurd rfl (hlocked seconds)
  | _ => trivial

theorem admitLookup_then {f : Unit → Handler Reply} (rest : ∀ past, Turns env request past (f ())) :
    Turns env request past (admitLookup env authorization >>= f) := by
  refine admitLookup_walk (fun _ => trivial) (fun _ _ huser => ⟨authorization, huser⟩)
    (fun _ _ _ _ => trivial)
    (fun past e he => ends_of_refused ?_ ?_) rest
  · rintro remaining rfl
    simp at he
  · rintro seconds rfl
    simp at he

theorem verifyPhone_then {f : Text → Handler Reply}
    (first : ∀ e164 code r, ⟨.verifyCode e164 code, r⟩ ∉ past)
    (rest : ∀ e164 hash, env.phoneHash e164 = some hash →
      Turns env request (past ++ [⟨.verifyCode e164 code, .ok true⟩]) (f hash)) :
    Turns env request past (verifyPhone env rawPhone code >>= f) := by
  refine verifyPhone_walk (fun _ => first) (fun past e he => ends_of_refused ?_ ?_) rest
  · rintro remaining rfl
    simp [invalidPhone] at he
  · rintro seconds rfl
    simp [invalidPhone] at he

theorem signup_inTurn (ip : ℕ) (phone : Text) :
    Turns env request [] (signup env ip phone) := by
  refine require_then (fun _ => ?_) trivial
  refine act_then trivial fun admitted => ?_
  refine require_then (fun _ => ?_) trivial
  refine orRefuse_then (fun e164 _ => ?_) trivial
  refine orRefuse_then (fun hash _ => ?_) trivial
  refine query_then trivial (fun cooling => ?_) (fun _ => trivial)
  refine require_then (fun hcool => ?_) trivial
  refine act_then trivial fun sent => ?_
  rcases sent with (_ | _) | _
  · trivial
  · trivial
  · refine query_then ?_ (fun _ => trivial) (fun _ => trivial)
    simp only [InTurn]
    simpa using hcool

theorem verifyHandler_inTurn (ip : ℕ) (phone code : Text) :
    Turns env (.verify ip phone code) [] (verifyHandler env ip phone code) := by
  refine require_then (fun _ => ?_) trivial
  refine act_then trivial fun admitted => ?_
  refine require_then (fun _ => ?_) trivial
  refine orRefuse_then (fun e164 _ => ?_) trivial
  refine act_then rfl fun admitted => ?_
  refine require_then (fun _ => ?_) trivial
  refine verifyPhone_then (by simp) fun e164 hash hhash => ?_
  refine query_then trivial (fun cooling => ?_) (fun _ => trivial)
  refine require_then (fun hcool => ?_) trivial
  refine query_then ?_ (fun userId => ?_) (fun _ => trivial)
  · simp only [InTurn]
    simpa using hcool
  refine query_then ⟨hash, by simp⟩ (fun _ => ?_) (fun _ => trivial)
  refine query_then ?_ (fun _ => trivial) (fun _ => trivial)
  exact ⟨⟨trivial, hash, ⟨e164, code, by simp, hhash⟩, by simp⟩, by simp⟩

theorem restoreBegin_inTurn (phone code : Text) :
    Turns env (.restoreBegin phone code) [] (restoreBegin env phone code) := by
  refine require_then (fun _ => ?_) trivial
  refine verifyPhone_then (by simp) fun e164 hash hhash => ?_
  refine query_then trivial (fun user => ?_) (fun _ => trivial)
  refine orRefuse_then (fun userId huser => ?_) trivial
  subst huser
  refine query_then trivial (fun salts => ?_) (fun _ => trivial)
  refine orRefuse_then (fun salts hsalts => ?_) trivial
  subst hsalts
  refine query_then ?_ (fun _ => ?_) (fun _ => trivial)
  · exact ⟨⟨trivial, hash, ⟨e164, code, by simp, hhash⟩, by simp⟩, .inr ⟨salts, by simp⟩⟩
  refine act_then ?_ fun token => ?_
  · exact ⟨⟨phone, code, rfl⟩, rfl, hash, ⟨e164, code, by simp, hhash⟩, by simp⟩
  refine ⟨_, userId, restoreTokenTtlSecs, salts, rfl, ?_, by simp, rfl, rfl⟩
  rintro x hx v ttl r rfl
  simp at hx

theorem restoreComplete_inTurn (restoreToken method text : Text) :
    Turns env (.restoreComplete restoreToken method text) []
      (restoreComplete env restoreToken method text) := by
  refine require_then (fun _ => ?_) trivial
  refine act_then trivial fun user => ?_
  refine orRefuse_then (fun userId huser => ?_) trivial
  subst huser
  refine orRefuse_then (fun isPin hmethod => ?_) trivial
  refine orRefuse_then (fun auth htext => ?_) trivial
  refine require_then (fun _ => ?_) trivial
  refine query_then trivial (fun verdict => ?_) (fun _ => trivial)
  refine orRefuse_then (fun verdict hverdict => ?_) trivial
  subst hverdict
  cases verdict with
  | matched row =>
    refine act_then ⟨method, text, rfl⟩ fun _ => ?_
    exact ⟨restoreToken, method, text, userId, auth, isPin, row, rfl, hmethod, htext, rfl, rfl⟩
  | wrongPin | wrongPhrase =>
    show ∀ x ∈ _, Spares x
    simp [Spares]
  | locked =>
    refine act_then trivial fun now => ?_
    show ∀ x ∈ _, Spares x
    simp [Spares]

theorem claimUsername_inTurn (authorization : Option Text) (nickname : Text) :
    Turns env request [] (claimUsername authorization nickname) := by
  refine authenticate_then fun past userId _ => ?_
  cases validateNickname nickname with
  | error => trivial
  | ok _ =>
    refine query_then trivial (fun outcome => ?_) (fun _ => trivial)
    cases outcome with
    | error | ok => trivial

theorem setSearchable_inTurn (authorization : Option Text) (searchable : Bool)
    (phoneSearchHash : Option Text) :
    Turns env (.setSearchable authorization searchable phoneSearchHash) []
      (setSearchable authorization searchable phoneSearchHash) := by
  refine authenticate_then fun past userId huser => ?_
  cases searchable with
  | false =>
    refine query_then ?_ (fun _ => trivial) (fun _ => trivial)
    exact ⟨authorization, phoneSearchHash, rfl, huser, rfl, rfl⟩
  | true =>
    rw [requestedHash, if_pos rfl, Program.bind_assoc]
    refine orRefuse_then (fun hash hhash => ?_) trivial
    rw [Program.bind_assoc]
    refine require_then (fun _ => ?_) trivial
    refine query_then ?_ (fun _ => trivial) (fun _ => trivial)
    exact ⟨authorization, phoneSearchHash, rfl, huser, rfl, hhash.symm⟩

theorem putBackup_inTurn (authorization : Option Text) (upload : BackupPutRequest) :
    Turns env (.putBackup authorization upload) [] (putBackup env authorization upload) := by
  refine authenticate_then fun past userId huser => ?_
  refine orRefuse_then (fun blob hblob => ?_) trivial
  refine orRefuse_then (fun wPin hwPin => ?_) trivial
  refine orRefuse_then (fun saltP hsaltP => ?_) trivial
  refine orRefuse_then (fun wPhrase hwPhrase => ?_) trivial
  refine orRefuse_then (fun saltF hsaltF => ?_) trivial
  refine orRefuse_then (fun authPin hauthPin => ?_) trivial
  refine orRefuse_then (fun saltA hsaltA => ?_) trivial
  refine orRefuse_then (fun authPhrase hauthPhrase => ?_) trivial
  refine orRefuse_then (fun saltPa hsaltPa => ?_) trivial
  iterate 3 refine require_then (fun _ => ?_) trivial
  refine query_then ⟨authorization, upload, rfl, huser, ?_⟩ (fun _ => trivial) (fun _ => trivial)
  simp [BackupPutRequest.row, hblob, hwPin, hsaltP, hwPhrase, hsaltF, hauthPin, hsaltA,
    hauthPhrase, hsaltPa]

theorem handle_inTurn (env : Env) (request : Request) :
    Turns env request [] (handle env request) := by
  cases request with
  | health => trivial
  | signup ip phone => exact signup_inTurn ip phone
  | verify ip phone code => exact verifyHandler_inTurn ip phone code
  | claimUsername authorization nickname => exact claimUsername_inTurn authorization nickname
  | usernameLookup =>
    refine authenticate_then fun past userId _ => ?_
    refine query_then trivial (fun user => ?_) (fun _ => trivial)
    exact orRefuse_then (fun _ _ => trivial) trivial
  | getSearchable =>
    refine authenticate_then fun past userId _ => ?_
    refine query_then trivial (fun searchable => ?_) (fun _ => trivial)
    exact orRefuse_then (fun _ _ => trivial) trivial
  | setSearchable authorization searchable hash =>
    exact setSearchable_inTurn authorization searchable hash
  | issueAttestationTokens =>
    refine authenticate_then fun past userId _ => ?_
    refine orRefuse_then (fun key _ => ?_) trivial
    exact act_then trivial fun _ => trivial
  | deleteAccount =>
    refine authenticate_then fun past userId _ => ?_
    exact query_then trivial (fun _ => trivial) (fun _ => trivial)
  | search =>
    refine admitLookup_then fun past => ?_
    refine require_then (fun _ => ?_) trivial
    refine act_then trivial fun bucket => ?_
    exact searchResults_walk (fun _ _ => trivial) (fun _ _ => trivial) fun _ _ => trivial
  | setPairingBootstrap =>
    refine authenticate_then fun past userId _ => ?_
    refine require_then (fun _ => ?_) trivial
    exact query_then trivial (fun _ => trivial) (fun _ => trivial)
  | requestPairingBootstrap =>
    refine admitLookup_then fun past => ?_
    refine query_then trivial (fun link => ?_) (fun _ => trivial)
    exact orRefuse_then (fun _ _ => trivial) trivial
  | putBackup authorization upload => exact putBackup_inTurn authorization upload
  | restoreBegin phone code => exact restoreBegin_inTurn phone code
  | restoreComplete token method auth => exact restoreComplete_inTurn token method auth

end Handlers
end Rosette.Directory
