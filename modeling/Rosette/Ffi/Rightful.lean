import Rosette.Directory.Redeem
import Rosette.Ffi.Recovery

/-! # The owner gets the bundle back

The proof is computed on a new device, from the secret and from a salt that went through the
upload, the row and the first half of the restore; it is compared with a hash from the same upload.
The two models meet in the texts that the client sends and reads.
-/
namespace Rosette.Ffi
open Foundation Proto Rosette.Core Directory Option

def putBackupRequest (env : Env) (bundle : BackupBundle) : BackupPutRequest where
  blob := env.b64Encode bundle.blob
  wPin := env.b64Encode bundle.wPin
  saltP := env.b64Encode bundle.saltP
  wPhrase := env.b64Encode bundle.wPhrase
  saltF := env.b64Encode bundle.saltF
  authPin := env.b64Encode bundle.authPin
  saltA := env.b64Encode bundle.saltA
  authPhrase := env.b64Encode bundle.authPhrase
  saltPa := env.b64Encode bundle.saltPa

/-- The bundle a completed restore is read as. -/
def restoredBundle (env : Env) (res : RestoreCompleteResponse) : Option BackupBundle := do
  let blob ← env.b64Decode res.blob
  let wPin ← env.b64Decode res.wPin
  let saltP ← env.b64Decode res.saltP
  let wPhrase ← env.b64Decode res.wPhrase
  let saltF ← env.b64Decode res.saltF
  let authPin ← env.b64Decode res.authPin
  let saltA ← env.b64Decode res.saltA
  let authPhrase ← env.b64Decode res.authPhrase
  let saltPa ← env.b64Decode res.saltPa
  return ⟨blob, wPin, saltP, wPhrase, saltF, authPin, saltA, authPhrase, saltPa⟩

/-- The two ways to prove the secret: the phrase in any of its forms, or the PIN. -/
inductive Secrets.Owned (s : Secrets) : Text → Bool → Secret → Prop where
  | phrase {typed : Secret} (h : Retypes s.words typed) : Owned s "phrase".toList false typed
  | pin : Owned s "pin".toList true s.pin

def rowOf (b : BackupBundle) : BackupRow :=
  ⟨b.blob, b.wPin, b.saltP, b.wPhrase, b.saltF, b.authPin, b.saltA, b.authPhrase, b.saltPa⟩

section Texts
variable {env : Env} (hcodec : ∀ bytes, env.b64Decode (env.b64Encode bytes) = some bytes)
  (b : BackupBundle)
include hcodec

theorem row_putBackupRequest : (putBackupRequest env b).row env = some (rowOf b) := by
  simp only [putBackupRequest, BackupPutRequest.row, hcodec, bind_eq_bind, bind_some]
  rfl

theorem restoredBundle_bundleOf : restoredBundle env (bundleOf env (rowOf b)) = some b := by
  simp only [restoredBundle, bundleOf, rowOf, hcodec, bind_eq_bind, bind_some]
  rfl

end Texts

section Owner
variable {mls : OpenMls} {r : Scheme mls} {bk : Bytes bkLen} {b : BackupBundle} {s : Secrets}
  {p : BackupPayload} {method : Text} {isPin : Bool} {typed : Secret}

theorem Secrets.Owned.is_typed (h : s.Owned method isPin typed) : s.Typed typed := by
  cases h with
  | phrase ht => exact .inr ht
  | pin => exact .inl rfl

theorem Secrets.Owned.known (h : s.Owned method isPin typed) : isPinMethod method = some isPin := by
  cases h with
  | phrase | pin => decide

theorem Opens.proof_eq (h : Opens r bk b s p) (ho : s.Owned method isPin typed) :
    backupAuthProof r typed (if isPin then b.saltA else b.saltPa) =
      if isPin then b.authPin else b.authPhrase := by
  cases ho with
  | phrase ht =>
    have hwords := h.words.2
    rw [h.authPhrase, authProof_phrase h.words.1 hwords, backupAuthProof,
      ht.not_pin h.words.1 hwords, ht.normalize hwords]
    rfl
  | pin => exact h.authPin.symm

theorem backupAuthProof_length (secret : Secret) (salt : List UInt8) :
    (backupAuthProof r secret salt).length = 32 := (r.crypto.sha256 _).toList_length

end Owner

/-- Whatever else the directory does in the meantime, the owner who completes a restore in time,
with the proof of the phrase or of the PIN under the salt that was returned, gets the bundle that
was uploaded, and the secret opens it. -/
theorem rightful_owner_restores {mls : OpenMls} {r : Scheme mls} {a : Account mls}
    (ha : a.Reached r) {b : BackupBundle} {s : Secrets} (hlatest : a.latest = some (b, s))
    {env : Env} (henabled : env.accountsEnabled = true)
    (hcodec : ∀ bytes, env.b64Decode (env.b64Encode bytes) = some bytes) (j : Handshake env)
    (hupload : j.upload = putBackupRequest env b) {method : Text} {isPin : Bool} {typed : Secret}
    (ho : s.Owned method isPin typed) :
    (∃ salt, env.b64Decode (if isPin then j.saltA else j.saltPa) = some salt ∧
      ((∀ request, .arrive j.owner request ∈ j.after → request = .restoreComplete j.token method
        (env.b64Encode (backupAuthProof r typed salt))) →
      (∀ o, .answered j.owner o ∈ j.now.history →
        ∃ res, o = .ok (.bundle res) ∧ restoredBundle env res = some b) ∧
      ∀ rest ambs, j.now.pending j.owner = some rest →
        Completion.Timely isPin j.userId j.expiresAt j.now.state ambs →
        ∃ n v res, run (api env).step j.now (Host.finishing j.owner ambs n) = some v ∧
          .answered j.owner (.ok (.bundle res)) ∈ v.history ∧ restoredBundle env res = some b)) ∧
    ∀ displayName, ∃ d, newFromBackup r ⟨false, .ok (), .ok ()⟩ displayName b typed = .ok d := by
  obtain ⟨bk, p, bytes, hser, hopens⟩ := ha.sound.latest b s hlatest
  have hrow : j.row = rowOf b := by
    have hup := j.upload_row
    rw [hupload, row_putBackupRequest hcodec] at hup
    exact (some.inj hup).symm
  obtain ⟨-, hA, hPa⟩ := j.begun_with
  refine ⟨⟨if isPin then b.saltA else b.saltPa, ?_, fun harrive => ?_⟩, fun displayName => ?_⟩
  · rw [hA, hPa, hrow, ← apply_ite env.b64Encode, hcodec]
    rfl
  · rw [hopens.proof_eq ho] at harrive
    have hlen : (if isPin then b.authPin else b.authPhrase).length = 32 := by
      rw [← hopens.proof_eq ho]
      exact backupAuthProof_length _ _
    let c : Completion env := ⟨j.owner, j.token, method, _, _, isPin, henabled, ho.known,
      hcodec (if isPin then b.authPin else b.authPhrase), hlen⟩
    have hproof : c.auth = if c.isPin then j.row.authPinHash else j.row.authPhraseHash := by
      rw [hrow]
      rfl
    have hcourse := j.onCourse rfl rfl hproof harrive
    have hbundle : restoredBundle env (bundleOf env j.row) = some b :=
      hrow ▸ restoredBundle_bundleOf hcodec b
    refine ⟨fun o hanswer => ⟨_, hcourse.answered o hanswer, hbundle⟩, ?_⟩
    intro rest ambs hrest htimely
    obtain ⟨n, v, hrun, -, hanswer⟩ := Host.run_finishing hrest ambs
    rw [show (rest.alone (api env).exec ambs j.now.state).1 = _ from
      hcourse.alone hproof j.holds_now.1 htimely hrest] at hanswer
    exact ⟨n, v, _, hrun, hanswer, hbundle⟩
  · obtain ⟨d, hd, -⟩ := hopens.restores hser typed displayName ho.is_typed
    exact ⟨d, hd⟩

section Sample

def movedBundle : BackupBundle :=
  (movedAccount.latest.map Prod.fst).getD ⟨[], [], [], [], [], [], [], [], []⟩

/-- Someone tries a wrong PIN with the owner's token; the owner brings the phrase. -/
def attempts : List ApiEvent :=
  .answer 2 ::
    serve 3 (.restoreComplete ['r'] "pin".toList (List.replicate 32 'p')) 2 (calm 3 []) ++
    .answer 3 ::
    serve 4 (.restoreComplete ['r'] "phrase".toList
      (sampleEnv.b64Encode (backupAuthProof plainScheme okTyped movedBundle.saltPa))) 3
      (calm 3 []) ++ [.answer 4]

def uploads : List ApiEvent :=
  verifiedRun ++
    serve 1 (.putBackup sampleBearer (putBackupRequest sampleEnv movedBundle)) 1 (calm 1 [])

def begins : List ApiEvent :=
  .answer 1 :: serve 2 (.restoreBegin samplePhone ['1']) 4 (calm 2 ['r'])

def isUpload : Record → Bool
  | .arrived id (.putBackup authorization upload) =>
    id = 1 && authorization = sampleBearer && upload = putBackupRequest sampleEnv movedBundle
  | _ => false

variable {x : Record}

theorem eq_of_isUpload (h : isUpload x = true) :
    x = .arrived 1 (.putBackup sampleBearer (putBackupRequest sampleEnv movedBundle)) := by
  unfold isUpload at h
  split at h
  · simp only [Bool.and_eq_true, decide_eq_true_eq] at h
    rw [h.1.1, h.1.2, h.2]
  · cases h

def isBegun : Record → Bool
  | .answered id (.ok (.restoreBegun token _ _ saltPa)) =>
    id = 2 && token = ['r'] && saltPa = sampleEnv.b64Encode movedBundle.saltPa
  | _ => false

theorem eq_of_isBegun (h : isBegun x = true) : ∃ sessionToken saltA,
    x = .answered 2 (.ok (.restoreBegun ['r'] sessionToken saltA
      (sampleEnv.b64Encode movedBundle.saltPa))) := by
  unfold isBegun at h
  split at h
  · simp only [Bool.and_eq_true, decide_eq_true_eq] at h
    rw [h.1.1, h.1.2, h.2]
    exact ⟨_, _, rfl⟩
  · cases h

def isDone : Record → Bool
  | .answered id _ => id = 4
  | _ => false

theorem eq_of_isDone (h : isDone x = true) : ∃ outcome, x = .answered 4 outcome := by
  unfold isDone at h
  split at h
  · rw [of_decide_eq_true h]
    exact ⟨_, rfl⟩
  · cases h

theorem sample_codec (bytes : List UInt8) :
    sampleEnv.b64Decode (sampleEnv.b64Encode bytes) = some bytes := by
  have hchar : ∀ n : Fin 256, (Char.ofNat n).toNat = n := by decide +kernel
  have hbyte : ∀ b : UInt8, UInt8.ofNat (Char.ofNat b.toNat).toNat = b := by
    intro b
    rw [hchar ⟨b.toNat, b.toNat_lt⟩, UInt8.ofNat_toNat]
  simp [sampleEnv, Function.comp_def, hbyte]

theorem sample_run :
    ((run (api sampleEnv).step (Host.start .initial) uploads).any fun w₀ =>
      w₀.history.any isUpload &&
      w₀.stands 1 = some (.statement (.upsertBackup 1 (rowOf movedBundle))) &&
      ((api sampleEnv).step w₀ (.act 1 (calm 1 []))).any fun w₁ =>
        begun 2 w₁.history = false &&
        Along (api sampleEnv).step (fun w ev => keepsBundle 1 w ev = true) w₁
          (begins ++ .act 2 (calm 2 ['r']) :: attempts) &&
        (run (api sampleEnv).step w₁ begins).any fun w₂ =>
          w₂.stands 2 = some (.createRestoreToken 1 restoreTokenTtlSecs) &&
          ((api sampleEnv).step w₂ (.act 2 (calm 2 ['r']))).any fun w₃ =>
            begun 4 w₃.history = false &&
            Along (api sampleEnv).step
              (fun w ev => undisturbed ['r'] (2 + restoreTokenTtlSecs) 4 w ev = true) w₃ attempts &&
            (run (api sampleEnv).step w₃ attempts).any fun w =>
              w.history.any isBegun && w.history.any isDone) = true := by
  decide +kernel

theorem sample_handshake : ∃ j : Handshake sampleEnv,
    j.upload = putBackupRequest sampleEnv movedBundle ∧
      j.saltPa = sampleEnv.b64Encode movedBundle.saltPa ∧ j.token = ['r'] ∧ j.owner = 4 ∧
      j.after = attempts ∧ ∃ outcome, .answered j.owner outcome ∈ j.now.history := by
  obtain ⟨w₀, hrun₀, h₀⟩ := (any_eq_true _ _).mp sample_run
  simp only [Bool.and_eq_true, decide_eq_true_eq, any_eq_true] at h₀
  obtain ⟨⟨harrived, huploads⟩, w₁, hstep₁, ⟨hlater₁, hkeeps⟩, w₂, hrun₂, hdraws, w₃, hstep₃,
    ⟨hlater₃, hquiet⟩, w, hrun, hbegun, hdone⟩ := h₀
  obtain ⟨x, hx, hupload⟩ := List.any_eq_true.mp harrived
  obtain ⟨y, hy, hopened⟩ := List.any_eq_true.mp hbegun
  obtain ⟨z, hz, hended⟩ := List.any_eq_true.mp hdone
  obtain rfl := eq_of_isUpload hupload
  obtain ⟨sessionToken, saltA, rfl⟩ := eq_of_isBegun hopened
  obtain ⟨outcome, rfl⟩ := eq_of_isDone hended
  refine ⟨{
    userId := 1, authorization := sampleBearer, upload := putBackupRequest sampleEnv movedBundle
    row := rowOf movedBundle, ttlSecs := restoreTokenTtlSecs, put := 1, opener := 2, owner := 4
    stored := calm 1 [], drawn := calm 2 ['r'], before := uploads, between := begins
    after := attempts, uploading := w₀, uploaded := w₁, drawing := w₂, drew := w₃, now := w
    token := ['r'], sessionToken, saltA, saltPa := sampleEnv.b64Encode movedBundle.saltPa
    run_before := hrun₀, arrived := hx, uploads := huploads, reaches := by decide
    step_stored := hstep₁, opens_later := hlater₁, run_between := hrun₂, draws := hdraws
    step_drawn := hstep₃, completes_later := hlater₃, run_after := hrun, answered := hy
    keeps := hkeeps, quiet := hquiet }, ?_⟩
  dsimp only
  exact ⟨rfl, rfl, rfl, rfl, rfl, outcome, hz⟩

theorem rightful_owner_restores_moved : ∃ (j : Handshake sampleEnv) (res : RestoreCompleteResponse)
    (d : Device OpenMls.plain),
    j.upload = putBackupRequest sampleEnv movedBundle ∧
      .answered j.owner (.ok (.bundle res)) ∈ j.now.history ∧
      restoredBundle sampleEnv res = some movedBundle ∧
      newFromBackup plainScheme ⟨false, .ok (), .ok ()⟩ "newer phone" movedBundle okTyped =
        .ok d := by
  obtain ⟨j, hupload, hsaltPa, htoken, howner, hafter, outcome, houtcome⟩ := sample_handshake
  have hlatest : movedAccount.latest = some (movedBundle, movedSecrets) := by decide +kernel
  obtain ⟨⟨salt, hsalt, hrestores⟩, hopens⟩ :=
    rightful_owner_restores movedAccount_reached hlatest rfl sample_codec j hupload
      (.phrase okTyped_retypes)
  have hsame : movedBundle.saltPa = salt := by
    rw [← some.injEq, ← sample_codec, ← hsaltPa]
    exact hsalt
  rw [← hsame, hafter, htoken, howner] at hrestores
  obtain ⟨hanswers, -⟩ := hrestores (fun request hmem => by simpa [attempts, serve] using hmem)
  obtain ⟨res, rfl, hres⟩ := hanswers outcome (howner ▸ houtcome)
  obtain ⟨d, hd⟩ := hopens "newer phone"
  exact ⟨j, res, d, hupload, houtcome, hres, hd⟩

end Sample
end Rosette.Ffi
