import Rosette.Core.Backup
import Rosette.Foundation.Trace

/-! # Onboarding

The steps a new user goes through. Each tap that needs the directory launches a request in a
scope that lives as long as the whole flow, and a step that is left cancels the request that was
kept for it. Whether a step leaves anything behind depends on which requests were kept.
-/
namespace Rosette.App
open Foundation Rosette.Core List Option

structure RestoreBegin where
  restoreToken : String
  sessionToken : String
  saltA : List UInt8
  saltPa : List UInt8
deriving DecidableEq

structure VerifyResult where
  userId : ℤ
  sessionToken : String
  verified : Bool
deriving DecidableEq

inductive OnboardingState where
  | welcome
  | phoneEntry (held : Bool)
  | awaitingOtp (phone : String) (held : Bool) (attempts : ℕ)
  | claimUsername (sessionToken phone : String)
  | setPin (sessionToken handle phone : String)
  | showPhrase (sessionToken handle phone phrase : String)
  | restorePhone
  | restoreOtp (phone : String)
  | restorePin (begun : RestoreBegin) (phone : String)
  | restorePhrase (begun : RestoreBegin) (phone : String)
  | restoreNewPin (begun : RestoreBegin) (phone : String) (bundle : BackupBundle) (phrase : String)
deriving DecidableEq

/-- What is thrown: the server's message with its status, or an error of the device's own. -/
structure Failure where
  message : Option String
  status : Option ℕ
deriving DecidableEq

def nextAfterVerify (phone : String) (result : VerifyResult) : OnboardingState :=
  if result.verified then .claimUsername result.sessionToken phone else .awaitingOtp phone true 0

def isVerificationUnavailable (e : Failure) : Bool := e.status == some 503

def nextAfterVerifyError (current : OnboardingState) (phone : String) (e : Failure) :
    OnboardingState :=
  let unavailable := isVerificationUnavailable e
  let prior := match current with
    | .awaitingOtp _ _ attempts => attempts
    | _ => 0
  .awaitingOtp phone unavailable (if unavailable then prior + 1 else 0)

def nextAfterSendError (current : OnboardingState) (phone : String) (e : Failure) :
    OnboardingState :=
  if !isVerificationUnavailable e then current
  else match current with
    | .awaitingOtp _ _ _ => .awaitingOtp phone true 0
    | .restorePhone | .restoreOtp _ => current
    | _ => .phoneEntry true

/-- The state shows by itself that verification could not be reached. -/
def OnboardingState.held : OnboardingState → Bool
  | .phoneEntry held => held
  | .awaitingOtp _ held _ => held
  | _ => false

inductive Request where
  | signup (phone : String) (restoring : Bool)
  | verify (phone code : String)
  | claimUsername (sessionToken nickname phone : String)
  | enroll (sessionToken handle phone pin : String)
  | restoreBegin (phone code : String)
  | restorePin (begun : RestoreBegin) (phone pin : String)
  | restorePhrase (begun : RestoreBegin) (phone phrase : String)
  | restoreNewPin (begun : RestoreBegin) (phone : String) (bundle : BackupBundle)
      (phrase newPin : String)
deriving DecidableEq

def Request.kept : Request → Bool
  | .signup _ _ | .verify _ _ => true
  | _ => false

def Request.isRestoreBegin : Request → Bool
  | .restoreBegin _ _ => true
  | _ => false

inductive Response where
  | done
  | verified (result : VerifyResult)
  | handle (handle : String)
  | phrase (phrase : String)
  | begun (begun : RestoreBegin)
  | bundle (bundle : BackupBundle)
deriving DecidableEq

/-- How far a request is. A response other than a success has its body read, and an exception
there, be it a cancellation, ends in a failure all the same. -/
inductive Phase where
  | pending
  | failing (status : ℕ)
  | done
deriving DecidableEq

structure Launched where
  request : Request
  phase : Phase
  cancelled : Bool
deriving DecidableEq

structure Flow where
  state : OnboardingState
  error : Option String
  loading : Bool
  inFlight : Option ℕ
  launched : List Launched
  completed : Bool
deriving DecidableEq

/-- What the flow is given: whether it can enrol and restore, how a number is normalised, and
which characters are white space. -/
structure Config where
  enroll : Bool
  restore : Bool
  normalizePhoneInput : String → String
  isWhitespace : Char → Bool

namespace Flow

def new : Flow := ⟨.welcome, none, false, none, [], false⟩

def cancel (f : Flow) : List Launched :=
  match f.inFlight with
  | some j => f.launched.modify j fun l => { l with cancelled := true }
  | none => f.launched

def goTo (f : Flow) (next : OnboardingState) : Flow :=
  { f with launched := f.cancel, inFlight := none, loading := false, error := none, state := next }

def launch (f : Flow) (r : Request) : Flow :=
  { f with
    loading := true
    error := none
    inFlight := if r.kept then some f.launched.length else f.inFlight
    launched := f.launched ++ [⟨r, .pending, false⟩] }

def succeed (cfg : Config) (f : Flow) : Request → Response → Option Flow
  | .signup phone restoring, .done =>
    some { f with state := if restoring then .restoreOtp phone else .awaitingOtp phone false 0 }
  | .verify phone _, .verified result => some { f with state := nextAfterVerify phone result }
  | .claimUsername sessionToken _ phone, .handle handle =>
    if cfg.enroll then some { f with state := .setPin sessionToken handle phone }
    else some { f with completed := true }
  | .enroll sessionToken handle phone _, .phrase phrase =>
    some { f with state := .showPhrase sessionToken handle phone phrase }
  | .restoreBegin phone _, .begun begun => some { f with state := .restorePin begun phone }
  | .restorePin _ _ _, .done => some f
  | .restorePhrase begun phone phrase, .bundle bundle =>
    some { f with state := .restoreNewPin begun phone bundle phrase }
  | .restoreNewPin _ _ _ _ _, .done => some f
  | _, _ => none

def fail (f : Flow) : Request → Failure → Flow
  | .signup phone _, e =>
    let state := nextAfterSendError f.state phone e
    { f with state, error := if state.held then none else e.message }
  | .verify phone _, e =>
    { f with
      state := nextAfterVerifyError f.state phone e
      error := if isVerificationUnavailable e then none else e.message }
  | .claimUsername _ _ _, e => { f with error := e.message }
  | .enroll _ _ _ _, e => { f with error := some (e.message.getD "Couldn't set up recovery.") }
  | .restoreBegin _ _, e => { f with error := e.message }
  | .restorePin _ _ _, e | .restorePhrase _ _ _, e | .restoreNewPin _ _ _ _ _, e =>
    { f with error := some (e.message.getD "Restore failed.") }

/-- The request is over. One that was kept clears the spinner only while it is active. -/
def settle (f : Flow) (j : ℕ) (l : Launched) : Flow :=
  { f with
    launched := f.launched.set j { l with phase := .done }
    loading := f.loading && l.request.kept && l.cancelled }

inductive Tap where
  | continue
  | restore
  | back
  | submitPhone (countryCode number : String)
  | resend
  | editCode
  | submitCode (code : String)
  | submitNickname (nickname : String)
  | submitPin (pin : String)
  | submitPhrase (phrase : String)
  | forgot
  | finish
deriving DecidableEq

def isNotBlank (cfg : Config) (s : List Char) : Bool := s.any fun c => !cfg.isWhitespace c

def otpLength : ℕ := 6

/-- The pieces between runs of blanks, tabs and line breaks, those that are blank apart. -/
def wordCount (cfg : Config) (s : String) : ℕ :=
  (s.toList.splitOnP fun c => c = ' ' ∨ 9 ≤ c.toNat ∧ c.toNat ≤ 13).countP (isNotBlank cfg)

/-- Where a tap leads by `goTo`. -/
def leaves (cfg : Config) (f : Flow) (t : Tap) : Option OnboardingState :=
  match f.state, t with
  | .welcome, .continue => some (.phoneEntry false)
  | .welcome, .restore => if cfg.restore then some .restorePhone else none
  | .phoneEntry _, .back => some .welcome
  | .awaitingOtp _ _ _, .back => some (.phoneEntry false)
  | .restorePhone, .back => some .welcome
  | .restoreOtp _, .back => some .restorePhone
  | _, _ => none

/-- What a tap launches, if its control is enabled. -/
def launches (cfg : Config) (f : Flow) (t : Tap) : Option Request :=
  if f.loading then none else
  match f.state, t with
  | .phoneEntry _, .submitPhone countryCode number =>
    if isNotBlank cfg countryCode.toList && isNotBlank cfg number.toList then
      some (.signup (cfg.normalizePhoneInput (countryCode ++ number)) false) else none
  | .awaitingOtp phone _ _, .resend => some (.signup (cfg.normalizePhoneInput phone) false)
  | .awaitingOtp phone _ _, .submitCode code =>
    if code.length = otpLength then some (.verify phone code) else none
  | .claimUsername sessionToken phone, .submitNickname nickname =>
    if isNotBlank cfg nickname.toList then
      some (.claimUsername sessionToken nickname phone) else none
  | .setPin sessionToken handle phone, .submitPin pin =>
    if 4 ≤ pin.length ∧ pin.length ≤ 6 then some (.enroll sessionToken handle phone pin) else none
  | .restorePhone, .submitPhone countryCode number =>
    if isNotBlank cfg countryCode.toList && isNotBlank cfg number.toList then
      some (.signup (cfg.normalizePhoneInput (countryCode ++ number)) true) else none
  | .restoreOtp phone, .resend => some (.signup (cfg.normalizePhoneInput phone) true)
  | .restoreOtp phone, .submitCode code =>
    if code.length = otpLength then some (.restoreBegin phone code) else none
  | .restorePin begun phone, .submitPin pin =>
    if 4 ≤ pin.length ∧ pin.length ≤ 6 then some (.restorePin begun phone pin) else none
  | .restorePhrase begun phone, .submitPhrase phrase =>
    if wordCount cfg phrase = 5 then some (.restorePhrase begun phone phrase) else none
  | .restoreNewPin begun phone bundle phrase, .submitPin newPin =>
    if 4 ≤ newPin.length ∧ newPin.length ≤ 6 then
      some (.restoreNewPin begun phone bundle phrase newPin) else none
  | _, _ => none

def taps (cfg : Config) (f : Flow) (t : Tap) : Option Flow :=
  match f.state, t with
  | .welcome, .restore =>
    if cfg.restore then none else some { f with error := some "Restore isn't available yet." }
  | .awaitingOtp phone held attempts, .editCode =>
    some (if held then { f with state := .awaitingOtp phone false attempts } else f)
  | .restorePin begun phone, .forgot =>
    if f.loading then none else some { f with state := .restorePhrase begun phone }
  | .showPhrase _ _ _ _, .finish => some { f with completed := true }
  | _, _ => none

def tap (cfg : Config) (f : Flow) (t : Tap) : Option Flow :=
  match f.leaves cfg t with
  | some next => some (f.goTo next)
  | none =>
    match f.launches cfg t with
    | some r => some (f.launch r)
    | none => f.taps cfg t

inductive Move where
  | tap (t : Tap)
  | answers (j : ℕ) (r : Response)
  /-- A response that is no success has come, and its body is read. -/
  | refused (j : ℕ) (status : ℕ)
  | fails (j : ℕ) (e : Failure)
  /-- A cancelled request ends. -/
  | unwinds (j : ℕ)

/-- A request that is cancelled does not resume with what it has waited for. -/
def step (cfg : Config) (f : Flow) (m : Move) : Option Flow :=
  if f.completed then none else
  match m with
  | .tap t => f.tap cfg t
  | .answers j r =>
    f.launched[j]?.bind fun l =>
      if l.phase = .pending ∧ l.cancelled = false then
        (f.succeed cfg l.request r).map (settle · j l) else none
  | .refused j status =>
    f.launched[j]?.bind fun l =>
      if l.phase = .pending ∧ l.cancelled = false then
        some { f with launched := f.launched.set j { l with phase := .failing status } } else none
  | .fails j e =>
    f.launched[j]?.bind fun l =>
      if l.phase = .pending ∧ l.cancelled = false ∨ e.status.map Phase.failing = some l.phase then
        some ((f.fail l.request e).settle j l) else none
  | .unwinds j =>
    f.launched[j]?.bind fun l =>
      if l.phase = .pending ∧ l.cancelled = true then
        some { f with launched := f.launched.set j { l with phase := .done } } else none

/-! ## What is left behind -/

end Flow

def Launched.live (l : Launched) : Bool := !l.cancelled && l.phase ≠ .done

/-- A request that was not kept runs only on the step it was launched on. -/
def Request.startedOn : Request → OnboardingState → Bool
  | .signup _ _, _ | .verify _ _, _ => true
  | .claimUsername _ _ _, .claimUsername _ _ => true
  | .enroll _ _ _ _, .setPin _ _ _ => true
  | .restoreBegin _ _, .restoreOtp _ => true
  | .restorePin _ _ _, .restorePin _ _ => true
  | .restorePhrase _ _ _, .restorePhrase _ _ => true
  | .restoreNewPin _ _ _ _ _, .restoreNewPin _ _ _ _ => true
  | _, _ => false

namespace Flow

/-- One request at most can write. The spinner shows it; it is in flight if it was kept, and its
step is shown if it was not. -/
structure Tidy (f : Flow) : Prop where
  cancelled : ∀ l ∈ f.launched, l.cancelled = true → ∀ status, l.phase ≠ .failing status
  loading : ∀ l ∈ f.launched, l.live = true → f.loading = true
  alone : ∀ (i j : ℕ) (k l : Launched), f.launched[i]? = some k → f.launched[j]? = some l →
    k.live = true → l.live = true → i = j
  kept : ∀ (j : ℕ) (l : Launched), f.launched[j]? = some l → l.live = true →
    l.request.kept = true → f.inFlight = some j
  home : ∀ l ∈ f.launched, l.live = true → l.request.startedOn f.state = true

/-- A step is left only when no request to begin a restore runs, and no response is read that is
not a success. -/
def considerate (cfg : Config) (f : Flow) : Move → Bool
  | .tap t => (f.leaves cfg t).isNone || f.launched.all fun l =>
    match l.phase with
    | .pending => !l.request.isRestoreBegin
    | .failing _ => false
    | .done => true
  | _ => true

section Steps
variable {cfg : Config} {f f' : Flow} {r : Request} {t : Tap} {next : OnboardingState} {j n : ℕ}
  {l l' : Launched} {m : Move}

theorem not_live_of_idle (h : f.Tidy) (hl : f.loading = false) :
    ∀ l ∈ f.launched, l.live = false := by
  intro l hmem
  by_contra hlive
  have := h.loading l hmem (Bool.eq_true_of_not_eq_false hlive)
  simp [hl] at this

theorem Tidy.of_quiet (hc : ∀ l ∈ f.launched, l.cancelled = true → ∀ status,
    l.phase ≠ .failing status) (hq : ∀ l ∈ f.launched, l.live = false) : f.Tidy := by
  have hno : ∀ l ∈ f.launched, ¬ l.live = true := fun l hl hlive => by
    simp [hq l hl] at hlive
  exact ⟨hc, fun l hl hlive => absurd hlive (hno l hl),
    fun i j k l hk _ hlive => absurd hlive (hno k (mem_of_getElem? hk)),
    fun j l hl hlive => absurd hlive (hno l (mem_of_getElem? hl)),
    fun l hl hlive => absurd hlive (hno l hl)⟩

theorem Tidy.launch (h : f.Tidy) (hl : f.loading = false) (hr : r.startedOn f.state = true) :
    (f.launch r).Tidy := by
  have hquiet := not_live_of_idle h hl
  have hmem : ∀ l ∈ (f.launch r).launched, l.live = true → l = ⟨r, .pending, false⟩ := by
    intro l hmem hlive
    rcases mem_append.mp hmem with hmem | hmem
    · simp [hquiet l hmem] at hlive
    · exact mem_singleton.mp hmem
  have hat : ∀ (j : ℕ) (l : Launched), (f.launch r).launched[j]? = some l → l.live = true →
      j = f.launched.length := by
    intro j l hj hlive
    rcases Nat.lt_or_ge j f.launched.length with hlt | hge
    · have hold : f.launched[j]? = some l := by
        rw [← hj]
        exact (getElem?_append_left hlt).symm
      simp [hquiet l (mem_of_getElem? hold)] at hlive
    · have hlen := (List.getElem?_eq_some_iff.mp hj).1
      simp only [Flow.launch, length_append, length_singleton] at hlen
      omega
  refine ⟨fun l hmem hc status => ?_, fun _ _ _ => rfl, ?_, ?_, ?_⟩
  · rcases mem_append.mp hmem with hmem | hmem
    · exact h.cancelled l hmem hc status
    · obtain rfl := mem_singleton.mp hmem
      cases hc
  · intro i j k l hk hl hklive hllive
    rw [hat i k hk hklive, hat j l hl hllive]
  · intro j l hj hlive hkept
    obtain rfl := hmem l (mem_of_getElem? hj) hlive
    rw [hat j _ hj hlive]
    exact if_pos hkept
  · intro l hl hlive
    obtain rfl := hmem l hl hlive
    exact hr

theorem isRestoreBegin_of_leaves (hleave : f.leaves cfg t = some next)
    (hr : r.startedOn f.state = true) (hkept : r.kept = false) : r.isRestoreBegin = true := by
  unfold leaves at hleave
  cases r with
  | signup | verify => cases hkept
  | restoreBegin => rfl
  | _ =>
    cases hstate : f.state <;> rw [hstate] at hr hleave <;> cases hr
    cases t <;> cases hleave

theorem quiet_of_leaves (h : f.Tidy) (hleave : f.leaves cfg t = some next)
    (hc : f.considerate cfg (.tap t) = true) :
    ∀ l ∈ f.cancel, l.phase = .done ∨ l.phase = .pending ∧ l.cancelled = true := by
  rw [considerate, hleave] at hc
  simp only [isNone_some, Bool.false_or, List.all_eq_true] at hc
  -- a request that is still to be answered and not cancelled is the one in flight
  have hlive : ∀ (j : ℕ) (l : Launched), f.launched[j]? = some l → l.phase = .done ∨
      l.phase = .pending ∧ (l.cancelled = true ∨ f.inFlight = some j) := by
    intro j l hj
    have hl := mem_of_getElem? hj
    have hphase := hc l hl
    cases hp : l.phase with
    | done => exact .inl rfl
    | failing => simp [hp] at hphase
    | pending =>
      refine .inr ⟨rfl, ?_⟩
      cases hcan : l.cancelled with
      | true => exact .inl rfl
      | false =>
        rw [hp] at hphase
        have hlive : l.live = true := by simp [Launched.live, hcan, hp]
        cases hkept : l.request.kept with
        | true => exact .inr (h.kept j l hj hlive hkept)
        | false => simp [isRestoreBegin_of_leaves hleave (h.home l hl hlive) hkept] at hphase
  intro l hl
  obtain ⟨j, hj⟩ := mem_iff_getElem?.mp hl
  unfold cancel at hj
  cases hin : f.inFlight with
  | none =>
    rw [hin] at hj
    have := hlive j l hj
    rw [hin] at this
    simpa using this
  | some i =>
    rw [hin] at hj
    simp only [getElem?_modify] at hj
    obtain ⟨k, hk, rfl⟩ := map_eq_some_iff.mp hj
    have := hlive j k hk
    rw [hin] at this
    by_cases hij : i = j
    · rw [if_pos hij]
      rcases this with hdone | ⟨hpending, -⟩
      · exact .inl hdone
      · exact .inr ⟨hpending, rfl⟩
    · rw [if_neg hij]
      rcases this with hdone | ⟨hpending, hcan | hflight⟩
      · exact .inl hdone
      · exact .inr ⟨hpending, hcan⟩
      · exact absurd (some.inj hflight) hij

theorem Tidy.set (h : f.Tidy) (hj : f.launched[j]? = some l) (hr : l'.request = l.request)
    (hlive : l'.live = true → l.live = true)
    (hc : l'.cancelled = true → ∀ status, l'.phase ≠ .failing status) :
    Tidy { f with launched := f.launched.set j l' } := by
  -- whatever is live afterwards was live before, under the same index and for the same request
  have hold : ∀ (i : ℕ) (k : Launched), (f.launched.set j l')[i]? = some k → k.live = true →
      ∃ k₀, f.launched[i]? = some k₀ ∧ k₀.live = true ∧ k.request = k₀.request := by
    intro i k hi hk
    rw [getElem?_set] at hi
    split_ifs at hi with hij
    · subst hij
      cases hi
      exact ⟨l, hj, hlive hk, hr⟩
    · exact ⟨k, hi, hk, rfl⟩
  refine ⟨fun k hk => ?_, fun k hk hklive => ?_, ?_, ?_, fun k hk hklive => ?_⟩
  · rcases mem_or_eq_of_mem_set hk with hk | rfl
    · exact h.cancelled k hk
    · exact hc
  · obtain ⟨i, hi⟩ := mem_iff_getElem?.mp hk
    obtain ⟨k₀, hk₀, hlive₀, -⟩ := hold i k hi hklive
    exact h.loading k₀ (mem_of_getElem? hk₀) hlive₀
  · intro a b k k' hk hk' hklive hklive'
    obtain ⟨k₀, hk₀, hlive₀, -⟩ := hold a k hk hklive
    obtain ⟨k₁, hk₁, hlive₁, -⟩ := hold b k' hk' hklive'
    exact h.alone a b k₀ k₁ hk₀ hk₁ hlive₀ hlive₁
  · intro i k hi hklive hkept
    obtain ⟨k₀, hk₀, hlive₀, hreq⟩ := hold i k hi hklive
    exact h.kept i k₀ hk₀ hlive₀ (hreq ▸ hkept)
  · obtain ⟨i, hi⟩ := mem_iff_getElem?.mp hk
    obtain ⟨k₀, hk₀, hlive₀, hreq⟩ := hold i k hi hklive
    exact hreq ▸ h.home k₀ (mem_of_getElem? hk₀) hlive₀

theorem Tidy.settle (h : f.Tidy) (hj : f.launched[j]? = some l) (hlive : l.live = true)
    (hl : f'.launched = f.launched) : (f'.settle j l).Tidy := by
  refine .of_quiet (fun k hk => ?_) fun k hk => ?_
  · rcases mem_or_eq_of_mem_set hk with hk | rfl
    · exact h.cancelled k (hl ▸ hk)
    · rintro - _ ⟨⟩
  · obtain ⟨i, hi⟩ := mem_iff_getElem?.mp hk
    change (f'.launched.set j _)[i]? = some k at hi
    rw [hl, getElem?_set] at hi
    split_ifs at hi with hij
    · cases hi
      simp [Launched.live]
    · by_contra hklive
      exact hij (h.alone j i l k hj hi hlive (Bool.eq_true_of_not_eq_false hklive))

theorem Tidy.congr (h : f.Tidy) (hl : f'.launched = f.launched) (hi : f'.inFlight = f.inFlight)
    (ho : f'.loading = f.loading)
    (hs : ∀ r : Request, r.startedOn f.state = true → r.startedOn f'.state = true) : f'.Tidy := by
  refine ⟨hl ▸ h.cancelled, ?_, hl ▸ h.alone, ?_, ?_⟩
  · rw [hl, ho]
    exact h.loading
  · rw [hl, hi]
    exact h.kept
  · rw [hl]
    exact fun l hmem hlive => hs _ (h.home l hmem hlive)

theorem startedOn_of_launches (hr : f.launches cfg t = some r) :
    f.loading = false ∧ r.startedOn f.state = true := by
  unfold launches at hr
  cases hload : f.loading with
  | true => simp [hload] at hr
  | false =>
    refine ⟨rfl, ?_⟩
    rw [hload, if_neg Bool.false_ne_true] at hr
    split at hr
    all_goals first
      | (obtain ⟨-, ⟨⟩⟩ := ite_none_right_eq_some.mp hr; simp only [*]; rfl)
      | (cases hr; simp only [*]; rfl)
      | cases hr

theorem Tidy.taps (h : f.Tidy) (ht : f.taps cfg t = some f') : f'.Tidy := by
  unfold Flow.taps at ht
  split at ht
  · obtain ⟨-, ⟨⟩⟩ := ite_none_left_eq_some.mp ht
    exact h.congr rfl rfl rfl fun _ hr => hr
  · rename_i hstate
    cases ht
    split_ifs
    · refine h.congr rfl rfl rfl fun r hr => ?_
      rw [hstate] at hr
      cases r <;> exact hr
    · exact h
  · obtain ⟨hload, ⟨⟩⟩ := ite_none_left_eq_some.mp ht
    have hquiet := not_live_of_idle h (Bool.eq_false_of_not_eq_true hload)
    exact .of_quiet h.cancelled hquiet
  · cases ht
    exact h.congr rfl rfl rfl fun _ hr => hr
  · cases ht

theorem length_cancel (f : Flow) : f.cancel.length = f.launched.length := by
  unfold cancel
  cases f.inFlight with
  | none => rfl
  | some => exact length_modify _ _ _

theorem tidy_new : new.Tidy :=
  .of_quiet (fun _ h => absurd h not_mem_nil) fun _ h => absurd h not_mem_nil

theorem launched_succeed {a : Response} (hs : f.succeed cfg r a = some f') :
    f'.launched = f.launched := by
  unfold succeed at hs
  split at hs
  case h_3 =>
    split_ifs at hs <;> cases hs <;> rfl
  all_goals cases hs <;> rfl

theorem launched_fail (f : Flow) (r : Request) (e : Failure) :
    (f.fail r e).launched = f.launched := by
  cases r <;> rfl

theorem Tidy.step (h : f.Tidy) (hc : f.considerate cfg m = true) (hs : f.step cfg m = some f') :
    f'.Tidy := by
  obtain ⟨-, hs⟩ := ite_none_left_eq_some.mp hs
  cases m with
  | tap =>
    simp only [tap] at hs
    split at hs
    · rename_i next hleave
      cases hs
      have hquiet := quiet_of_leaves h hleave hc
      refine .of_quiet (fun l hl hcan status => ?_) fun l hl => ?_
      · rcases hquiet l hl with hp | ⟨hp, -⟩ <;> rw [hp] <;> rintro ⟨⟩
      · rcases hquiet l hl with hp | ⟨-, hcan⟩
        · simp [Launched.live, hp]
        · simp [Launched.live, hcan]
    · split at hs
      · rename_i r hr
        cases hs
        obtain ⟨hload, hstarted⟩ := startedOn_of_launches hr
        exact h.launch hload hstarted
      · exact h.taps hs
  | answers =>
    obtain ⟨l, hj, hs⟩ := bind_eq_some_iff.mp hs
    obtain ⟨⟨hp, hcan⟩, hs⟩ := ite_none_right_eq_some.mp hs
    obtain ⟨g, hg, rfl⟩ := map_eq_some_iff.mp hs
    exact h.settle hj (by simp [Launched.live, hp, hcan]) (launched_succeed hg)
  | refused =>
    obtain ⟨l, hj, hs⟩ := bind_eq_some_iff.mp hs
    obtain ⟨⟨hp, hcan⟩, ⟨⟩⟩ := ite_none_right_eq_some.mp hs
    refine h.set hj rfl (fun _ => by simp [Launched.live, hp, hcan]) fun hc => ?_
    cases hcan.symm.trans hc
  | fails j e =>
    obtain ⟨l, hj, hs⟩ := bind_eq_some_iff.mp hs
    obtain ⟨hp, ⟨⟩⟩ := ite_none_right_eq_some.mp hs
    refine h.settle hj ?_ (launched_fail f l.request e)
    rcases hp with ⟨hp, hcan⟩ | hp
    · simp [Launched.live, hp, hcan]
    · obtain ⟨status, -, hp⟩ := map_eq_some_iff.mp hp
      cases hcan : l.cancelled with
      | true => exact absurd hp.symm (h.cancelled l (mem_of_getElem? hj) hcan status)
      | false => simp [Launched.live, ← hp, hcan]
  | unwinds =>
    obtain ⟨l, hj, hs⟩ := bind_eq_some_iff.mp hs
    obtain ⟨-, ⟨⟩⟩ := ite_none_right_eq_some.mp hs
    exact h.set hj rfl (by simp [Launched.live]) (by rintro - _ ⟨⟩)

/-- The first requests are over, or cancelled and not answered. -/
def Outlived (n : ℕ) (f : Flow) : Prop :=
  ∀ (j : ℕ) (l : Launched), j < n → f.launched[j]? = some l →
    l.phase = .done ∨ l.phase = .pending ∧ l.cancelled = true

theorem Outlived.set (h : Outlived n f)
    (hl : j < n → l'.phase = .done ∨ l'.phase = .pending ∧ l'.cancelled = true)
    (hf : f'.launched = f.launched.set j l') : Outlived n f' := by
  intro i k hi hk
  rw [hf, getElem?_set] at hk
  split_ifs at hk with hij
  · subst hij
    cases hk
    exact hl hi
  · exact h i k hi hk

theorem Outlived.goTo (h : Outlived n f) (next : OnboardingState) : Outlived n (f.goTo next) := by
  intro j l hj hl
  change f.cancel[j]? = some l at hl
  unfold cancel at hl
  cases hin : f.inFlight with
  | none =>
    rw [hin] at hl
    exact h j l hj hl
  | some =>
    rw [hin] at hl
    simp only [getElem?_modify] at hl
    obtain ⟨k, hk, rfl⟩ := map_eq_some_iff.mp hl
    split_ifs
    · exact (h j k hj hk).imp_right fun hp => ⟨hp.1, rfl⟩
    · exact h j k hj hk

theorem Outlived.not_lt (h : Outlived n f) (hl : f.launched[j]? = some l)
    (hp : l.phase = .pending ∧ l.cancelled = false ∨ ∃ status, l.phase = .failing status) :
    ¬ j < n := by
  intro hj
  rcases h j l hj hl with hdone | ⟨hpend, hcan⟩
  · rcases hp with ⟨hp, -⟩ | ⟨status, hp⟩ <;> cases hdone.symm.trans hp
  · rcases hp with ⟨-, hp⟩ | ⟨status, hp⟩
    · cases hcan.symm.trans hp
    · cases hpend.symm.trans hp

theorem Outlived.step (h : Outlived n f) (hn : n ≤ f.launched.length)
    (hs : f.step cfg m = some f') :
    Outlived n f' ∧ n ≤ f'.launched.length := by
  obtain ⟨-, hs⟩ := ite_none_left_eq_some.mp hs
  cases m with
  | tap =>
    simp only [tap] at hs
    split at hs
    · rename_i next hleave
      cases hs
      exact ⟨h.goTo next, hn.trans (length_cancel f).ge⟩
    · split at hs
      · rename_i r hr
        cases hs
        refine ⟨fun j l hj hl => h j l hj ?_, by simp only [launch, length_append]; omega⟩
        rw [← hl]
        exact (getElem?_append_left (hj.trans_le hn)).symm
      · have hsame : f'.launched = f.launched := by
          unfold taps at hs
          split at hs
          · obtain ⟨-, ⟨⟩⟩ := ite_none_left_eq_some.mp hs
            rfl
          · cases hs
            split_ifs <;> rfl
          · obtain ⟨-, ⟨⟩⟩ := ite_none_left_eq_some.mp hs
            rfl
          · cases hs
            rfl
          · cases hs
        exact ⟨by unfold Outlived; rw [hsame]; exact h, hsame ▸ hn⟩
  | answers j =>
    obtain ⟨l, hj, hs⟩ := bind_eq_some_iff.mp hs
    obtain ⟨hp, hs⟩ := ite_none_right_eq_some.mp hs
    obtain ⟨g, hg, rfl⟩ := map_eq_some_iff.mp hs
    refine ⟨h.set (fun _ => .inl rfl) (congrArg (List.set · j _) (launched_succeed hg)), ?_⟩
    simp only [settle, length_set, launched_succeed hg]
    exact hn
  | refused =>
    obtain ⟨l, hj, hs⟩ := bind_eq_some_iff.mp hs
    obtain ⟨hp, ⟨⟩⟩ := ite_none_right_eq_some.mp hs
    refine ⟨h.set (fun hlt => absurd hlt (h.not_lt hj (.inl hp))) rfl, ?_⟩
    simpa only [length_set] using hn
  | fails j e =>
    obtain ⟨l, hj, hs⟩ := bind_eq_some_iff.mp hs
    obtain ⟨hp, ⟨⟩⟩ := ite_none_right_eq_some.mp hs
    refine ⟨h.set (fun _ => .inl rfl) (congrArg (List.set · j _) (launched_fail f _ e)), ?_⟩
    simp only [settle, length_set, launched_fail]
    exact hn
  | unwinds =>
    obtain ⟨l, hj, hs⟩ := bind_eq_some_iff.mp hs
    obtain ⟨-, ⟨⟩⟩ := ite_none_right_eq_some.mp hs
    refine ⟨h.set (fun _ => .inl rfl) rfl, ?_⟩
    simpa only [length_set] using hn

end Steps

def Move.request : Move → Option ℕ
  | .tap _ => none
  | .answers j _ | .refused j _ | .fails j _ | .unwinds j => some j

def Unmoved (f f' : Flow) : Prop := f'.state = f.state ∧ f'.error = f.error ∧ f'.loading = f.loading

theorem Outlived.unmoved {cfg : Config} {f f' : Flow} {n j : ℕ} (h : Outlived n f) {m : Move}
    (hm : m.request = some j) (hj : j < n) (hs : f.step cfg m = some f') : Unmoved f f' := by
  obtain ⟨-, hs⟩ := ite_none_left_eq_some.mp hs
  cases m with
  | tap => cases hm
  | answers | refused =>
    cases hm
    obtain ⟨l, hl, hs⟩ := bind_eq_some_iff.mp hs
    obtain ⟨hp, hs⟩ := ite_none_right_eq_some.mp hs
    exact absurd hj (h.not_lt hl (.inl hp))
  | fails =>
    cases hm
    obtain ⟨l, hl, hs⟩ := bind_eq_some_iff.mp hs
    obtain ⟨hp, hs⟩ := ite_none_right_eq_some.mp hs
    refine absurd hj (h.not_lt hl (hp.imp_right fun hp => ?_))
    obtain ⟨status, -, hp⟩ := map_eq_some_iff.mp hp
    exact ⟨status, hp.symm⟩
  | unwinds =>
    obtain ⟨l, hl, hs⟩ := bind_eq_some_iff.mp hs
    obtain ⟨-, ⟨⟩⟩ := ite_none_right_eq_some.mp hs
    exact ⟨rfl, rfl, rfl⟩

/-- As long as no step is left while a request to begin a restore runs or the body of a refusal is
read, a step that was left is over: none of the requests launched before changes the state, the
error or the spinner any more. -/
theorem leaving_a_step_cancels (cfg : Config) {pre mid : List Move} {t : Tap} {m : Move}
    {next : OnboardingState} {u v v' : Flow} {j : ℕ}
    (hconsiderate : Along (step cfg) (fun f m => f.considerate cfg m = true) new (pre ++ [.tap t]))
    (hpre : run (step cfg) new pre = some u) (hleave : u.leaves cfg t = some next)
    (hmid : run (step cfg) (u.goTo next) mid = some v) (hj : j < u.launched.length)
    (hm : m.request = some j) (hs : v.step cfg m = some v') : Unmoved v v' := by
  obtain ⟨hbefore, hhere⟩ := along_snoc hconsiderate hpre
  have htidy : u.Tidy :=
    run_invariant_along tidy_new (fun _ _ _ h hc hs => h.step hc hs) hbefore hpre
  have hleft : Outlived u.launched.length (u.goTo next) := fun i l _ hl =>
    quiet_of_leaves htidy hleave hhere l (mem_of_getElem? hl)
  have hlen : u.launched.length ≤ (u.goTo next).launched.length := (length_cancel u).ge
  have hall := run_invariant (P := fun f => Outlived u.launched.length f ∧
    u.launched.length ≤ f.launched.length) ⟨hleft, hlen⟩ (fun _ _ _ h hs => h.1.step h.2 hs) hmid
  exact hall.1.unmoved hm hj hs

def config : Config := ⟨true, true, id, Char.isWhitespace⟩

/-- The request to send a code is cancelled when the number is to be changed, and its end does not
touch the request that was launched meanwhile. -/
theorem leaving_a_step_cancels_signup :
    Unmoved (⟨.phoneEntry false, none, true, some 1,
      [⟨.signup "+361" false, .pending, true⟩, ⟨.signup "+362" false, .pending, false⟩], false⟩)
      (⟨.phoneEntry false, none, true, some 1,
      [⟨.signup "+361" false, .done, true⟩, ⟨.signup "+362" false, .pending, false⟩], false⟩) :=
  @leaving_a_step_cancels config [.tap .continue, .tap (.submitPhone "+36" "1")]
    [.tap .continue, .tap (.submitPhone "+36" "2")] .back (.unwinds 0) .welcome
    ⟨.phoneEntry false, none, true, some 0, [⟨.signup "+361" false, .pending, false⟩], false⟩ _ _ 0
    (by decide +kernel) (by decide +kernel) (by decide +kernel) (by decide +kernel)
    (by decide +kernel) rfl (by decide +kernel)

def begun : RestoreBegin := ⟨"r", "s", [1], [2]⟩

/-- The request to begin a restore was not kept: whoever goes back to change the number is taken
forward when it succeeds, and the spinner of the request they have launched is cleared. -/
theorem abandoned_restore_teleports :
    ∃ u v v', run (step config) new
        [.tap .restore, .tap (.submitPhone "+36" "1"), .answers 0 .done,
          .tap (.submitCode "123456")] = some u ∧
      u.leaves config .back = some .restorePhone ∧ u.launched.length = 2 ∧
      run (step config) (u.goTo .restorePhone) [.tap (.submitPhone "+36" "2")] = some v ∧
      v.state = .restorePhone ∧ v.loading = true ∧
      v.step config (.answers 1 (.begun begun)) = some v' ∧
      v'.state = .restorePin begun "+361" ∧ v'.loading = false :=
  ⟨⟨.restoreOtp "+361", none, true, some 0, [⟨.signup "+361" true, .done, false⟩,
      ⟨.restoreBegin "+361" "123456", .pending, false⟩], false⟩,
    ⟨.restorePhone, none, true, some 2, [⟨.signup "+361" true, .done, true⟩,
      ⟨.restoreBegin "+361" "123456", .pending, false⟩,
      ⟨.signup "+362" true, .pending, false⟩], false⟩,
    ⟨.restorePin begun "+361", none, false, some 2, [⟨.signup "+361" true, .done, true⟩,
      ⟨.restoreBegin "+361" "123456", .done, false⟩,
      ⟨.signup "+362" true, .pending, false⟩], false⟩, by decide +kernel⟩

end Flow
end Rosette.App
