import Rosette.Directory.Store
import Rosette.Foundation.Trace

/-! # PIN guesses against one backup

Wrong PINs are counted on the backup row, and every tenth of them locks the PIN path
for a time that grows with the number of locks before it. A guess made under a lock is
neither compared nor counted, so the times of the compared guesses carry the schedule.
-/
namespace Rosette.Directory
open Foundation List Option Function

variable {n : ℕ} {b : BackupRecord} {auth : List UInt8} {now : ℤ} {row : BackupRow} {times : List ℤ}
  {db : Database}

structure AuthCall where
  auth : List UInt8
  isPin : Bool
  now : ℤ

def lockoutTotal (k : ℕ) : ℤ := ∑ j ∈ Finset.Icc 1 k, lockoutHours j

theorem lockoutTotal_succ (k : ℕ) :
    lockoutTotal (k + 1) = lockoutTotal k + lockoutHours (k + 1 : ℕ) :=
  Finset.sum_Icc_succ_top (by omega) _

theorem wrapI32_of_lt (h : n < 2 ^ 31) : wrapI32 n = n := by
  refine Int.bmod_eq_of_le_mul_two ?_ ?_ <;> omega

namespace BackupRecord
variable {until_ : ℤ}

theorem lockedAt_eq_some :
    b.lockedAt now = some until_ ↔ b.lockedUntil = some until_ ∧ now < until_ := by
  simp [lockedAt]

theorem lockedAt_later {now' : ℤ} (h : b.lockedAt now = none) (hle : now ≤ now') :
    b.lockedAt now' = none := by
  rw [lockedAt, filter_eq_none_iff] at h ⊢
  intro until_ hu
  have := h until_ hu
  simp only [decide_eq_true_eq] at this ⊢
  omega

theorem verifyAuth_locked (h : b.lockedAt now = some until_) :
    b.verifyAuth auth true now = (.locked until_, b) := by
  simp [verifyAuth, h]

theorem verifyAuth_phrase : b.verifyAuth auth false now =
    if ctEq auth b.row.authPhraseHash then
      (.matched b.row, { b with pinAttempts := 0, lockedUntil := none })
    else (.wrongPhrase, b) := by
  simp [verifyAuth, authHash]

/-- A PIN that is compared and wrong is the next one counted. -/
theorem verifyAuth_wrongPin (hfree : b.lockedAt now = none)
    (hwrong : ctEq auth b.row.authPinHash = false) (hcount : b.pinAttempts = n)
    (hn : n + 1 < 2 ^ 31) : b.verifyAuth auth true now =
      if (n + 1) % 10 = 0 then
        (.locked (now + lockoutHours ((n + 1) / 10 : ℕ) * 3600),
          { b with
            pinAttempts := (n + 1 : ℕ)
            lockedUntil := some (now + lockoutHours ((n + 1) / 10 : ℕ) * 3600) })
      else (.wrongPin (10 - ((n + 1) % 10 : ℕ)), { b with pinAttempts := (n + 1 : ℕ) }) := by
  have hwrap : wrapI32 (b.pinAttempts + 1) = (n + 1 : ℕ) := by
    rw [hcount]
    exact wrapI32_of_lt hn
  have hmod : ((n + 1 : ℕ) : ℤ).tmod 10 = ((n + 1) % 10 : ℕ) := rfl
  have hdiv : ((n + 1 : ℕ) : ℤ).tdiv 10 = ((n + 1) / 10 : ℕ) := rfl
  simp only [verifyAuth, authHash, if_true, hfree, hwrong, Bool.not_true, hwrap, hmod, hdiv,
    Bool.false_eq_true, if_false, Nat.cast_eq_zero]

end BackupRecord

section Calls
variable (userId : UserId)

/-- One more call on the user's backup, provided it does not match. -/
def Database.miss (db : Database) (c : AuthCall) : Option Database :=
  match db.verifyBackupAuth userId c.auth c.isPin c.now with
  | (some (.matched _), _) => none
  | (_, db') => some db'

/-- The time of a call whose PIN proof is compared and found wrong. -/
def Database.wrongPinAt (db : Database) (c : AuthCall) : Option ℤ :=
  (db.backups userId).bind (fun b =>
    if c.isPin ∧ b.lockedAt c.now = none ∧ ctEq c.auth b.row.authPinHash = false
    then some c.now else none)

def wrongPins (db : Database) (calls : List AuthCall) : List ℤ :=
  observe (Database.miss userId) (Database.wrongPinAt userId) db calls

end Calls

/-- Where the row stands after the calls whose wrong PINs fell at `times`. -/
structure Counted (row : BackupRow) (times : List ℤ) (b : BackupRecord) : Prop where
  row_eq : b.row = row
  counter : b.pinAttempts = times.length
  spaced : ∀ i t₁ t, times[0]? = some t₁ → times[i]? = some t →
    t₁ + 3600 * lockoutTotal (i / 10) ≤ t
  deadline : ∀ t₁, times[0]? = some t₁ → 10 ≤ times.length →
    ∃ until_, b.lockedUntil = some until_ ∧
      t₁ + 3600 * lockoutTotal (times.length / 10) ≤ until_

namespace Counted
variable {t₁ : ℤ}

variable (h : Counted row times b)
include h

theorem due (hclock : ∀ t ∈ times, t ≤ now) (hfree : b.lockedAt now = none)
    (h₁ : times[0]? = some t₁) :
    t₁ + 3600 * lockoutTotal (times.length / 10) ≤ now := by
  by_cases hten : 10 ≤ times.length
  · obtain ⟨until_, hu, hle⟩ := h.deadline t₁ h₁ hten
    by_contra hlt
    have := BackupRecord.lockedAt_eq_some.mpr ⟨hu, (by omega : now < until_)⟩
    simp [hfree] at this
  · have hz : times.length / 10 = 0 := by omega
    have := hclock t₁ (mem_of_getElem? h₁)
    simpa [hz, lockoutTotal] using this

theorem spaced_snoc (hclock : ∀ t ∈ times, t ≤ now) (hfree : b.lockedAt now = none) {i : ℕ} {t : ℤ}
    (h₁ : (times ++ [now])[0]? = some t₁) (ht : (times ++ [now])[i]? = some t) :
    t₁ + 3600 * lockoutTotal (i / 10) ≤ t := by
  rcases eq_nil_or_concat times with rfl | hne
  · have hi : i = 0 := by
      by_contra hi
      simp [getElem?_eq_none (show [now].length ≤ i by simp; omega)] at ht
    subst hi
    rw [h₁] at ht
    cases ht
    simp [lockoutTotal]
  · have hpos : 0 < times.length := by
      obtain ⟨l, x, rfl⟩ := hne
      simp
    rw [getElem?_append_left hpos] at h₁
    rcases lt_trichotomy i times.length with hi | rfl | hi
    · rw [getElem?_append_left hi] at ht
      exact h.spaced i t₁ t h₁ ht
    · rw [getElem?_concat_length] at ht
      cases ht
      exact h.due hclock hfree h₁
    · rw [getElem?_eq_none (by simp; omega)] at ht
      cases ht

theorem wrongPin (hclock : ∀ t ∈ times, t ≤ now) (hfree : b.lockedAt now = none)
    (hwrong : ctEq auth b.row.authPinHash = false) (hn : times.length + 1 < 2 ^ 31) :
    Counted row (times ++ [now]) (b.verifyAuth auth true now).2 := by
  rw [BackupRecord.verifyAuth_wrongPin hfree hwrong h.counter hn]
  have hlen : (times ++ [now]).length = times.length + 1 := by simp
  split_ifs with hten
  · refine ⟨h.row_eq, by simp, fun i t₁ t h₁ ht => h.spaced_snoc hclock hfree h₁ ht, ?_⟩
    intro t₁ h₁ _
    refine ⟨_, rfl, ?_⟩
    -- the time of this guess carries all lockouts but the one it opens
    have hnow := h.spaced_snoc hclock hfree h₁ getElem?_concat_length
    obtain ⟨k, hk⟩ : ∃ k, times.length + 1 = 10 * (k + 1) := ⟨(times.length + 1) / 10 - 1, by omega⟩
    have hlow : times.length / 10 = k := by omega
    have hhigh : (times.length + 1) / 10 = k + 1 := by omega
    rw [hlow] at hnow
    rw [hlen, hhigh, lockoutTotal_succ]
    linarith
  · refine ⟨h.row_eq, by simp, fun i t₁ t h₁ ht => h.spaced_snoc hclock hfree h₁ ht, ?_⟩
    intro t₁ h₁ hle
    rw [hlen] at hle ⊢
    have hlow : (times.length + 1) / 10 = times.length / 10 := by omega
    rw [hlow]
    rw [getElem?_append_left (by omega)] at h₁
    exact h.deadline t₁ h₁ (by omega)

end Counted

section Run
variable {userId : UserId} {db' : Database} {c : AuthCall}

section
variable (hb : db.backups userId = some b)
include hb

theorem verifyBackupAuth_eq (auth : List UInt8) (isPin : Bool) (now : ℤ) :
    db.verifyBackupAuth userId auth isPin now =
      (some (b.verifyAuth auth isPin now).1, { db with
        backups := update db.backups userId (some (b.verifyAuth auth isPin now).2) }) := by
  simp only [Database.verifyBackupAuth, hb]

theorem verifyBackupAuth_same {isPin : Bool} {v : RestoreVerdict}
    (hv : b.verifyAuth auth isPin now = (v, b)) :
    db.verifyBackupAuth userId auth isPin now = (some v, db) := by
  rw [verifyBackupAuth_eq hb, hv, ← hb, update_eq_self]

theorem miss_eq_some (h : db.miss userId c = some db') :
    db'.backups userId = some (b.verifyAuth c.auth c.isPin c.now).2 ∧
      ∀ r, (b.verifyAuth c.auth c.isPin c.now).1 ≠ .matched r := by
  rw [Database.miss, verifyBackupAuth_eq hb] at h
  generalize b.verifyAuth c.auth c.isPin c.now = r at h
  obtain ⟨v, b'⟩ := r
  cases v with
  | matched => cases h
  | wrongPin | wrongPhrase | locked =>
    cases h
    exact ⟨update_self .., fun _ => by simp⟩

theorem wrongPinAt_eq : db.wrongPinAt userId c =
    if c.isPin ∧ b.lockedAt c.now = none ∧ ctEq c.auth b.row.authPinHash = false
    then some c.now else none := by
  simp only [Database.wrongPinAt, hb, bind_some]

end

theorem Counted.step (h : Counted row times b) (hb : db.backups userId = some b)
    (hclock : ∀ t ∈ times, t ≤ c.now)
    (hcount : (times ++ (db.wrongPinAt userId c).toList).length < 2 ^ 31)
    (hmiss : ∀ r, (b.verifyAuth c.auth c.isPin c.now).1 ≠ .matched r) :
    Counted row (times ++ (db.wrongPinAt userId c).toList)
      (b.verifyAuth c.auth c.isPin c.now).2 := by
  obtain ⟨auth, isPin, now⟩ := c
  rw [wrongPinAt_eq hb] at hcount ⊢
  cases isPin with
  | false =>
    have hphrase : ctEq auth b.row.authPhraseHash = false := by
      by_contra heq
      refine hmiss b.row ?_
      rw [BackupRecord.verifyAuth_phrase, if_pos (by simpa using heq)]
    simpa [BackupRecord.verifyAuth_phrase, hphrase] using h
  | true =>
    cases hl : b.lockedAt now with
    | some => simpa [BackupRecord.verifyAuth_locked hl, hl] using h
    | none =>
      cases hw : ctEq auth b.row.authPinHash with
      | true =>
        refine absurd ?_ (hmiss b.row)
        simp [BackupRecord.verifyAuth, BackupRecord.authHash, hl, hw]
      | false =>
        simp only [hl, hw] at hcount ⊢
        exact h.wrongPin hclock hl hw (by simpa using hcount)

theorem Counted.run {calls : List AuthCall} (hb : db.backups userId = some b)
    (hzero : b.pinAttempts = 0) (hrun : run (Database.miss userId) db calls = some db')
    (hclock : (calls.map AuthCall.now).Pairwise (· ≤ ·))
    (hcount : (wrongPins userId db calls).length < 2 ^ 31) :
    (∀ t ∈ wrongPins userId db calls, t ∈ calls.map AuthCall.now) ∧
      ∃ b', db'.backups userId = some b' ∧ Counted b.row (wrongPins userId db calls) b' := by
  revert hclock hcount
  refine run_induction ?_ ?_ hrun
  · intro _ _
    refine ⟨by simp [wrongPins, observe], b, hb, rfl, by simpa [wrongPins, observe], ?_, ?_⟩
    · intro i t₁ t h₁
      simp [wrongPins, observe] at h₁
    · intro t₁ h₁
      simp [wrongPins, observe] at h₁
  · intro calls d c d' hd ih hstep hclock hcount
    have hsnoc : wrongPins userId db (calls ++ [c]) =
        wrongPins userId db calls ++ (d.wrongPinAt userId c).toList := observe_snoc c hd
    rw [map_append, pairwise_append] at hclock
    rw [hsnoc] at hcount ⊢
    obtain ⟨hmem, b', hb', hcounted⟩ := ih hclock.1 (by rw [length_append] at hcount; omega)
    obtain ⟨hafter, hmiss⟩ := miss_eq_some hb' hstep
    refine ⟨?_, _, hafter, hcounted.step hb' (fun t ht => ?_) hcount hmiss⟩
    · intro t ht
      rw [map_append, mem_append]
      rcases mem_append.mp ht with ht | ht
      · exact .inl (hmem t ht)
      · rw [wrongPinAt_eq hb'] at ht
        split_ifs at ht
        · exact .inr (by simpa using ht)
        · simp at ht
    · exact hclock.2.2 t (hmem t ht) c.now (by simp)

end Run

/-- Below 2³¹ wrong PINs the counter, the schedule and the answers line up: the wrong PINs
compared so far are as far apart as the lockouts between them, a lock keeps every PIN from
being compared or counted, the answers follow the number of the guess, and the phrase path
never meets the lock. -/
theorem pin_guesses_bounded {userId : UserId} {db db' : Database} {b : BackupRecord}
    (hb : db.backups userId = some b) (hzero : b.pinAttempts = 0) {calls : List AuthCall}
    {c : AuthCall} (hrun : run (Database.miss userId) db calls = some db')
    (hclock : ((calls ++ [c]).map AuthCall.now).Pairwise (· ≤ ·))
    (hcount : (wrongPins userId db (calls ++ [c])).length < 2 ^ 31) :
    (∀ (n : ℕ) (t₁ tₙ : ℤ), 1 ≤ n → (wrongPins userId db (calls ++ [c]))[0]? = some t₁ →
      (wrongPins userId db (calls ++ [c]))[n - 1]? = some tₙ →
      3600 * ∑ j ∈ Finset.Icc 1 ((n - 1) / 10), lockoutHours j ≤ tₙ - t₁) ∧
    ∃ b', db'.backups userId = some b' ∧ b'.row = b.row ∧
      (c.isPin = true → ∀ until_, b'.lockedUntil = some until_ → c.now < until_ →
        db'.verifyBackupAuth userId c.auth c.isPin c.now = (some (.locked until_), db') ∧
          wrongPins userId db (calls ++ [c]) = wrongPins userId db calls) ∧
      (∀ (n : ℕ) (t : ℤ), db'.wrongPinAt userId c = some t →
        n = (wrongPins userId db (calls ++ [c])).length →
        (db'.verifyBackupAuth userId c.auth c.isPin c.now).1 = some
          (if n % 10 = 0 then .locked (c.now + lockoutHours (n / 10 : ℕ) * 3600)
          else .wrongPin (10 - (n % 10 : ℕ)))) ∧
      (c.isPin = false → db'.verifyBackupAuth userId c.auth c.isPin c.now =
        if ctEq c.auth b.row.authPhraseHash then
          (some (.matched b.row), { db' with
            backups := update db'.backups userId
              (some { b' with pinAttempts := 0, lockedUntil := none }) })
        else (some .wrongPhrase, db')) := by
  have hsnoc : wrongPins userId db (calls ++ [c]) =
      wrongPins userId db calls ++ (db'.wrongPinAt userId c).toList := observe_snoc c hrun
  rw [map_append, pairwise_append] at hclock
  rw [hsnoc] at hcount ⊢
  have hbefore : (wrongPins userId db calls).length < 2 ^ 31 := by
    rw [length_append] at hcount
    omega
  obtain ⟨hmem, b', hb', hcounted⟩ := Counted.run hb hzero hrun hclock.1 hbefore
  have hlate : ∀ t ∈ wrongPins userId db calls, t ≤ c.now :=
    fun t ht => hclock.2.2 t (hmem t ht) c.now (by simp)
  refine ⟨?_, b', hb', hcounted.row_eq, ?_, ?_, ?_⟩
  · intro n t₁ tₙ _ h₁ hₙ
    have hspaced : t₁ + 3600 * lockoutTotal ((n - 1) / 10) ≤ tₙ := by
      rw [wrongPinAt_eq hb'] at h₁ hₙ
      split_ifs at h₁ hₙ with hpin
      · exact hcounted.spaced_snoc hlate hpin.2.1 h₁ hₙ
      · rw [toList_none, append_nil] at h₁ hₙ
        exact hcounted.spaced (n - 1) t₁ tₙ h₁ hₙ
    rw [lockoutTotal] at hspaced
    linarith
  · intro hpin until_ hu hlt
    have hl := BackupRecord.lockedAt_eq_some.mpr ⟨hu, hlt⟩
    rw [hpin]
    refine ⟨verifyBackupAuth_same hb' (BackupRecord.verifyAuth_locked hl), ?_⟩
    simp [wrongPinAt_eq hb', hl]
  · intro n t hw hn
    rw [hw] at hcount hn
    rw [wrongPinAt_eq hb'] at hw
    split_ifs at hw with hpin
    obtain ⟨hispin, hfree, hwrong⟩ := hpin
    have hlen : n = (wrongPins userId db calls).length + 1 := by simpa using hn
    rw [verifyBackupAuth_eq hb', hispin, BackupRecord.verifyAuth_wrongPin hfree hwrong
      hcounted.counter (by simpa using hcount), ← hlen]
    split_ifs <;> rfl
  · intro hphrase
    rw [hphrase, verifyBackupAuth_eq hb', BackupRecord.verifyAuth_phrase, hcounted.row_eq]
    split_ifs
    · rfl
    · rw [← hb', update_eq_self]

section Sample

/-- A row whose PIN proof is the byte 7. -/
def sampleBackup : BackupRow where
  blob := [1]
  wPin := []
  saltP := []
  wPhrase := []
  saltF := []
  authPinHash := [7]
  saltA := []
  authPhraseHash := [9]
  saltPa := []

/-- One account, with a backup just uploaded. -/
def backedUp : Database :=
  { Database.empty with
    backups := update Database.empty.backups 1 (some ⟨sampleBackup, 0, none, 0⟩) }

def dailyGuess (k : ℕ) : AuthCall := ⟨[0], true, 86400 * k⟩

def dailyGuesses (n : ℕ) : List AuthCall := (range n).map dailyGuess

theorem pin_guesses_bounded_tenth : ∃ db',
    run (Database.miss 1) backedUp (dailyGuesses 9) = some db' ∧
      (db'.verifyBackupAuth 1 [0] true (86400 * 9)).1 = some (.locked (86400 * 9 + 3600)) := by
  obtain ⟨db', hrun, hwrong⟩ : ∃ db', run (Database.miss 1) backedUp (dailyGuesses 9) = some db' ∧
      db'.wrongPinAt 1 (dailyGuess 9) = some (86400 * 9) := by decide +kernel
  obtain ⟨-, b', -, -, -, hanswer, -⟩ := pin_guesses_bounded (c := dailyGuess 9)
    (show backedUp.backups 1 = some ⟨sampleBackup, 0, none, 0⟩ from rfl) rfl hrun
    (by decide +kernel) (by decide +kernel)
  exact ⟨db', hrun, hanswer 10 _ hwrong (by decide +kernel)⟩

theorem lockoutHours_le (i : ℤ) : lockoutHours i ≤ 24 := by
  unfold lockoutHours
  split_ifs <;> omega

/-- A guess a day never meets a lock, so each is counted. -/
structure DailyGuessed (n : ℕ) (db : Database) (b : BackupRecord) : Prop where
  reached : run (Database.miss 1) backedUp (dailyGuesses n) = some db
  backup : db.backups 1 = some b
  row_eq : b.row = sampleBackup
  counter : b.pinAttempts = n
  free : b.lockedAt (86400 * n) = none
  counted : (wrongPins 1 backedUp (dailyGuesses n)).length = n

theorem dailyGuesses_succ (n : ℕ) : dailyGuesses (n + 1) = dailyGuesses n ++ [dailyGuess n] := by
  simp [dailyGuesses, range_succ]

namespace DailyGuessed

section
variable (h : DailyGuessed n db b)
include h

theorem wrong : ctEq [0] b.row.authPinHash = false := by
  rw [h.row_eq]
  decide

theorem counted_next :
    (wrongPins 1 backedUp (dailyGuesses (n + 1))).length = n + 1 := by
  have hat : db.wrongPinAt 1 (dailyGuess n) = some (86400 * n) := by
    rw [wrongPinAt_eq h.backup]
    simp [dailyGuess, h.free, h.wrong]
  rw [dailyGuesses_succ, wrongPins, observe_snoc _ h.reached, hat, length_append]
  exact congrArg (· + 1) h.counted

theorem step (hn : n + 1 < 2 ^ 31) :
    ∃ db' b', DailyGuessed (n + 1) db' b' := by
  have hanswer := BackupRecord.verifyAuth_wrongPin h.free h.wrong h.counter hn
  have hmiss : run (Database.miss 1) backedUp (dailyGuesses (n + 1)) = some { db with
      backups := update db.backups 1
        (some (b.verifyAuth [0] true (86400 * n)).2) } := by
    rw [dailyGuesses_succ, run_snoc, h.reached, bind_some, Database.miss,
      verifyBackupAuth_eq h.backup]
    simp only [dailyGuess, hanswer]
    split_ifs <;> rfl
  refine ⟨_, (b.verifyAuth [0] true (86400 * n)).2, hmiss, by simp only [update_self], ?_, ?_, ?_,
    h.counted_next⟩
  all_goals rw [hanswer]
  · split_ifs <;> exact h.row_eq
  · split_ifs <;> rfl
  · split_ifs with hten
    · -- a lock lasts at most a day, and the next guess comes a day later
      have hlock := lockoutHours_le ((n + 1) / 10 : ℕ)
      simp only [BackupRecord.lockedAt, filter_some, decide_eq_true_eq, ite_eq_right_iff]
      intro hlt
      push_cast at hlt hlock
      omega
    · exact BackupRecord.lockedAt_later h.free (by push_cast; omega)

end

theorem all (n : ℕ) (hn : n < 2 ^ 31) : ∃ db b, DailyGuessed n db b := by
  induction n with
  | zero => exact ⟨backedUp, _, rfl, rfl, rfl, rfl, rfl, rfl⟩
  | succ n ih =>
    obtain ⟨db, b, h⟩ := ih (by omega)
    exact h.step hn

theorem wraps (h : DailyGuessed n db b) (hn : n + 1 = 2 ^ 31) :
    (db.verifyBackupAuth 1 [0] true (86400 * n)).1 = some (.wrongPin 18) := by
  have hwrap : wrapI32 (b.pinAttempts + 1) = -2147483648 := by
    rw [h.counter, ← Nat.cast_add_one, hn]
    decide
  rw [verifyBackupAuth_eq h.backup]
  simp [BackupRecord.verifyAuth, BackupRecord.authHash, h.free, h.wrong, hwrap]

end DailyGuessed

/-- The 2³¹-th wrong PIN overflows the counter: 18 attempts are reported to remain, not 2. -/
theorem wrong_pin_counter_wraps : ∃ n db',
    run (Database.miss 1) backedUp (dailyGuesses n) = some db' ∧
      (wrongPins 1 backedUp (dailyGuesses n ++ [dailyGuess n])).length = 2147483648 ∧
      (db'.verifyBackupAuth 1 [0] true (86400 * n)).1 = some (.wrongPin 18) ∧
      10 - 2147483648 % 10 = 2 := by
  obtain ⟨db', b', h⟩ := DailyGuessed.all 2147483647 (by norm_num)
  refine ⟨2147483647, db', h.reached, ?_, h.wraps rfl, rfl⟩
  rw [← dailyGuesses_succ]
  exact h.counted_next

end Sample
end Rosette.Directory
