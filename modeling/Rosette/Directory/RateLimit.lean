import Mathlib.Tactic

/-! # Fixed-window rate limits

One counter per caller, phone number or address. A window that is a minute old is
started anew by the call that finds it so.
-/
namespace Rosette.Directory

def verifiedSearchPerMinute : ℕ := 30
def unverifiedSearchPerMinute : ℕ := 5
def verifyAttemptsPerMinute : ℕ := 5
def unauthRequestsPerMinutePerIp : ℕ := 30

/-- Which population a key belongs to. -/
inductive Bucket where
  | caller
  | phone
  | ip
deriving DecidableEq

structure Window where
  count : ℕ
  started : ℕ
deriving DecidableEq

def windowLength : ℕ := 60 * 10 ^ 9

abbrev RateLimiter := Bucket × ℕ → Option Window

namespace RateLimiter

/-- The window a call finds: the stored one, or a new one if there is none or it is too old. -/
def window (limiter : RateLimiter) (bucket : Bucket) (key now : ℕ) : Window :=
  let stored := (limiter (bucket, key)).getD ⟨0, now⟩
  if windowLength ≤ now - stored.started then ⟨0, now⟩ else stored

def bump (limiter : RateLimiter) (bucket : Bucket) (key limit now : ℕ) : Bool × RateLimiter :=
  let window := limiter.window bucket key now
  if limit ≤ window.count then (false, Function.update limiter (bucket, key) (some window))
  else (true, Function.update limiter (bucket, key)
    (some { window with count := window.count + 1 }))

def resets (limiter : RateLimiter) (bucket : Bucket) (key now : ℕ) : Bool :=
  match limiter (bucket, key) with
  | none => true
  | some stored => windowLength ≤ now - stored.started

section Bump
variable {limiter : RateLimiter} {bucket : Bucket} {key limit now : ℕ}

theorem window_of_not_resets (h : limiter.resets bucket key now = false) :
    limiter (bucket, key) = some (limiter.window bucket key now) := by
  unfold resets at h
  unfold window
  cases hl : limiter (bucket, key) with
  | none => simp [hl] at h
  | some =>
    rw [hl] at h
    simp only [decide_eq_false_iff_not] at h
    simp [h]

theorem bump_eq : limiter.bump bucket key limit now =
    (decide ((limiter.window bucket key now).count < limit),
      Function.update limiter (bucket, key) (some
        ⟨(limiter.window bucket key now).count +
          (decide ((limiter.window bucket key now).count < limit)).toNat,
          (limiter.window bucket key now).started⟩)) := by
  unfold bump
  dsimp only
  split_ifs with h
  · have hlt : ¬ (limiter.window bucket key now).count < limit := by omega
    simp [hlt]
  · have hlt : (limiter.window bucket key now).count < limit := by omega
    simp [hlt]

theorem bump_of_ne {other : Bucket × ℕ} (h : other ≠ (bucket, key)) :
    (limiter.bump bucket key limit now).2 other = limiter other := by
  rw [bump_eq]
  exact Function.update_of_ne h _ _

end Bump
end RateLimiter
end Rosette.Directory
