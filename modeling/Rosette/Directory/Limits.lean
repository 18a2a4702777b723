import Rosette.Directory.Turns
import Rosette.Foundation.Meter

/-! # What the limiter allows

The limiter is asked by many handlers, for callers, phone numbers and addresses. For each of
them it is a counter of its own: the answers are those of a meter that is asked for this one
alone. The two lookups of other users count in the caller's window, each under the limit of the
tier the caller is then in.
-/
namespace Rosette.Directory
open Foundation Program List Option Function

structure BumpCall where
  bucket : Bucket
  key : ℕ
  limit : ℕ
  now : ℕ
deriving DecidableEq

def BumpCall.id (c : BumpCall) : Bucket × ℕ := (c.bucket, c.key)

structure Bumped extends Attempt where
  id : Bucket × ℕ
deriving DecidableEq

namespace RateLimiter

def new : RateLimiter := fun _ => none

def answers : RateLimiter → List BumpCall → List Bumped
  | _, [] => []
  | limiter, c :: calls =>
    ⟨⟨c.limit, c.now, limiter.resets c.bucket c.key c.now,
      (limiter.bump c.bucket c.key c.limit c.now).1⟩, c.id⟩ ::
      answers (limiter.bump c.bucket c.key c.limit c.now).2 calls

def counter (limiter : RateLimiter) (id : Bucket × ℕ) : Option Foundation.Window :=
  (limiter id).map fun w => ⟨w.count, w.started⟩

variable {limiter : RateLimiter} {calls : List BumpCall} {id : Bucket × ℕ}

theorem call_of_mem {x : Bumped} (hx : x ∈ limiter.answers calls) :
    ∃ c ∈ calls, c.id = x.id ∧ c.limit = x.limit := by
  induction calls generalizing limiter with
  | nil => cases hx
  | cons c calls ih =>
    rcases mem_cons.mp hx with rfl | hx
    · exact ⟨c, mem_cons_self .., rfl, rfl⟩
    · obtain ⟨c', hc', h⟩ := ih hx
      exact ⟨c', mem_cons_of_mem _ hc', h⟩

theorem answers_filter {limiter' : RateLimiter} (h : limiter id = limiter' id)
    (calls : List BumpCall) :
    (limiter.answers calls).filter (·.id = id) = limiter'.answers (calls.filter (·.id = id)) := by
  induction calls generalizing limiter limiter' with
  | nil => rfl
  | cons c calls ih =>
    by_cases hc : c.id = id
    · subst hc
      have hwindow : limiter.window c.bucket c.key c.now =
          limiter'.window c.bucket c.key c.now := by
        exact congrArg (fun o : Option Window => if windowLength ≤ c.now - (o.getD _).started then _
          else o.getD _) h
      rw [answers, filter_cons_of_pos (by simp), filter_cons_of_pos (by simp)]
      congr 1
      · have hresets : limiter.resets c.bucket c.key c.now =
            limiter'.resets c.bucket c.key c.now := by
          rw [resets, resets]
          change limiter (c.bucket, c.key) = limiter' (c.bucket, c.key) at h
          rw [h]
        rw [hresets, bump_eq, bump_eq, hwindow]
      · refine ih ?_
        simp only [bump_eq, hwindow, BumpCall.id, update_self]
    · rw [answers, filter_cons_of_neg (by simpa using hc), filter_cons_of_neg (by simpa using hc)]
      exact ih ((bump_of_ne fun he => hc he.symm).trans h)

theorem bump_attempt (limiter : RateLimiter) (c : BumpCall) :
    Window.attempt windowLength c.limit c.now (limiter.counter c.id) =
      (⟨c.limit, c.now, limiter.resets c.bucket c.key c.now,
        (limiter.bump c.bucket c.key c.limit c.now).1⟩,
        ⟨(limiter.window c.bucket c.key c.now).count +
          (limiter.bump c.bucket c.key c.limit c.now).1.toNat,
          (limiter.window c.bucket c.key c.now).started⟩) := by
  have hopens : Window.opens windowLength c.now (limiter.counter c.id) =
      limiter.resets c.bucket c.key c.now := by
    rw [counter, resets, BumpCall.id]
    cases limiter (c.bucket, c.key) <;> rfl
  have hcurrent : Window.current windowLength c.now (limiter.counter c.id) =
      ⟨(limiter.window c.bucket c.key c.now).count,
        (limiter.window c.bucket c.key c.now).started⟩ := by
    rw [counter, Window.current, Window.roll, window, BumpCall.id]
    cases limiter (c.bucket, c.key) with
    | none => simp
    | some =>
      simp only [map_some, getD_some]
      split_ifs <;> rfl
  rw [bump_eq, Window.attempt, hopens, hcurrent]

theorem answers_meter (h : ∀ c ∈ calls, c.id = id) (limiter : RateLimiter) :
    (limiter.answers calls).map Bumped.toAttempt =
      Window.meter windowLength (limiter.counter id) (calls.map fun c => (c.limit, c.now)) := by
  induction calls generalizing limiter with
  | nil => rfl
  | cons c calls ih =>
    obtain ⟨rfl, hrest⟩ := forall_mem_cons.mp h
    rw [answers, map_cons, map_cons, Window.meter, bump_attempt, ih hrest]
    congr 2
    simp only [bump_eq, counter, BumpCall.id, update_self, map_some]

end RateLimiter

def tierLimit (verified : Option Bool) : ℕ :=
  if verified.getD false then verifiedSearchPerMinute else unverifiedSearchPerMinute

/-- A handler counts in the window of the caller, under the limit of the tier it has read. -/
def CountsCaller (past : Past) : Action → Prop
  | .bump bucket key limit => bucket = .caller ∧
    ∃ verified, ⟨.statement (.isVerified key), .ok verified⟩ ∈ past ∧ limit = tierLimit verified
  | _ => True

section Lookups
variable {env : Env} {authorization : Option Text} {f : Unit → Handler Reply}

theorem admitLookup_counts (rest : ∀ past, Obeys CountsCaller (fun _ _ => True) past (f ())) :
    Obeys CountsCaller (fun _ _ => True) [] (admitLookup env authorization >>= f) :=
  admitLookup_walk (fun _ => trivial) (fun _ _ _ => trivial)
    (fun _ _ verified hread => ⟨rfl, verified, hread, rfl⟩) (fun _ _ _ => trivial) rest

theorem search_counts (env : Env) (authorization : Option Text) (pre : Text) :
    Obeys CountsCaller (fun _ _ => True) [] (search env authorization pre) := by
  refine admitLookup_counts fun past => ?_
  refine require_then (fun _ => ?_) trivial
  refine act_then trivial fun bucket => ?_
  exact searchResults_walk (fun _ _ => trivial) (fun _ _ => trivial) fun _ _ => trivial

theorem requestPairingBootstrap_counts (env : Env) (authorization : Option Text) (userId : UserId) :
    Obeys CountsCaller (fun _ _ => True) [] (requestPairingBootstrap env authorization userId) := by
  refine admitLookup_counts fun past => ?_
  refine query_then trivial (fun link => ?_) (fun _ => trivial)
  exact orRefuse_then (fun link _ => trivial) trivial

end Lookups

theorem answers_of (calls : List BumpCall) (id : Bucket × ℕ) :
    (((RateLimiter.new.answers calls).filter (·.id = id)).map Bumped.toAttempt) =
      Window.meter windowLength none
        ((calls.filter (·.id = id)).map fun c => (c.limit, c.now)) := by
  have hid : ∀ c ∈ calls.filter (·.id = id), c.id = id := fun c hc =>
    of_decide_eq_true (mem_filter.mp hc).2
  rw [RateLimiter.answers_filter rfl, RateLimiter.answers_meter hid]
  rfl

theorem uses_filter (seen : List Bumped) (P : ℕ → Prop) [DecidablePred P] :
    ((uses (seen.map Bumped.toAttempt)).filter (P ·)).length =
      (seen.filter fun x => x.admitted ∧ P x.now).length := by
  rw [uses, List.filter_map, List.filter_map, List.filter_map, length_map, length_map,
    List.filter_filter]
  congr 2
  funext x
  simp only [comp_apply, Bool.decide_and, Bool.decide_coe, Bool.and_comm]

variable {calls : List BumpCall} {id : Bucket × ℕ} {L : ℕ}

theorem limit_of_mem (hL : ∀ c ∈ calls, c.id = id → c.limit = L) {x : Bumped}
    (hx : x ∈ (RateLimiter.new.answers calls).filter (·.id = id)) : x.limit = L := by
  obtain ⟨hx, hid⟩ := mem_filter.mp hx
  obtain ⟨c, hc, hcid, hlimit⟩ := RateLimiter.call_of_mem hx
  exact hlimit ▸ hL c hc (hcid.trans (of_decide_eq_true hid))

theorem paced_of_limit (hclock : (calls.map (·.now)).Pairwise (· ≤ ·))
    (hL : ∀ c ∈ calls, c.id = id → c.limit = L) :
    Spanned windowLength L (uses (Window.meter windowLength none
      ((calls.filter (·.id = id)).map fun c => (c.limit, c.now)))) ∧
      ∀ pre x post, Window.meter windowLength none
          ((calls.filter (·.id = id)).map fun c => (c.limit, c.now)) = pre ++ x :: post →
        x.admitted = false →
        x.limit ≤ ((uses pre).filter fun τ => x.now < τ + windowLength).length := by
  have hpacing : Pacing windowLength L (uses []) 0 none := rfl
  refine hpacing.meter (by decide) (by intro t T; simp [uses]) ?_ ?_
  · rw [List.map_map, pairwise_cons]
    refine ⟨fun _ _ => Nat.zero_le _, hclock.sublist ?_⟩
    exact (filter_sublist).map _
  · intro call hcall
    obtain ⟨c, hc, rfl⟩ := mem_map.mp hcall
    obtain ⟨hc, hid⟩ := mem_filter.mp hc
    exact (hL c hc (of_decide_eq_true hid)).le

/-- Whatever else it is asked, the limiter answers a caller, a number or an address as if it were
asked for this one alone. From the start of one of its windows to the next, at most the largest
limit it was asked under is allowed; under one limit, a span of time holds no more than the
windows it can meet, and a call is refused only if the limit was reached in the last minute. Both
lookups count in the caller's window, under one of two limits. -/
theorem limiter_bounds_and_isolates (calls : List BumpCall)
    (hclock : (calls.map (·.now)).Pairwise (· ≤ ·)) (id : Bucket × ℕ) :
    let seen := (RateLimiter.new.answers calls).filter (·.id = id)
    seen = RateLimiter.new.answers (calls.filter (·.id = id)) ∧
    (∀ pre b mid post M, seen = pre ++ b :: (mid ++ post) → b.opens = true →
      (∀ x ∈ mid, x.opens = false) → (∀ x ∈ b :: mid, x.limit ≤ M) →
      ((b :: mid).filter (·.admitted)).length ≤ M) ∧
    (∀ L, (∀ c ∈ calls, c.id = id → c.limit = L) →
      (∀ t T, (seen.filter fun x => x.admitted ∧ t ≤ x.now ∧ x.now ≤ t + T).length ≤
        L * (T / windowLength + 2)) ∧
      ∀ pre x post, seen = pre ++ x :: post → x.admitted = false →
        L ≤ (pre.filter fun y => y.admitted ∧ x.now < y.now + windowLength).length) ∧
    (∀ env authorization pre,
      Obeys CountsCaller (fun _ _ => True) [] (search env authorization pre)) ∧
    (∀ env authorization userId,
      Obeys CountsCaller (fun _ _ => True) [] (requestPairingBootstrap env authorization userId)) ∧
    ∀ verified, tierLimit verified ≤ verifiedSearchPerMinute := by
  intro seen
  have hmeter : seen.map Bumped.toAttempt = _ := answers_of calls id
  refine ⟨RateLimiter.answers_filter rfl calls, fun pre b mid post M hseen hb hopens hlimit => ?_,
    fun L hL => ?_, search_counts, requestPairingBootstrap_counts, fun verified => ?_⟩
  · rw [hseen] at hmeter
    simp only [map_append, map_cons] at hmeter
    have hle := Window.admitted_le hmeter.symm hb (by simpa using hopens)
      (by simpa using hlimit)
    rwa [← map_cons, List.filter_map, length_map] at hle
  · obtain ⟨hspan, hrefused⟩ := paced_of_limit hclock hL
    refine ⟨fun t T => ?_, fun pre x post hseen hx => ?_⟩
    · rw [← uses_filter seen fun τ => t ≤ τ ∧ τ ≤ t + T]
      exact hmeter ▸ hspan t T
    · have hat : x ∈ seen := hseen ▸ mem_append_right _ (mem_cons_self ..)
      rw [hseen, map_append] at hmeter
      have hfull := hrefused _ _ _ hmeter.symm hx
      rwa [uses_filter pre fun τ => x.now < τ + windowLength, limit_of_mem hL hat] at hfull
  · unfold tierLimit
    split_ifs <;> decide

/-- A caller searches six times at once, while a number of the same key is verified. -/
def sixSearches : List BumpCall :=
  ⟨.phone, 7, verifyAttemptsPerMinute, 0⟩ ::
    replicate 6 ⟨.caller, 7, unverifiedSearchPerMinute, 1⟩

theorem limiter_bounds_and_isolates_searches :
    (sixSearches.map (·.now)).Pairwise (· ≤ ·) ∧
    (RateLimiter.new.answers sixSearches).filter (·.id = (.caller, 7)) =
      RateLimiter.new.answers (sixSearches.filter (·.id = (.caller, 7))) ∧
    ∃ pre x, (RateLimiter.new.answers sixSearches).filter (·.id = (.caller, 7)) = pre ++ [x] ∧
      x.admitted = false ∧
      5 ≤ (pre.filter fun y => y.admitted ∧ x.now < y.now + windowLength).length := by
  obtain ⟨halone, -, hlimit, -⟩ := limiter_bounds_and_isolates sixSearches (by decide) (.caller, 7)
  refine ⟨by decide, halone, replicate 4 ⟨⟨5, 1, false, true⟩, (.caller, 7)⟩ |>.cons
    ⟨⟨5, 1, true, true⟩, (.caller, 7)⟩, ⟨⟨5, 1, false, false⟩, (.caller, 7)⟩, by decide, rfl, ?_⟩
  exact (hlimit 5 (by decide)).2 _ ⟨⟨5, 1, false, false⟩, (.caller, 7)⟩ [] (by decide) rfl

end Rosette.Directory
