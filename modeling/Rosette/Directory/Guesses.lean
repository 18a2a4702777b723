import Rosette.Directory.Sessions

/-! # Guesses against one number

Each call of the vendor's check is a guess at the code of a number. The limiter counts
admissions per number, and only the handler of `/verify` asks it; what it bounds are the
guesses of requests that were admitted in the window they guess in.
-/
namespace Rosette.Directory
open Foundation Program List Option Host

/-- What concerns one number: a call that counts against its window, and a guess. -/
inductive Seen where
  | bumped (id : ℕ) (opens admitted : Bool)
  | guessed (id : ℕ)
deriving DecidableEq

namespace Seen

def opens : Seen → Bool
  | .bumped _ opens _ => opens
  | .guessed _ => false

def admittedId : Seen → Option ℕ
  | .bumped id _ true => some id
  | _ => none

def guessedId : Seen → Option ℕ
  | .guessed id => some id
  | _ => none

end Seen

def admissions (seen : List Seen) : List ℕ := seen.filterMap Seen.admittedId

def guesses (seen : List Seen) : List ℕ := seen.filterMap Seen.guessedId

section Observation
variable (env : Env) (e164 : Text)

def sees (w : World) : ApiEvent → Option Seen
  | .act id amb =>
    match w.stands id with
    | some (.bump .phone key limit) =>
      if key = env.phoneRateKey e164 then
        some (.bumped id (w.state.limiter.resets .phone key amb.instant)
          (w.state.limiter.bump .phone key limit amb.instant).1)
      else none
    | some (.verifyCode number _) => if number = e164 then some (.guessed id) else none
    | _ => none
  | _ => none

def seen (es : List ApiEvent) : List Seen :=
  observe (api env).step (sees env e164) (Host.start .initial) es

end Observation

/-- A guess is licensed by an admission of the same request in the window it falls in. -/
def Licensed (before : List Seen) : Seen → Prop
  | .guessed id => ∃ pre opens since, before = pre ++ .bumped id opens true :: since ∧
    ∀ y ∈ since, y.opens = false
  | _ => True

/-- The window's counter covers the admissions since it was opened, and they stay within
the limit in every window so far. -/
structure Throttled (key : ℕ) (seen : List Seen) (limiter : RateLimiter) : Prop where
  counted : ∀ pre x mid window, seen = pre ++ x :: mid → x.opens = true →
    (∀ y ∈ mid, y.opens = false) → limiter (.phone, key) = some window →
    (admissions (x :: mid)).length ≤ window.count
  bounded : ∀ pre x mid post, seen = pre ++ x :: mid ++ post → x.opens = true →
    (∀ y ∈ mid, y.opens = false) →
    (admissions (x :: mid)).length ≤ verifyAttemptsPerMinute

theorem split_snoc {α : Type} {seen pre mid : List α} {x y : α}
    (h : seen ++ [y] = pre ++ x :: mid) :
    mid = [] ∧ x = y ∨ ∃ mid', mid = mid' ++ [y] ∧ seen = pre ++ x :: mid' := by
  rcases eq_nil_or_concat mid with rfl | ⟨mid', z, rfl⟩
  · obtain ⟨-, hxy⟩ := append_inj' h rfl
    exact .inl ⟨rfl, (singleton_inj.mp hxy).symm⟩
  · rw [concat_eq_append, ← cons_append, ← append_assoc] at h
    obtain ⟨hseen, hyz⟩ := append_inj' h rfl
    obtain rfl := singleton_inj.mp hyz
    exact .inr ⟨mid', concat_eq_append .., hseen⟩

namespace Throttled
variable {key : ℕ} {seen : List Seen} {limiter limiter' : RateLimiter}

theorem start : Throttled key [] (fun _ => none) where
  counted := fun pre x mid window h => by simp at h
  bounded := fun pre x mid post h => by simp at h

variable (h : Throttled key seen limiter)
include h

theorem keep
    (hl : ∀ window, limiter' (.phone, key) = some window → limiter (.phone, key) = some window) :
    Throttled key seen limiter' where
  counted pre x mid window hs ho hm hw := h.counted pre x mid window hs ho hm (hl window hw)
  bounded := h.bounded

theorem snoc {y : Seen}
    (opened : y.opens = true → ∀ window, limiter' (.phone, key) = some window →
      (admissions [y]).length ≤ window.count)
    (joined : y.opens = false → ∀ n, (∀ window, limiter (.phone, key) = some window →
        n ≤ window.count) → n ≤ verifyAttemptsPerMinute →
      n + (admissions [y]).length ≤ verifyAttemptsPerMinute ∧
      ∀ window, limiter' (.phone, key) = some window →
        n + (admissions [y]).length ≤ window.count) :
    Throttled key (seen ++ [y]) limiter' := by
  have last : ∀ pre x mid, seen ++ [y] = pre ++ x :: mid → x.opens = true →
      (∀ z ∈ mid, z.opens = false) →
      (admissions (x :: mid)).length ≤ verifyAttemptsPerMinute ∧
        ∀ window, limiter' (.phone, key) = some window →
          (admissions (x :: mid)).length ≤ window.count := by
    intro pre x mid hs ho hm
    rcases split_snoc hs with ⟨rfl, rfl⟩ | ⟨mid', rfl, rfl⟩
    · refine ⟨?_, opened ho⟩
      calc (admissions [x]).length ≤ [x].length := length_filterMap_le ..
        _ ≤ verifyAttemptsPerMinute := (by decide : 1 ≤ verifyAttemptsPerMinute)
    · have hm' : ∀ z ∈ mid', z.opens = false := fun z hz => hm z (by simp [hz])
      have hadd : (admissions (x :: (mid' ++ [y]))).length =
          (admissions (x :: mid')).length + (admissions [y]).length := by
        rw [← cons_append, admissions, filterMap_append, length_append]
        rfl
      rw [hadd]
      exact joined (hm y (by simp)) _ (fun window hw => h.counted pre x mid' window rfl ho hm' hw)
        (h.bounded pre x mid' [] (by simp) ho hm')
  refine ⟨fun pre x mid window hs ho hm hw => (last pre x mid hs ho hm).2 window hw, ?_⟩
  intro pre x mid post hs ho hm
  rcases eq_nil_or_concat post with rfl | ⟨post, z, rfl⟩
  · exact (last pre x mid (by simpa using hs) ho hm).1
  · rw [concat_eq_append, ← append_assoc] at hs
    exact h.bounded pre x mid post (append_inj_left' hs rfl) ho hm

theorem bump (id now : ℕ) :
    Throttled key (seen ++ [.bumped id (limiter.resets .phone key now)
        (limiter.bump .phone key verifyAttemptsPerMinute now).1])
      (limiter.bump .phone key verifyAttemptsPerMinute now).2 := by
  have hlen : ∀ o a, (admissions [.bumped id o a]).length = a.toNat := by
    intro o a
    cases a <;> rfl
  rw [RateLimiter.bump_eq]
  dsimp only
  refine h.snoc ?_ ?_
  · intro hopens window hw
    rw [Function.update_self] at hw
    cases hw
    rw [hlen]
    exact Nat.le_add_left ..
  · intro hjoins n hcount hbound
    have hwin := hcount _ (RateLimiter.window_of_not_resets hjoins)
    generalize limiter.window .phone key now = window at hwin ⊢
    rw [hlen]
    refine ⟨?_, fun window' hw => ?_⟩
    · by_cases hroom : window.count < verifyAttemptsPerMinute
      · simp only [hroom, decide_true, Bool.toNat_true]
        omega
      · simpa [hroom] using hbound
    · rw [Function.update_self] at hw
      cases hw
      exact Nat.add_le_add_right hwin _

end Throttled

theorem exec_limiter (env : Env) (amb : Ambient) (a : Action) (s : AppState) :
    (exec env amb a s).2.limiter = match a with
      | .bump bucket key limit => (s.limiter.bump bucket key limit amb.instant).2
      | _ => s.limiter := by
  cases a with
  | restoreTokenUser => exact AppState.restoreTokenUser_limiter ..
  | _ => rfl

section Run
variable {env : Env} {e164 : Text} {w v : World} {e : ApiEvent} {record : List Seen} {id : ℕ}
  {amb : Ambient}

section
variable (h : Throttled (env.phoneRateKey e164) record w.state.limiter)
include h

theorem Throttled.acted (hlawful : Host.Lawful (InTurn env) (Ends env) w) {a : Action}
    (hat : w.stands id = some a) :
    Throttled (env.phoneRateKey e164) (record ++ (sees env e164 w (.act id amb)).toList)
      (exec env amb a w.state).2.limiter := by
  rw [exec_limiter]
  simp only [sees, hat]
  cases a with
  | bump bucket key limit =>
    by_cases hkey : (bucket, key) = (.phone, env.phoneRateKey e164)
    · cases hkey
      obtain ⟨request, -, rfl⟩ := hlawful.stands hat
      simpa using h.bump id amb.instant
    · have hkeep : Throttled (env.phoneRateKey e164) record
          (w.state.limiter.bump bucket key limit amb.instant).2 :=
        h.keep fun window hw => by rwa [RateLimiter.bump_of_ne (Ne.symm hkey)] at hw
      cases bucket with
      | phone => simpa [show key ≠ env.phoneRateKey e164 from fun hk => hkey (by rw [hk])]
        using hkeep
      | caller | ip => simpa using hkeep
  | verifyCode number =>
    by_cases hnumber : number = e164
    · -- a guess opens no window and counts against none
      simp only [hnumber]
      exact h.snoc (fun ho => by cases ho) (fun _ n hcount hbound => ⟨hbound, hcount⟩)
    · simpa [hnumber] using h
  | _ => simpa using h

theorem Throttled.step (hlawful : Host.Lawful (InTurn env) (Ends env) w)
    (hstep : (api env).step w e = some v) :
    Throttled (env.phoneRateKey e164) (record ++ (sees env e164 w e).toList) v.state.limiter := by
  cases moved_of_step hstep with
  | @did id amb a next at_ => exact h.acted hlawful (stands_eq_some.mpr ⟨next, at_⟩)
  | restarted =>
    simp only [sees, toList_none, append_nil]
    exact h.keep fun window hw => by cases hw
  | _ => simpa [sees] using h

end

theorem sees_guessed {i : ℕ} (h : sees env e164 w (.act id amb) = some (.guessed i)) :
    i = id ∧ ∃ code, w.stands id = some (.verifyCode e164 code) := by
  simp only [sees] at h
  split at h
  · split_ifs at h
    cases h
  · rename_i number code hat
    split_ifs at h with hnumber
    cases h
    exact ⟨rfl, code, hnumber ▸ hat⟩
  · cases h

/-- No request guesses twice. -/
structure GuessedOnce (record : List Seen) (h : List Record) : Prop where
  nodup : (guesses record).Nodup
  did : ∀ id ∈ guesses record, ∃ amb number code r, .did id amb (.verifyCode number code) r ∈ h

theorem GuessedOnce.step (h : GuessedOnce record w.history)
    (hlawful : Host.Lawful (InTurn env) (Ends env) w) (hstep : (api env).step w e = some v) :
    GuessedOnce (record ++ (sees env e164 w e).toList) v.history := by
  have longer : ∀ {x}, GuessedOnce record (w.history ++ [x]) := by
    refine ⟨h.nodup, fun id hid => ?_⟩
    obtain ⟨amb, number, code, r, hmem⟩ := h.did id hid
    exact ⟨amb, number, code, r, mem_append_left _ hmem⟩
  cases moved_of_step hstep with
  | arrived | answered => simpa [sees] using longer
  | dropped | restarted => simpa [sees] using h
  | @did id amb a next at_ =>
    have hat : w.stands id = some a := stands_eq_some.mpr ⟨next, at_⟩
    cases hs : sees env e164 w (.act id amb) with
    | none => simpa using longer
    | some y =>
      cases y with
      | bumped i o b =>
        have hsame : guesses (record ++ [.bumped i o b]) = guesses record := by
          simp [guesses, Seen.guessedId]
        exact ⟨hsame ▸ h.nodup, hsame ▸ longer.did⟩
      | guessed i =>
        obtain ⟨rfl, code, hcode⟩ := sees_guessed hs
        obtain rfl := mem_unique hat hcode
        have hmore : guesses (record ++ [.guessed i]) = guesses record ++ [i] := by
          simp [guesses, Seen.guessedId]
        have hfirst : i ∉ guesses record := by
          intro hi
          obtain ⟨request, -, hnone⟩ := hlawful.stands hat
          obtain ⟨amb', number, code', r, hmem⟩ := h.did i hi
          exact hnone number code' r (mem_own.mpr ⟨amb', hmem⟩)
        refine ⟨?_, ?_⟩
        · rw [toList_some, hmore]
          exact nodup_append'.mpr ⟨h.nodup, nodup_singleton i, by simpa using hfirst⟩
        · rw [toList_some, hmore]
          intro j hj
          rcases mem_append.mp hj with hj | hj
          · exact longer.did j hj
          · rw [mem_singleton.mp hj]
            exact ⟨amb, e164, code, _, mem_append_right _ (mem_singleton.mpr rfl)⟩

theorem seen_run (e164 : Text) {es : List ApiEvent}
    (hrun : run (api env).step (Host.start .initial) es = some w) :
    Throttled (env.phoneRateKey e164) (seen env e164 es) w.state.limiter ∧
      GuessedOnce (seen env e164 es) w.history := by
  refine run_induction ?_ ?_ hrun
  · exact ⟨.start, nodup_nil, fun _ hid => by cases hid⟩
  · intro es u e v hu ih hstep
    have hlawful := run_lawful (handle_inTurn env) hu
    rw [seen, observe_snoc e hu]
    exact ⟨ih.1.step hlawful hstep, ih.2.step hlawful hstep⟩

end Run

theorem guesses_subset {pre mid post : List Seen} {x : Seen}
    (hlicensed : EachAfter Licensed (pre ++ x :: mid ++ post)) (hopens : x.opens = true) {id : ℕ}
    (hid : id ∈ guesses mid) : id ∈ admissions (x :: mid) := by
  obtain ⟨y, hy, hyid⟩ := mem_filterMap.mp hid
  obtain ⟨before, after, rfl⟩ := append_of_mem hy
  cases y with
  | bumped => cases hyid
  | guessed i =>
    obtain rfl := some.inj hyid
    obtain ⟨a, o, since, hsplit, hsince⟩ :=
      hlicensed (pre ++ x :: before) (.guessed i) (after ++ post) (by simp)
    -- the admission is not before the entry that opens the window
    have hin : .bumped i o true ∈ x :: before := by
      rcases append_eq_append_iff.mp hsplit with ⟨t, -, ht⟩ | ⟨t, -, ht⟩
      · rw [ht]
        simp
      · rcases cons_eq_append_iff.mp ht with ⟨-, ht⟩ | ⟨t', -, ht⟩
        · rw [ht]
          simp
        · simp [hsince x (by rw [ht]; simp)] at hopens
    refine mem_filterMap.mpr ⟨.bumped i o true, ?_, rfl⟩
    rcases mem_cons.mp hin with hx | hb
    · exact hx ▸ mem_cons_self
    · simp [hb]

/-- If every guess is licensed, a window sees no more guesses than its limit. -/
theorem guesses_throttled (env : Env) (e164 : Text) {es : List ApiEvent} {w : World}
    (hrun : run (api env).step (Host.start .initial) es = some w)
    (hlicensed : EachAfter Licensed (seen env e164 es)) {pre mid post : List Seen} {x : Seen}
    (hsplit : seen env e164 es = pre ++ x :: mid ++ post) (hopens : x.opens = true)
    (hmid : ∀ y ∈ mid, y.opens = false) :
    (guesses mid).length ≤ verifyAttemptsPerMinute := by
  obtain ⟨hthrottled, honce⟩ := seen_run e164 hrun
  rw [hsplit] at hlicensed
  have hnodup : (guesses mid).Nodup := by
    have hmem : mid.Sublist (seen env e164 es) := by
      rw [hsplit, append_assoc]
      exact ((sublist_append_left mid post).cons x).trans (sublist_append_right pre _)
    exact honce.nodup.sublist (hmem.filterMap _)
  calc (guesses mid).length ≤ (admissions (x :: mid)).length :=
        (hnodup.subperm fun _ hid => guesses_subset hlicensed hopens hid).length_le
    _ ≤ verifyAttemptsPerMinute := hthrottled.bounded pre x mid post hsplit hopens hmid

section Sample

theorem guesses_throttled_verify : (guesses [.guessed 0]).length ≤ verifyAttemptsPerMinute := by
  obtain ⟨w, hrun⟩ : ∃ w, run (api sampleEnv).step (Host.start .initial)
      (serve 0 (.verify 0 samplePhone ['1']) 3 (calm 0 [])) = some w := by decide +kernel
  have hseen : seen sampleEnv samplePhone (serve 0 (.verify 0 samplePhone ['1']) 3 (calm 0 [])) =
      [.bumped 0 true true] ++ [.guessed 0] := by decide +kernel
  have hlicensed : EachAfter Licensed (seen sampleEnv samplePhone
      (serve 0 (.verify 0 samplePhone ['1']) 3 (calm 0 []))) := by
    refine eachAfter_snoc.mpr ⟨eachAfter_snoc.mpr ⟨eachAfter_nil, trivial⟩, ?_⟩
    exact ⟨[], true, [], rfl, by simp⟩
  exact guesses_throttled sampleEnv samplePhone hrun hlicensed
    (show _ = [] ++ Seen.bumped 0 true true :: [.guessed 0] ++ [] from hseen) rfl (by decide)

/-- A verification opens the window of a number; six attempts to begin a restore follow. -/
def guessingSpree : List ApiEvent :=
  serve 0 (.verify 0 samplePhone ['1']) 3 (calm 0 []) ++
    (range 6).flatMap (fun i => serve (i + 1) (.restoreBegin samplePhone ['2']) 1 (calm 0 []))

theorem restore_guesses_unthrottled :
    (run (api sampleEnv).step (Host.start .initial) guessingSpree).isSome = true ∧
      seen sampleEnv samplePhone guessingSpree =
        .bumped 0 true true :: (range 7).map .guessed ∧
      ¬ (guesses ((range 7).map .guessed)).length ≤ verifyAttemptsPerMinute := by
  decide +kernel

end Sample

end Rosette.Directory
