import Rosette.Foundation.Window

/-! # Metered uses

A counter is asked time after time, each time under a limit that may differ from the last.
An attempt starts a window if there is none or the last one has run out, and is admitted while
its window has room. Two windows start at least their length apart, so a span meets one more
than fit into it, and the one that was running when it began.
-/
namespace Rosette.Foundation
open List

variable {now : ℕ} {w : Option Window} {calls : List (ℕ × ℕ)} {times : List ℕ}

/-- An attempt, whether a window started with it and whether it was admitted. -/
structure Attempt where
  limit : ℕ
  now : ℕ
  opens : Bool
  admitted : Bool
deriving DecidableEq

namespace Window
variable (length : ℕ)

def opens (now : ℕ) (w : Option Window) : Bool := w.all fun w => length ≤ now - w.started

def current (now : ℕ) (w : Option Window) : Window := (w.getD ⟨0, now⟩).roll length now

def attempt (limit now : ℕ) (w : Option Window) : Attempt × Window :=
  let found := current length now w
  let admitted := decide (found.count < limit)
  (⟨limit, now, opens length now w, admitted⟩, ⟨found.count + admitted.toNat, found.started⟩)

/-- Attempts one after the other, each a limit and a time. -/
def meter : Option Window → List (ℕ × ℕ) → List Attempt
  | _, [] => []
  | w, (limit, now) :: calls =>
    (attempt length limit now w).1 :: meter (some (attempt length limit now w).2) calls

variable {length} {M : ℕ} {mid post : List Attempt}

theorem current_of_opens (h : opens length now w = true) : current length now w = ⟨0, now⟩ := by
  cases w with
  | none =>
    unfold current roll
    split_ifs <;> rfl
  | some => exact if_pos (of_decide_eq_true h)

theorem current_of_not_opens {w : Window} (h : opens length now (some w) = false) :
    current length now (some w) = w := by
  exact if_neg (of_decide_eq_false h)

theorem attempt_room {limit : ℕ} {l : List Attempt} (hw : (current length now w).count ≤ M)
    (hlimit : limit ≤ M) (rest : (attempt length limit now w).2.count ≤ M →
      (attempt length limit now w).2.count + (l.filter (·.admitted)).length ≤ M) :
    (current length now w).count +
      (((attempt length limit now w).1 :: l).filter (·.admitted)).length ≤ M := by
  by_cases hadm : (current length now w).count < limit
  · simp only [attempt, hadm, decide_true, filter_cons_of_pos, length_cons,
      Bool.toNat_true] at rest ⊢
    omega
  · simp only [attempt, hadm, decide_false, Bool.false_eq_true, not_false_eq_true,
      filter_cons_of_neg, Bool.toNat_false, Nat.add_zero] at rest ⊢
    exact rest hw

/-- In a window that is running, the limits are never passed. -/
theorem admitted_within {w : Window} (hw : w.count ≤ M)
    (hm : meter length (some w) calls = mid ++ post) (hopens : ∀ x ∈ mid, x.opens = false)
    (hlimit : ∀ x ∈ mid, x.limit ≤ M) : w.count + (mid.filter (·.admitted)).length ≤ M := by
  induction mid generalizing calls w with
  | nil => exact hw
  | cons x mid ih =>
    cases calls with
    | nil => cases hm
    | cons call =>
      obtain ⟨rfl, hrest⟩ := cons.inj hm
      obtain ⟨hx, hopens⟩ := forall_mem_cons.mp hopens
      obtain ⟨hl, hlimit⟩ := forall_mem_cons.mp hlimit
      have hcurrent := current_of_not_opens hx
      have hstep := attempt_room (hcurrent.symm ▸ hw) hl fun hroom => ih hroom hrest hopens hlimit
      rwa [hcurrent] at hstep

/-- From the start of a window to the next, at most the largest limit is admitted. -/
theorem admitted_le {pre : List Attempt} {b : Attempt}
    (hm : meter length w calls = pre ++ b :: (mid ++ post)) (hb : b.opens = true)
    (hopens : ∀ x ∈ mid, x.opens = false) (hlimit : ∀ x ∈ b :: mid, x.limit ≤ M) :
    ((b :: mid).filter (·.admitted)).length ≤ M := by
  induction pre generalizing calls w with
  | nil =>
    cases calls with
    | nil => cases hm
    | cons call =>
      obtain ⟨rfl, hrest⟩ := cons.inj hm
      obtain ⟨hl, hlimit⟩ := forall_mem_cons.mp hlimit
      have hstep := attempt_room (by simp [current_of_opens hb]) hl fun hroom =>
        admitted_within hroom hrest hopens hlimit
      exact (Nat.le_add_left _ _).trans hstep
  | cons x pre ih =>
    cases calls with
    | nil => cases hm
    | cons => exact ih (cons.inj hm).2

end Window

/-- The times at which attempts were admitted. -/
def uses (seen : List Attempt) : List ℕ := (seen.filter (·.admitted)).map (·.now)

/-- A span holds no more than the windows it can meet. -/
def Spanned (length limit : ℕ) (times : List ℕ) : Prop :=
  ∀ t T, (times.filter fun τ => t ≤ τ ∧ τ ≤ t + T).length ≤ limit * (T / length + 2)

/-- The window holds all uses since it started, and those from an earlier time on are in it and
in the windows that had started since then. -/
structure Paced (length limit : ℕ) (times : List ℕ) (latest : ℕ) (w : Window) : Prop where
  room : w.count ≤ limit
  started : w.started ≤ latest
  past : ∀ τ ∈ times, τ ≤ latest
  counted : w.count ≤ (times.filter (w.started ≤ ·)).length
  since : ∀ t, w.started < t → (times.filter (t ≤ ·)).length ≤ w.count
  before : ∀ t ≤ w.started,
    (times.filter (t ≤ ·)).length ≤ w.count + limit * ((w.started - t) / length + 1)

namespace Paced
variable {length limit latest : ℕ} {w : Window}

theorem renew (h : Paced length limit times latest w) (hle : latest ≤ now) (hpos : 0 < length)
    (hout : length ≤ now - w.started) : Paced length limit times now ⟨0, now⟩ where
  room := Nat.zero_le _
  started := le_rfl
  past τ hτ := (h.past τ hτ).trans hle
  counted := Nat.zero_le _
  since t ht := by
    refine Nat.le_of_eq (length_eq_zero_iff.mpr (filter_eq_nil_iff.mpr fun τ hτ => ?_))
    have hτ := h.past τ hτ
    simp only [decide_eq_true_eq]
    change now < t at ht
    omega
  before t ht := by
    have hroom := h.room
    rcases Nat.lt_or_ge w.started t with hlt | hge
    · have hsince := h.since t hlt
      calc (times.filter (t ≤ ·)).length ≤ limit * 1 := by omega
        _ ≤ limit * ((now - t) / length + 1) := Nat.mul_le_mul_left _ (Nat.le_add_left ..)
        _ ≤ _ := Nat.le_add_left _ _
    · have hbefore := h.before t hge
      -- one window more has started since `t`, a whole length later
      have hdiv : (w.started - t) / length + 1 ≤ (now - t) / length := by
        rw [← Nat.add_div_right _ hpos]
        exact Nat.div_le_div_right (by omega)
      calc (times.filter (t ≤ ·)).length
          ≤ limit * ((w.started - t) / length + 1 + 1) := by rw [Nat.mul_succ]; omega
        _ ≤ limit * ((now - t) / length + 1) := Nat.mul_le_mul_left _ (Nat.succ_le_succ hdiv)
        _ ≤ _ := Nat.le_add_left _ _

theorem later (h : Paced length limit times latest w) (hle : latest ≤ now) :
    Paced length limit times now w :=
  ⟨h.room, h.started.trans hle, fun τ hτ => (h.past τ hτ).trans hle, h.counted, h.since, h.before⟩

theorem use (h : Paced length limit times now w) (hroom : w.count < limit) :
    Paced length limit (times ++ [now]) now ⟨w.count + 1, w.started⟩ where
  room := hroom
  started := h.started
  past τ hτ := by
    rcases mem_append.mp hτ with hτ | hτ
    · exact h.past τ hτ
    · exact (mem_singleton.mp hτ).le
  counted := by
    rw [filter_append, length_append, filter_cons_of_pos
      (by simpa only [decide_eq_true_eq] using h.started), filter_nil, length_singleton]
    exact Nat.succ_le_succ h.counted
  since t ht := by
    rw [filter_append, length_append]
    exact Nat.add_le_add (h.since t ht) (length_filter_le _ _)
  before t ht := by
    rw [filter_append, length_append]
    have hlast := length_filter_le (fun τ => decide (t ≤ τ)) [now]
    have hbefore := h.before t ht
    rw [length_singleton] at hlast
    change _ ≤ w.count + 1 + limit * ((w.started - t) / length + 1)
    omega

theorem spanned (h : Paced length limit (times ++ [now]) now w) (hs : Spanned length limit times) :
    Spanned length limit (times ++ [now]) := by
  intro t T
  rcases Nat.lt_or_ge (t + T) now with hout | hin
  · rw [filter_append, filter_cons_of_neg (by simp only [decide_eq_true_eq]; omega),
      filter_nil, append_nil]
    exact hs t T
  · have hsub : ((times ++ [now]).filter fun τ => t ≤ τ ∧ τ ≤ t + T).length ≤
        ((times ++ [now]).filter (t ≤ ·)).length := by
      refine Sublist.length_le (monotone_filter_right _ fun τ hτ => ?_)
      exact decide_eq_true (of_decide_eq_true hτ).1
    refine hsub.trans ?_
    have hroom := h.room
    rcases Nat.lt_or_ge w.started t with hlt | hge
    · calc ((times ++ [now]).filter (t ≤ ·)).length ≤ limit * 1 := by
            have := h.since t hlt
            omega
        _ ≤ _ := Nat.mul_le_mul_left _ (Nat.succ_le_succ (Nat.zero_le _))
    · have hstarted := h.started
      have hdiv : (w.started - t) / length ≤ T / length := Nat.div_le_div_right (by omega)
      calc ((times ++ [now]).filter (t ≤ ·)).length
          ≤ limit * ((w.started - t) / length + 2) := by
            have := h.before t hge
            rw [Nat.mul_succ]
            omega
        _ ≤ _ := Nat.mul_le_mul_left _ (by omega)

theorem full (h : Paced length limit times now w) (hlive : now < w.started + length) :
    w.count ≤ (times.filter fun τ => now < τ + length).length := by
  refine h.counted.trans (Sublist.length_le (monotone_filter_right _ fun τ hτ => ?_))
  have := of_decide_eq_true hτ
  exact decide_eq_true (by omega)

end Paced

/-- There was no attempt yet, or the uses are paced by the window. -/
def Pacing (length limit : ℕ) (times : List ℕ) (latest : ℕ) : Option Window → Prop
  | none => times = []
  | some w => Paced length limit times latest w

namespace Pacing
variable {length limit latest : ℕ} {seen : List Attempt}

theorem current (h : Pacing length limit times latest w) (hle : latest ≤ now) (hpos : 0 < length) :
    Paced length limit times now (Window.current length now w) := by
  cases w with
  | none =>
    obtain rfl : times = [] := h
    rw [Window.current_of_opens rfl]
    exact ⟨Nat.zero_le _, le_rfl, by simp, Nat.zero_le _, by simp, by simp⟩
  | some w =>
    cases hopens : Window.opens length now (some w) with
    | true =>
      rw [Window.current_of_opens hopens]
      exact Paced.renew h hle hpos (of_decide_eq_true hopens)
    | false =>
      rw [Window.current_of_not_opens hopens]
      exact Paced.later h hle

theorem current_live (now : ℕ) (w : Option Window) (hpos : 0 < length) :
    now < (Window.current length now w).started + length := by
  cases hopens : Window.opens length now w with
  | true =>
    rw [Window.current_of_opens hopens]
    change now < now + length
    omega
  | false =>
    cases w with
    | none => cases hopens
    | some =>
      rw [Window.current_of_not_opens hopens]
      have := of_decide_eq_false hopens
      omega

/-- What an attempt does to the pace. One that is refused finds its limit reached lately. -/
theorem attempt {l : ℕ} (h : Pacing length limit (uses seen) latest w)
    (hs : Spanned length limit (uses seen)) (hle : latest ≤ now) (hpos : 0 < length)
    (hl : l ≤ limit) :
    Pacing length limit (uses (seen ++ [(Window.attempt length l now w).1])) now
        (some (Window.attempt length l now w).2) ∧
      Spanned length limit (uses (seen ++ [(Window.attempt length l now w).1])) ∧
      ((Window.attempt length l now w).1.admitted = false →
        l ≤ ((uses seen).filter fun τ => now < τ + length).length) := by
  have hcurrent := h.current hle hpos
  have hlive : now < (Window.current length now w).started + length := current_live now w hpos
  unfold Window.attempt
  by_cases hadm : (Window.current length now w).count < l
  · have hu : uses (seen ++ [⟨l, now, Window.opens length now w, true⟩]) = uses seen ++ [now] := by
      simp [uses]
    simp only [hadm, decide_true, hu]
    have huse := hcurrent.use (hadm.trans_le hl)
    exact ⟨huse, huse.spanned hs, by rintro ⟨⟩⟩
  · have hu : uses (seen ++ [⟨l, now, Window.opens length now w, false⟩]) = uses seen := by
      simp [uses]
    simp only [hadm, decide_false, hu]
    exact ⟨hcurrent, hs, fun _ => (Nat.le_of_not_lt hadm).trans (hcurrent.full hlive)⟩

/-- Attempts whose limits stay below a bound keep the pace, and each that is refused finds its
limit reached lately. -/
theorem meter (hpos : 0 < length) (h : Pacing length limit (uses seen) latest w)
    (hs : Spanned length limit (uses seen))
    (hclock : (latest :: calls.map Prod.snd).Pairwise (· ≤ ·)) (hl : ∀ c ∈ calls, c.1 ≤ limit) :
    Spanned length limit (uses (seen ++ Window.meter length w calls)) ∧
      ∀ pre x post, Window.meter length w calls = pre ++ x :: post → x.admitted = false →
        x.limit ≤ ((uses (seen ++ pre)).filter fun τ => x.now < τ + length).length := by
  induction calls generalizing seen latest w with
  | nil => exact ⟨by simpa [Window.meter] using hs, fun pre x post hm => by cases pre <;> cases hm⟩
  | cons call calls ih =>
    obtain ⟨l, now⟩ := call
    rw [pairwise_cons] at hclock
    obtain ⟨hlate, hclock⟩ := hclock
    obtain ⟨hl, hrest⟩ := forall_mem_cons.mp hl
    obtain ⟨hnext, hspan, hfull⟩ := h.attempt hs (hlate now (mem_cons_self ..)) hpos hl
    obtain ⟨hspan', hrefused⟩ := ih hnext hspan hclock hrest
    rw [append_assoc] at hspan'
    refine ⟨hspan', fun pre x post hm hx => ?_⟩
    cases pre with
    | nil =>
      obtain ⟨rfl, -⟩ := cons.inj hm
      rw [append_nil]
      exact hfull hx
    | cons y pre =>
      obtain ⟨rfl, hrest⟩ := cons.inj hm
      have := hrefused pre x post hrest hx
      rwa [append_assoc, singleton_append] at this

end Pacing
end Rosette.Foundation
