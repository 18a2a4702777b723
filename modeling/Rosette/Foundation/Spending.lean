import Mathlib.Tactic

/-! # Single-use keys that expire

A store remembers which keys have been spent and until when each of them counts.
Before a key is spent, everything that has expired is dropped. The store then says
of every later instant what the whole record of spent keys says, and no key is
spent twice with one expiry.
-/
namespace Rosette.Foundation
open List Function
variable {κ τ : Type*} [LinearOrder τ] {now exp : τ} {spent : κ → Option τ} {k : κ}

/-- Drop what has expired. -/
def prune (now : τ) (spent : κ → Option τ) : κ → Option τ :=
  fun k => (spent k).filter (fun exp => now < exp)

theorem prune_eq_some : prune now spent k = some exp ↔ spent k = some exp ∧ now < exp := by
  simp [prune]

theorem prune_of_live (h : ∀ exp, spent k = some exp → now < exp) :
    prune now spent k = spent k := by
  cases hk : spent k with
  | none => rw [prune, hk, Option.filter_none]
  | some exp => exact prune_eq_some.mpr ⟨hk, h exp hk⟩

section Spend
variable [DecidableEq κ] {now : τ} {spent : κ → Option τ} {k k' : κ}

/-- Spend a key until `exp`, unless it still counts as spent. -/
def spend (now : τ) (spent : κ → Option τ) (k : κ) (exp : τ) : Bool × (κ → Option τ) :=
  if (prune now spent k).isSome then (false, prune now spent)
  else (true, update (prune now spent) k (some exp))

theorem spend_of_counting (h : (prune now spent k).isSome = true) (exp : τ) :
    spend now spent k exp = (false, prune now spent) := by
  rw [spend, if_pos h]

theorem spend_of_free (h : ¬ (prune now spent k).isSome = true) (exp : τ) :
    spend now spent k exp = (true, update (prune now spent) k (some exp)) := by
  rw [spend, if_neg h]

/-- Spending a key leaves the live use of another one alone. -/
theorem spend_of_other (hlive : ∀ e, spent k' = some e → now < e)
    (hother : (spend now spent k exp).1 = true → k' ≠ k) :
    (spend now spent k exp).2 k' = spent k' := by
  by_cases hs : (prune now spent k).isSome = true
  · rw [spend_of_counting hs]
    exact prune_of_live hlive
  · rw [spend_of_free hs] at hother ⊢
    exact (update_of_ne (hother rfl) _ _).trans (prune_of_live hlive)

theorem spend_fresh (h : now < exp) {e : τ} (hk : (spend now spent k exp).2 k' = some e) :
    now < e := by
  by_cases hs : (prune now spent k).isSome = true
  · rw [spend_of_counting hs] at hk
    exact (prune_eq_some.mp hk).2
  · rw [spend_of_free hs] at hk
    dsimp only at hk
    by_cases he : k' = k
    · subst he
      rw [update_self] at hk
      cases hk
      exact h
    · rw [update_of_ne he] at hk
      exact (prune_eq_some.mp hk).2

end Spend

/-- From `now` on the store says what the record of spent keys says. -/
structure Remembers (now : τ) (spent : κ → Option τ) (record : List (κ × τ)) : Prop where
  known : ∀ k exp, spent k = some exp → (k, exp) ∈ record
  kept : ∀ k exp, (k, exp) ∈ record → now < exp → spent k = some exp
  once : record.Nodup

namespace Remembers
variable {now later : τ} {spent : κ → Option τ} {record : List (κ × τ)}

theorem empty (now : τ) : Remembers now (fun _ : κ => none) [] :=
  ⟨fun _ _ h => by simp at h, fun _ _ h => by simp at h, nodup_nil⟩

theorem mono (h : Remembers now spent record) (hle : now ≤ later) :
    Remembers later spent record :=
  ⟨h.known, fun k exp hm hlt => h.kept k exp hm (hle.trans_lt hlt), h.once⟩

theorem prune (h : Remembers now spent record) : Remembers now (prune now spent) record :=
  ⟨fun k exp hk => h.known k exp (prune_eq_some.mp hk).1,
    fun k exp hm hlt => prune_eq_some.mpr ⟨h.kept k exp hm hlt, hlt⟩, h.once⟩

theorem counting_iff (h : Remembers now spent record) (k : κ) :
    (Foundation.prune now spent k).isSome = true ↔ ∃ exp, (k, exp) ∈ record ∧ now < exp := by
  rw [Option.isSome_iff_exists]
  constructor
  · rintro ⟨exp, hexp⟩
    exact ⟨exp, h.known k exp (prune_eq_some.mp hexp).1, (prune_eq_some.mp hexp).2⟩
  · rintro ⟨exp, hm, hlt⟩
    exact ⟨exp, prune_eq_some.mpr ⟨h.kept k exp hm hlt, hlt⟩⟩

variable [DecidableEq κ]

/-- A key can be spent exactly when none of its earlier uses still counts. -/
theorem spend_iff (h : Remembers now spent record) (k : κ) (exp : τ) :
    (spend now spent k exp).1 = true ↔ ∀ e, (k, e) ∈ record → ¬ now < e := by
  by_cases hs : (Foundation.prune now spent k).isSome = true
  · rw [spend_of_counting hs]
    obtain ⟨e, hm, hlt⟩ := (h.counting_iff k).mp hs
    simpa using ⟨e, hm, hlt⟩
  · rw [spend_of_free hs]
    rw [h.counting_iff k] at hs
    simpa using hs

theorem spend (h : Remembers now spent record) (k : κ) (hexp : now < exp) :
    Remembers now (spend now spent k exp).2
      (record ++ if (Foundation.spend now spent k exp).1 then [(k, exp)] else []) := by
  by_cases hs : (Foundation.prune now spent k).isSome = true
  · rw [spend_of_counting hs]
    simpa using h.prune
  · have hnone : ∀ e, (k, e) ∈ record → ¬ now < e := by
      intro e hm hlt
      exact hs ((h.counting_iff k).mpr ⟨e, hm, hlt⟩)
    rw [spend_of_free hs, if_pos rfl]
    dsimp only
    refine ⟨fun k' e hk => ?_, fun k' e hm hlt => ?_, ?_⟩
    · by_cases hne : k' = k
      · subst hne
        rw [update_self] at hk
        obtain rfl := Option.some.inj hk
        simp
      · rw [update_of_ne hne] at hk
        exact mem_append_left _ (h.prune.known k' e hk)
    · rcases mem_append.mp hm with hold | hnew
      · have hne : k' ≠ k := fun he => hnone e (he ▸ hold) hlt
        rw [update_of_ne hne]
        exact h.prune.kept k' e hold hlt
      · obtain ⟨rfl, rfl⟩ := Prod.mk.inj (mem_singleton.mp hnew)
        exact update_self ..
    · -- a recorded use of `k` has expired, the new one has not
      rw [nodup_append]
      refine ⟨h.once, nodup_singleton _, ?_⟩
      rintro a ha b hb rfl
      rw [mem_singleton] at hb
      subst hb
      exact hnone exp ha hexp

end Remembers
end Rosette.Foundation
