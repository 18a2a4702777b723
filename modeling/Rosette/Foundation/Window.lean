import Mathlib.Tactic

/-! # Counters over a fixed window

A counter admits up to a limit of uses in a window of fixed length. The window is
started by the first use after the last one ran out, so two windows may lie back to
back and the counter says nothing about the span across them. It does bound every
span of that length if a new window is only ever started after one with no use in it.
-/
namespace Rosette.Foundation
open List

structure Window where
  count : ℕ
  started : ℕ

namespace Window
variable (length limit : ℕ)

/-- The window a use at `now` falls in. -/
def roll (now : ℕ) (w : Window) : Window := if length ≤ now - w.started then ⟨0, now⟩ else w

/-- Count one use, if the window has room for it. -/
def take (now : ℕ) (w : Window) : Option Window :=
  if limit ≤ (w.roll length now).count then none
  else some ⟨(w.roll length now).count + 1, (w.roll length now).started⟩

variable {length limit : ℕ} {now : ℕ} {w w' : Window}

theorem take_eq_some (h : w.take length limit now = some w') :
    (w.roll length now).count < limit ∧ w'.count = (w.roll length now).count + 1 ∧
      w'.started = (w.roll length now).started := by
  unfold take at h
  split_ifs at h with hfull
  cases h
  exact ⟨Nat.lt_of_not_le hfull, rfl, rfl⟩

end Window

/-- No span of the length, open on the left, holds more than the limit. -/
def Rolling (length limit : ℕ) (times : List ℕ) : Prop :=
  ∀ t, (times.filter (fun τ => t < τ + length ∧ τ ≤ t)).length ≤ limit

/-- The window has counted the latest uses, and the others are out of its reach. -/
def Tally (length : ℕ) (times : List ℕ) (latest : ℕ) (w : Window) : Prop :=
  ∃ old recent, times = old ++ recent ∧ recent.length ≤ w.count ∧ ∀ τ ∈ old, τ + length ≤ latest

namespace Tally
variable {length limit : ℕ} {times : List ℕ} {latest now : ℕ} {w w' : Window}

theorem nil (length latest : ℕ) (w : Window) : Tally length [] latest w :=
  ⟨[], [], rfl, Nat.zero_le _, by simp⟩

theorem mono (h : Tally length times latest w) (hle : latest ≤ now) : Tally length times now w := by
  obtain ⟨old, recent, rfl, hcount, hold⟩ := h
  exact ⟨old, recent, rfl, hcount, fun τ hτ => (hold τ hτ).trans hle⟩

theorem roll (h : Tally length times latest w) (hle : latest ≤ now)
    (hidle : length ≤ now - w.started → ∀ τ ∈ times, τ + length ≤ now) :
    Tally length times now (w.roll length now) := by
  unfold Window.roll
  split_ifs with hout
  · exact ⟨times, [], by simp, Nat.zero_le _, hidle hout⟩
  · exact h.mono hle

theorem take (h : Tally length times now (w.roll length now))
    (ht : w.take length limit now = some w') :
    Tally length times now w' ∧ Tally length (times ++ [now]) now w' := by
  obtain ⟨old, recent, rfl, hcount, hold⟩ := h
  obtain ⟨-, hc, -⟩ := Window.take_eq_some ht
  refine ⟨⟨old, recent, rfl, by omega, hold⟩, ⟨old, recent ++ [now], by simp, ?_, hold⟩⟩
  rw [length_append, length_singleton]
  omega

theorem rolling (h : Tally length times now (w.roll length now)) (hr : Rolling length limit times)
    (ht : w.take length limit now = some w') : Rolling length limit (times ++ [now]) := by
  intro t
  rw [filter_append]
  by_cases hnew : t < now + length ∧ now ≤ t
  · obtain ⟨old, recent, rfl, hcount, hold⟩ := h
    obtain ⟨hlt, -, -⟩ := Window.take_eq_some ht
    have hout : old.filter (fun τ => t < τ + length ∧ τ ≤ t) = [] := by
      rw [filter_eq_nil_iff]
      intro τ hτ
      have := hold τ hτ
      simp only [decide_eq_true_eq]
      omega
    have hin := length_filter_le (fun τ => decide (t < τ + length ∧ τ ≤ t)) recent
    rw [filter_append, hout, nil_append, filter_cons_of_pos
      (by simpa only [decide_eq_true_eq] using hnew), filter_nil, length_append,
      length_singleton]
    omega
  · rw [filter_cons_of_neg (by simpa only [decide_eq_true_eq] using hnew), filter_nil, append_nil]
    exact hr t

end Tally
end Rosette.Foundation
