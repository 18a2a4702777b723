import Mathlib.Data.Finmap
import Mathlib.Tactic

/-! # A bounded pool of single-use tickets

Tickets are issued into a pool, and a full pool makes room by dropping the one issued
longest ago. Spending a ticket takes it out of the pool and leaves its name in the
queue, so the queue may hold names of tickets that are gone. Neither outgrows the cap,
and a ticket that nobody spends lasts until as many have been issued after it.
-/
namespace Rosette.Foundation
open List

/-- The live tickets with their values, and the names in the order they will be dropped. -/
structure Pool (κ ν : Type*) where
  live : Finmap (fun _ : κ => ν)
  order : List κ

namespace Pool
variable {κ ν : Type*} (cap : ℕ)

/-- How many names have to go. -/
def surplus (order : List κ) : ℕ := order.length + 1 - cap

theorem surplus_of_full {o : κ} {os : List κ} (h : cap ≤ (o :: os).length) :
    surplus cap (o :: os) = surplus cap os + 1 := by
  unfold surplus
  rw [length_cons] at h ⊢
  omega

theorem surplus_of_room {order : List κ} (h : ¬ cap ≤ order.length) : surplus cap order = 0 := by
  unfold surplus
  omega

variable [DecidableEq κ]

def evict : List κ → Finmap (fun _ : κ => ν) → List κ × Finmap (fun _ : κ => ν)
  | [], m => ([], m)
  | o :: os, m => if cap ≤ (o :: os).length then evict os (m.erase o) else (o :: os, m)

theorem evict_order (order : List κ) (m : Finmap (fun _ : κ => ν)) :
    (evict cap order m).1 = order.drop (surplus cap order) := by
  induction order generalizing m with
  | nil => simp [evict]
  | cons o os ih =>
    unfold evict
    split_ifs with hfull
    · rw [ih, surplus_of_full cap hfull, drop_succ_cons]
    · rw [surplus_of_room cap hfull, drop_zero]

theorem lookup_evict (order : List κ) (m : Finmap (fun _ : κ => ν)) (k : κ) :
    (evict cap order m).2.lookup k =
      if k ∈ order.take (surplus cap order) then none else m.lookup k := by
  induction order generalizing m with
  | nil => simp [evict]
  | cons o os ih =>
    by_cases hfull : cap ≤ (o :: os).length
    · rw [evict, if_pos hfull, ih, surplus_of_full cap hfull]
      by_cases hk : k = o
      · subst hk
        simp [Finmap.lookup_erase]
      · simp [hk]
    · rw [evict, if_neg hfull, surplus_of_room cap hfull]
      simp

variable {cap} {p : Pool κ ν} {k j : κ} {v w : ν} {n : ℕ}

variable (cap) in
def issue (p : Pool κ ν) (k : κ) (v : ν) : Pool κ ν :=
  ⟨(evict cap p.order p.live).2.insert k v, (evict cap p.order p.live).1 ++ [k]⟩

def spend (p : Pool κ ν) (k : κ) : Pool κ ν := ⟨p.live.erase k, p.order⟩

def empty : Pool κ ν := ⟨∅, []⟩

variable (cap) in
/-- The queue keeps to the cap and holds every live name. -/
structure Bounded (p : Pool κ ν) : Prop where
  length : p.order.length ≤ cap
  listed : ∀ k ∈ p.live, k ∈ p.order

omit [DecidableEq κ] in
theorem notMem_empty : k ∉ (empty : Pool κ ν).live := Finmap.notMem_empty

omit [DecidableEq κ] in
theorem bounded_empty : Bounded cap (empty : Pool κ ν) :=
  ⟨Nat.zero_le _, fun _ hk => absurd hk notMem_empty⟩

theorem Bounded.issue (hcap : 0 < cap) (h : p.Bounded cap) (k : κ) (v : ν) :
    (p.issue cap k v).Bounded cap := by
  unfold Pool.issue
  refine ⟨?_, fun j hj => ?_⟩
  · rw [length_append, evict_order, length_drop, length_singleton]
    unfold surplus
    omega
  · rw [mem_append, mem_singleton]
    rcases Finmap.mem_insert.mp hj with rfl | hj
    · exact .inr rfl
    · -- a name that is still live was not among those dropped
      left
      rw [evict_order]
      have hkept := lookup_evict cap p.order p.live j
      obtain ⟨b, hb⟩ := Finmap.mem_iff.mp hj
      rw [hb] at hkept
      split_ifs at hkept with hdropped
      have hmem := h.listed j (Finmap.mem_iff.mpr ⟨b, hkept.symm⟩)
      rw [← take_append_drop (surplus cap p.order) p.order, mem_append] at hmem
      exact hmem.resolve_left hdropped

theorem Bounded.spend (h : p.Bounded cap) (k : κ) : (p.spend k).Bounded cap :=
  ⟨h.length, fun j hj => h.listed j (Finmap.mem_erase.mp hj).2⟩

theorem Bounded.card (h : p.Bounded cap) : p.live.keys.card ≤ cap := by
  have hsub : p.live.keys ⊆ p.order.toFinset := fun k hk =>
    mem_toFinset.mpr (h.listed k (Finmap.mem_keys.mp hk))
  calc p.live.keys.card ≤ p.order.toFinset.card := Finset.card_le_card hsub
    _ ≤ p.order.length := toFinset_card_le _
    _ ≤ cap := h.length

theorem mem_of_mem_issue (hj : j ∈ (p.issue cap k v).live) : j = k ∨ j ∈ p.live := by
  rcases Finmap.mem_insert.mp hj with rfl | hj
  · exact .inl rfl
  · right
    obtain ⟨b, hb⟩ := Finmap.mem_iff.mp hj
    rw [lookup_evict] at hb
    split_ifs at hb
    exact Finmap.mem_iff.mpr ⟨b, hb⟩

theorem mem_order_of_mem_issue (hj : j ∈ (p.issue cap k v).order) : j ∈ p.order ∨ j = k := by
  rcases mem_append.mp hj with hj | hj
  · rw [evict_order] at hj
    exact .inl (mem_of_mem_drop hj)
  · exact .inr (mem_singleton.mp hj)

/-- The ticket is live with its value, and `n` have been issued after it. -/
structure Waiting (p : Pool κ ν) (k : κ) (v : ν) (n : ℕ) : Prop where
  live : p.live.lookup k = some v
  place : ∃ older newer, p.order = older ++ k :: newer ∧ newer.length = n ∧ k ∉ older

theorem waiting_issue (hk : k ∉ p.order) (v : ν) : (p.issue cap k v).Waiting k v 0 := by
  refine ⟨Finmap.lookup_insert _, (evict cap p.order p.live).1, [], rfl, rfl, fun hmem => hk ?_⟩
  rw [evict_order] at hmem
  exact mem_of_mem_drop hmem

/-- With fewer than the cap issued after it, the ticket is not among those dropped. -/
theorem Waiting.issue (h : p.Waiting k v n) (hne : k ≠ j) (hn : n + 1 < cap) :
    (p.issue cap j w).Waiting k v (n + 1) := by
  obtain ⟨older, newer, horder, rfl, hk⟩ := h.place
  have hdrop : surplus cap p.order ≤ older.length := by
    unfold surplus
    rw [horder, length_append, length_cons]
    omega
  refine ⟨?_, older.drop (surplus cap p.order), newer ++ [j], ?_, by simp, ?_⟩
  · refine (Finmap.lookup_insert_of_ne _ hne).trans ?_
    rw [lookup_evict, if_neg, h.live]
    intro hmem
    generalize surplus cap p.order = d at hdrop hmem
    rw [horder, take_append_of_le_length hdrop] at hmem
    exact hk (mem_of_mem_take hmem)
  · change (evict cap p.order p.live).1 ++ [j] = _
    rw [evict_order]
    generalize surplus cap p.order = d at hdrop
    rw [horder, drop_append_of_le_length hdrop, append_assoc, cons_append]
  · exact fun hmem => hk (mem_of_mem_drop hmem)

theorem Waiting.spend (h : p.Waiting k v n) (hne : k ≠ j) : (p.spend j).Waiting k v n :=
  ⟨(Finmap.lookup_erase_ne hne).trans h.live, h.place⟩

end Pool
end Rosette.Foundation
