import Mathlib.Data.List.DropRight
import Mathlib.Tactic

/-! # Trimming and slicing

Two things that programs do to a text, over any characters: the white space at both ends is cut
off, and a part is taken by the sizes of the characters, which fails inside a character.
-/
namespace Rosette.Foundation
open List Option

section Trim
variable {α : Type} {p q : α → Bool} {l w : List α}

def trim (p : α → Bool) (l : List α) : List α := (l.dropWhile p).rdropWhile p

theorem rdropWhile_append (hw : ∀ a ∈ w, p a = true) : (l ++ w).rdropWhile p = l.rdropWhile p := by
  rw [rdropWhile, reverse_append,
    dropWhile_append_of_pos (fun a ha => hw a (mem_reverse.mp ha)), rdropWhile]

theorem trim_append_left (hw : ∀ a ∈ w, p a = true) : trim p (w ++ l) = trim p l := by
  rw [trim, dropWhile_append_of_pos hw, trim]

theorem trim_append_right (hw : ∀ a ∈ w, p a = true) : trim p (l ++ w) = trim p l := by
  rw [trim, dropWhile_append, trim]
  split_ifs with hempty
  · rw [dropWhile_eq_nil_iff.mpr hw, isEmpty_iff.mp hempty]
  · exact rdropWhile_append hw

theorem trim_eq_self (hl : ∀ a ∈ l, p a = false) : trim p l = l := by
  have hdrop : l.dropWhile p = l := by
    cases l with
    | nil => rfl
    | cons a => exact dropWhile_cons_of_neg (by simp [hl a mem_cons_self])
  rw [trim, hdrop, rdropWhile_eq_self_iff]
  intro hne
  simp [hl _ (getLast_mem hne)]

theorem filter_dropWhile (hpq : ∀ a, p a = true → q a = false) :
    (l.dropWhile p).filter q = l.filter q := by
  induction l with
  | nil => rfl
  | cons a l ih =>
    by_cases ha : p a = true
    · rw [dropWhile_cons_of_pos ha, ih, filter_cons_of_neg (by simp [hpq a ha])]
    · rw [dropWhile_cons_of_neg ha]

theorem filter_trim (hpq : ∀ a, p a = true → q a = false) : (trim p l).filter q = l.filter q := by
  rw [trim, rdropWhile, filter_reverse, filter_dropWhile hpq, filter_reverse,
    reverse_reverse, filter_dropWhile hpq]

theorem head?_trim_cons {a : α} (ha : p a = false) : (trim p (a :: l)).head? = some a := by
  have hdrop : (a :: l).dropWhile p = a :: l := dropWhile_cons_of_neg (by simp [ha])
  obtain ⟨rest, hrest⟩ := rdropWhile_prefix p (a :: l)
  rw [trim, hdrop]
  cases hr : (a :: l).rdropWhile p with
  | nil =>
    have hall := rdropWhile_eq_nil_iff.mp hr a mem_cons_self
    simp [ha] at hall
  | cons =>
    rw [hr] at hrest
    rw [head?_cons, (cons.inj hrest).1]

end Trim

section Slice
variable {α : Type} (size : α → ℕ)

def total (l : List α) : ℕ := (l.map size).sum

/-- The rest after `n`, unless that is inside an item or past the end. -/
def dropSize : ℕ → List α → Option (List α)
  | 0, l => some l
  | _ + 1, [] => none
  | n + 1, a :: l => if size a ≤ n + 1 then dropSize (n + 1 - size a) l else none

/-- The first `n`, unless that ends inside an item or past the end. -/
def takeSize : ℕ → List α → Option (List α)
  | 0, _ => some []
  | _ + 1, [] => none
  | n + 1, a :: l => if size a ≤ n + 1 then (takeSize (n + 1 - size a) l).map (a :: ·) else none

/-- The part from `start` to `stop`. -/
def slice (start stop : ℕ) (l : List α) : Option (List α) :=
  (dropSize size start l).bind (takeSize size (stop - start))

variable {size} {l m r : List α} {n : ℕ}

@[simp] theorem total_nil : total size ([] : List α) = 0 := rfl

@[simp] theorem total_cons (a : α) (l : List α) : total size (a :: l) = size a + total size l := rfl

@[simp] theorem total_append (l m : List α) :
    total size (l ++ m) = total size l + total size m := by
  simp [total]

theorem total_eq_zero (hpos : ∀ a, 0 < size a) : total size l = 0 ↔ l = [] := by
  cases l with
  | nil => simp
  | cons a =>
    have ha := hpos a
    simp only [total_cons, reduceCtorEq, iff_false]
    omega

theorem total_eq_length (hone : ∀ a ∈ l, size a = 1) : total size l = l.length := by
  induction l with
  | nil => rfl
  | cons a l ih =>
    rw [total_cons, hone a mem_cons_self, ih fun b hb => hone b (mem_cons_of_mem _ hb),
      length_cons, Nat.add_comm]

theorem dropSize_append (hpos : ∀ a, 0 < size a) (l r : List α) :
    dropSize size (total size l) (l ++ r) = some r := by
  induction l with
  | nil => rw [total_nil, nil_append, dropSize]
  | cons a l ih =>
    have ha := hpos a
    obtain ⟨k, hk⟩ : ∃ k, total size (a :: l) = k + 1 := ⟨size a + total size l - 1, by
      rw [total_cons]
      omega⟩
    rw [hk, cons_append, dropSize, ← hk, total_cons, if_pos (Nat.le_add_right _ _),
      Nat.add_sub_cancel_left, ih]

theorem takeSize_append (hpos : ∀ a, 0 < size a) (l r : List α) :
    takeSize size (total size l) (l ++ r) = some l := by
  induction l with
  | nil => rw [total_nil, takeSize]
  | cons a l ih =>
    have ha := hpos a
    obtain ⟨k, hk⟩ : ∃ k, total size (a :: l) = k + 1 := ⟨size a + total size l - 1, by
      rw [total_cons]
      omega⟩
    rw [hk, cons_append, takeSize, ← hk, total_cons, if_pos (Nat.le_add_right _ _),
      Nat.add_sub_cancel_left, ih, map_some]

theorem takeSize_eq_some (h : takeSize size n l = some m) :
    ∃ r, l = m ++ r ∧ total size m = n := by
  induction l generalizing n m with
  | nil =>
    cases n with
    | zero =>
      cases h
      exact ⟨[], rfl, rfl⟩
    | succ => cases h
  | cons a l ih =>
    cases n with
    | zero =>
      cases h
      exact ⟨a :: l, rfl, rfl⟩
    | succ =>
      rw [takeSize] at h
      split_ifs at h with hfits
      obtain ⟨m', hm', rfl⟩ := map_eq_some_iff.mp h
      obtain ⟨r, rfl, htotal⟩ := ih hm'
      refine ⟨r, rfl, ?_⟩
      rw [total_cons, htotal]
      omega

theorem slice_append (hpos : ∀ a, 0 < size a) {start : ℕ} (hl : total size l = start) :
    slice size start (start + n) (l ++ r) = takeSize size n r := by
  rw [slice, ← hl, dropSize_append hpos, bind_some, Nat.add_sub_cancel_left]

end Slice
end Rosette.Foundation
