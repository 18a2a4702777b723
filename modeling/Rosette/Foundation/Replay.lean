import Mathlib.Data.Finset.Basic
import Mathlib.Tactic

/-! # At-least-once delivery and a set of seen keys

A history grows at its end. A consumer reads a stream that may skip and repeat what
it has already handled, and keeps the keys it has seen. What matters of any list is
then its part outside that set: the stream trails the history if its unseen part is
a prefix of the history's, and covers it if the two are equal. Both survive every
growth of the set, so a consumer that marks what it reads never reads out of turn.
-/
namespace Rosette.Foundation
open List
variable {α κ : Type*} [DecidableEq κ] (key : α → κ) {l : List α} {a : α} {S T : Finset κ}

theorem take_succ_of_getElem? {n : ℕ} (h : l[n]? = some a) : l.take (n + 1) = l.take n ++ [a] := by
  rw [take_add_one, h]
  rfl

/-- The items whose key is not in the set. -/
def unseen (S : Finset κ) (l : List α) : List α := l.filter (fun a => key a ∉ S)

section Unseen
variable {key} {m : List α}

@[simp] theorem unseen_nil : unseen key S [] = [] := rfl

@[simp] theorem unseen_append : unseen key S (l ++ m) = unseen key S l ++ unseen key S m :=
  filter_append l m

theorem unseen_cons_of_mem (h : key a ∈ S) : unseen key S (a :: l) = unseen key S l := by
  simp [unseen, h]

theorem unseen_cons_of_notMem (h : key a ∉ S) : unseen key S (a :: l) = a :: unseen key S l := by
  simp [unseen, h]

theorem unseen_eq_nil : unseen key S l = [] ↔ ∀ a ∈ l, key a ∈ S := by
  simp [unseen]

theorem unseen_eq_self (h : ∀ a ∈ l, key a ∉ S) : unseen key S l = l := by
  simpa [unseen, filter_eq_self] using h

theorem unseen_unseen (h : S ⊆ T) : unseen key T (unseen key S l) = unseen key T l := by
  unfold unseen
  rw [filter_filter]
  apply filter_congr
  intro a _
  by_cases ha : key a ∈ T
  · simp [ha]
  · have hS : key a ∉ S := fun hs => ha (h hs)
    simp [hS]

end Unseen

/-- The items outside `S`, each at its first occurrence. -/
def firsts (S : Finset κ) : List α → List α
  | [] => []
  | a :: l => if key a ∈ S then firsts S l else a :: firsts (insert (key a) S) l

section Firsts
variable {key} {m rest : List α}

theorem firsts_cons_of_mem (h : key a ∈ S) : firsts key S (a :: l) = firsts key S l := by
  rw [firsts, if_pos h]

theorem firsts_cons_of_notMem (h : key a ∉ S) :
    firsts key S (a :: l) = a :: firsts key (insert (key a) S) l := by
  rw [firsts, if_neg h]

theorem firsts_congr (h : ∀ a ∈ l, key a ∈ S ↔ key a ∈ T) : firsts key S l = firsts key T l := by
  induction l generalizing S T with
  | nil => rfl
  | cons a l ih =>
    have ha := h a mem_cons_self
    have hl : ∀ b ∈ l, key b ∈ S ↔ key b ∈ T := fun b hb => h b (mem_cons_of_mem _ hb)
    by_cases hS : key a ∈ S
    · rw [firsts_cons_of_mem hS, firsts_cons_of_mem (ha.mp hS), ih hl]
    · have hins : ∀ b ∈ l, key b ∈ insert (key a) S ↔ key b ∈ insert (key a) T := by
        intro b hb
        simp only [Finset.mem_insert, hl b hb]
      rw [firsts_cons_of_notMem hS, firsts_cons_of_notMem (fun hT => hS (ha.mpr hT)), ih hins]

theorem mem_firsts_key {k : κ} : k ∈ (firsts key S l).map key ↔ k ∈ l.map key ∧ k ∉ S := by
  induction l generalizing S with
  | nil => simp [firsts]
  | cons a l ih =>
    by_cases hS : key a ∈ S
    · rw [firsts_cons_of_mem hS, ih, map_cons, mem_cons]
      constructor
      · rintro ⟨hk, hn⟩
        exact ⟨.inr hk, hn⟩
      · rintro ⟨rfl | hk, hn⟩
        · exact absurd hS hn
        · exact ⟨hk, hn⟩
    · rw [firsts_cons_of_notMem hS, map_cons, map_cons, mem_cons, mem_cons, ih, Finset.mem_insert]
      constructor
      · rintro (rfl | ⟨hk, hn⟩)
        · exact ⟨.inl rfl, hS⟩
        · exact ⟨.inr hk, fun h => hn (.inr h)⟩
      · rintro ⟨rfl | hk, hn⟩
        · exact .inl rfl
        · by_cases hka : k = key a
          · exact .inl hka
          · exact .inr ⟨hk, by simp [hka, hn]⟩

theorem firsts_nodup (S : Finset κ) (l : List α) : ((firsts key S l).map key).Nodup := by
  induction l generalizing S with
  | nil => exact nodup_nil
  | cons a l ih =>
    by_cases hS : key a ∈ S
    · rw [firsts_cons_of_mem hS]
      exact ih S
    · rw [firsts_cons_of_notMem hS, map_cons, nodup_cons]
      refine ⟨fun h => ?_, ih _⟩
      exact (mem_firsts_key.mp h).2 (Finset.mem_insert_self _ _)

theorem mem_of_mem_firsts (h : a ∈ firsts key S l) : a ∈ l := by
  induction l generalizing S with
  | nil => cases h
  | cons b l ih =>
    by_cases hS : key b ∈ S
    · rw [firsts_cons_of_mem hS] at h
      exact mem_cons_of_mem _ (ih h)
    · rw [firsts_cons_of_notMem hS] at h
      rcases mem_cons.mp h with rfl | h
      · exact mem_cons_self
      · exact mem_cons_of_mem _ (ih h)

theorem firsts_eq_nil : firsts key S l = [] ↔ ∀ a ∈ l, key a ∈ S := by
  constructor
  · intro h a ha
    by_contra hS
    have hk := mem_firsts_key.mpr ⟨mem_map_of_mem ha, hS⟩
    simp [h] at hk
  · intro h
    rw [eq_nil_iff_forall_not_mem]
    intro a ha
    exact (mem_firsts_key.mp (mem_map_of_mem ha)).2 (h a (mem_of_mem_firsts ha))

/-- The first item outstanding is the same with and without repetitions. -/
theorem firsts_of_unseen (h : unseen key S l = a :: rest) : ∃ more, firsts key S l = a :: more := by
  induction l with
  | nil => cases h
  | cons b l ih =>
    by_cases hS : key b ∈ S
    · rw [unseen_cons_of_mem hS] at h
      rw [firsts_cons_of_mem hS]
      exact ih h
    · rw [unseen_cons_of_notMem hS] at h
      rw [firsts_cons_of_notMem hS]
      cases h
      exact ⟨_, rfl⟩

/-- Marking the first item outstanding removes it and nothing else. -/
theorem firsts_insert_head (h : firsts key S l = a :: rest) :
    firsts key (insert (key a) S) l = rest := by
  induction l with
  | nil => cases h
  | cons b l ih =>
    by_cases hS : key b ∈ S
    · rw [firsts_cons_of_mem hS] at h
      rw [firsts_cons_of_mem (Finset.mem_insert_of_mem hS)]
      exact ih h
    · rw [firsts_cons_of_notMem hS] at h
      cases h
      rw [firsts_cons_of_mem (Finset.mem_insert_self _ _)]

/-- Marking an initial part of the items outstanding leaves the rest. -/
theorem firsts_drop (n : ℕ) (hT : ∀ k, k ∈ T ↔ k ∈ S ∨ ∃ a ∈ (firsts key S l).take n, key a = k) :
    firsts key T l = (firsts key S l).drop n := by
  induction n generalizing S with
  | zero =>
    refine firsts_congr fun a _ => ?_
    rw [hT]
    simp
  | succ n ih =>
    cases hf : firsts key S l with
    | nil =>
      rw [drop_nil, firsts_eq_nil]
      exact fun a ha => (hT _).mpr (.inl (firsts_eq_nil.mp hf a ha))
    | cons a =>
      have hrest := firsts_insert_head hf
      rw [← hrest]
      refine ih fun k => ?_
      rw [hT, hf, hrest, take_succ_cons, Finset.mem_insert]
      simp only [mem_cons, exists_eq_or_imp]
      rw [eq_comm, or_assoc, or_left_comm]

theorem firsts_append (S : Finset κ) (l m : List α) :
    firsts key S (l ++ m) = firsts key S l ++ firsts key (S ∪ (l.map key).toFinset) m := by
  induction l generalizing S with
  | nil =>
    refine firsts_congr fun a _ => ?_
    simp
  | cons a l ih =>
    by_cases hS : key a ∈ S
    · rw [cons_append, firsts_cons_of_mem hS, firsts_cons_of_mem hS, ih]
      congr 1
      refine firsts_congr fun b _ => ?_
      simp only [Finset.mem_union, map_cons, toFinset_cons, Finset.mem_insert]
      constructor
      · rintro (h | h)
        · exact .inl h
        · exact .inr (.inr h)
      · rintro (h | h | h)
        · exact .inl h
        · exact .inl (h ▸ hS)
        · exact .inr h
    · rw [cons_append, firsts_cons_of_notMem hS, firsts_cons_of_notMem hS, ih]
      congr 2
      refine firsts_congr fun b _ => ?_
      simp only [Finset.mem_union, map_cons, toFinset_cons, Finset.mem_insert]
      tauto

theorem firsts_grow (S : Finset κ) (l m : List α) :
    firsts key S l <+: firsts key S (l ++ m) := by
  rw [firsts_append]
  exact prefix_append _ _

end Firsts

/-- Outside `S`, the stream is an initial part of the history. -/
def Trails (S : Finset κ) (stream history : List α) : Prop :=
  unseen key S stream <+: unseen key S history

/-- Outside `S`, the stream is all of the history. -/
def Covers (S : Finset κ) (stream history : List α) : Prop :=
  unseen key S stream = unseen key S history

section Streams
variable {key} {stream history : List α}

theorem Covers.trails (h : Covers key S stream history) : Trails key S stream history := by
  unfold Trails
  rw [h]

theorem Trails.nil : Trails key S [] history := nil_prefix

theorem Trails.mono (h : Trails key S stream history) (hST : S ⊆ T) :
    Trails key T stream history := by
  have hf := IsPrefix.filter (fun a => key a ∉ T) h
  change unseen key T (unseen key S stream) <+: unseen key T (unseen key S history) at hf
  rwa [unseen_unseen hST, unseen_unseen hST] at hf

theorem Covers.mono (h : Covers key S stream history) (hST : S ⊆ T) :
    Covers key T stream history := by
  unfold Covers
  rw [← unseen_unseen hST, h, unseen_unseen hST]

theorem Trails.cut {stream' : List α} (h : Trails key S stream history) (hp : stream' <+: stream) :
    Trails key S stream' history :=
  (IsPrefix.filter _ hp).trans h

theorem Trails.extend (h : Trails key S stream history) (more : List α) :
    Trails key S stream (history ++ more) := by
  unfold Trails
  rw [unseen_append]
  exact h.trans (prefix_append _ _)

theorem Covers.append (h : Covers key S stream history) (more : List α) :
    Covers key S (stream ++ more) (history ++ more) := by
  unfold Covers
  rw [unseen_append, unseen_append, h]

theorem Trails.pop (h : Trails key S (a :: stream) history) (hST : S ⊆ T) (ha : key a ∈ T) :
    Trails key T stream history := by
  have hT := h.mono hST
  unfold Trails at hT
  rwa [unseen_cons_of_mem ha] at hT

theorem Covers.pop (h : Covers key S (a :: stream) history) (hST : S ⊆ T) (ha : key a ∈ T) :
    Covers key T stream history := by
  have hT := h.mono hST
  unfold Covers at hT
  rwa [unseen_cons_of_mem ha] at hT

/-- The next unmarked item is the first one outstanding. -/
theorem Trails.head (h : Trails key S (a :: stream) history) (ha : key a ∉ S) :
    ∃ rest, unseen key S history = a :: rest := by
  unfold Trails at h
  rw [unseen_cons_of_notMem ha] at h
  obtain ⟨t, ht⟩ := h
  exact ⟨_, ht.symm⟩

end Streams

end Rosette.Foundation
