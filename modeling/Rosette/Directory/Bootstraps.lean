import Rosette.Directory.Effects

/-! # One-time pairing bootstraps

A row of the bootstrap table is written by an upload and goes with the statement that
reads it, with the erasure of its user, or under the next upload. So while it stands it
is the latest upload, and nobody has been given it.
-/
namespace Rosette.Directory
open List Function

variable {amb : Ambient} {s : Statement} {userId : UserId} {row : Text × ℤ}

/-- Statements in the order in which they take effect, each with what it reads from outside. -/
abbrev Script := List (Ambient × Statement)

def tablesAt (h : Script) (n : ℕ) : Database :=
  (h.take n).foldl (fun db p => (p.2.exec p.1 db).2) .empty

/-- Statement `i` is an upload of the link, and it goes through. -/
def Uploads (h : Script) (i : ℕ) (userId : UserId) (link : Text) : Prop :=
  ∃ amb, h[i]? = some (amb, .setPairingBootstrap userId link) ∧
    (Statement.setPairingBootstrap userId link).Takes amb (tablesAt h i) (tablesAt h (i + 1))

/-- Statement `j` is a call for the user's bootstrap, and it is answered with the link. -/
def Consumes (h : Script) (j : ℕ) (userId : UserId) (link : Text) : Prop :=
  ∃ amb, h[j]? = some (amb, .consumePairingBootstrap userId) ∧
    ((Statement.consumePairingBootstrap userId).exec amb (tablesAt h j)).1 = .ok (some link)

/-- Statement `j` is answered with upload `i`, the latest to have gone through by then. -/
structure HandsOut (h : Script) (i j : ℕ) (userId : UserId) (link : Text) : Prop where
  before : i < j
  uploaded : Uploads h i userId link
  latest : ∀ n, i < n → n < j → ∀ link', ¬ Uploads h n userId link'
  answered : Consumes h j userId link

theorem Effect.bootstrap {db db' : Database} (h : Effect amb db s db')
    (hrow : db'.pairingBootstrap userId = some row) :
    db.pairingBootstrap userId = some row ∨ ∃ link, s = .setPairingBootstrap userId link := by
  have update : ∀ id new, update db.pairingBootstrap id new userId = some row →
      db.pairingBootstrap userId = some row ∨ userId = id ∧ new = some row := by
    intro id new hnew
    rw [update_apply] at hnew
    split_ifs at hnew with hid
    · exact .inr ⟨hid, hnew⟩
    · exact .inl hnew
  cases h with
  | @offered id link => exact (update id _ hrow).imp_right fun hid => ⟨link, by rw [hid.1]⟩
  | @taken id | @erased id => exact (update id _ hrow).imp_right fun hid => nomatch hid.2
  | _ => exact .inl hrow

section Tables
variable {h : Script} {n : ℕ} {link : Text}

theorem tablesAt_succ (hn : h[n]? = some (amb, s)) :
    tablesAt h (n + 1) = (s.exec amb (tablesAt h n)).2 := by
  rw [tablesAt, take_add_one, hn, foldl_append]
  rfl

theorem tablesAt_end (hn : h[n]? = none) : tablesAt h (n + 1) = tablesAt h n := by
  rw [tablesAt, take_add_one, hn, Option.toList_none, append_nil, tablesAt]

theorem Uploads.stands (hup : Uploads h n userId link) :
    ∃ uploadedAt, (tablesAt h (n + 1)).pairingBootstrap userId = some (link, uploadedAt) := by
  obtain ⟨amb, -, -, r, hrun⟩ := hup
  simp only [Statement.run, Database.setPairingBootstrap] at hrun
  split_ifs at hrun
  · simp only [Except.map, Except.ok.injEq, Prod.mk.injEq] at hrun
    rw [← hrun.2]
    exact ⟨amb.now, update_self ..⟩
  · cases hrun

/-- A row that is handed out belongs to a live searchable user, and is gone. -/
theorem Consumes.spent (hc : Consumes h n userId link) :
    (∃ r, (tablesAt h n).users.row userId = some r ∧ r.searchable = true ∧ r.live = true) ∧
      (∃ uploadedAt, (tablesAt h n).pairingBootstrap userId = some (link, uploadedAt)) ∧
      (tablesAt h (n + 1)).pairingBootstrap userId = none := by
  obtain ⟨amb, hn, hanswer⟩ := hc
  have hrun := Statement.run_of_exec hanswer
  rw [← tablesAt_succ hn] at hrun
  simp only [Statement.run, Database.consumePairingBootstrap, Except.ok.injEq] at hrun
  split_ifs at hrun with hopen
  · obtain ⟨r, hr, hflags⟩ := (Option.any_eq_true _ _).mp hopen
    rw [Bool.and_eq_true] at hflags
    obtain ⟨hlink, hafter⟩ := Prod.mk.inj hrun
    obtain ⟨⟨l, uploadedAt⟩, hrow, rfl⟩ := Option.map_eq_some_iff.mp hlink
    refine ⟨⟨r, hr, hflags⟩, ⟨uploadedAt, hrow⟩, ?_⟩
    rw [← hafter]
    exact update_self ..
  · cases (Prod.mk.inj hrun).1

theorem stood_before (hno : ∀ link, ¬ Uploads h n userId link)
    (hrow : (tablesAt h (n + 1)).pairingBootstrap userId = some row) :
    (tablesAt h n).pairingBootstrap userId = some row := by
  cases hn : h[n]? with
  | none => rwa [tablesAt_end hn] at hrow
  | some p =>
    obtain ⟨amb, s⟩ := p
    rcases Statement.exec_cases amb s (tablesAt h n) with hsame | htakes
    · rwa [tablesAt_succ hn, hsame] at hrow
    · rw [← tablesAt_succ hn] at htakes
      rcases htakes.effect.bootstrap hrow with hold | ⟨link, rfl⟩
      · exact hold
      · exact absurd ⟨amb, hn, htakes⟩ (hno link)

/-- What stands is the latest upload, and nobody has been answered with it. -/
theorem upload_of_row {uploadedAt : ℤ}
    (hrow : (tablesAt h n).pairingBootstrap userId = some (link, uploadedAt)) :
    ∃ i < n, Uploads h i userId link ∧ ∀ m, i < m → m < n → ∀ link',
      ¬ Uploads h m userId link' ∧ ¬ Consumes h m userId link' := by
  induction n with
  | zero => cases hrow
  | succ n ih =>
    by_cases hup : ∃ l, Uploads h n userId l
    · obtain ⟨l, hl⟩ := hup
      obtain ⟨at_, hstands⟩ := hl.stands
      rw [hrow] at hstands
      obtain ⟨rfl, -⟩ := Prod.mk.inj (Option.some.inj hstands)
      exact ⟨n, by omega, hl, fun m hlt hle => by omega⟩
    · have hno : ∀ l, ¬ Uploads h n userId l := fun l hl => hup ⟨l, hl⟩
      obtain ⟨i, hi, hupload, hsince⟩ := ih (stood_before hno hrow)
      refine ⟨i, by omega, hupload, fun m hlt hle link' => ?_⟩
      by_cases hm : m = n
      · subst hm
        refine ⟨hno link', fun hc => ?_⟩
        simp [hc.spent.2.2] at hrow
      · exact hsince m hlt (by omega) link'

end Tables

/-- In every order of statements by any users: an answered call is answered with the latest
upload of a user who is live and searchable at that moment, and no upload answers two. -/
theorem bootstrap_handed_out_once (h : Script) :
    (∀ j userId link, Consumes h j userId link → (∃ i, HandsOut h i j userId link) ∧
      ∃ r, (tablesAt h j).users.row userId = some r ∧ r.searchable = true ∧ r.live = true) ∧
    ∀ i j j' userId link link', HandsOut h i j userId link → HandsOut h i j' userId link' →
      j = j' := by
  constructor
  · intro j userId link hc
    obtain ⟨hopen, ⟨uploadedAt, hrow⟩, -⟩ := hc.spent
    obtain ⟨i, hi, hupload, hsince⟩ := upload_of_row hrow
    exact ⟨⟨i, hi, hupload, fun m hlt hle link' => (hsince m hlt hle link').1, hc⟩, hopen⟩
  · -- the later of two calls finds a row that was uploaded after the earlier one
    have later : ∀ i j j' userId link link', HandsOut h i j userId link →
        HandsOut h i j' userId link' → ¬ j < j' := by
      intro i j j' userId link link' hj hj' hlt
      obtain ⟨-, ⟨uploadedAt, hrow⟩, -⟩ := hj'.answered.spent
      obtain ⟨i', hi', hupload, hsince⟩ := upload_of_row hrow
      have hle : i' ≤ i := by
        by_contra hgt
        exact hj'.latest i' (by omega) hi' link' hupload
      exact (hsince j (hle.trans_lt hj.before) hlt link).2 hj.answered
    intro i j j' userId link link' hj hj'
    exact le_antisymm (not_lt.mp (later i j' j userId link' link hj' hj))
      (not_lt.mp (later i j j' userId link link' hj hj'))

end Rosette.Directory
