import Rosette.Directory.Store

/-! # Handles are unique

A claim takes a slot no row holds under the nickname and moves the nickname's width up
to where that slot is. Old discriminators are rendered at the new width, so the text
of a handle depends on the nickname and the number alone.
-/
namespace Rosette.Directory
open Option Function

variable {db db' : Database} {nickname : Text} {d : ℕ} {userId : UserId}

namespace Database

theorem mem_taken : d ∈ db.taken nickname ↔
    ∃ id r, db.users.row id = some r ∧ r.handle = some (nickname, d) := by
  simp only [taken, List.mem_filterMap, bind_eq_some_iff, ite_none_right_eq_some, some.injEq]
  constructor
  · rintro ⟨id, -, r, hr, ⟨n, e⟩, hh, rfl, rfl⟩
    exact ⟨id, r, hr, hh⟩
  · rintro ⟨id, r, hr, hh⟩
    exact ⟨id, Users.mem_ids hr, r, hr, (nickname, d), hh, rfl, rfl⟩

/-- The loop ends at a width it reached by widening, with a slot free there. -/
theorem claimSlot_ok {taken : List ℕ} {room width slot width' : ℕ}
    (h : claimSlot taken room width = .ok (slot, width')) :
    width ≤ width' ∧ width' ≤ width + room ∧
      1 ≤ slot ∧ slot ≤ slotCount width' ∧ slot ∉ taken := by
  induction room generalizing width with
  | zero =>
    rw [claimSlot] at h
    cases hf : firstFreeSlot taken width with
    | error => simp [hf, Except.map] at h
    | ok =>
      simp only [hf] at h
      obtain ⟨rfl, rfl⟩ := h
      exact ⟨le_rfl, le_rfl, firstFreeSlot_ok hf⟩
  | succ room ih =>
    rw [claimSlot] at h
    cases hf : firstFreeSlot taken width with
    | error =>
      rw [hf] at h
      obtain ⟨hle, hle', hslot⟩ := ih h
      exact ⟨by omega, by omega, hslot⟩
    | ok =>
      simp only [hf, Except.ok.injEq, Prod.mk.injEq] at h
      obtain ⟨rfl, rfl⟩ := h
      exact ⟨le_rfl, by omega, firstFreeSlot_ok hf⟩

/-- What a claim that went through has done. -/
structure Claimed (db db' : Database) (userId : UserId) (nickname : Text) (slot width : ℕ) :
    Prop where
  valid : validateNickname nickname = .ok ()
  widens : db.widthOf nickname ≤ width
  room : width ≤ max maxDiscriminatorWidth (db.widthOf nickname)
  positive : 1 ≤ slot
  bounded : slot ≤ slotCount width
  free : slot ∉ db.taken nickname
  rows : db'.users.row = update db.users.row userId
    ((db.users.row userId).map (fun r => { r with handle := some (nickname, slot) }))
  widths : db'.nicknameWidths = update db.nicknameWidths nickname (some width)

theorem claimUsername_cases {outcome : Except UsernameError (ℕ × ℕ)}
    (h : db.claimUsername userId nickname = .ok (outcome, db')) :
    (∃ e, outcome = .error e) ∧ db' = db ∨ ∃ slot width, outcome = .ok (slot, width) ∧
      Claimed db db' userId nickname slot width := by
  unfold claimUsername at h
  cases hv : validateNickname nickname with
  | error e =>
    simp only [hv, Except.ok.injEq, Prod.mk.injEq] at h
    exact .inl ⟨⟨e, h.1.symm⟩, h.2.symm⟩
  | ok _ =>
    simp only [hv] at h
    rcases claimTransaction_cases h with ⟨e, he, rfl⟩ | ⟨slot, width, rfl, hc, rfl⟩
    · exact .inl ⟨⟨e, he⟩, rfl⟩
    · obtain ⟨hle, hroom, hpos, hbound, hfree⟩ := claimSlot_ok hc
      refine .inr ⟨slot, width, rfl, hv, hle, ?_, hpos, hbound, hfree, rfl, rfl⟩
      omega

end Database

/-- The operations that touch handles, and the sign-ups that make the rows. -/
inductive HandleOp where
  | signup (phoneHash : Text) (now : ℤ)
  | claim (userId : UserId) (nickname : Text)
  | erase (userId : UserId) (now : ℤ)

/-- One operation after another; a failed transaction leaves the tables as they were. -/
def handleStep (db : Database) : HandleOp → Database
  | .signup phoneHash now => (db.findOrCreatePendingUser phoneHash now).2
  | .claim userId nickname =>
    match db.claimUsername userId nickname with
    | .ok (_, db') => db'
    | .error _ => db
  | .erase userId now => db.eraseUser userId now

def handleRun (ops : List HandleOp) : Database := ops.foldl handleStep .empty

/-- The rows and the width table agree. -/
structure Handles (db : Database) : Prop where
  slots : ∀ id r nickname d, db.users.row id = some r → r.handle = some (nickname, d) →
    validateNickname nickname = .ok () ∧ 1 ≤ d ∧ d ≤ slotCount (db.widthOf nickname)
  widths : ∀ nickname, minDiscriminatorWidth ≤ db.widthOf nickname ∧
    db.widthOf nickname ≤ maxDiscriminatorWidth
  unique : ∀ i j r s h, db.users.row i = some r → db.users.row j = some s →
    r.handle = some h → s.handle = some h → i = j

namespace Handles
variable {slot width : ℕ}

theorem empty : Handles .empty where
  slots := fun _ _ _ _ h => by cases h
  widths := fun _ => ⟨le_rfl, (by decide : minDiscriminatorWidth ≤ maxDiscriminatorWidth)⟩
  unique := fun _ _ _ _ _ h => by cases h

theorem of_rows (h : Handles db) (hw : db'.nicknameWidths = db.nicknameWidths)
    (hrows : ∀ id r h, db'.users.row id = some r → r.handle = some h →
      ∃ r', db.users.row id = some r' ∧ r'.handle = some h) : Handles db' where
  slots id r nickname d hr hh := by
    obtain ⟨r', hr', hh'⟩ := hrows id r _ hr hh
    simpa only [Database.widthOf, hw] using h.slots id r' nickname d hr' hh'
  widths nickname := by simpa only [Database.widthOf, hw] using h.widths nickname
  unique i j r s hd hi hj hr hs := by
    obtain ⟨r', hi', hr'⟩ := hrows i r hd hi hr
    obtain ⟨s', hj', hs'⟩ := hrows j s hd hj hs
    exact h.unique i j r' s' hd hi' hj' hr' hs'

theorem widthOf_claimed (hc : Database.Claimed db db' userId nickname slot width) (n : Text) :
    db'.widthOf n = if n = nickname then width else db.widthOf n := by
  rw [Database.widthOf, hc.widths, update_apply]
  split_ifs <;> rfl

theorem claimed (h : Handles db) (hc : Database.Claimed db db' userId nickname slot width) :
    Handles db' := by
  have hwidth := widthOf_claimed hc
  -- a row of the new table has its old handle, or is the claimant's
  have hrow : ∀ id r hd, db'.users.row id = some r → r.handle = some hd →
      (id = userId ∧ hd = (nickname, slot)) ∨
        id ≠ userId ∧ ∃ r', db.users.row id = some r' ∧ r'.handle = some hd := by
    intro id r hd hr hh
    rw [hc.rows, update_apply] at hr
    split_ifs at hr with hid
    · obtain ⟨r', -, rfl⟩ := map_eq_some_iff.mp hr
      exact .inl ⟨hid, (some.inj hh).symm⟩
    · exact .inr ⟨hid, r, hr, hh⟩
  have hfree : ∀ {i r}, db.users.row i = some r → r.handle ≠ some (nickname, slot) :=
    fun hi hh => hc.free (Database.mem_taken.mpr ⟨_, _, hi, hh⟩)
  refine ⟨fun id r n d hr hh => ?_, fun n => ?_, fun i j r s hd hi hj hr hs => ?_⟩
  · rw [hwidth]
    rcases hrow id r _ hr hh with ⟨-, heq⟩ | ⟨-, r', hr', hh'⟩
    · obtain ⟨rfl, rfl⟩ := Prod.mk.inj heq
      rw [if_pos rfl]
      exact ⟨hc.valid, hc.positive, hc.bounded⟩
    · obtain ⟨hv, hpos, hle⟩ := h.slots id r' n d hr' hh'
      refine ⟨hv, hpos, ?_⟩
      split_ifs with hn
      · subst hn
        exact hle.trans (slotCount_mono hc.widens)
      · exact hle
  · rw [hwidth]
    obtain ⟨hmin, hmax⟩ := h.widths n
    split_ifs with hn
    · subst hn
      exact ⟨hmin.trans hc.widens, by simpa [hmax] using hc.room⟩
    · exact ⟨hmin, hmax⟩
  · rcases hrow i r hd hi hr with ⟨rfl, rfl⟩ | ⟨hine, r', hi', hr'⟩ <;>
      rcases hrow j s _ hj hs with ⟨rfl, heq⟩ | ⟨hjne, s', hj', hs'⟩
    · rfl
    · exact absurd hs' (hfree hj')
    · rw [heq] at hr'
      exact absurd hr' (hfree hi')
    · exact h.unique i j r' s' hd hi' hj' hr' hs'

theorem step (h : Handles db) (op : HandleOp) : Handles (handleStep db op) := by
  cases op with
  | signup phoneHash =>
    rw [handleStep]
    cases hl : db.users.liveWith phoneHash with
    | some =>
      rw [Database.findOrCreatePendingUser_found hl]
      exact h.of_rows rfl (fun _ r _ hr hh => ⟨r, hr, hh⟩)
    | none =>
      rw [Database.findOrCreatePendingUser_created hl]
      refine h.of_rows rfl (fun id r hd hr hh => ?_)
      simp only [Users.insert_row, update_apply] at hr
      split_ifs at hr
      · cases hr
        cases hh
      · exact ⟨r, hr, hh⟩
  | claim userId nickname =>
    rw [handleStep]
    cases hc : db.claimUsername userId nickname with
    | error => exact h
    | ok p =>
      rcases Database.claimUsername_cases hc with ⟨-, rfl⟩ | ⟨slot, width, -, hclaimed⟩
      · exact h
      · exact h.claimed hclaimed
  | erase =>
    refine h.of_rows rfl (fun id r hd hr hh => ?_)
    simp only [handleStep, Database.eraseUser, Users.modify_row, update_apply] at hr
    split_ifs at hr with hid
    · obtain ⟨r', hr', rfl⟩ := map_eq_some_iff.mp hr
      exact ⟨r', hid ▸ hr', hh⟩
    · exact ⟨r, hr, hh⟩

theorem run (ops : List HandleOp) : Handles (handleRun ops) := by
  induction ops using List.reverseRecOn with
  | nil => exact empty
  | append_singleton ops op ih =>
    rw [handleRun, List.foldl_append]
    exact ih.step op

theorem widthOf_step (db : Database) (op : HandleOp) (nickname : Text) :
    db.widthOf nickname ≤ (handleStep db op).widthOf nickname := by
  cases op with
  | signup phoneHash =>
    rw [handleStep]
    cases hl : db.users.liveWith phoneHash with
    | some =>
      rw [Database.findOrCreatePendingUser_found hl]
      exact le_rfl
    | none =>
      rw [Database.findOrCreatePendingUser_created hl]
      exact le_rfl
  | claim userId n =>
    rw [handleStep]
    cases hc : db.claimUsername userId n with
    | error => exact le_rfl
    | ok p =>
      rcases Database.claimUsername_cases hc with ⟨-, rfl⟩ | ⟨slot, width, -, hclaimed⟩
      · exact le_rfl
      · rw [widthOf_claimed hclaimed]
        split_ifs with hn
        · subst hn
          exact hclaimed.widens
        · exact le_rfl
  | erase => exact le_rfl

theorem findUserByHandle_eq (h : Handles db) {id : UserId} {r : UserRow}
    (hr : db.users.row id = some r) (hh : r.handle = some (nickname, d)) :
    db.findUserByHandle nickname d = if r.live then some id else none := by
  cases hs : db.findUserByHandle nickname d with
  | some j =>
    obtain ⟨s, hj, hp⟩ := Users.row_of_search hs
    simp only [Bool.and_eq_true, beq_iff_eq] at hp
    obtain rfl := h.unique j id s r _ hj hr hp.2 hh
    rw [hr] at hj
    cases hj
    rw [if_pos hp.1]
  | none =>
    have := Users.search_eq_none.mp hs id r hr
    simp only [hh, beq_self_eq_true, Bool.and_true] at this
    rw [this]
    rfl

end Handles

/-- After any sequence of sign-ups, claims and erasures: the discriminators held under a
nickname are distinct and within its width; widths lie between two and nine and no further
operation narrows one; a rendered handle has exactly its nickname's width in digits, no other
user renders the same text, and its digits read back find exactly its holder, if live. -/
theorem handles_unique_and_stable (ops : List HandleOp) :
    (∀ nickname i j r s d, (handleRun ops).users.row i = some r →
      (handleRun ops).users.row j = some s → r.handle = some (nickname, d) →
      s.handle = some (nickname, d) → i = j) ∧
    (∀ nickname id r d, (handleRun ops).users.row id = some r →
      r.handle = some (nickname, d) →
      1 ≤ d ∧ d ≤ slotCount ((handleRun ops).widthOf nickname)) ∧
    (∀ nickname, 2 ≤ (handleRun ops).widthOf nickname ∧
      (handleRun ops).widthOf nickname ≤ 9 ∧
      ∀ op, (handleRun ops).widthOf nickname ≤
        (handleStep (handleRun ops) op).widthOf nickname) ∧
    (∀ id text, (handleRun ops).handleFor id = some text →
      ∃ nickname digits r, text = nickname ++ '#' :: digits ∧ '#' ∉ nickname ∧
        (∀ c ∈ digits, c.isDigit = true) ∧
        digits.length = (handleRun ops).widthOf nickname ∧
        (handleRun ops).users.row id = some r ∧
        (handleRun ops).findUserByHandle nickname (Nat.ofDigitChars 10 digits 0) =
          if r.live then some id else none) ∧
    ∀ i j text, (handleRun ops).handleFor i = some text →
      (handleRun ops).handleFor j = some text → i = j := by
  have h := Handles.run ops
  generalize handleRun ops = db at h
  have rendered : ∀ id text, db.handleFor id = some text → ∃ nickname d r,
      text = formatHandle nickname d (db.widthOf nickname) ∧ db.users.row id = some r ∧
        r.handle = some (nickname, d) := by
    intro id text ht
    obtain ⟨⟨nickname, d⟩, hrow, rfl⟩ := map_eq_some_iff.mp ht
    obtain ⟨r, hr, hh⟩ := bind_eq_some_iff.mp hrow
    exact ⟨nickname, d, r, rfl, hr, hh⟩
  refine ⟨fun _ i j r s d hi hj hr hs => h.unique i j r s _ hi hj hr hs,
    fun nickname id r d hr hh => (h.slots id r nickname d hr hh).2,
    fun nickname => ⟨(h.widths nickname).1, (h.widths nickname).2, fun op =>
      Handles.widthOf_step db op nickname⟩, fun id text ht => ?_, fun i j text hi hj => ?_⟩
  · obtain ⟨nickname, d, r, rfl, hr, hh⟩ := rendered id text ht
    obtain ⟨hvalid, hpos, hle⟩ := h.slots id r nickname d hr hh
    obtain ⟨hmin, hmax⟩ := h.widths nickname
    refine ⟨nickname, renderDiscriminator d (db.widthOf nickname), r, rfl, hash_notMem hvalid,
      fun c hc => isDigit_of_mem_render hc, ?_, hr, ?_⟩
    · rw [slotCount_eq hmax] at hle
      have hpow : 0 < 10 ^ db.widthOf nickname := by positivity
      exact renderDiscriminator_length (Nat.le_trans (by decide) hmin) (by omega)
    · rw [ofDigitChars_render]
      exact h.findUserByHandle_eq hr hh
  · obtain ⟨n, d, r, rfl, hr, hh⟩ := rendered i text hi
    obtain ⟨m, e, s, heq, hs, hh'⟩ := rendered j _ hj
    obtain ⟨rfl, hdigits⟩ := formatHandle_injective (hash_notMem (h.slots i r n d hr hh).1)
      (hash_notMem (h.slots j s m e hs hh').1) heq
    obtain rfl := renderDiscriminator_injective hdigits
    exact h.unique i j r s _ hr hs hh hh'

end Rosette.Directory
