import Rosette.Directory.Handles
import Rosette.Foundation.Trace

/-! # Claims that overlap

The transaction of a claim statement by statement, at read committed: a read sees what is
committed when it runs, and a write is kept from the others until its commit. The upsert
of the width waits while another claim has the nickname's row; the update of the user's
row waits for another update of it, and for the fate of a claim that takes or gives up
the same handle, and then fails if the handle is held.

A claim nobody disturbs is the transaction of the store.
-/
namespace Rosette.Directory
open Foundation Database List Option

variable {w v : Claims} {c : Claim} {ev : ClaimEvent} {i slot width : ℕ} {db : Database}
  {userId : UserId} {α : Type*} {l : List α} {a : α} {cs : List Claim} {es : List ClaimEvent}
  {nickname : Text}

inductive ClaimFailure where
  | exhausted
  | conflict
  /-- The request was given up, and its transaction rolled back. -/
  | dropped
deriving DecidableEq

/-- What a claim has behind it. -/
inductive Phase where
  | begun
  | sawWidth (width : ℕ)
  /-- The taken slots were read and the choice was made. -/
  | chosen (slot width : ℕ)
  | widened (slot width : ℕ)
  | written (slot width : ℕ)
  | committed (slot width : ℕ)
  | failed (reason : ClaimFailure)
deriving DecidableEq

structure Claim where
  userId : UserId
  nickname : Text
  phase : Phase
deriving DecidableEq

/-- The committed tables, and the claims in the order they began. -/
structure Claims where
  db : Database
  claims : List Claim

namespace Phase

def locksWidth : Phase → Bool
  | .widened _ _ | .written _ _ => true
  | _ => false

def wrote : Phase → Option ℕ
  | .written slot _ => some slot
  | _ => none

def ended : Phase → Bool
  | .committed _ _ | .failed _ => true
  | _ => false

end Phase

namespace Claims

def widthLocked (w : Claims) (nickname : Text) : Bool :=
  w.claims.any (fun c => c.nickname == nickname && c.phase.locksWidth)

/-- Another claim has written the same row, or the same handle, or is giving it up. -/
def rowLocked (w : Claims) (userId : UserId) (nickname : Text) (slot : ℕ) : Bool :=
  w.claims.any (fun c => (w.db.users.row c.userId).isSome && c.phase.wrote.any (fun slot' =>
    c.userId == userId || (c.nickname, slot') == (nickname, slot) ||
    w.db.handleRow c.userId == some (nickname, slot)))

/-- The next statement of a claim; `none` if it has to wait or there is none. -/
def advance (w : Claims) (c : Claim) : Option (Phase × Database) :=
  match c.phase with
  | .begun => some (.sawWidth (w.db.widthOf c.nickname), w.db)
  | .sawWidth width =>
    match claimSlot (w.db.taken c.nickname) (maxDiscriminatorWidth - width) width with
    | .ok (slot, width) => some (.chosen slot width, w.db)
    | .error _ => some (.failed .exhausted, w.db)
  | .chosen slot width =>
    if w.widthLocked c.nickname then none else some (.widened slot width, w.db)
  | .widened slot width =>
    -- an update that finds no row locks nothing and violates nothing
    if (w.db.users.row c.userId).isNone then some (.written slot width, w.db) else
    if w.rowLocked c.userId c.nickname slot then none else
    match w.db.setHandle c.userId c.nickname slot with
    | .ok _ => some (.written slot width, w.db)
    | .error _ => some (.failed .conflict, w.db)
  | .written slot width => some (.committed slot width, w.db.publish c.userId c.nickname slot width)
  | .committed _ _ => none
  | .failed _ => none

end Claims

inductive ClaimEvent where
  | begin (userId : UserId) (nickname : Text)
  | next (i : ℕ)
  | drop (i : ℕ)
deriving DecidableEq

/-- A nickname that is not allowed is refused before a transaction begins. -/
def Claims.step (w : Claims) : ClaimEvent → Option Claims
  | .begin userId nickname =>
    match validateNickname nickname with
    | .ok _ => some { w with claims := w.claims ++ [⟨userId, nickname, .begun⟩] }
    | .error _ => some w
  | .next i => w.claims[i]?.bind (fun c => (w.advance c).map (fun p =>
      ⟨p.2, w.claims.set i { c with phase := p.1 }⟩))
  | .drop i => w.claims[i]?.bind (fun c => if c.phase.ended then none else
      some { w with claims := w.claims.set i { c with phase := .failed .dropped } })

section Inversion

theorem setHandle_cases (db : Database) (userId : UserId) (nickname : Text) (slot : ℕ) :
    (db.setHandle userId nickname slot = .ok { db with
        users := db.users.modify userId (fun r => { r with handle := some (nickname, slot) })
          (fun _ h => ⟨h, rfl⟩) } ∧
      ∀ id, id ≠ userId → db.handleRow id ≠ some (nickname, slot)) ∨
    db.setHandle userId nickname slot = .error .db ∧
      ∃ id, id ≠ userId ∧ db.handleRow id = some (nickname, slot) := by
  unfold setHandle
  split_ifs with hheld
  · right
    simp only [List.any_eq_true, decide_eq_true_eq, Option.any_eq_true] at hheld
    obtain ⟨id, -, hne, r, hr, hh⟩ := hheld
    exact ⟨rfl, id, hne, bind_eq_some_iff.mpr ⟨r, hr, hh⟩⟩
  · left
    refine ⟨rfl, fun id hne hrow => hheld ?_⟩
    obtain ⟨r, hr, hh⟩ := bind_eq_some_iff.mp hrow
    simp only [List.any_eq_true, decide_eq_true_eq, Option.any_eq_true]
    exact ⟨id, Users.mem_ids hr, hne, r, hr, hh⟩

/-- What the next statement of a claim can do. -/
inductive Advance (w : Claims) (c : Claim) : Phase → Database → Prop where
  | readWidth (stands : c.phase = .begun) : Advance w c (.sawWidth (w.db.widthOf c.nickname)) w.db
  | choose {width slot width' : ℕ} (stands : c.phase = .sawWidth width)
      (found : claimSlot (w.db.taken c.nickname) (maxDiscriminatorWidth - width) width =
        .ok (slot, width')) : Advance w c (.chosen slot width') w.db
  | exhaust {width : ℕ} {e : UsernameError} (stands : c.phase = .sawWidth width)
      (none : claimSlot (w.db.taken c.nickname) (maxDiscriminatorWidth - width) width = .error e) :
    Advance w c (.failed .exhausted) w.db
  | widen {slot width : ℕ} (stands : c.phase = .chosen slot width)
      (free : w.widthLocked c.nickname = false) : Advance w c (.widened slot width) w.db
  | touchNone {slot width : ℕ} (stands : c.phase = .widened slot width)
      (absent : (w.db.users.row c.userId).isNone = true) : Advance w c (.written slot width) w.db
  | write {slot width : ℕ} (stands : c.phase = .widened slot width)
      (free : w.rowLocked c.userId c.nickname slot = false)
      (unheld : ∀ id, id ≠ c.userId → w.db.handleRow id ≠ some (c.nickname, slot)) :
    Advance w c (.written slot width) w.db
  | clash {slot width : ℕ} (stands : c.phase = .widened slot width)
      (held : ∃ id, id ≠ c.userId ∧ w.db.handleRow id = some (c.nickname, slot)) :
    Advance w c (.failed .conflict) w.db
  | commit {slot width : ℕ} (stands : c.phase = .written slot width) :
    Advance w c (.committed slot width) (w.db.publish c.userId c.nickname slot width)

theorem advance_cases {p : Phase × Database} (h : w.advance c = some p) :
    Advance w c p.1 p.2 := by
  unfold Claims.advance at h
  cases hc : c.phase with
  | begun =>
    rw [hc] at h
    cases h
    exact .readWidth hc
  | sawWidth =>
    rw [hc] at h
    dsimp only at h
    split at h
    · rename_i slot width' hfound
      cases h
      exact .choose hc hfound
    · rename_i e hnone
      cases h
      exact .exhaust hc hnone
  | chosen =>
    rw [hc] at h
    dsimp only at h
    split_ifs at h with hlock
    cases h
    exact .widen hc (by simpa using hlock)
  | widened slot =>
    rw [hc] at h
    dsimp only at h
    split_ifs at h with habsent hlock
    · cases h
      exact .touchNone hc habsent
    rcases setHandle_cases w.db c.userId c.nickname slot with ⟨hset, hfree⟩ | ⟨hset, hheld⟩
    · rw [hset] at h
      cases h
      exact .write hc (by simpa using hlock) hfree
    · rw [hset] at h
      cases h
      exact .clash hc hheld
  | written =>
    rw [hc] at h
    cases h
    exact .commit hc
  | committed | failed => simp [hc] at h

inductive Stepped (w : Claims) : ClaimEvent → Claims → Prop where
  | begun {userId : UserId} {nickname : Text} (valid : validateNickname nickname = .ok ()) :
    Stepped w (.begin userId nickname)
      { w with claims := w.claims ++ [⟨userId, nickname, .begun⟩] }
  | refused {userId : UserId} {nickname : Text} : Stepped w (.begin userId nickname) w
  | advanced {i : ℕ} {c : Claim} {phase : Phase} {db : Database} (found : w.claims[i]? = some c)
      (moves : Advance w c phase db) :
    Stepped w (.next i) ⟨db, w.claims.set i { c with phase := phase }⟩
  | dropped {i : ℕ} {c : Claim} (found : w.claims[i]? = some c) (running : c.phase.ended = false) :
    Stepped w (.drop i) { w with claims := w.claims.set i { c with phase := .failed .dropped } }

theorem stepped_of_step (h : w.step ev = some v) : Stepped w ev v := by
  cases ev with
  | begin userId nickname =>
    simp only [Claims.step] at h
    cases hv : validateNickname nickname with
    | error =>
      rw [hv] at h
      cases h
      exact .refused
    | ok =>
      rw [hv] at h
      cases h
      exact .begun hv
  | next =>
    obtain ⟨c, hc, hmap⟩ := bind_eq_some_iff.mp h
    obtain ⟨p, hp, rfl⟩ := map_eq_some_iff.mp hmap
    exact .advanced hc (advance_cases hp)
  | drop =>
    obtain ⟨c, hc, hif⟩ := bind_eq_some_iff.mp h
    split_ifs at hif with hended
    cases hif
    exact .dropped hc (by simpa using hended)

end Inversion

/-! ## What a step leaves alone -/
section Frame
variable {j : ℕ} {b : α}

def Claims.users (w : Claims) : List UserId := w.claims.map Claim.userId

def Claims.Known (w : Claims) : Prop := ∀ id ∈ w.users, (w.db.users.row id).isSome = true

theorem users_set (h : cs[i]? = some c) (phase : Phase) :
    (cs.set i { c with phase := phase }).map Claim.userId = cs.map Claim.userId := by
  rw [map_set]
  refine ext_getElem? (fun j => ?_)
  rw [getElem?_set]
  split_ifs with hij hlt
  · subst hij
    rw [getElem?_map, h]
    rfl
  · rw [getElem?_eq_none (by omega)]
  · rfl

theorem Stepped.users_isPrefix (h : Stepped w ev v) : w.users <+: v.users := by
  cases h with
  | begun => exact ⟨_, map_append.symm⟩
  | refused => exact prefix_rfl
  | advanced hc _ | dropped hc _ => exact ⟨[], by rw [append_nil]; exact (users_set hc _).symm⟩

theorem row_publish (db : Database) (userId : UserId) (nickname : Text) (slot width : ℕ)
    (id : UserId) : (db.publish userId nickname slot width).users.row id =
      if id = userId then
        (db.users.row userId).map (fun r => { r with handle := some (nickname, slot) })
      else db.users.row id := by
  rw [publish, Users.modify_row, Function.update_apply]

theorem Stepped.row_isSome (h : Stepped w ev v) (id : UserId) :
    (v.db.users.row id).isSome = (w.db.users.row id).isSome := by
  cases h with
  | begun | refused | dropped => rfl
  | advanced hc hmove =>
    cases hmove with
    | commit =>
      rw [row_publish]
      split_ifs with hid
      · rw [hid, isSome_map]
      · rfl
    | _ => rfl

theorem Stepped.known (h : Stepped w ev v) (hv : v.Known) : w.Known := by
  intro id hid
  rw [← h.row_isSome id]
  exact hv id (h.users_isPrefix.subset hid)

theorem known_of_run (h : run Claims.step w es = some v) (hv : v.Known) : w.Known :=
  run_invariant id
    (fun _ _ _ ht hs hv => ht ((stepped_of_step hs).known hv)) h hv

theorem handleRow_publish (hrow : (db.users.row userId).isSome = true) (nickname : Text)
    (slot width : ℕ) (id : UserId) :
    (db.publish userId nickname slot width).handleRow id =
      if id = userId then some (nickname, slot) else db.handleRow id := by
  rw [handleRow, row_publish]
  split_ifs with hid
  · obtain ⟨r, hr⟩ := isSome_iff_exists.mp hrow
    rw [hr]
    rfl
  · rfl

theorem handleRow_publish_cases {id : UserId} {h : Text × ℕ}
    (hid : (db.publish userId nickname slot width).handleRow id = some h) :
    h = (nickname, slot) ∨ db.handleRow id = some h := by
  rw [handleRow, row_publish] at hid
  split_ifs at hid
  · obtain ⟨r, hr, hh⟩ := bind_eq_some_iff.mp hid
    obtain ⟨r', -, rfl⟩ := map_eq_some_iff.mp hr
    exact .inl (some.inj hh).symm
  · exact .inr hid

theorem widthOf_publish (db : Database) (userId : UserId) (nickname : Text) (slot width : ℕ)
    (n : Text) : (db.publish userId nickname slot width).widthOf n =
      if n = nickname then width else db.widthOf n := by
  simp only [widthOf, publish, Function.update_apply]
  split_ifs <;> rfl

theorem getElem?_set_cases (h : (l.set i a)[j]? = some b) :
    j = i ∧ b = a ∨ j ≠ i ∧ l[j]? = some b := by
  rw [List.getElem?_set] at h
  split_ifs at h with hij hlt
  · exact .inl ⟨hij.symm, (some.inj h).symm⟩
  · exact .inr ⟨Ne.symm hij, h⟩

theorem getElem?_concat_cases (h : (l ++ [a])[j]? = some b) : b = a ∨ l[j]? = some b := by
  rw [getElem?_append] at h
  split_ifs at h
  · exact .inr h
  · exact .inl (mem_singleton.mp (mem_of_getElem? h))

end Frame

/-! ## A claim that meets no other -/
section Alone

theorem mem_taken_iff :
    slot ∈ db.taken nickname ↔ ∃ id, db.handleRow id = some (nickname, slot) := by
  rw [mem_taken]
  exact exists_congr fun id => bind_eq_some_iff.symm

theorem handleRow_ne_of_free (hfree : slot ∉ db.taken nickname) (id : UserId) :
    db.handleRow id ≠ some (nickname, slot) :=
  fun hheld => hfree (mem_taken_iff.mpr ⟨id, hheld⟩)

theorem claimTransaction_eq (hslot : claimSlot (db.taken nickname)
      (maxDiscriminatorWidth - db.widthOf nickname) (db.widthOf nickname) = .ok (slot, width)) :
    db.claimTransaction userId nickname =
      .ok (.ok (slot, width), db.publish userId nickname slot width) := by
  have hfree := handleRow_ne_of_free (claimSlot_ok hslot).2.2.2.2
  rw [claimTransaction, hslot]
  dsimp only
  rcases setHandle_cases { db with
      nicknameWidths := Function.update db.nicknameWidths nickname (some width) }
      userId nickname slot with ⟨hset, -⟩ | ⟨-, id, -, hheld⟩
  · rw [hset]
    rfl
  · exact absurd hheld (hfree id)

theorem step_last (db : Database) (cs : List Claim) (c : Claim) :
    (⟨db, cs ++ [c]⟩ : Claims).step (.next cs.length) =
      (Claims.advance ⟨db, cs ++ [c]⟩ c).map (fun p =>
        ⟨p.2, cs ++ [{ c with phase := p.1 }]⟩) := by
  simp [Claims.step]

theorem rowLocked_of_quiet (hquiet : ∀ c ∈ cs, c.phase.locksWidth = false) :
    (⟨db, cs ++ [⟨userId, nickname, .widened slot width⟩]⟩ : Claims).rowLocked userId nickname
      slot = false := by
  simp only [Claims.rowLocked, any_append, Bool.or_eq_false_iff, List.any_eq_false]
  refine ⟨fun c hc => ?_, by simp [Phase.wrote]⟩
  have hwrote : c.phase.wrote = none := by
    have := hquiet c hc
    cases hp : c.phase <;> simp_all [Phase.locksWidth, Phase.wrote]
  simp [hwrote]

theorem advance_widened (hlock : w.rowLocked userId nickname slot = false)
    (hunheld : ∀ id, w.db.handleRow id ≠ some (nickname, slot)) (width : ℕ) :
    w.advance ⟨userId, nickname, .widened slot width⟩ = some (.written slot width, w.db) := by
  simp only [Claims.advance, hlock, Bool.false_eq_true, if_false]
  split_ifs
  · rfl
  · rcases setHandle_cases w.db userId nickname slot with ⟨hset, -⟩ | ⟨-, id, -, hheld⟩
    · rw [hset]
    · exact absurd hheld (hunheld id)

/-- How a transaction of the store ends, told as a phase. -/
def Phase.ofOutcome : Except UsernameError (ℕ × ℕ) → Phase
  | .ok (slot, width) => .committed slot width
  | .error _ => .failed .exhausted

/-- Where no claim holds a lock, the statements of one more, one after the other, are the
transaction of the store. -/
theorem run_alone (hquiet : ∀ c ∈ cs, c.phase.locksWidth = false)
    (hvalid : validateNickname nickname = .ok ()) :
    ∃ k outcome db', db.claimTransaction userId nickname = .ok (outcome, db') ∧
      run Claims.step ⟨db, cs⟩ (.begin userId nickname :: replicate k (.next cs.length)) =
        some ⟨db', cs ++ [⟨userId, nickname, .ofOutcome outcome⟩]⟩ := by
  have hbegin : (⟨db, cs⟩ : Claims).step (.begin userId nickname) =
      some ⟨db, cs ++ [⟨userId, nickname, .begun⟩]⟩ := by
    simp only [Claims.step, hvalid]
  cases hslot : claimSlot (db.taken nickname) (maxDiscriminatorWidth - db.widthOf nickname)
      (db.widthOf nickname) with
  | error e =>
    refine ⟨2, .error e, db, by rw [claimTransaction, hslot], ?_⟩
    simp only [replicate, run, hbegin, bind_some, step_last, Claims.advance, hslot,
      map_some]
    rfl
  | ok p =>
    obtain ⟨slot, width⟩ := p
    refine ⟨5, .ok (slot, width), _, claimTransaction_eq hslot, ?_⟩
    have hwidth : (⟨db, cs ++ [⟨userId, nickname, .chosen slot width⟩]⟩ : Claims).widthLocked
        nickname = false := by
      simpa [Claims.widthLocked, Phase.locksWidth] using fun c hc _ => hquiet c hc
    have hunheld := handleRow_ne_of_free (claimSlot_ok hslot).2.2.2.2
    -- the five statements, from phase to phase
    have goes : ∀ phase phase' db',
        Claims.advance ⟨db, cs ++ [⟨userId, nickname, phase⟩]⟩ ⟨userId, nickname, phase⟩ =
          some (phase', db') →
        (⟨db, cs ++ [⟨userId, nickname, phase⟩]⟩ : Claims).step (.next cs.length) =
          some ⟨db', cs ++ [⟨userId, nickname, phase'⟩]⟩ := by
      intro phase phase' db' h
      rw [step_last, h]
      rfl
    have h₁ := goes .begun _ _ rfl
    have h₂ := goes (.sawWidth (db.widthOf nickname)) (.chosen slot width) db
      (by simp only [Claims.advance, hslot])
    have h₃ := goes (.chosen slot width) (.widened slot width) db
      (by simp [Claims.advance, hwidth])
    have h₄ := goes _ _ _ (advance_widened (rowLocked_of_quiet hquiet) hunheld width)
    have h₅ := goes (.written slot width) _ _ rfl
    simp only [replicate, run, hbegin, bind_some, h₁, h₂, h₃, h₄, h₅]
    rfl

end Alone

/-! ## Every interleaving -/
section Apart
variable {R : α → α → Prop}

/-- No two entries of a list stand in the relation. -/
def Apart (R : α → α → Prop) (l : List α) : Prop :=
  ∀ (i j : ℕ) (a b : α), l[i]? = some a → l[j]? = some b → R a b → i = j

theorem Apart.set (h : Apart R l) (hsymm : ∀ a b, R a b → R b a)
    (hnew : ∀ (j : ℕ) (b : α), j ≠ i → l[j]? = some b → ¬R a b) : Apart R (l.set i a) := by
  intro j k b c hj hk hR
  rcases getElem?_set_cases hj with ⟨rfl, rfl⟩ | ⟨hji, hj'⟩ <;>
    rcases getElem?_set_cases hk with ⟨rfl, rfl⟩ | ⟨hki, hk'⟩
  · rfl
  · exact absurd hR (hnew k c hki hk')
  · exact absurd (hsymm b c hR) (hnew j b hji hj')
  · exact h j k b c hj' hk' hR

theorem Apart.of_idle {l' : List α} (h : Apart R l)
    (hold : ∀ (j : ℕ) (b : α), l'[j]? = some b → l[j]? = some b ∨ ∀ c, ¬R b c ∧ ¬R c b) :
    Apart R l' := by
  intro j k b c hj hk hR
  rcases hold j b hj with hj | hj
  · rcases hold k c hk with hk | hk
    · exact h j k b c hj hk hR
    · exact absurd hR (hk b).2
  · exact absurd hR (hj c).1

end Apart

/-- Both have the row of the nickname's width. -/
def Claim.SharesWidth (c d : Claim) : Prop :=
  c.phase.locksWidth = true ∧ d.phase.locksWidth = true ∧ c.nickname = d.nickname

/-- Both have written the user's row. -/
def Claim.SharesRow (c d : Claim) : Prop :=
  c.phase.wrote.isSome = true ∧ d.phase.wrote.isSome = true ∧ c.userId = d.userId

theorem sharesWidth_comm (c d : Claim) (h : c.SharesWidth d) : d.SharesWidth c :=
  ⟨h.2.1, h.1, h.2.2.symm⟩

theorem sharesRow_comm (c d : Claim) (h : c.SharesRow d) : d.SharesRow c := ⟨h.2.1, h.1, h.2.2.symm⟩

variable {phase : Phase}

theorem locksWidth_of_wrote (h : phase.wrote = some slot) : phase.locksWidth = true := by
  cases phase <;> first | rfl | cases h

theorem wrote_of_unlocked (h : phase.locksWidth = false) : phase.wrote = none := by
  cases phase <;> first | rfl | cases h

/-- The locks keep the claims apart, and no two users hold one handle. -/
structure Orderly (w : Claims) : Prop where
  widths : Apart Claim.SharesWidth w.claims
  rows : Apart Claim.SharesRow w.claims
  unheld : ∀ c ∈ w.claims, ∀ slot id, c.phase.wrote = some slot →
    w.db.handleRow id = some (c.nickname, slot) → id = c.userId
  unique : ∀ i j h, w.db.handleRow i = some h → w.db.handleRow j = some h → i = j

namespace Orderly

theorem of_idle (h : Orderly w)
    (hold : ∀ (j : ℕ) (d : Claim), cs[j]? = some d → w.claims[j]? = some d ∨
      d.phase.locksWidth = false) :
    Orderly ⟨w.db, cs⟩ where
  widths := by
    refine h.widths.of_idle (fun j d hj => (hold j d hj).imp_right fun hd e => ⟨?_, ?_⟩)
    · rintro ⟨hd', -⟩
      simp [hd] at hd'
    · rintro ⟨-, hd', -⟩
      simp [hd] at hd'
  rows := by
    refine h.rows.of_idle (fun j d hj => (hold j d hj).imp_right fun hd e => ⟨?_, ?_⟩)
    · rintro ⟨hd', -⟩
      simp [wrote_of_unlocked hd] at hd'
    · rintro ⟨-, hd', -⟩
      simp [wrote_of_unlocked hd] at hd'
  unheld d hd slot id hwrote := by
    obtain ⟨j, hj⟩ := mem_iff_getElem?.mp hd
    rcases hold j d hj with hj | hj
    · exact h.unheld d (mem_of_getElem? hj) slot id hwrote
    · simp [wrote_of_unlocked hj] at hwrote
  unique := h.unique

theorem set_idle (h : Orderly w) (i : ℕ) (c : Claim) (phase : Phase)
    (hphase : phase.locksWidth = false) :
    Orderly ⟨w.db, w.claims.set i { c with phase := phase }⟩ := by
  refine h.of_idle (fun j d hj => ?_)
  rcases getElem?_set_cases hj with ⟨-, rfl⟩ | ⟨-, hj⟩
  · exact .inr hphase
  · exact .inl hj

theorem widen (h : Orderly w) (hfree : w.widthLocked c.nickname = false) :
    Orderly ⟨w.db, w.claims.set i { c with phase := .widened slot width }⟩ where
  widths := by
    refine h.widths.set sharesWidth_comm (fun j d _ hj hshare => ?_)
    have := any_eq_false.mp hfree d (mem_of_getElem? hj)
    simp [hshare.2.1, ← hshare.2.2] at this
  rows := h.rows.set sharesRow_comm (fun j d _ _ hshare => by cases hshare.1)
  unheld d hd slot id hwrote := by
    rcases mem_or_eq_of_mem_set hd with hd | rfl
    · exact h.unheld d hd slot id hwrote
    · cases hwrote
  unique := h.unique

theorem write (h : Orderly w) (hc : w.claims[i]? = some c) (hphase : c.phase = .widened slot width)
    (hfree : w.rowLocked c.userId c.nickname slot = false)
    (hunheld : ∀ id, id ≠ c.userId → w.db.handleRow id ≠ some (c.nickname, slot))
    (hrow : (w.db.users.row c.userId).isSome = true) :
    Orderly ⟨w.db, w.claims.set i { c with phase := .written slot width }⟩ where
  widths := by
    -- it has had the row of the width since its last statement
    refine h.widths.set sharesWidth_comm (fun j d hji hj hshare => hji ?_)
    exact (h.widths i j c d hc hj ⟨by rw [hphase]; rfl, hshare.2⟩).symm
  rows := by
    refine h.rows.set sharesRow_comm (fun j d _ hj hshare => ?_)
    obtain ⟨slot', hslot'⟩ := isSome_iff_exists.mp hshare.2.1
    have := any_eq_false.mp hfree d (mem_of_getElem? hj)
    rw [← hshare.2.2] at this
    simp [hslot', hrow] at this
  unheld d hd slot' id hwrote hid := by
    rcases mem_or_eq_of_mem_set hd with hd | rfl
    · exact h.unheld d hd slot' id hwrote hid
    · cases hwrote
      by_contra hne
      exact hunheld id hne hid
  unique := h.unique

theorem commit (h : Orderly w) (hc : w.claims[i]? = some c) (hphase : c.phase = .written slot width)
    (hrow : (w.db.users.row c.userId).isSome = true) :
    Orderly ⟨w.db.publish c.userId c.nickname slot width,
      w.claims.set i { c with phase := .committed slot width }⟩ := by
  have hclaims := h.set_idle i c (.committed slot width) rfl
  have hheld := h.unheld c (mem_of_getElem? hc) slot
  have hwrote : c.phase.wrote = some slot := by rw [hphase]; rfl
  refine ⟨hclaims.widths, hclaims.rows, fun d hd slot' id hd' hid => ?_, fun j k hd hj hk => ?_⟩
  · obtain ⟨j, hj⟩ := mem_iff_getElem?.mp hd
    rcases getElem?_set_cases hj with ⟨-, rfl⟩ | ⟨hji, hj⟩
    · cases hd'
    rw [handleRow_publish hrow] at hid
    split_ifs at hid with hu
    · -- two claims with the row of one width
      have hn : d.nickname = c.nickname := (Prod.mk.inj (some.inj hid)).1.symm
      exact absurd (h.widths j i d c hj hc
        ⟨locksWidth_of_wrote hd', locksWidth_of_wrote hwrote, hn⟩)
        hji
    · exact h.unheld d (mem_of_getElem? hj) slot' id hd' hid
  · rw [handleRow_publish hrow] at hj hk
    split_ifs at hj hk with hju hku hku
    · rw [hju, hku]
    · exact hju.trans (hheld k hwrote (hk.trans hj.symm)).symm
    · exact (hheld j hwrote (hj.trans hk.symm)).trans hku.symm
    · exact h.unique j k hd hj hk

theorem step (h : Orderly w) (hknown : w.Known) (hs : Stepped w ev v) : Orderly v := by
  cases hs with
  | refused => exact h
  | begun =>
    refine h.of_idle (fun j d hj => ?_)
    rcases getElem?_concat_cases hj with rfl | hj
    · exact .inr rfl
    · exact .inl hj
  | dropped => exact h.set_idle _ _ _ rfl
  | @advanced i c phase db hc hmove =>
    have hrow := hknown _ (mem_map_of_mem (mem_of_getElem? hc))
    cases hmove with
    | readWidth _ | choose _ _ | exhaust _ _ | clash _ _ => exact h.set_idle _ _ _ rfl
    | touchNone _ habsent => simp [isNone_iff_eq_none.mp habsent] at hrow
    | widen _ hfree => exact h.widen hfree
    | write hphase hfree hunheld => exact h.write hc hphase hfree hunheld hrow
    | commit hphase => exact h.commit hc hphase hrow

theorem of_handles (h : Handles db) : Orderly ⟨db, []⟩ where
  widths _ _ _ _ hi := by cases hi
  rows _ _ _ _ hi := by cases hi
  unheld _ hc := by cases hc
  unique i j hd hi hj := by
    obtain ⟨r, hr, hh⟩ := bind_eq_some_iff.mp hi
    obtain ⟨s, hs, hh'⟩ := bind_eq_some_iff.mp hj
    exact h.unique i j r s hd hr hs hh hh'

theorem run {ops : List HandleOp} (h : run Claims.step ⟨handleRun ops, []⟩ es = some w)
    (hknown : w.Known) : Orderly w :=
  run_invariant_under (H := Claims.Known) (of_handles (Handles.run ops))
    (fun _ _ _ _ hs hv => (stepped_of_step hs).known hv)
    (fun _ _ _ ht hv _ hs => ht.step ((stepped_of_step hs).known hv) (stepped_of_step hs))
    (along_of_forall _ (fun _ _ _ => trivial)) h hknown

end Orderly

end Rosette.Directory
