import Rosette.Directory.Claims
import Rosette.Directory.Reservation

/-! # The width of a nickname, under overlapping claims

A claim commits the width it chose by, whatever has been committed since it read. What keeps
the width from going back is that a narrower one is only left behind when it is full: the slot
of a claim that still goes by it is then held by somebody else, and the write fails. A handle
that is given up in between breaks this.
-/
namespace Rosette.Directory
open Foundation Database List Option Function

/-- The width an open claim goes by. -/
def Phase.carries : Phase → Option ℕ
  | .sawWidth width | .chosen _ width | .widened _ width | .written _ width => some width
  | _ => none

/-- The slot of an open claim and the width it was chosen at. -/
def Phase.selected : Phase → Option (ℕ × ℕ)
  | .chosen slot width | .widened slot width | .written slot width => some (slot, width)
  | _ => none

namespace Claims

/-- The claim that an event commits, and the slot it has written. -/
def commits (w : Claims) : ClaimEvent → Option (Claim × ℕ)
  | .next i => w.claims[i]?.bind (fun c => c.phase.wrote.map (Prod.mk c))
  | _ => none

/-- A user who holds a handle of the nickname commits a claim only to another handle, and
while no other open claim on the nickname goes by a width it has read. -/
def GivesUpAlone (nickname : Text) (w : Claims) (ev : ClaimEvent) : Prop :=
  ∀ p ∈ w.commits ev, ∀ h ∈ w.db.handleRow p.1.userId, h.1 = nickname →
    h ≠ (p.1.nickname, p.2) ∧
      ∀ d ∈ w.claims, d ≠ p.1 → d.nickname = nickname → d.phase.carries = none

instance (nickname : Text) (w : Claims) (ev : ClaimEvent) :
    Decidable (w.GivesUpAlone nickname ev) := by
  unfold GivesUpAlone
  infer_instance

end Claims

/-- Every slot of a width is held. -/
def Full (db : Database) (nickname : Text) (width : ℕ) : Prop :=
  ∀ slot, 1 ≤ slot → slot ≤ slotCount width → slot ∈ db.taken nickname

variable {db : Database} {width slot k width' : ℕ} {nickname : Text}

theorem full_of_claimSlot {room : ℕ}
    (h : claimSlot (db.taken nickname) room width = .ok (slot, width')) (hlt : width < width') :
    Full db nickname (width' - 1) := by
  induction room generalizing width with
  | zero =>
    have := (claimSlot_ok h).2.1
    omega
  | succ room ih =>
    rw [claimSlot] at h
    cases hf : firstFreeSlot (db.taken nickname) width with
    | ok =>
      simp only [hf, Except.ok.injEq, Prod.mk.injEq] at h
      omega
    | error =>
      rw [hf] at h
      rcases Nat.lt_or_ge (width + 1) width' with hlt' | hge
      · exact ih h hlt'
      · obtain rfl : width' = width + 1 := by omega
        exact fun s hpos hle => firstFreeSlot_error hf hpos hle

/-- A claim that goes by another width than the nickname's has seen, or left, a full one below the
larger of the two. -/
def Claim.Backed (nickname : Text) (db : Database) (c : Claim) : Prop :=
  c.nickname = nickname → ∀ width, c.phase.carries = some width →
    minDiscriminatorWidth ≤ width ∧ width ≤ maxDiscriminatorWidth ∧
      (width ≠ db.widthOf nickname → Full db nickname (max width (db.widthOf nickname) - 1))

def Claim.InRange (nickname : Text) (c : Claim) : Prop :=
  c.nickname = nickname → ∀ slot width, c.phase.selected = some (slot, width) →
    1 ≤ slot ∧ slot ≤ slotCount width

/-- The rows of a nickname fit its width, and so do the open claims. -/
structure Ratchet (nickname : Text) (w : Claims) : Prop where
  slots : ∀ id d, w.db.handleRow id = some (nickname, d) →
    1 ≤ d ∧ d ≤ slotCount (w.db.widthOf nickname)
  range : minDiscriminatorWidth ≤ w.db.widthOf nickname ∧
    w.db.widthOf nickname ≤ maxDiscriminatorWidth
  carried : ∀ c ∈ w.claims, c.Backed nickname w.db
  selected : ∀ c ∈ w.claims, c.InRange nickname

namespace Ratchet
variable {w v : Claims} {ev : ClaimEvent} {i : ℕ} {c : Claim} {slot width : ℕ}

theorem of_handles {db : Database} (h : Handles db) : Ratchet nickname ⟨db, []⟩ where
  slots id d hid := by
    obtain ⟨r, hr, hh⟩ := bind_eq_some_iff.mp hid
    exact (h.slots id r nickname d hr hh).2
  range := h.widths nickname
  carried _ hc := by cases hc
  selected _ hc := by cases hc

theorem of_claims (h : Ratchet nickname w) {cs : List Claim} (hcs : ∀ d ∈ cs, d ∈ w.claims ∨ d = c)
    (hcarried : c.Backed nickname w.db) (hselected : c.InRange nickname) :
    Ratchet nickname ⟨w.db, cs⟩ where
  slots := h.slots
  range := h.range
  carried d hd := by
    rcases hcs d hd with hd | rfl
    · exact h.carried d hd
    · exact hcarried
  selected d hd := by
    rcases hcs d hd with hd | rfl
    · exact h.selected d hd
    · exact hselected

theorem keep (h : Ratchet nickname w) (hc : w.claims[i]? = some c) {phase : Phase}
    (hcarries : ∀ width, phase.carries = some width → c.phase.carries = some width)
    (hselects : ∀ p, phase.selected = some p → c.phase.selected = some p) :
    Ratchet nickname ⟨w.db, w.claims.set i { c with phase := phase }⟩ := by
  have hmem := mem_of_getElem? hc
  exact h.of_claims (fun d hd => mem_or_eq_of_mem_set hd)
    (fun hn width hw => h.carried c hmem hn width (hcarries width hw))
    (fun hn slot width hp => h.selected c hmem hn slot width (hselects _ hp))

theorem commits_eq (hc : w.claims[i]? = some c) (hphase : c.phase = .written slot width) :
    w.commits (.next i) = some (c, slot) := by
  rw [Claims.commits, hc, bind_some, hphase]
  rfl

theorem slot_free (ho : Orderly w) (hc : w.claims[i]? = some c)
    (hphase : c.phase = .written slot width) (hn : c.nickname = nickname)
    (halone : w.GivesUpAlone nickname (.next i)) : slot ∉ w.db.taken nickname := by
  intro htaken
  obtain ⟨id, hid⟩ := mem_taken_iff.mp htaken
  have hwrote : c.phase.wrote = some slot := by rw [hphase]; rfl
  obtain rfl := ho.unheld c (mem_of_getElem? hc) slot id hwrote (hn ▸ hid)
  exact (halone _ (commits_eq hc hphase) _ hid rfl).1 (by rw [hn])

/-- A full width stays full for the claims that still go by a width of their own. -/
theorem full_publish (ho : Orderly w) (hc : w.claims[i]? = some c)
    (hphase : c.phase = .written slot width) (hrow : (w.db.users.row c.userId).isSome = true)
    (halone : w.GivesUpAlone nickname (.next i)) {j : ℕ} {d : Claim} (hj : w.claims[j]? = some d)
    (hji : j ≠ i) (hn : d.nickname = nickname) {k : ℕ} (hd : d.phase.carries = some width')
    (hfull : Full w.db nickname k) :
    Full (w.db.publish c.userId c.nickname slot width) nickname k := by
  intro s hpos hle
  obtain ⟨id, hid⟩ := mem_taken_iff.mp (hfull s hpos hle)
  refine mem_taken_iff.mpr ⟨id, ?_⟩
  rw [handleRow_publish hrow, if_neg, hid]
  rintro rfl
  have hne : d ≠ c := by
    rintro rfl
    have hlocks : d.phase.locksWidth = true := by rw [hphase]; rfl
    exact hji (ho.widths j i d d hj hc ⟨hlocks, hlocks, rfl⟩)
  have hnone := (halone _ (commits_eq hc hphase) _ hid rfl).2 d (mem_of_getElem? hj) hne hn
  simp [hnone] at hd

theorem le_width (h : Ratchet nickname w) (hc : w.claims[i]? = some c)
    (hphase : c.phase = .written slot width) (hn : c.nickname = nickname)
    (hfree : slot ∉ w.db.taken nickname) : w.db.widthOf nickname ≤ width := by
  by_contra hlt
  have hmem := mem_of_getElem? hc
  obtain ⟨hpos, hle⟩ := h.selected c hmem hn slot width (by rw [hphase]; rfl)
  have hfull := (h.carried c hmem hn width (by rw [hphase]; rfl)).2.2 (by omega)
  exact hfree (hfull slot hpos (hle.trans (slotCount_mono (by omega))))

theorem full_max {F : ℕ → Prop} {a b c : ℕ} (hle : c ≤ b) (ha : a ≠ c → F (max a c - 1))
    (hb : b ≠ c → F (max b c - 1)) (hne : a ≠ b) : F (max a b - 1) := by
  rcases Nat.lt_or_gt_of_ne hne with hlt | hgt
  · rw [max_eq_right hlt.le]
    rcases hle.eq_or_lt with rfl | hlt'
    · rw [max_eq_right hlt.le] at ha
      exact ha hne
    · rw [max_eq_left hle] at hb
      exact hb hlt'.ne'
  · rw [max_eq_left hgt.le]
    rw [max_eq_left (by omega)] at ha
    exact ha (by omega)

theorem commit (h : Ratchet nickname w) (ho : Orderly w) (hc : w.claims[i]? = some c)
    (hphase : c.phase = .written slot width) (hrow : (w.db.users.row c.userId).isSome = true)
    (halone : w.GivesUpAlone nickname (.next i)) :
    Ratchet nickname ⟨w.db.publish c.userId c.nickname slot width,
        w.claims.set i { c with phase := .committed slot width }⟩ ∧
      w.db.widthOf nickname ≤
        (w.db.publish c.userId c.nickname slot width).widthOf nickname := by
  have hmem := mem_of_getElem? hc
  have hold : ∀ d ∈ w.claims.set i { c with phase := .committed slot width }, ∀ u,
      d.phase.carries = some u → ∃ j, j ≠ i ∧ w.claims[j]? = some d := by
    intro d hd u hu
    obtain ⟨j, hj⟩ := mem_iff_getElem?.mp hd
    rcases getElem?_set_cases hj with ⟨-, rfl⟩ | ⟨hji, hj⟩
    · cases hu
    · exact ⟨j, hji, hj⟩
  -- what the commit does to the width, whichever nickname it is on
  generalize hW : (w.db.publish c.userId c.nickname slot width).widthOf nickname = W
  obtain ⟨hle, hback, hrange, hslot⟩ : w.db.widthOf nickname ≤ W ∧
      (W ≠ w.db.widthOf nickname → Full w.db nickname (max W (w.db.widthOf nickname) - 1)) ∧
      (minDiscriminatorWidth ≤ W ∧ W ≤ maxDiscriminatorWidth) ∧
      (c.nickname = nickname → 1 ≤ slot ∧ slot ≤ slotCount W) := by
    rw [widthOf_publish] at hW
    split_ifs at hW with hn
    · subst hW
      obtain ⟨hmin, hmax, hback⟩ := h.carried c hmem hn.symm width (by rw [hphase]; rfl)
      exact ⟨h.le_width hc hphase hn.symm (slot_free ho hc hphase hn.symm halone), hback,
        ⟨hmin, hmax⟩, fun hn => h.selected c hmem hn slot width (by rw [hphase]; rfl)⟩
    · subst hW
      exact ⟨le_rfl, fun hne => absurd rfl hne, h.range, fun hn' => absurd hn'.symm hn⟩
  refine ⟨⟨fun id d hid => ?_, ?_, fun d hd hn u hu => ?_, fun d hd hn s u hp => ?_⟩, hle⟩
  · simp only [hW]
    rcases handleRow_publish_cases hid with heq | hid
    · obtain ⟨hn, rfl⟩ := Prod.mk.inj heq
      exact hslot hn.symm
    · exact ⟨(h.slots id d hid).1, (h.slots id d hid).2.trans (slotCount_mono hle)⟩
  · simp only [hW]
    exact hrange
  · simp only [hW]
    obtain ⟨j, hji, hj⟩ := hold d hd u hu
    obtain ⟨hmin, hmax, hbacked⟩ := h.carried d (mem_of_getElem? hj) hn u hu
    exact ⟨hmin, hmax, fun hne => full_publish ho hc hphase hrow halone hj hji hn hu
      (full_max hle hbacked hback hne)⟩
  · rcases mem_or_eq_of_mem_set hd with hd | rfl
    · exact h.selected d hd hn s u hp
    · cases hp

theorem step (h : Ratchet nickname w) (ho : Orderly w) (hknown : w.Known)
    (halone : w.GivesUpAlone nickname ev) (hs : Stepped w ev v) :
    Ratchet nickname v ∧ w.db.widthOf nickname ≤ v.db.widthOf nickname := by
  cases hs with
  | refused => exact ⟨h, le_rfl⟩
  | @begun userId n =>
    refine ⟨h.of_claims (c := ⟨userId, n, .begun⟩) (fun d hd => ?_) (fun _ _ hw => nomatch hw)
      (fun _ _ _ hp => nomatch hp), le_rfl⟩
    simpa using hd
  | dropped hc => exact ⟨h.keep hc (fun _ hw => nomatch hw) (fun _ hp => nomatch hp), le_rfl⟩
  | @advanced i c phase db hc hmove =>
    have hmem := mem_of_getElem? hc
    cases hmove with
    | readWidth =>
      refine ⟨h.of_claims (fun d hd => mem_or_eq_of_mem_set hd) (fun hn u hu => ?_)
        (fun _ _ _ hp => nomatch hp), le_rfl⟩
      cases hu
      rw [hn]
      exact ⟨h.range.1, h.range.2, fun hne => absurd rfl hne⟩
    | @choose width slot width' hphase hfound =>
      obtain ⟨hle, hroom, hpos, hbound, hfree⟩ := claimSlot_ok hfound
      refine ⟨h.of_claims (fun d hd => mem_or_eq_of_mem_set hd) (fun hn u hu => ?_)
        (fun hn s u hp => ?_), le_rfl⟩
      · cases hu
        obtain ⟨hmin, hmax, hbacked⟩ := h.carried c hmem hn width (by rw [hphase]; rfl)
        refine ⟨hmin.trans hle, by omega, fun hne => ?_⟩
        rcases hle.eq_or_lt with rfl | hlt
        · exact hbacked hne
        · rcases Nat.le_total (w.db.widthOf nickname) width' with hW | hW
          · rw [max_eq_left hW, ← hn]
            exact full_of_claimSlot hfound hlt
          · rw [max_eq_right (by omega)] at hbacked ⊢
            exact hbacked (by omega)
      · cases hp
        exact ⟨hpos, hbound⟩
    | exhaust _ _ | clash _ _ =>
      exact ⟨h.keep hc (fun _ hw => nomatch hw) (fun _ hp => nomatch hp), le_rfl⟩
    | widen hphase _ | touchNone hphase _ | write hphase _ _ =>
      exact ⟨h.keep hc (fun _ hw => by rw [hphase]; exact hw)
        (fun _ hp => by rw [hphase]; exact hp), le_rfl⟩
    | commit hphase => exact h.commit ho hc hphase (hknown _ (mem_map_of_mem hmem)) halone

theorem run {start : Claims} {es : List ClaimEvent} (h : run Claims.step start es = some w)
    (hstart : Ratchet nickname start) (ho : Orderly start) (hknown : w.Known)
    (halone : Along Claims.step (Claims.GivesUpAlone nickname) start es) :
    (Ratchet nickname w ∧ Orderly w) ∧ start.db.widthOf nickname ≤ w.db.widthOf nickname := by
  refine run_invariant_under (H := Claims.Known) (P := fun w => (Ratchet nickname w ∧ Orderly w) ∧
      start.db.widthOf nickname ≤ w.db.widthOf nickname) ⟨⟨hstart, ho⟩, le_rfl⟩
    (fun _ _ _ _ hs hv => (stepped_of_step hs).known hv) ?_ halone h hknown
  rintro t ev u ⟨⟨hr, ho⟩, hle⟩ hu hC hs
  have hknown := (stepped_of_step hs).known hu
  obtain ⟨hr', hle'⟩ := hr.step ho hknown hC (stepped_of_step hs)
  exact ⟨⟨hr', ho.step hknown (stepped_of_step hs)⟩, hle.trans hle'⟩

theorem handleFor_eq (h : Ratchet nickname w) {id : UserId} {d : ℕ}
    (hid : w.db.handleRow id = some (nickname, d)) : ∃ text, w.db.handleFor id = some text ∧
      text.length = nickname.length + 1 + w.db.widthOf nickname := by
  obtain ⟨hmin, hmax⟩ := h.range
  have hle := (h.slots id d hid).2
  rw [slotCount_eq hmax] at hle
  have hpow : 0 < 10 ^ w.db.widthOf nickname := by positivity
  have hlen : (renderDiscriminator d (w.db.widthOf nickname)).length = w.db.widthOf nickname :=
    renderDiscriminator_length (Nat.le_trans (by decide) hmin) (by omega)
  refine ⟨_, by rw [handleFor, hid]; rfl, ?_⟩
  simp only [formatHandle, length_append, length_cons, hlen]
  omega

end Ratchet

/-- In every interleaving of claims in which a handle of the nickname is given up only while no
other claim goes by a width it read: the width of the nickname does not decrease, every
discriminator fits it, and every handle has exactly that many digits. -/
theorem width_never_narrows_if_given_up_alone (nickname : Text) (ops : List HandleOp)
    (pre post : List ClaimEvent) (v w : Claims)
    (hpre : run Claims.step ⟨handleRun ops, []⟩ pre = some v)
    (hpost : run Claims.step v post = some w) (hknown : w.Known)
    (halone : Along Claims.step (Claims.GivesUpAlone nickname) ⟨handleRun ops, []⟩ (pre ++ post)) :
    v.db.widthOf nickname ≤ w.db.widthOf nickname ∧
      ∀ id d, w.db.handleRow id = some (nickname, d) →
        1 ≤ d ∧ d ≤ slotCount (w.db.widthOf nickname) ∧
          ∃ text, w.db.handleFor id = some text ∧
            text.length = nickname.length + 1 + w.db.widthOf nickname := by
  have hstart := Handles.run ops
  obtain ⟨⟨hv, ho⟩, -⟩ := Ratchet.run hpre (.of_handles hstart) (.of_handles hstart)
    (known_of_run hpost hknown) (along_of_append halone)
  obtain ⟨⟨hw, -⟩, hle⟩ := hv.run hpost ho hknown (along_after halone hpre)
  exact ⟨hle, fun id d hid => ⟨(hw.slots id d hid).1, (hw.slots id d hid).2, hw.handleFor_eq hid⟩⟩

/-! ## A nickname with one slot left -/

def phone (id : UserId) : Text := Nat.toDigits 10 id

/-- Account after account, each with a claim on the nickname. -/
def arrivals (k : ℕ) : List HandleOp :=
  (range k).flatMap (fun i => [.signup (phone (i + 1)) 0, .claim (i + 1) nick])

theorem phone_injective {i j : UserId} (h : phone i = phone j) : i = j := by
  rw [← Nat.ofDigitChars_ten_toDigits (n := i), ← Nat.ofDigitChars_ten_toDigits (n := j)]
  exact congrArg (fun s => Nat.ofDigitChars 10 s 0) h

def resident (id : UserId) : UserRow :=
  { UserRow.pending (phone id) 0 with handle := some (nick, id) }

def residents (k : ℕ) : Users where
  row id := if 1 ≤ id ∧ id ≤ k then some (resident id) else none
  next := k + 1
  unassigned _ hid := if_neg fun h => Nat.not_succ_le_self k (Nat.le_trans hid h.2)
  liveUnique i j r s hi hj _ _ hh := by
    obtain ⟨-, hr⟩ := ite_none_right_eq_some.mp hi
    obtain ⟨-, hs⟩ := ite_none_right_eq_some.mp hj
    obtain rfl := some.inj hr
    obtain rfl := some.inj hs
    exact phone_injective hh

def crowd (k : ℕ) : Database := { Database.empty with
  users := residents k
  nicknameWidths := fun n => if n = nick ∧ 0 < k then some 2 else none }

theorem liveWith_residents (k : ℕ) : (residents k).liveWith (phone (k + 1)) = none := by
  cases h : (residents k).liveWith (phone (k + 1)) with
  | none => rfl
  | some id =>
    obtain ⟨r, hr, -, hh⟩ := Users.liveWith_eq_some.mp h
    obtain ⟨hid, hr⟩ := ite_none_right_eq_some.mp hr
    cases hr
    obtain rfl : id = k + 1 := phone_injective hh
    exact absurd hid.2 (Nat.not_succ_le_self k)

theorem firstFreeSlot_eq {taken : List ℕ} (hpos : 1 ≤ slot) (hle : slot ≤ slotCount width)
    (hfree : slot ∉ taken) (hbelow : ∀ s, 1 ≤ s → s < slot → s ∈ taken) :
    firstFreeSlot taken width = .ok slot := by
  have hfind : (range' 1 (slotCount width)).find? (fun v => v ∉ taken) = some slot := by
    rw [find?_range'_eq_some]
    refine ⟨by simpa using hfree, mem_range'_1.mpr ⟨hpos, by omega⟩, fun s hs hlt => ?_⟩
    simpa using hbelow s hs hlt
  rw [firstFreeSlot, hfind]

theorem users_eq {u v : Users} (hrow : u.row = v.row) (hnext : u.next = v.next) : u = v := by
  cases v
  cases hrow
  cases hnext
  rfl

theorem database_eq {db' : Database} (husers : db.users = db'.users)
    (hwidths : db.nicknameWidths = db'.nicknameWidths)
    (hrest : { db with users := db'.users, nicknameWidths := db'.nicknameWidths } = db') :
    db = db' := by
  rw [← hrest, ← husers, ← hwidths]

def knocking (k : ℕ) : Database :=
  { crowd k with users := (residents k).insert (phone (k + 1)) 0 (liveWith_residents k) }

theorem mem_taken_knocking : slot ∈ (knocking k).taken nick ↔ 1 ≤ slot ∧ slot ≤ k := by
  rw [mem_taken]
  constructor
  · rintro ⟨id, r, hr, hh⟩
    simp only [knocking, Users.insert_row, update_apply] at hr
    split_ifs at hr
    · cases hr
      cases hh
    · obtain ⟨hid, hr⟩ := ite_none_right_eq_some.mp hr
      cases hr
      obtain ⟨-, rfl⟩ := Prod.mk.inj (some.inj hh)
      exact hid
  · intro hslot
    refine ⟨slot, resident slot, ?_, rfl⟩
    have hne : slot ≠ (residents k).next := by
      rintro rfl
      exact absurd hslot.2 (Nat.not_succ_le_self k)
    rw [knocking, Users.insert_row, update_of_ne hne]
    exact if_pos hslot

theorem claimSlot_knocking (h : k < 99) : claimSlot ((knocking k).taken nick)
    (maxDiscriminatorWidth - (knocking k).widthOf nick) ((knocking k).widthOf nick) =
      .ok (k + 1, 2) := by
  have hwidth : (knocking k).widthOf nick = 2 := by
    simp only [widthOf, knocking, crowd]
    split_ifs <;> rfl
  have hfirst : firstFreeSlot ((knocking k).taken nick) 2 = .ok (k + 1) :=
    firstFreeSlot_eq (by omega) (by rw [slotCount_eq (by decide)]; omega)
      (by rw [mem_taken_knocking]; omega) (fun s hs hlt => mem_taken_knocking.mpr (by omega))
  rw [hwidth]
  change claimSlot _ 7 2 = _
  rw [claimSlot, hfirst]

theorem publish_knocking (k : ℕ) :
    (knocking k).publish (k + 1) nick (k + 1) 2 = crowd (k + 1) := by
  refine database_eq (users_eq (funext fun id => ?_) rfl) (funext fun n => ?_) rfl
  · rw [row_publish]
    split_ifs with hid
    · subst hid
      simp only [knocking, Users.insert_row]
      rw [show (residents k).next = k + 1 from rfl, update_self]
      exact (if_pos ⟨Nat.succ_pos k, le_rfl⟩).symm
    · simp only [knocking, Users.insert_row]
      rw [show (residents k).next = k + 1 from rfl, update_of_ne hid]
      have hiff : 1 ≤ id ∧ id ≤ k ↔ 1 ≤ id ∧ id ≤ k + 1 :=
        ⟨fun h => ⟨h.1, Nat.le_succ_of_le h.2⟩, fun h => ⟨h.1, Nat.le_of_lt_succ
          (Nat.lt_of_le_of_ne h.2 hid)⟩⟩
      simp only [crowd, residents, hiff]
  · simp only [publish, knocking, crowd, update_apply, Nat.succ_pos, and_true]
    split_ifs with hn hk
    · rfl
    · exact absurd hk.1 hn
    · rfl

theorem handleRun_arrivals (h : k ≤ 99) : handleRun (arrivals k) = crowd k := by
  induction k with
  | zero =>
    refine database_eq (users_eq (funext fun id => ?_) rfl) (funext fun n => ?_) rfl
    · exact (if_neg fun h => Nat.not_succ_le_zero 0 (Nat.le_trans h.1 h.2)).symm
    · exact (if_neg fun h => Nat.lt_irrefl 0 h.2).symm
  | succ k ih =>
    rw [arrivals, range_succ, flatMap_append, handleRun, foldl_append, ← handleRun,
      ← arrivals, ih (by omega)]
    have hsignup : handleStep (crowd k) (.signup (phone (k + 1)) 0) = knocking k := by
      rw [handleStep, findOrCreatePendingUser_created (liveWith_residents k)]
      rfl
    have hclaim : handleStep (knocking k) (.claim (k + 1) nick) = crowd (k + 1) := by
      have hvalid : validateNickname nick = .ok () := by decide
      rw [handleStep, claimUsername]
      rw [claimTransaction_eq (claimSlot_knocking (by omega))]
      exact publish_knocking k
    change handleStep (handleStep (crowd k) (.signup (phone (k + 1)) 0)) (.claim (k + 1) nick) = _
    rw [hsignup, hclaim]

def newcomers : List HandleOp :=
  [.signup (phone 99) 0, .signup (phone 100) 0, .signup (phone 101) 0]

/-- A claim from its beginning to its commit. -/
def wholeClaim (userId : UserId) (nickname : Text) (i : ℕ) : List ClaimEvent :=
  .begin userId nickname :: replicate 5 (.next i)

/-- The first newcomer reads the width; the third takes the last slot of two digits, and the
second the first one of three. -/
def widening : List ClaimEvent :=
  [.begin 99 nick, .next 0] ++ wholeClaim 101 nick 1 ++ wholeClaim 100 nick 2

def staleCommit : List ClaimEvent := wholeClaim 101 ['a', 'b'] 3 ++ replicate 4 (.next 0)

def promptCommit : List ClaimEvent := replicate 4 (.next 0)

theorem handleRun_newcomers :
    handleRun (arrivals 98 ++ newcomers) = newcomers.foldl handleStep (crowd 98) := by
  rw [handleRun, foldl_append, ← handleRun, handleRun_arrivals (by decide)]

/-- It has read two digits and commits three. -/
theorem width_never_narrows_if_given_up_alone_prompt :
    ∃ w, run Claims.step ⟨handleRun (arrivals 98 ++ newcomers), []⟩ (widening ++ promptCommit) =
        some w ∧ w.db.handleRow 99 = some (nick, 101) ∧ 3 ≤ w.db.widthOf nick := by
  have hany : ∃ v, run Claims.step ⟨newcomers.foldl handleStep (crowd 98), []⟩ widening = some v ∧
      v.db.widthOf nick = 3 ∧ ∃ w, run Claims.step v promptCommit = some w ∧
        w.db.handleRow 99 = some (nick, 101) ∧
          ∀ id ∈ w.users, (w.db.users.row id).isSome = true := by
    decide +kernel
  have halone : Along Claims.step (Claims.GivesUpAlone nick)
      ⟨newcomers.foldl handleStep (crowd 98), []⟩ (widening ++ promptCommit) := by
    decide +kernel
  rw [← handleRun_newcomers] at hany halone
  obtain ⟨v, hv, hthree, w, hw, hheld, hknown⟩ := hany
  refine ⟨w, by rw [run_append, hv, bind_some, hw], hheld, ?_⟩
  rw [← hthree]
  exact (width_never_narrows_if_given_up_alone nick _ widening promptCommit v w hv hw hknown
    halone).1

/-- The width goes back to two digits under a discriminator that has three. -/
theorem stale_commit_narrows :
    ∃ v w, run Claims.step ⟨handleRun (arrivals 98 ++ newcomers), []⟩ widening = some v ∧
      run Claims.step v staleCommit = some w ∧ v.db.widthOf nick = 3 ∧ w.db.widthOf nick = 2 ∧
      w.db.handleRow 100 = some (nick, 100) ∧ slotCount 2 < 100 := by
  rw [handleRun_newcomers]
  decide +kernel

end Rosette.Directory
