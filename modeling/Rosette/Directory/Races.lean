import Rosette.Directory.Claims
import Rosette.Directory.Reservation

/-! # Claims that choose the same handle

Two claims that read the taken slots before either commits find the same slot free. The
second to write it meets the unique constraint, and the request fails though the nickname
has room. Nothing else can fail a claim: one that chooses a handle no open claim has
chosen gets it.
-/
namespace Rosette.Directory
open Foundation Database List Option

variable {w : Claims} {ev : ClaimEvent} {width : ℕ} {es : List ClaimEvent} {phase : Phase}
  {cs : List Claim} {ops : List HandleOp}

/-- The slot a claim has settled on, from its choice to its commit. -/
def Phase.pending : Phase → Option ℕ
  | .chosen slot _ | .widened slot _ | .written slot _ => some slot
  | _ => none

def Phase.slot : Phase → Option ℕ
  | .committed slot _ => some slot
  | phase => phase.pending

def Claim.pending (c : Claim) : Option (Text × ℕ) := c.phase.pending.map (Prod.mk c.nickname)

def Claim.aim (c : Claim) : Option (Text × ℕ) := c.phase.slot.map (Prod.mk c.nickname)

namespace Claims

/-- The claim that reads the taken slots next, with the width it goes by. -/
def reader (w : Claims) : ClaimEvent → Option (Text × ℕ)
  | .next i => w.claims[i]?.bind (fun c =>
    match c.phase with
    | .sawWidth width => some (c.nickname, width)
    | _ => none)
  | _ => none

def choice (w : Claims) (ev : ClaimEvent) : Option (Text × ℕ) :=
  (w.reader ev).bind (fun r =>
    (claimSlot (w.db.taken r.1) (maxDiscriminatorWidth - r.2) r.2).toOption.map
    (fun p => (r.1, p.1)))

/-- A nickname whose slots are read has a free one. -/
def HasRoom (w : Claims) (ev : ClaimEvent) : Prop :=
  ∀ r ∈ w.reader ev, ∃ slot, 1 ≤ slot ∧ slot ≤ slotCount maxDiscriminatorWidth ∧
    slot ∉ w.db.taken r.1

/-- The handle chosen is not one that an open claim has chosen before. -/
def ChoosesAlone (w : Claims) (ev : ClaimEvent) : Prop :=
  ∀ c ∈ w.claims, ∀ h ∈ w.choice ev, c.pending ≠ some h

instance (w : Claims) (ev : ClaimEvent) : Decidable (w.ChoosesAlone ev) := by
  unfold ChoosesAlone
  infer_instance

theorem reader_eq_some {nickname : Text} :
    w.reader ev = some (nickname, width) ↔ ∃ i, ev = .next i ∧ ∃ c, w.claims[i]? = some c ∧
      c.phase = .sawWidth width ∧ c.nickname = nickname := by
  constructor
  · intro h
    cases ev with
    | next i =>
      obtain ⟨c, hc, hread⟩ := bind_eq_some_iff.mp h
      cases hp : c.phase <;> simp_all
    | _ => cases h
  · rintro ⟨i, rfl, c, hc, hphase, rfl⟩
    rw [reader, hc, bind_some, hphase]

end Claims

theorem claimSlot_error {taken : List ℕ} {room : ℕ} {e : UsernameError}
    (h : claimSlot taken room width = .error e) {slot : ℕ} (hpos : 1 ≤ slot)
    (hle : slot ≤ slotCount (width + room)) : slot ∈ taken := by
  induction room generalizing width with
  | zero =>
    rw [claimSlot] at h
    cases hf : firstFreeSlot taken width with
    | error => exact firstFreeSlot_error hf hpos hle
    | ok =>
      rw [hf] at h
      cases h
  | succ room ih =>
    rw [claimSlot] at h
    cases hf : firstFreeSlot taken width with
    | error =>
      rw [hf] at h
      refine ih h ?_
      rwa [Nat.add_right_comm, Nat.add_assoc]
    | ok =>
      rw [hf] at h
      cases h

section Steps
variable {v : Claims} {i j : ℕ} {c d : Claim} {h : Text × ℕ}

/-! ## How far a claim has come -/

/-- The statements behind a claim; one that has ended takes no more. -/
def Phase.statements : Phase → ℕ
  | .begun => 0
  | .sawWidth _ => 1
  | .chosen _ _ => 2
  | .widened _ _ => 3
  | .written _ _ => 4
  | .committed _ _ | .failed _ => 5

theorem statements_le (phase : Phase) : phase.statements ≤ 5 := by
  cases phase <;> simp [Phase.statements]

theorem Advance.statements_lt {db : Database} (h : Advance w c phase db) :
    c.phase.statements < phase.statements := by
  cases h <;> simp_all [Phase.statements]

def Claims.behind (w : Claims) (i : ℕ) : ℕ := w.claims[i]?.elim 0 (fun c => c.phase.statements)

theorem behind_of_set (hc : w.claims[i]? = some c) (hcs : w.claims.set i d = cs)
    (hlt : c.phase.statements < d.phase.statements) (db : Database) (j : ℕ) :
    w.behind j + (if i = j then 1 else 0) ≤ (⟨db, cs⟩ : Claims).behind j := by
  subst hcs
  unfold Claims.behind
  rw [getElem?_set]
  have hlen := (List.getElem?_eq_some_iff.mp hc).1
  split_ifs with hij
  · subst hij
    rw [hc]
    exact hlt
  · exact le_rfl

theorem Stepped.behind_le (h : Stepped w ev v) (j : ℕ) :
    w.behind j + (if ev = .next j then 1 else 0) ≤ v.behind j := by
  cases h with
  | refused => simp
  | begun =>
    simp only [reduceCtorEq, if_false, Nat.add_zero, Claims.behind]
    cases hj : w.claims[j]? with
    | none => exact Nat.zero_le _
    | some => rw [getElem?_append_left (List.getElem?_eq_some_iff.mp hj).1, hj]
  | @advanced i c phase db hc hmove =>
    simpa only [ClaimEvent.next.injEq] using behind_of_set hc rfl hmove.statements_lt db j
  | @dropped i c hc =>
    have hlt : c.phase.statements < (Phase.failed .dropped).statements := by
      cases hp : c.phase <;> simp_all [Phase.ended, Phase.statements]
    simpa using (Nat.le_add_right _ _).trans
      (behind_of_set hc rfl hlt w.db j)

theorem count_next_le {start : Claims} (h : run Claims.step start es = some w) (i : ℕ) :
    es.count (.next i) ≤ 5 := by
  have hbehind : es.count (.next i) ≤ w.behind i := by
    refine run_induction (Nat.zero_le _) ?_ h
    intro es t ev u _ ih hs
    rw [count_append, count_singleton]
    simp only [beq_iff_eq]
    exact (Nat.add_le_add_right ih _).trans ((stepped_of_step hs).behind_le i)
  refine hbehind.trans ?_
  unfold Claims.behind
  cases w.claims[i]? with
  | none => exact Nat.zero_le _
  | some => exact statements_le _

/-- While a claim is open, it or one that it waits for can take its next statement. -/
theorem exists_next (hc : c ∈ w.claims) (hopen : c.phase.ended = false) :
    ∃ i, (w.step (.next i)).isSome = true := by
  have goes : ∀ d ∈ w.claims, (w.advance d).isSome = true →
      ∃ i, (w.step (.next i)).isSome = true := by
    intro d hd hsome
    obtain ⟨j, hj⟩ := mem_iff_getElem?.mp hd
    exact ⟨j, by simpa [Claims.step, hj] using hsome⟩
  have written : ∀ d ∈ w.claims, ∀ slot, d.phase.wrote = some slot →
      ∃ i, (w.step (.next i)).isSome = true := by
    intro d hd slot hwrote
    refine goes d hd ?_
    cases hp : d.phase <;> simp_all [Phase.wrote, Claims.advance]
  have widened : ∀ d ∈ w.claims, d.phase.locksWidth = true →
      ∃ i, (w.step (.next i)).isSome = true := by
    intro d hd hlocks
    cases hstuck : w.advance d with
    | some => exact goes d hd (by rw [hstuck]; rfl)
    | none =>
      -- it waits for a claim that has only its commit left
      cases hp : d.phase with
      | written slot => exact written d hd slot (by rw [hp]; rfl)
      | widened slot =>
        simp only [Claims.advance, hp] at hstuck
        split_ifs at hstuck with habsent hlock
        · obtain ⟨e, he, hlock⟩ := any_eq_true.mp hlock
          rw [Bool.and_eq_true, Option.any_eq_true] at hlock
          obtain ⟨-, slot', hwrote, -⟩ := hlock
          exact written e he slot' hwrote
        · cases hset : w.db.setHandle d.userId d.nickname slot <;> rw [hset] at hstuck <;>
            cases hstuck
      | _ => simp_all [Phase.locksWidth]
  cases hstuck : w.advance c with
  | some => exact goes c hc (by rw [hstuck]; rfl)
  | none =>
    cases hp : c.phase with
    | begun => simp [Claims.advance, hp] at hstuck
    | sawWidth =>
      simp only [Claims.advance, hp] at hstuck
      split at hstuck <;> cases hstuck
    | chosen =>
      simp only [Claims.advance, hp] at hstuck
      split_ifs at hstuck with hlock
      obtain ⟨d, hd, hlock⟩ := any_eq_true.mp hlock
      rw [Bool.and_eq_true] at hlock
      exact widened d hd hlock.2
    | widened | written => exact widened c hc (by rw [hp]; rfl)
    | committed | failed => simp [hp, Phase.ended] at hopen

/-! ## What a committed claim holds -/

theorem userId_ne (husers : w.users.Nodup) (hi : w.claims[i]? = some c) (hj : w.claims[j]? = some d)
    (hij : i ≠ j) : c.userId ≠ d.userId := by
  intro heq
  have hlen : i < w.users.length := by
    simpa [Claims.users] using (List.getElem?_eq_some_iff.mp hi).1
  refine hij ((getElem?_inj hlen husers).mp ?_)
  simp [Claims.users, hi, hj, heq]

/-- Each committed claim's user has the handle it was given. -/
def Kept (w : Claims) : Prop :=
  ∀ c ∈ w.claims, ∀ slot width, c.phase = .committed slot width →
    w.db.handleRow c.userId = some (c.nickname, slot)

theorem Kept.step (h : Kept w) (husers : w.users.Nodup) (hknown : w.Known) (hs : Stepped w ev v) :
    Kept v := by
  cases hs with
  | refused => exact h
  | begun =>
    intro d hd slot width hphase
    rcases mem_append.mp hd with hd | hd
    · exact h d hd slot width hphase
    · simp [mem_singleton.mp hd] at hphase
  | dropped =>
    intro d hd slot width hphase
    rcases mem_or_eq_of_mem_set hd with hd | rfl
    · exact h d hd slot width hphase
    · cases hphase
  | @advanced i c phase db hc hmove =>
    have old : db = w.db → (∀ slot width, phase ≠ .committed slot width) →
        Kept ⟨db, w.claims.set i { c with phase := phase }⟩ := by
      rintro rfl hne d hd slot width hphase
      rcases mem_or_eq_of_mem_set hd with hd | rfl
      · exact h d hd slot width hphase
      · exact absurd hphase (hne slot width)
    cases hmove with
    | commit =>
      intro d hd slot' width' hd'
      have hrow := hknown _ (mem_map_of_mem (mem_of_getElem? hc))
      obtain ⟨j, hj⟩ := mem_iff_getElem?.mp hd
      rw [handleRow_publish hrow]
      rcases getElem?_set_cases hj with ⟨-, rfl⟩ | ⟨hji, hj⟩
      · cases hd'
        rw [if_pos rfl]
      · rw [if_neg (userId_ne husers hj hc hji)]
        exact h d (mem_of_getElem? hj) slot' width' hd'
    | _ => exact old rfl (fun _ _ h => nomatch h)

theorem Kept.run (h : run Claims.step ⟨handleRun ops, []⟩ es = some w) (husers : w.users.Nodup)
    (hknown : w.Known) : Kept w :=
  run_invariant_under (H := fun w => w.users.Nodup ∧ w.Known)
    (fun _ hc => by cases hc)
    (fun _ _ _ _ hs hv => ⟨hv.1.sublist (stepped_of_step hs).users_isPrefix.sublist,
      (stepped_of_step hs).known hv.2⟩)
    (fun _ _ _ ht hv _ hs => ht.step (hv.1.sublist (stepped_of_step hs).users_isPrefix.sublist)
      ((stepped_of_step hs).known hv.2) (stepped_of_step hs))
    (along_of_forall _ (fun _ _ _ => trivial)) h ⟨husers, hknown⟩

theorem Kept.eq_of_aim (h : Kept w) (ho : Orderly w) (husers : w.users.Nodup)
    (hi : w.claims[i]? = some c) (hj : w.claims[j]? = some d) {slot width' : ℕ}
    (hc : c.phase = .committed slot width) (hd : d.phase = .committed slot width')
    (hn : c.nickname = d.nickname) : i = j := by
  have hheld := h c (mem_of_getElem? hi) slot width hc
  rw [hn] at hheld
  have hid := ho.unique _ _ _ hheld (h d (mem_of_getElem? hj) slot width' hd)
  by_contra hij
  exact userId_ne husers hi hj hij hid

/-! ## Handles chosen apart -/

def Claim.SharesHandle (c d : Claim) : Prop := ∃ h, c.pending = some h ∧ d.pending = some h

theorem sharesHandle_comm (c d : Claim) (h : c.SharesHandle d) : d.SharesHandle c := by
  obtain ⟨hd, hc, hd'⟩ := h
  exact ⟨hd, hd', hc⟩

/-- The claim has no handle in view, and has not failed but by being dropped. -/
def Claim.Idle (d : Claim) : Prop :=
  d.pending = none ∧ ∀ reason, d.phase = .failed reason → reason = .dropped

/-- The open claims are after different handles, nobody has one of these, and no claim has
failed but by being dropped. -/
structure Fresh (w : Claims) : Prop where
  apart : Apart Claim.SharesHandle w.claims
  free : ∀ c ∈ w.claims, ∀ h, c.pending = some h → ∀ id, w.db.handleRow id ≠ some h
  dropped : ∀ c ∈ w.claims, ∀ reason, c.phase = .failed reason → reason = .dropped

namespace Fresh

theorem of_idle (h : Fresh w)
    (hold : ∀ (j : ℕ) (d : Claim), cs[j]? = some d → w.claims[j]? = some d ∨ d.Idle) :
    Fresh ⟨w.db, cs⟩ where
  apart := by
    refine h.apart.of_idle (fun j d hj => (hold j d hj).imp_right fun hd e => ⟨?_, ?_⟩)
    · rintro ⟨hd', hp, -⟩
      simp [hd.1] at hp
    · rintro ⟨hd', -, hp⟩
      simp [hd.1] at hp
  free d hd hd' hp := by
    obtain ⟨j, hj⟩ := mem_iff_getElem?.mp hd
    rcases hold j d hj with hj | ⟨hnone, -⟩
    · exact h.free d (mem_of_getElem? hj) hd' hp
    · simp [hnone] at hp
  dropped d hd := by
    obtain ⟨j, hj⟩ := mem_iff_getElem?.mp hd
    rcases hold j d hj with hj | ⟨-, hfailed⟩
    · exact h.dropped d (mem_of_getElem? hj)
    · exact hfailed

theorem set_idle (h : Fresh w) (i : ℕ) (c : Claim) (phase : Phase) (hphase : phase.pending = none)
    (hfailed : ∀ reason, phase = .failed reason → reason = .dropped) :
    Fresh ⟨w.db, w.claims.set i { c with phase := phase }⟩ := by
  refine h.of_idle (fun j d hj => ?_)
  rcases getElem?_set_cases hj with ⟨-, rfl⟩ | ⟨-, hj⟩
  · exact .inr ⟨by rw [Claim.pending, hphase]; rfl, hfailed⟩
  · exact .inl hj

variable {slot : ℕ}

theorem set_pending (h : Fresh w) (hphase : phase.pending = some slot)
    (halone : ∀ (j : ℕ) (d : Claim), j ≠ i → w.claims[j]? = some d →
      d.pending ≠ some (c.nickname, slot))
    (hfree : ∀ id, w.db.handleRow id ≠ some (c.nickname, slot)) :
    Fresh ⟨w.db, w.claims.set i { c with phase := phase }⟩ where
  apart := by
    refine h.apart.set sharesHandle_comm (fun j d hji hj => ?_)
    rintro ⟨hd, hp, hd'⟩
    rw [Claim.pending, hphase] at hp
    cases hp
    exact halone j d hji hj hd'
  free d hd hd' hp := by
    rcases mem_or_eq_of_mem_set hd with hd | rfl
    · exact h.free d hd hd' hp
    · rw [Claim.pending, hphase] at hp
      cases hp
      exact hfree
  dropped d hd reason hr := by
    rcases mem_or_eq_of_mem_set hd with hd | rfl
    · exact h.dropped d hd reason hr
    · rw [show phase = .failed reason from hr] at hphase
      cases hphase

theorem keep (h : Fresh w) (hc : w.claims[i]? = some c) (hold : c.phase.pending = some slot)
    (hphase : phase.pending = some slot) :
    Fresh ⟨w.db, w.claims.set i { c with phase := phase }⟩ := by
  have hpending : c.pending = some (c.nickname, slot) := by
    rw [Claim.pending, hold]
    rfl
  refine h.set_pending hphase (fun j d hji hj hd => hji ?_)
    (h.free c (mem_of_getElem? hc) _ hpending)
  exact (h.apart i j c d hc hj ⟨_, hpending, hd⟩).symm

theorem commit (h : Fresh w) (hc : w.claims[i]? = some c) (hphase : c.phase = .written slot width) :
    Fresh ⟨w.db.publish c.userId c.nickname slot width,
      w.claims.set i { c with phase := .committed slot width }⟩ := by
  have hclaims := h.set_idle i c (.committed slot width) rfl (fun _ h => nomatch h)
  refine ⟨hclaims.apart, fun d hd hd' hp id hid => ?_, hclaims.dropped⟩
  have hpending : c.pending = some (c.nickname, slot) := by
    rw [Claim.pending, hphase]
    rfl
  obtain ⟨j, hj⟩ := mem_iff_getElem?.mp hd
  rcases getElem?_set_cases hj with ⟨-, rfl⟩ | ⟨hji, hj⟩
  · cases hp
  rcases handleRow_publish_cases hid with rfl | hid
  · exact hji (h.apart j i d c hj hc ⟨_, hp, hpending⟩)
  · exact h.free d (mem_of_getElem? hj) hd' hp id hid

theorem step (h : Fresh w) (hroom : w.HasRoom ev) (halone : w.ChoosesAlone ev)
    (hs : Stepped w ev v) : Fresh v := by
  cases hs with
  | refused => exact h
  | begun =>
    refine h.of_idle (fun j d hj => ?_)
    rcases getElem?_concat_cases hj with rfl | hj
    · exact .inr ⟨rfl, fun _ h => nomatch h⟩
    · exact .inl hj
  | dropped => exact h.set_idle _ _ _ rfl (fun _ h => by cases h; rfl)
  | @advanced i c phase db hc hmove =>
    have hreader : ∀ width, c.phase = .sawWidth width →
        w.reader (.next i) = some (c.nickname, width) :=
      fun width hphase => Claims.reader_eq_some.mpr ⟨i, rfl, c, hc, hphase, rfl⟩
    cases hmove with
    | readWidth _ => exact h.set_idle _ _ _ rfl (fun _ h => nomatch h)
    | @choose width slot width' hphase hfound =>
      refine h.set_pending rfl (fun j d _ hj => ?_)
        (handleRow_ne_of_free (claimSlot_ok hfound).2.2.2.2)
      refine halone d (mem_of_getElem? hj) _ ?_
      simp [Claims.choice, hreader width hphase, hfound, Except.toOption]
    | @exhaust width e hphase hnone =>
      obtain ⟨slot, hpos, hle, hfree⟩ := hroom _ (hreader width hphase)
      refine absurd (claimSlot_error hnone hpos (hle.trans (slotCount_mono ?_))) hfree
      omega
    | widen hphase | touchNone hphase | write hphase => exact h.keep hc (by rw [hphase]; rfl) rfl
    | @clash slot width hphase hheld =>
      obtain ⟨id, -, hheld⟩ := hheld
      exact absurd hheld (h.free c (mem_of_getElem? hc) _ (by rw [Claim.pending, hphase]; rfl) id)
    | commit hphase => exact h.commit hc hphase

theorem run (h : run Claims.step ⟨handleRun ops, []⟩ es = some w)
    (hroom : Along Claims.step Claims.HasRoom ⟨handleRun ops, []⟩ es)
    (halone : Along Claims.step Claims.ChoosesAlone ⟨handleRun ops, []⟩ es) : Fresh w := by
  refine run_invariant_along (C := fun w ev => w.HasRoom ev ∧ w.ChoosesAlone ev)
    ⟨fun _ _ _ _ h => (by cases h), fun _ h => (by cases h), fun _ h => (by cases h)⟩
    (fun _ _ _ ht hC hs => ht.step hC.1 hC.2 (stepped_of_step hs)) ?_ h
  rw [along_iff] at hroom halone ⊢
  intro pre e post t hes hrun
  exact ⟨hroom pre e post t hes hrun, halone pre e post t hes hrun⟩

end Fresh

/-! ## Handles chosen twice -/

/-- The claim is after the handle, has it, or has failed. -/
def Bound (j : ℕ) (h : Text × ℕ) (w : Claims) : Prop :=
  ∃ d, w.claims[j]? = some d ∧ (d.aim = some h ∨ ∃ reason, d.phase = .failed reason)

theorem Bound.step (hb : Bound j h w) (hs : Stepped w ev v) : Bound j h v := by
  obtain ⟨d, hd, haim⟩ := hb
  have hlt := (List.getElem?_eq_some_iff.mp hd).1
  cases hs with
  | refused => exact ⟨d, hd, haim⟩
  | begun => exact ⟨d, by rw [getElem?_append_left hlt, hd], haim⟩
  | @dropped i =>
    by_cases hij : i = j
    · subst hij
      exact ⟨_, by rw [getElem?_set_self hlt], .inr ⟨_, rfl⟩⟩
    · exact ⟨d, by rw [getElem?_set_ne hij, hd], haim⟩
  | @advanced i c phase db hc hmove =>
    by_cases hij : i = j
    · subst hij
      obtain rfl := mem_unique hc hd
      refine ⟨_, by rw [getElem?_set_self hlt], ?_⟩
      cases hmove <;> simp_all [Claim.aim, Phase.slot, Phase.pending]
    · exact ⟨d, by rw [getElem?_set_ne hij, hd], haim⟩

theorem Bound.run (hb : Bound j h w) (hrun : run Claims.step w es = some v) : Bound j h v :=
  run_invariant hb (fun _ _ _ ht hs => ht.step (stepped_of_step hs)) hrun

theorem Bound.committed (hb : Bound j h w)
    (hall : ∀ c ∈ w.claims, ∃ slot width, c.phase = .committed slot width) :
    ∃ d width, w.claims[j]? = some d ∧ d.nickname = h.1 ∧ d.phase = .committed h.2 width := by
  obtain ⟨d, hd, haim⟩ := hb
  obtain ⟨slot, width, hphase⟩ := hall d (mem_of_getElem? hd)
  rcases haim with haim | ⟨reason, hfailed⟩
  · rw [Claim.aim, hphase] at haim
    cases haim
    exact ⟨d, width, hd, rfl, hphase⟩
  · simp [hphase] at hfailed

theorem bound_of_choice (hs : w.step ev = some v) (hchoice : w.choice ev = some h)
    (hj : w.claims[j]? = some d) (hpending : d.pending = some h) : ∃ i, i ≠ j ∧ Bound i h v := by
  obtain ⟨⟨nickname, width⟩, hreader, hmap⟩ := bind_eq_some_iff.mp hchoice
  obtain ⟨⟨slot, width'⟩, hslot, rfl⟩ := map_eq_some_iff.mp hmap
  obtain ⟨i, rfl, c, hc, hphase, rfl⟩ := Claims.reader_eq_some.mp hreader
  have hij : i ≠ j := by
    rintro rfl
    obtain rfl := mem_unique hc hj
    rw [Claim.pending, hphase] at hpending
    cases hpending
  have hfound : claimSlot (w.db.taken c.nickname) (maxDiscriminatorWidth - width) width =
      .ok (slot, width') := by
    cases hf : claimSlot (w.db.taken c.nickname) (maxDiscriminatorWidth - width) width <;>
      simp_all [Except.toOption]
  have hgoes : w.advance c = some (.chosen slot width', w.db) := by
    simp only [Claims.advance, hphase, hfound]
  simp only [Claims.step, hc, bind_some, hgoes, map_some, some.injEq] at hs
  subst hs
  have hlt := (List.getElem?_eq_some_iff.mp hc).1
  exact ⟨i, hij, _, getElem?_set_self hlt, .inl rfl⟩

end Steps

/-- The claims of any number of different users, their statements interleaved at will, on
nicknames that have room: two that committed under one nickname were given different
discriminators; none takes more than five statements, and while one is open one can take its
next; if every choice is of a handle that no open claim has chosen, none fails, save one that
is given up; and only then can all of them commit. -/
theorem claims_succeed_iff_choices_differ (ops : List HandleOp) (es : List ClaimEvent) (w : Claims)
    (hrun : run Claims.step ⟨handleRun ops, []⟩ es = some w) (husers : w.users.Nodup)
    (hknown : w.Known) (hroom : Along Claims.step Claims.HasRoom ⟨handleRun ops, []⟩ es) :
    (∀ (i j : ℕ) (c d : Claim) (slot slot' width width' : ℕ), i ≠ j → w.claims[i]? = some c →
      w.claims[j]? = some d → c.nickname = d.nickname → c.phase = .committed slot width →
      d.phase = .committed slot' width' → slot ≠ slot') ∧
    (∀ i, es.count (.next i) ≤ 5) ∧
    (∀ c ∈ w.claims, c.phase.ended = false → ∃ i, (w.step (.next i)).isSome = true) ∧
    (Along Claims.step Claims.ChoosesAlone ⟨handleRun ops, []⟩ es →
      ∀ c ∈ w.claims, ∀ reason, c.phase = .failed reason → reason = .dropped) ∧
    ((∀ c ∈ w.claims, ∃ slot width, c.phase = .committed slot width) →
      Along Claims.step Claims.ChoosesAlone ⟨handleRun ops, []⟩ es) := by
  have horderly := Orderly.run hrun hknown
  have hkept := Kept.run hrun husers hknown
  refine ⟨fun i j c d slot slot' width width' hij hi hj hn hc hd heq => ?_, count_next_le hrun,
    fun c hc => exists_next hc, fun halone => (Fresh.run hrun hroom halone).dropped,
    fun hall => along_iff.mpr fun pre ev post t hes ht c hc h hchoice hpending => ?_⟩
  · subst heq
    exact hij (hkept.eq_of_aim horderly husers hi hj hc hd hn)
  -- the chooser and the claim that was there before it are both bound to the handle
  obtain ⟨j, hj⟩ := mem_iff_getElem?.mp hc
  rw [hes, run_append, ht, bind_some] at hrun
  obtain ⟨u, hu, hrest⟩ := bind_eq_some_iff.mp hrun
  obtain ⟨i, hij, hbi⟩ := bound_of_choice hu hchoice hj hpending
  have hbj : Bound j h t := ⟨c, hj, Or.inl (by
    cases hp : c.phase <;> simp_all [Claim.aim, Claim.pending, Phase.slot, Phase.pending])⟩
  obtain ⟨ci, wi, hci, hni, hpi⟩ := (hbi.run hrest).committed hall
  obtain ⟨cj, wj, hcj, hnj, hpj⟩ := ((hbj.step (stepped_of_step hu)).run hrest).committed hall
  exact hij (hkept.eq_of_aim horderly husers hci hcj hpi hpj (hni.trans hnj.symm))

def twoClaims : Claims := ⟨handleRun [.signup ['a'] 0, .signup ['b'] 0], []⟩

/-- The second reads the taken slots when the first has committed. -/
def inTurn : List ClaimEvent :=
  [.begin 1 nick, .begin 2 nick, .next 0, .next 1, .next 0, .next 0, .next 0, .next 0, .next 1,
    .next 1, .next 1, .next 1]

theorem claims_succeed_iff_choices_differ_inTurn :
    (run Claims.step twoClaims inTurn).map Claims.claims =
        some [⟨1, nick, .committed 1 2⟩, ⟨2, nick, .committed 2 2⟩] ∧
      Along Claims.step Claims.ChoosesAlone twoClaims inTurn := by
  obtain ⟨w, hw, hclaims, hknown⟩ : ∃ w, run Claims.step twoClaims inTurn = some w ∧
      w.claims = [⟨1, nick, .committed 1 2⟩, ⟨2, nick, .committed 2 2⟩] ∧
        ∀ id ∈ w.users, (w.db.users.row id).isSome = true := by decide +kernel
  refine ⟨by rw [hw, map_some, hclaims], ?_⟩
  have hroom : Along Claims.step Claims.HasRoom twoClaims inTurn := by
    refine along_mono (C := fun w ev => 9 ∉ w.db.taken nick ∧ ∀ r ∈ w.reader ev, r.1 = nick)
      (fun w ev h r hr => ⟨9, by decide, by decide, ?_⟩) (by decide +kernel)
    rw [h.2 r hr]
    exact h.1
  refine (claims_succeed_iff_choices_differ _ _ w hw ?_ hknown hroom).2.2.2.2 (fun c hc => ?_)
  · rw [Claims.users, hclaims]
    decide
  · rw [hclaims] at hc
    rcases mem_pair.mp hc with rfl | rfl
    · exact ⟨1, 2, rfl⟩
    · exact ⟨2, 2, rfl⟩

/-- Both read the taken slots first. The second finds its handle taken, though the nickname
has all but one of its slots left. -/
theorem overlapping_claim_fails :
    (run Claims.step twoClaims [.begin 1 nick, .begin 2 nick, .next 0, .next 1, .next 0, .next 1,
        .next 0, .next 0, .next 0, .next 1, .next 1]).map (fun w => (w.claims, w.db.taken nick)) =
      some ([⟨1, nick, .committed 1 2⟩, ⟨2, nick, .failed .conflict⟩], [1]) := by
  decide +kernel

end Rosette.Directory
