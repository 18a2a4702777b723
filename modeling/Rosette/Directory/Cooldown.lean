import Rosette.Directory.Erasure

/-! # The phone cooldown

An erasure records the number's hash with its time, and both sign-up paths ask for it
before they find or create the user. The question and the insert are two statements; the
answer speaks for the erasures before it and says nothing of those in between.
-/
namespace Rosette.Directory
open Foundation Program List

def clock (es : List ApiEvent) : List ℤ :=
  es.filterMap (fun
    | .act _ amb => some amb.now
    | _ => none)

/-- The erasure is long enough ago. -/
def Elapsed (hash : Text) (now : ℤ) (record : Text × ℤ) : Prop :=
  record.1 = hash → record.2 + phoneCooldownHours * 3600 ≤ now

/-- The move inserts a row for a hash that has no live one. -/
structure Creates (w : World) (id : ℕ) (amb : Ambient) (hash : Text) : Prop where
  stands : w.stands id = some (.statement (.findOrCreatePendingUser hash))
  reaches : amb.fate ≠ .failed
  free : w.state.db.users.liveWith hash = none

section Table
variable {amb : Ambient} {db db' : Database} {s : Statement}

theorem isPhoneInCooldown_eq_false {hash : Text} {now : ℤ} :
    db.isPhoneInCooldown hash now = false ↔ ∀ e ∈ db.phoneCooldown, Elapsed hash now e := by
  simp only [Database.isPhoneInCooldown, any_eq_false, Elapsed, decide_eq_true_eq, not_and]
  refine forall₂_congr fun e _ => forall_congr' fun _ => ?_
  omega

theorem Effect.phoneCooldown (h : Effect amb db s db') :
    db.phoneCooldown <+: db'.phoneCooldown := by
  cases h with
  | erased => exact prefix_append ..
  | _ => exact prefix_rfl

end Table

variable {env : Env} {w v : World}

theorem phoneCooldown_step {e : ApiEvent} (hstep : (api env).step w e = some v) :
    w.state.db.phoneCooldown <+: v.state.db.phoneCooldown := by
  cases Host.moved_of_step hstep with
  | @did id amb a =>
    rcases exec_takes env amb a w.state with heq | ⟨s, -, htakes⟩
    · exact (congrArg Database.phoneCooldown heq.symm) ▸ prefix_rfl
    · exact htakes.effect.phoneCooldown
  | _ => exact prefix_rfl

theorem phoneCooldown_run {es : List ApiEvent} (hrun : run (api env).step w es = some v) :
    w.state.db.phoneCooldown <+: v.state.db.phoneCooldown :=
  run_invariant prefix_rfl (fun _ _ _ h hstep => h.trans (phoneCooldown_step hstep)) hrun

theorem clock_le {pre mid : List ApiEvent} {id : ℕ} {check amb : Ambient}
    (h : (clock (pre ++ .act id check :: mid ++ [.act id amb])).Pairwise (· ≤ ·)) :
    check.now ≤ amb.now := by
  have hsplit : clock (pre ++ .act id check :: mid ++ [.act id amb]) =
      clock pre ++ check.now :: (clock mid ++ [amb.now]) := by
    simp [clock]
  rw [hsplit, pairwise_append, pairwise_cons] at h
  exact h.2.1.1 amb.now (by simp)

/-- A row is created at least a cooldown after every erasure of its number exactly if it is
created that long after those that came between the request's own check and its insert. -/
theorem cooldown_respected_iff (env : Env) {es : List ApiEvent} {w : World} {id : ℕ} {amb : Ambient}
    {hash : Text} (hrun : run (api env).step (Host.start .initial) es = some w)
    (hclock : (clock (es ++ [.act id amb])).Pairwise (· ≤ ·)) (hnew : Creates w id amb hash) :
    ∃ pre check mid v since, es = pre ++ .act id check :: mid ∧
      run (api env).step (Host.start .initial) pre = some v ∧
      v.stands id = some (.statement (.isPhoneInCooldown hash)) ∧
      w.state.db.phoneCooldown = v.state.db.phoneCooldown ++ since ∧
      ((∀ e ∈ w.state.db.phoneCooldown, Elapsed hash amb.now e) ↔
        ∀ e ∈ since, Elapsed hash amb.now e) := by
  obtain ⟨request, -, hchecked⟩ := (Host.run_lawful (handle_inTurn env) hrun).stands hnew.stands
  obtain ⟨check, hdid⟩ := mem_own.mp hchecked
  obtain ⟨pre, mid, v, rfl, hpre, hat, hanswer⟩ := Host.move_of_did hrun hdid
  have hfree := Statement.run_of_exec hanswer
  simp only [Statement.run, Except.ok.injEq, Prod.mk.injEq] at hfree
  obtain ⟨since, hsince⟩ : v.state.db.phoneCooldown <+: w.state.db.phoneCooldown := by
    rw [run_append, hpre] at hrun
    exact phoneCooldown_run hrun
  refine ⟨pre, check, mid, v, since, rfl, hpre, hat, hsince.symm, ?_⟩
  rw [← hsince]
  constructor
  · intro h e he
    exact h e (mem_append_right _ he)
  · intro h e he
    rcases mem_append.mp he with hbefore | hsince
    · intro hh
      have hrested := isPhoneInCooldown_eq_false.mp hfree.1 e hbefore hh
      exact hrested.trans (clock_le hclock)
    · exact h e hsince

section Sample

theorem cooldown_respected_iff_first : ∃ w,
    run (api sampleEnv).step (Host.start .initial)
      (serve 0 (.verify 0 samplePhone ['1']) 4 (calm 0 [])) = some w ∧
      ∀ e ∈ w.state.db.phoneCooldown, Elapsed samplePhone 0 e := by
  obtain ⟨w, hrun, hstands, hfree, hempty⟩ : ∃ w, run (api sampleEnv).step (Host.start .initial)
      (serve 0 (.verify 0 samplePhone ['1']) 4 (calm 0 [])) = some w ∧
        w.stands 0 = some (.statement (.findOrCreatePendingUser samplePhone)) ∧
        w.state.db.users.liveWith samplePhone = none ∧ w.state.db.phoneCooldown = [] := by
    decide +kernel
  obtain ⟨pre, check, mid, v, since, -, -, -, hsince, hiff⟩ :=
    cooldown_respected_iff sampleEnv hrun (by decide +kernel)
      (⟨hstands, by decide, hfree⟩ : Creates w 0 (calm 0 []) samplePhone)
  refine ⟨w, hrun, hiff.mpr fun e he => ?_⟩
  have hnone : since = [] := by
    rw [hempty] at hsince
    exact (append_eq_nil_iff.mp hsince.symm).2
  simp [hnone] at he

/-- A second verification of a number passes the cooldown check, the account is deleted, and
the verification goes on to insert a new row. -/
def racedCooldown : List ApiEvent :=
  verifiedRun ++ serve 1 (.verify 0 samplePhone ['1']) 4 (calm 1 ['t']) ++
    serve 2 (.deleteAccount sampleBearer) 2 (calm 2 []) ++ [.act 1 (calm 3 [])]

theorem row_created_in_cooldown : (clock racedCooldown).Pairwise (· ≤ ·) ∧ ∃ w r,
    run (api sampleEnv).step (Host.start .initial) racedCooldown = some w ∧
      w.state.db.users.row 2 = some r ∧ r.live = true ∧ r.phoneHash = samplePhone ∧
      (samplePhone, 2) ∈ w.state.db.phoneCooldown ∧
      r.createdAt < 2 + phoneCooldownHours * 3600 := by decide +kernel

end Sample
end Rosette.Directory
