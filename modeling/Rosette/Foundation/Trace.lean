import Mathlib.Tactic

/-! # Runs of a partial step function

A system is a step function that may refuse an event. A run feeds it a list of
events; the rules below reduce a statement about every run to one about a
single step.
-/
namespace Rosette.Foundation
open List Option
variable {σ ε ο : Type*}

/-- Feed a list of events to a step function, stopping at the first refusal. -/
def run (step : σ → ε → Option σ) : σ → List ε → Option σ
  | s, [] => some s
  | s, e :: es => (step s e).bind (fun t => run step t es)

variable {step : σ → ε → Option σ} {s t : σ} {es fs : List ε} {P : σ → Prop} {C : σ → ε → Prop}
  {e : ε}

/-- What is said of the outcome of a computation is decided by computing it. -/
instance decidableOutcome {o : Option σ} {P : σ → Prop} [DecidablePred P] :
    Decidable (∃ s, o = some s ∧ P s) :=
  match o with
  | none => isFalse nofun
  | some s => decidable_of_iff (P s) (by simp)

instance decidableOutcomes {o : Option σ} {P : σ → ο → Prop} [∀ s, Decidable (∃ t, P s t)] :
    Decidable (∃ s t, o = some s ∧ P s t) :=
  decidable_of_iff (∃ s, o = some s ∧ ∃ t, P s t) (by simp only [exists_and_left])

instance decidableDefined {o : Option σ} : Decidable (∃ s, o = some s) :=
  decidable_of_iff (o.isSome = true) isSome_iff_exists

@[simp] theorem run_nil (s : σ) : run step s [] = some s := rfl

theorem run_append (s : σ) (es fs : List ε) :
    run step s (es ++ fs) = (run step s es).bind (fun t => run step t fs) := by
  induction es generalizing s with
  | nil => rfl
  | cons e es ih =>
    simp only [run, bind_assoc]
    exact congrArg _ (funext fun t => ih t)

theorem run_snoc (s : σ) (es : List ε) (e : ε) :
    run step s (es ++ [e]) = (run step s es).bind (fun t => step t e) := by
  rw [run_append]
  congr 1
  funext t
  simp [run]

/-- Every property of a run that holds at its start and survives one more step holds
at its end. The property may mention the events so far. -/
@[elab_as_elim] theorem run_induction {P : List ε → σ → Prop} (hinit : P [] s)
    (hstep : ∀ es t e u, run step s es = some t → P es t → step t e = some u → P (es ++ [e]) u)
    (h : run step s es = some t) : P es t := by
  induction es using reverseRecOn generalizing t with
  | nil =>
    cases h
    exact hinit
  | append_singleton es e ih =>
    rw [run_snoc] at h
    obtain ⟨u, hu, hs⟩ := bind_eq_some_iff.mp h
    exact hstep es u e t hu (ih hu) hs

/-- A state property preserved by every step holds in every state a run reaches. -/
@[elab_as_elim] theorem run_invariant (hinit : P s) (hstep : ∀ t e u, P t → step t e = some u → P u)
    (h : run step s es = some t) : P t :=
  run_induction hinit (fun _ t e u _ ht hs => hstep t e u ht hs) h

/-- What the events of a run show, each seen from the state it meets. -/
def observe (step : σ → ε → Option σ) (obs : σ → ε → Option ο) : σ → List ε → List ο
  | _, [] => []
  | s, e :: es => (obs s e).toList ++ (step s e).elim [] (fun t => observe step obs t es)

theorem observe_snoc {obs : σ → ε → Option ο} (e : ε) (h : run step s es = some t) :
    observe step obs s (es ++ [e]) = observe step obs s es ++ (obs t e).toList := by
  induction es generalizing s with
  | nil =>
    obtain rfl := some.inj h
    simp only [nil_append, observe]
    cases step s e <;> simp
  | cons d es ih =>
    obtain ⟨u, hu, hr⟩ := bind_eq_some_iff.mp h
    simp only [cons_append, observe, hu, elim_some, ih hr, append_assoc]

/-- All steps of the run from `s` along `es` meet the condition `C`. -/
def Along (step : σ → ε → Option σ) (C : σ → ε → Prop) : σ → List ε → Prop
  | _, [] => True
  | s, e :: es => C s e ∧ ∀ t, step s e = some t → Along step C t es

theorem along_cons : Along step C s (e :: es) ↔
    C s e ∧ ((step s e).elim True (fun t => Along step C t es)) := by
  rw [Along]
  cases step s e with
  | none | some => simp

instance {C : σ → ε → Prop} [∀ s e, Decidable (C s e)] (s : σ) (es : List ε) :
    Decidable (Along step C s es) :=
  go s es
where
  go : (s : σ) → (es : List ε) → Decidable (Along step C s es)
    | _, [] => isTrue trivial
    | s, e :: es =>
      have : Decidable ((step s e).elim True (fun t => Along step C t es)) :=
        match step s e with
        | none => isTrue trivial
        | some t => go t es
      decidable_of_iff _ along_cons.symm

theorem along_snoc (h : Along step C s (es ++ [e])) (ht : run step s es = some t) :
    Along step C s es ∧ C t e := by
  induction es generalizing s with
  | nil =>
    cases ht
    exact ⟨trivial, h.1⟩
  | cons d es ih =>
    obtain ⟨u, hu, hr⟩ := bind_eq_some_iff.mp ht
    refine ⟨⟨h.1, fun v hv => ?_⟩, (ih (h.2 u hu) hr).2⟩
    obtain rfl := mem_unique hu hv
    exact (ih (h.2 u hu) hr).1

/-- Each event of the run finds its condition met. -/
theorem along_iff : Along step C s es ↔
    ∀ pre e post t, es = pre ++ e :: post → run step s pre = some t → C t e := by
  induction es generalizing s with
  | nil => simp [Along]
  | cons d es ih =>
    constructor
    · rintro ⟨hC, hrest⟩ pre e post t hes hrun
      cases pre with
      | nil =>
        obtain ⟨rfl, rfl⟩ := cons.inj hes
        cases hrun
        exact hC
      | cons d' pre =>
        obtain ⟨rfl, rfl⟩ := cons.inj hes
        obtain ⟨u, hu, hr⟩ := bind_eq_some_iff.mp hrun
        exact ih.mp (hrest u hu) pre e post t rfl hr
    · intro h
      refine ⟨h [] d es s rfl rfl, fun u hu => ih.mpr fun pre e post t hes hrun => ?_⟩
      refine h (d :: pre) e post t (by rw [hes]; rfl) ?_
      rw [run, hu]
      exact hrun

theorem along_of_forall (s : σ) (h : ∀ t, ∀ e ∈ es, C t e) : Along step C s es :=
  along_iff.mpr fun _ e _ t hes _ => h t e (by rw [hes]; simp)

theorem along_mono {D : σ → ε → Prop} (hCD : ∀ s e, C s e → D s e) (h : Along step C s es) :
    Along step D s es :=
  along_iff.mpr fun pre e post t hes hrun => hCD t e (along_iff.mp h pre e post t hes hrun)

theorem along_of_append (h : Along step C s (es ++ fs)) : Along step C s es := by
  rw [along_iff] at h ⊢
  intro pre e post t hes hrun
  exact h pre e (post ++ fs) t (by rw [hes, append_assoc]; rfl) hrun

theorem along_after (h : Along step C s (es ++ fs)) (ht : run step s es = some t) :
    Along step C t fs := by
  rw [along_iff] at h ⊢
  intro pre e post u hes hrun
  refine h (es ++ pre) e post u (by rw [hes, append_assoc]) ?_
  rw [run_append, ht, bind_some, hrun]

/-- A state property preserved by every step that meets `C` holds in every state
reached by a run whose steps all meet `C`. -/
@[elab_as_elim] theorem run_invariant_along (hinit : P s)
    (hstep : ∀ t e u, P t → C t e → step t e = some u → P u)
    (hc : Along step C s es) (h : run step s es = some t) : P t := by
  have key : Along step C s es → P t := by
    refine run_induction (fun _ => hinit) ?_ h
    intro es u e v hu hP hv ha
    obtain ⟨hes, hC⟩ := along_snoc ha hu
    exact hstep u e v (hP hes) hC hv
  exact key hc

/-- The same under an assumption about the end of the run that holds all along it. -/
theorem run_invariant_under {H : σ → Prop} (hinit : P s)
    (hback : ∀ t e u, C t e → step t e = some u → H u → H t)
    (hstep : ∀ t e u, P t → H u → C t e → step t e = some u → P u) (hc : Along step C s es)
    (h : run step s es = some t) (ht : H t) : P t := by
  have key : H t → P t :=
    run_invariant_along (fun _ => hinit)
      (fun t e u hP hC hu hH => hstep t e u (hP (hback t e u hC hu hH)) hH hC hu) hc h
  exact key ht

/-- Each entry of a record stands in the relation to the part before it. -/
def EachAfter (G : List ο → ο → Prop) (h : List ο) : Prop :=
  ∀ pre x post, h = pre ++ x :: post → G pre x

section EachAfter
variable {G : List ο → ο → Prop} {h : List ο} {x : ο}

theorem eachAfter_nil : EachAfter G [] := by
  intro pre x post h
  simp at h

theorem eachAfter_snoc : EachAfter G (h ++ [x]) ↔ EachAfter G h ∧ G h x := by
  constructor
  · intro hall
    refine ⟨fun pre y post hy => hall pre y (post ++ [x]) (by simp [hy]), hall h x [] rfl⟩
  · rintro ⟨hold, hnew⟩ pre y post hy
    rcases eq_nil_or_concat post with rfl | ⟨post, z, rfl⟩
    · obtain ⟨rfl, hx⟩ := append_inj' hy rfl
      obtain rfl := singleton_inj.mp hx
      exact hnew
    · rw [concat_eq_append, ← cons_append, ← append_assoc] at hy
      exact hold pre y post (append_inj_left' hy rfl)

end EachAfter

end Rosette.Foundation
