import Rosette.Foundation.Trace

/-! # Programs that share a state

A program performs actions one at a time and goes on by their results. A host runs
any number of them over one state, in any interleaving and with each action atomic;
a program may be dropped at any point, and the host may lose all of them in a restart.

The host keeps the history of what happened. What a program has done so far decides
where it stands, so a property of the program's own past at each of its actions is
read off its text, once, and holds in every interleaving.
-/
namespace Rosette.Foundation
open List Function

variable {A ε α : Type} {R : A → Type} {a : A}

/-- Ends with an outcome, or performs an action and goes on with its result. -/
inductive Program (A : Type) (R : A → Type) (ε α : Type) where
  | done (outcome : Except ε α)
  | act (a : A) (next : R a → Program A R ε α)

namespace Program
variable {β : Type}

protected def bind : Program A R ε α → (α → Program A R ε β) → Program A R ε β
  | .done (.ok a), f => f a
  | .done (.error e), _ => .done (.error e)
  | .act a next, f => .act a (fun r => (next r).bind f)

instance : Monad (Program A R ε) where
  pure a := .done (.ok a)
  bind := Program.bind

def refuse (e : ε) : Program A R ε α := .done (.error e)

def perform (a : A) : Program A R ε (R a) := .act a (fun r => .done (.ok r))

protected theorem bind_assoc {γ : Type} (p : Program A R ε α) (f : α → Program A R ε β)
    (g : β → Program A R ε γ) : (p >>= f >>= g) = p >>= fun a => f a >>= g := by
  induction p with
  | done outcome => cases outcome <;> rfl
  | act a next ih => exact congrArg (Program.act a) (funext ih)

/-- Every action of the program, and its outcome, is in order after what it did before. -/
def Obeys (P : List (Σ a, R a) → A → Prop) (Q : List (Σ a, R a) → Except ε α → Prop) :
    List (Σ a, R a) → Program A R ε α → Prop
  | past, .done outcome => Q past outcome
  | past, .act a next => P past a ∧ ∀ r, Obeys P Q (past ++ [⟨a, r⟩]) (next r)

section Obeys
variable {P : List (Σ a, R a) → A → Prop} {Q : List (Σ a, R a) → Except ε α → Prop}
  {past : List (Σ a, R a)}

/-- A first action that is in order, and a rest that is whatever the action returns. -/
theorem Obeys.perform_then {f : R a → Program A R ε α} (h : P past a)
    (rest : ∀ r, Obeys P Q (past ++ [⟨a, r⟩]) (f r)) : Obeys P Q past (perform a >>= f) :=
  ⟨h, rest⟩

end Obeys
end Program

/-- What happens on a host, in order. -/
inductive Happening (A : Type) (R : A → Type) (ε α ρ τ : Type) where
  | arrived (id : ℕ) (request : ρ)
  | did (id : ℕ) (amb : τ) (a : A) (r : R a)
  | answered (id : ℕ) (outcome : Except ε α)

/-- How requests become programs, what an action does, and what a restart leaves. -/
structure Host (A : Type) (R : A → Type) (ε α ρ τ σ : Type) where
  handler : ρ → Program A R ε α
  exec : τ → (a : A) → σ → R a × σ
  reboot : σ → σ

/-- The shared state, the programs under way and the history so far. -/
structure Hosted (A : Type) (R : A → Type) (ε α ρ τ σ : Type) where
  state : σ
  pending : ℕ → Option (Program A R ε α)
  history : List (Happening A R ε α ρ τ)

def Hosted.stands {A : Type} {R : A → Type} {ε α ρ τ σ : Type} (w : Hosted A R ε α ρ τ σ) (id : ℕ) :
    Option A :=
  match w.pending id with
  | some (.act a _) => some a
  | _ => none

inductive HostEvent (ρ τ : Type) where
  | arrive (id : ℕ) (request : ρ)
  | act (id : ℕ) (amb : τ)
  | answer (id : ℕ)
  | drop (id : ℕ)
  | restart

section History
variable {ρ τ : Type}

def own (id : ℕ) (h : List (Happening A R ε α ρ τ)) : List (Σ a, R a) :=
  h.filterMap (fun
    | .did i _ a r => if i = id then some ⟨a, r⟩ else none
    | _ => none)

def begun (id : ℕ) (h : List (Happening A R ε α ρ τ)) : Bool :=
  h.any (fun
    | .arrived i _ => i = id
    | _ => false)

variable {id id' : ℕ} {h g : List (Happening A R ε α ρ τ)} {request request' : ρ}

@[simp] theorem own_append : own id (h ++ g) = own id h ++ own id g := filterMap_append ..

@[simp] theorem own_did (id id' : ℕ) (amb : τ) (a : A) (r : R a) :
    own id [(.did id' amb a r : Happening A R ε α ρ τ)] = if id' = id then [⟨a, r⟩] else [] := by
  by_cases h : id' = id <;> simp [own, h]

@[simp] theorem own_arrived (id id' : ℕ) (request : ρ) :
    own id [(.arrived id' request : Happening A R ε α ρ τ)] = [] := rfl

@[simp] theorem own_answered (id id' : ℕ) (outcome : Except ε α) :
    own id [(.answered id' outcome : Happening A R ε α ρ τ)] = [] := rfl

theorem mem_own {r : R a} :
    (⟨a, r⟩ : Σ a, R a) ∈ own id h ↔ ∃ amb, Happening.did id amb a r ∈ h := by
  simp only [own, mem_filterMap]
  constructor
  · rintro ⟨e, he, heq⟩
    cases e with
    | did i amb =>
      simp only [Option.ite_none_right_eq_some] at heq
      obtain ⟨rfl, heq⟩ := heq
      cases heq
      exact ⟨amb, he⟩
    | arrived | answered => cases heq
  · rintro ⟨amb, he⟩
    exact ⟨_, he, by simp⟩

theorem begun_iff : begun id h = true ↔ ∃ request, Happening.arrived id request ∈ h := by
  simp only [begun, any_eq_true]
  constructor
  · rintro ⟨e, he, heq⟩
    cases e with
    | arrived i request => exact ⟨request, of_decide_eq_true heq ▸ he⟩
    | did | answered => cases heq
  · rintro ⟨request, he⟩
    exact ⟨_, he, by simp⟩

end History

namespace Host
variable {ρ τ σ : Type} (H : Host A R ε α ρ τ σ)

/-- One move. An id that has been used, or a program that is not at such a point, is refused. -/
def step (w : Hosted A R ε α ρ τ σ) : HostEvent ρ τ → Option (Hosted A R ε α ρ τ σ)
  | .arrive id request =>
    if begun id w.history then none else
      some ⟨w.state, update w.pending id (some (H.handler request)),
        w.history ++ [.arrived id request]⟩
  | .act id amb =>
    match w.pending id with
    | some (.act a next) =>
      let result := H.exec amb a w.state
      some ⟨result.2, update w.pending id (some (next result.1)),
        w.history ++ [.did id amb a result.1]⟩
    | _ => none
  | .answer id =>
    match w.pending id with
    | some (.done outcome) =>
      some ⟨w.state, update w.pending id none, w.history ++ [.answered id outcome]⟩
    | _ => none
  | .drop id => some { w with pending := update w.pending id none }
  | .restart => some { w with state := H.reboot w.state, pending := fun _ => none }

/-- Every move, with what it needs and what it leaves. -/
inductive Moved (w : Hosted A R ε α ρ τ σ) : HostEvent ρ τ → Hosted A R ε α ρ τ σ → Prop where
  | arrived {id request} (fresh : begun id w.history = false) :
    Moved w (.arrive id request) ⟨w.state,
      update w.pending id (some (H.handler request)),
      w.history ++ [.arrived id request]⟩
  | did {id amb a next} (at_ : w.pending id = some (.act a next)) :
    Moved w (.act id amb) ⟨(H.exec amb a w.state).2,
      update w.pending id (some (next (H.exec amb a w.state).1)),
      w.history ++ [.did id amb a (H.exec amb a w.state).1]⟩
  | answered {id outcome} (at_ : w.pending id = some (.done outcome)) :
    Moved w (.answer id) ⟨w.state, update w.pending id none,
      w.history ++ [.answered id outcome]⟩
  | dropped {id} : Moved w (.drop id) { w with pending := update w.pending id none }
  | restarted : Moved w .restart { w with state := H.reboot w.state, pending := fun _ => none }

variable {H} {w v : Hosted A R ε α ρ τ σ} {ev : HostEvent ρ τ} {id : ℕ} {s : σ}
  {es : List (HostEvent ρ τ)}

theorem stands_eq_some : w.stands id = some a ↔ ∃ next, w.pending id = some (.act a next) := by
  unfold Hosted.stands
  cases hp : w.pending id with
  | none => simp
  | some p =>
    cases p with
    | done => simp
    | act b next =>
      constructor
      · intro h
        cases h
        exact ⟨next, rfl⟩
      · rintro ⟨next', h⟩
        cases h
        rfl

theorem moved_of_step (h : H.step w ev = some v) : H.Moved w ev v := by
  cases ev with
  | arrive =>
    rw [step] at h
    split_ifs at h with hb
    cases h
    exact .arrived (by simpa using hb)
  | act id =>
    rw [step] at h
    cases hp : w.pending id with
    | none => simp [hp] at h
    | some p =>
      cases p with
      | done => simp [hp] at h
      | act =>
        simp only [hp, Option.some.injEq] at h
        subst h
        exact .did hp
  | answer id =>
    rw [step] at h
    cases hp : w.pending id with
    | none => simp [hp] at h
    | some p =>
      cases p with
      | act => simp [hp] at h
      | done =>
        simp only [hp, Option.some.injEq] at h
        subst h
        exact .answered hp
  | drop =>
    cases h
    exact .dropped
  | restart =>
    cases h
    exact .restarted

def start (s : σ) : Hosted A R ε α ρ τ σ := ⟨s, fun _ => none, []⟩

section Lawful
variable (P : ρ → List (Σ a, R a) → A → Prop) (Q : ρ → List (Σ a, R a) → Except ε α → Prop)

/-- An entry is in order after what its program did before. -/
def InOrder (pre : List (Happening A R ε α ρ τ)) : Happening A R ε α ρ τ → Prop
  | .arrived id _ => begun id pre = false
  | .did id _ a _ => ∃ request, .arrived id request ∈ pre ∧ P request (own id pre) a
  | .answered id outcome => (∀ earlier, .answered id earlier ∉ pre) ∧
    ∃ request, .arrived id request ∈ pre ∧ Q request (own id pre) outcome

/-- The history is in order, and so is what every program under way will still do. -/
structure Lawful (w : Hosted A R ε α ρ τ σ) : Prop where
  history : EachAfter (InOrder P Q) w.history
  silent : ∀ id p, w.pending id = some p → ∀ outcome, .answered id outcome ∉ w.history
  pending : ∀ id p, w.pending id = some p → ∃ request, .arrived id request ∈ w.history ∧
    p.Obeys (P request) (Q request) (own id w.history)

end Lawful

section InOrder
variable {P : ρ → List (Σ a, R a) → A → Prop} {Q : ρ → List (Σ a, R a) → Except ε α → Prop}
  {h : List (Happening A R ε α ρ τ)} {id : ℕ}

theorem own_of_not_begun (hh : EachAfter (InOrder P Q) h) (hb : begun id h = false) :
    own id h = [] := by
  induction h using reverseRecOn with
  | nil => rfl
  | append_singleton h e ih =>
    obtain ⟨hold, hnew⟩ := eachAfter_snoc.mp hh
    have hbh : begun id h = false := by
      rw [Bool.eq_false_iff, Ne, begun_iff] at hb ⊢
      rintro ⟨request, hr⟩
      exact hb ⟨request, mem_append_left _ hr⟩
    rw [own_append, ih hold hbh]
    cases e with
    | arrived | answered => rfl
    | did =>
      rw [own_did]
      refine if_neg ?_
      rintro rfl
      obtain ⟨request, hr, -⟩ := hnew
      rw [Bool.eq_false_iff, Ne, begun_iff] at hbh
      exact hbh ⟨request, hr⟩

theorem not_answered_of_not_begun (hh : EachAfter (InOrder P Q) h) (hb : begun id h = false)
    (outcome : Except ε α) : .answered id outcome ∉ h := by
  intro hmem
  obtain ⟨pre, post, rfl⟩ := append_of_mem hmem
  obtain ⟨-, request, hr, -⟩ := hh pre _ post rfl
  rw [Bool.eq_false_iff, Ne, begun_iff] at hb
  exact hb ⟨request, mem_append_left _ hr⟩

theorem nodup_answers {f : Happening A R ε α ρ τ → Option ℕ}
    (hf : ∀ x id, f x = some id → ∃ outcome, x = .answered id outcome)
    (hh : EachAfter (InOrder P Q) h) : (h.filterMap f).Nodup := by
  induction h using reverseRecOn with
  | nil => exact nodup_nil
  | append_singleton h e ih =>
    obtain ⟨hold, hnew⟩ := eachAfter_snoc.mp hh
    cases he : f e with
    | none => simpa [he] using ih hold
    | some id =>
      obtain ⟨outcome, rfl⟩ := hf e id he
      have hfirst : id ∉ h.filterMap f := by
        intro hmem
        obtain ⟨x, hx, hxid⟩ := mem_filterMap.mp hmem
        obtain ⟨earlier, rfl⟩ := hf x id hxid
        exact hnew.1 earlier hx
      simpa [he, nodup_append'] using ⟨ih hold, by simpa using hfirst⟩

theorem arrived_unique (hh : EachAfter (InOrder P Q) h) {request request' : ρ}
    (h₁ : .arrived id request ∈ h) (h₂ : .arrived id request' ∈ h) : request = request' := by
  induction h using reverseRecOn with
  | nil => cases h₁
  | append_singleton h e ih =>
    obtain ⟨hold, hnew⟩ := eachAfter_snoc.mp hh
    have later : ∀ {r r' : ρ}, .arrived id r ∈ h → Happening.arrived id r' = e → False := by
      rintro r r' hr rfl
      have hb : begun id h = false := hnew
      rw [Bool.eq_false_iff, Ne, begun_iff] at hb
      exact hb ⟨r, hr⟩
    simp only [mem_append, mem_singleton] at h₁ h₂
    rcases h₁ with h₁ | h₁ <;> rcases h₂ with h₂ | h₂
    · exact ih hold h₁ h₂
    · exact (later h₁ h₂).elim
    · exact (later h₂ h₁).elim
    · have := h₁.trans h₂.symm
      injection this

end InOrder

variable {P : ρ → List (Σ a, R a) → A → Prop} {Q : ρ → List (Σ a, R a) → Except ε α → Prop}

theorem Lawful.start (s : σ) : Lawful P Q (start s : Hosted A R ε α ρ τ σ) :=
  ⟨eachAfter_nil, fun _ _ h => (by cases h), fun _ _ h => (by cases h)⟩

theorem Lawful.step (hob : ∀ request, (H.handler request).Obeys (P request) (Q request) [])
    (h : Lawful P Q w) (hm : H.Moved w ev v) : Lawful P Q v := by
  -- a program that does not move obeys as before
  have others : ∀ {i p ext}, w.pending i = some p → own i ext = [] →
      ∃ request, .arrived i request ∈ w.history ++ ext ∧
        p.Obeys (P request) (Q request) (own i (w.history ++ ext)) := by
    intro i p ext hp hext
    obtain ⟨request, hr, hobey⟩ := h.pending i p hp
    exact ⟨request, mem_append_left _ hr, by rwa [own_append, hext, append_nil]⟩
  cases hm with
  | @arrived id request fresh =>
    refine ⟨eachAfter_snoc.mpr ⟨h.history, fresh⟩, fun i p hp => ?_, fun i p hp => ?_⟩
    · simp only [update_apply] at hp
      intro outcome hmem
      split_ifs at hp with hi
      · exact not_answered_of_not_begun h.history (hi ▸ fresh) outcome (by simpa using hmem)
      · exact h.silent i p hp outcome (by simpa using hmem)
    · simp only [update_apply] at hp
      split_ifs at hp with hi
      · cases hp
        subst hi
        refine ⟨request, by simp, ?_⟩
        rw [own_append, own_of_not_begun h.history fresh]
        exact hob request
      · exact others hp rfl
  | @did id amb a next at_ =>
    obtain ⟨request, hr, hP, hnext⟩ := h.pending id _ at_
    refine ⟨eachAfter_snoc.mpr ⟨h.history, request, hr, hP⟩, fun i p hp => ?_, fun i p hp => ?_⟩
    · simp only [update_apply] at hp
      intro outcome hmem
      split_ifs at hp with hi
      · exact h.silent id _ at_ outcome (hi ▸ by simpa using hmem)
      · exact h.silent i p hp outcome (by simpa using hmem)
    · simp only [update_apply] at hp
      split_ifs at hp with hi
      · cases hp
        subst hi
        exact ⟨request, by simp [hr], by simpa using hnext (H.exec amb a w.state).1⟩
      · exact others hp (by simp [Ne.symm hi])
  | @answered id outcome at_ =>
    obtain ⟨request, hr, hQ⟩ := h.pending id _ at_
    refine ⟨eachAfter_snoc.mpr ⟨h.history, h.silent id _ at_, request, hr, hQ⟩,
      fun i p hp => ?_, fun i p hp => ?_⟩
    · simp only [update_apply] at hp
      split_ifs at hp with hi
      intro outcome' hmem
      rcases mem_append.mp hmem with hold | hnew
      · exact h.silent i p hp outcome' hold
      · cases mem_singleton.mp hnew
        exact hi rfl
    · simp only [update_apply] at hp
      split_ifs at hp
      exact others hp rfl
  | dropped =>
    refine ⟨h.history, fun i p hp => ?_, fun i p hp => ?_⟩
    · simp only [update_apply] at hp
      split_ifs at hp
      exact h.silent i p hp
    · simp only [update_apply] at hp
      split_ifs at hp
      exact h.pending i p hp
  | restarted => exact ⟨h.history, fun _ _ hp => (by cases hp), fun _ _ hp => (by cases hp)⟩

theorem run_lawful (hob : ∀ request, (H.handler request).Obeys (P request) (Q request) [])
    (hrun : run H.step (start s) es = some w) : Lawful P Q w :=
  run_invariant (.start s)
    (fun _ _ _ hL hstep => hL.step hob (moved_of_step hstep)) hrun

theorem Lawful.stands (h : Lawful P Q w) (hat : w.stands id = some a) :
    ∃ request, .arrived id request ∈ w.history ∧ P request (own id w.history) a := by
  obtain ⟨next, hp⟩ := stands_eq_some.mp hat
  obtain ⟨request, hr, hP, -⟩ := h.pending id _ hp
  exact ⟨request, hr, hP⟩

variable (H P Q) in
/-- What single moves keep, given that programs act and answer in order. -/
structure Keeps (I : σ → List (Happening A R ε α ρ τ) → Prop) : Prop where
  arrives : ∀ s h id request, I s h → I s (h ++ [.arrived id request])
  acts : ∀ s h id amb a request, EachAfter (InOrder P Q) h → I s h → .arrived id request ∈ h →
    P request (own id h) a → I (H.exec amb a s).2 (h ++ [.did id amb a (H.exec amb a s).1])
  answers : ∀ s h id outcome request, I s h → .arrived id request ∈ h →
    Q request (own id h) outcome → I s (h ++ [.answered id outcome])
  reboots : ∀ s h, I s h → I (H.reboot s) h

theorem run_keeps {I : σ → List (Happening A R ε α ρ τ) → Prop}
    (hob : ∀ request, (H.handler request).Obeys (P request) (Q request) []) (init : I s [])
    (hI : Keeps H P Q I) (hrun : run H.step (start s) es = some w) : I w.state w.history := by
  refine run_induction init ?_ hrun
  intro es u ev v hu ih hstep
  have hL : Lawful P Q u := run_lawful hob hu
  cases moved_of_step hstep with
  | arrived => exact hI.arrives _ _ _ _ ih
  | @did id amb a next at_ =>
    obtain ⟨request, hr, hP, -⟩ := hL.pending id _ at_
    exact hI.acts _ _ id amb a request hL.history ih hr hP
  | @answered id outcome at_ =>
    obtain ⟨request, hr, hQ⟩ := hL.pending id _ at_
    exact hI.answers _ _ id outcome request ih hr hQ
  | dropped => exact ih
  | restarted => exact hI.reboots _ _ ih

theorem move_of_did (hrun : run H.step (start s) es = some w) {amb : τ} {r : R a}
    (h : .did id amb a r ∈ w.history) :
    ∃ pre post u, es = pre ++ .act id amb :: post ∧ run H.step (start s) pre = some u ∧
      u.stands id = some a ∧ (H.exec amb a u.state).1 = r := by
  revert h
  refine run_induction (by simp [start]) ?_ hrun
  intro es u ev v hu ih hstep hmem
  have later : .did id amb a r ∈ u.history → ∃ pre post t, es ++ [ev] =
      pre ++ .act id amb :: post ∧ run H.step (start s) pre = some t ∧
      t.stands id = some a ∧ (H.exec amb a t.state).1 = r := by
    intro h
    obtain ⟨pre, post, t, rfl, hrest⟩ := ih h
    exact ⟨pre, post ++ [ev], t, by simp, hrest⟩
  cases moved_of_step hstep with
  | arrived | answered => exact later (by simpa using hmem)
  | dropped | restarted => exact later hmem
  | @did i amb' b next at_ =>
    rcases mem_append.mp hmem with hold | hnew
    · exact later hold
    · cases mem_singleton.mp hnew
      exact ⟨es, [], u, rfl, hu, stands_eq_some.mpr ⟨next, at_⟩, rfl⟩

theorem history_run (hrun : run H.step w es = some v) : w.history <+: v.history := by
  refine run_invariant (prefix_refl _) ?_ hrun
  intro t ev u ht hstep
  refine ht.trans ?_
  cases moved_of_step hstep with
  | arrived | did | answered => exact prefix_append _ _
  | dropped | restarted => exact prefix_refl _

end Host
end Rosette.Foundation
