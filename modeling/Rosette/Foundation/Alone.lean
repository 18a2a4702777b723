import Rosette.Foundation.Program

/-! # A program run without interruption

Whatever has happened on a host before, a program may run from its arrival to its answer while
all others rest. What it then returns is computed from the state it has found.
-/
namespace Rosette.Foundation
open List

namespace Program
variable {A : Type} {R : A → Type} {ε α β τ σ : Type}

/-- The outcome of a program that nothing interrupts, what is left of the ambients, and the state.
Each action uses up one ambient. -/
def alone (exec : τ → (a : A) → σ → R a × σ) :
    Program A R ε α → (ℕ → τ) → σ → Except ε α × (ℕ → τ) × σ
  | .done outcome, ambs, s => (outcome, ambs, s)
  | .act a next, ambs, s =>
    (next (exec (ambs 0) a s).1).alone exec (fun n => ambs (n + 1)) (exec (ambs 0) a s).2

variable {exec : τ → (a : A) → σ → R a × σ} {ambs rest : ℕ → τ} {s s' : σ}

theorem alone_bind {p : Program A R ε α} {f : α → Program A R ε β} {a : α}
    (h : p.alone exec ambs s = (.ok a, rest, s')) :
    (p >>= f).alone exec ambs s = (f a).alone exec rest s' := by
  induction p generalizing ambs s with
  | done =>
    cases h
    rfl
  | act b next ih => exact ih _ h

end Program

namespace Host
variable {A : Type} {R : A → Type} {ε α ρ τ σ : Type} {H : Host A R ε α ρ τ σ}
  {w : Hosted A R ε α ρ τ σ} {id : ℕ}

/-- The rest of a program, up to its answer. -/
def finishing (id : ℕ) (ambs : ℕ → τ) (n : ℕ) : List (HostEvent ρ τ) :=
  (range n).map (fun k => .act id (ambs k)) ++ [.answer id]

/-- A request from its arrival to its answer. -/
def serving (id : ℕ) (request : ρ) (ambs : ℕ → τ) (n : ℕ) : List (HostEvent ρ τ) :=
  .arrive id request :: finishing id ambs n

theorem finishing_succ (id : ℕ) (ambs : ℕ → τ) (n : ℕ) :
    (finishing id ambs (n + 1) : List (HostEvent ρ τ)) =
      .act id (ambs 0) :: finishing id (fun k => ambs (k + 1)) n := by
  simp only [finishing, range_succ_eq_map, map_cons, map_map]
  rfl

theorem run_finishing {p : Program A R ε α} (hp : w.pending id = some p) (ambs : ℕ → τ) :
    ∃ n v, run H.step w (finishing id ambs n) = some v ∧
      v.state = (p.alone H.exec ambs w.state).2.2 ∧
      .answered id (p.alone H.exec ambs w.state).1 ∈ v.history := by
  induction p generalizing w ambs with
  | done outcome =>
    refine ⟨0, ⟨w.state, Function.update w.pending id none, w.history ++ [.answered id outcome]⟩,
      ?_, rfl, mem_append_right _ (mem_singleton_self _)⟩
    simp [finishing, run, step, hp]
  | act a next ih =>
    obtain ⟨n, v, hrun, hstate, hanswer⟩ := ih (H.exec (ambs 0) a w.state).1
      (w := ⟨(H.exec (ambs 0) a w.state).2,
        Function.update w.pending id (some (next (H.exec (ambs 0) a w.state).1)),
        w.history ++ [.did id (ambs 0) a (H.exec (ambs 0) a w.state).1]⟩)
      (Function.update_self ..) (fun k => ambs (k + 1))
    refine ⟨n + 1, v, ?_, hstate, hanswer⟩
    rw [finishing_succ, run, step, hp]
    exact hrun

theorem run_serving (hid : begun id w.history = false) (request : ρ) (ambs : ℕ → τ) :
    ∃ n v, run H.step w (serving id request ambs n) = some v ∧
      v.state = ((H.handler request).alone H.exec ambs w.state).2.2 ∧
      .answered id ((H.handler request).alone H.exec ambs w.state).1 ∈ v.history := by
  obtain ⟨n, v, hrun, hend⟩ := run_finishing
    (w := ⟨w.state, Function.update w.pending id (some (H.handler request)),
      w.history ++ [.arrived id request]⟩) (Function.update_self ..) ambs
  refine ⟨n, v, ?_, hend⟩
  rw [serving, run, step, hid]
  exact hrun

end Host
end Rosette.Foundation
