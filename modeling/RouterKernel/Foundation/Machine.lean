import Mathlib.Tactic

/-!
Contract: deterministic machines that either go on or stop with a result.

Owns:
- `runFor`, the first steps of a machine;
- the induction rule over the states a run passes through;
- termination by a measure that every step lowers;
- lockstep simulation of one machine by another.
-/

namespace RouterKernel.Foundation

/-- What one step, or several, leave behind. -/
inductive Outcome (σ ρ : Type) where
  | running (state : σ)
  | halted (result : ρ)
deriving DecidableEq, Repr

variable {σ τ ρ ο : Type}

/-- The first `fuel` steps of a machine. -/
def runFor (step : σ → Outcome σ ρ) : Nat → σ → Outcome σ ρ
  | 0, state => .running state
  | fuel + 1, state =>
    match step state with
    | .running next => runFor step fuel next
    | .halted result => .halted result

/-- Go on from an outcome by one step. -/
def Outcome.advance (step : σ → Outcome σ ρ) : Outcome σ ρ → Outcome σ ρ
  | .running state => step state
  | .halted result => .halted result

theorem runFor_succ (step : σ → Outcome σ ρ) (fuel : Nat) (state : σ) :
    runFor step (fuel + 1) state = (runFor step fuel state).advance step := by
  induction fuel generalizing state with
  | zero =>
    rw [runFor, runFor, Outcome.advance]
    cases step state <;> rfl
  | succ fuel ih =>
    rw [runFor]
    cases stepEq : step state with
    | running next =>
      simp only
      rw [ih, runFor, stepEq]
    | halted result =>
      simp only
      rw [runFor, stepEq]
      rfl

variable {step left : σ → Outcome σ ρ} {fuel : Nat} {state initial : σ}

theorem runFor_halted_of_le {more : Nat} {result : ρ}
    (stopped : runFor step fuel state = .halted result)
    (enough : fuel ≤ more) :
    runFor step more state = .halted result := by
  induction more, enough using Nat.le_induction with
  | base => exact stopped
  | succ more _ ih =>
    rw [runFor_succ, ih]
    rfl

/-- Induction along the states a run passes through. -/
theorem runFor_induction (property : Nat → σ → Prop) (start : property 0 initial)
    (next : ∀ fuel state after, runFor step fuel initial = .running state →
      property fuel state → step state = .running after → property (fuel + 1) after)
    (reached : runFor step fuel initial = .running state) :
    property fuel state := by
  induction fuel generalizing state with
  | zero =>
    rw [runFor, Outcome.running.injEq] at reached
    exact reached ▸ start
  | succ fuel ih =>
    rw [runFor_succ] at reached
    cases before : runFor step fuel initial with
    | running earlier =>
      rw [before] at reached
      exact next fuel earlier state before (ih before) reached
    | halted result =>
      rw [before] at reached
      cases reached

theorem runFor_halted_inv {result : ρ} (stopped : runFor step fuel initial = .halted result) :
    ∃ earlier state, earlier < fuel ∧ runFor step earlier initial = .running state ∧
      step state = .halted result := by
  induction fuel with
  | zero => cases stopped
  | succ fuel ih =>
    rw [runFor_succ] at stopped
    cases before : runFor step fuel initial with
    | running state =>
      rw [before] at stopped
      exact ⟨fuel, state, Nat.lt_succ_self fuel, before, stopped⟩
    | halted other =>
      rw [before] at stopped
      injection stopped with same
      subst same
      obtain ⟨earlier, state, below, reached, stops⟩ := ih before
      exact ⟨earlier, state, Nat.lt_succ_of_lt below, reached, stops⟩

theorem runFor_congr {right : σ → Outcome σ ρ} (agree : ∀ earlier, earlier < fuel → ∀ state,
      runFor right earlier initial = .running state → left state = right state) :
    runFor left fuel initial = runFor right fuel initial := by
  induction fuel with
  | zero => rfl
  | succ fuel ih =>
    have before := ih fun earlier below =>
      agree earlier (Nat.lt_succ_of_lt below)
    rw [runFor_succ, runFor_succ, before]
    cases reached : runFor right fuel initial with
    | running state => exact agree fuel (Nat.lt_succ_self fuel) state reached
    | halted result => rfl

/-- A measure that every step lowers bounds the length of the run. -/
theorem runFor_halts (invariant : σ → Prop) (measure : σ → Nat)
    (lowers : ∀ state next, invariant state → step state = .running next →
      invariant next ∧ measure next < measure state) (initial : σ) (start : invariant initial) :
    ∃ result, runFor step (measure initial + 1) initial = .halted result := by
  generalize bound : measure initial = fuel
  induction fuel using Nat.strong_induction_on generalizing initial with
  | _ fuel ih =>
    cases stepEq : step initial with
    | halted result => exact ⟨result, by rw [runFor, stepEq]⟩
    | running next =>
      obtain ⟨kept, lower⟩ := lowers initial next start stepEq
      obtain ⟨result, stopped⟩ :=
        ih (measure next) (by omega) next kept rfl
      refine ⟨result, ?_⟩
      rw [runFor, stepEq]
      exact runFor_halted_of_le stopped (by omega)

/-- Two outcomes that agree up to a relation on states and one on results. -/
def Outcome.Related (states : σ → τ → Prop) (results : ρ → ο → Prop) :
    Outcome σ ρ → Outcome τ ο → Prop
  | .running left, .running right => states left right
  | .halted left, .halted right => results left right
  | _, _ => False

/-- Lockstep simulation of a machine that keeps an invariant. -/
theorem runFor_related_of_invariant {right : τ → Outcome τ ο} (invariant : σ → Prop)
    (states : σ → τ → Prop)
    (results : ρ → ο → Prop)
    (kept : ∀ state next, invariant state → left state = .running next → invariant next)
    (simulates : ∀ state other, invariant state → states state other →
      (left state).Related states results (right other)) {other : τ} (start : invariant state)
    (initial : states state other) (fuel : Nat) :
    (runFor left fuel state).Related states results (runFor right fuel other) := by
  induction fuel generalizing state other with
  | zero => exact initial
  | succ fuel ih =>
    have related := simulates state other start initial
    rw [runFor, runFor]
    cases leftEq : left state with
    | running next =>
      cases rightEq : right other with
      | running otherNext =>
        rw [leftEq, rightEq] at related
        exact ih (kept state next start leftEq) related
      | halted result =>
        rw [leftEq, rightEq] at related
        exact related.elim
    | halted result =>
      cases rightEq : right other with
      | running otherNext =>
        rw [leftEq, rightEq] at related
        exact related.elim
      | halted otherResult =>
        rw [leftEq, rightEq] at related
        exact related

theorem runFor_related {right : τ → Outcome τ ο} (states : σ → τ → Prop) (results : ρ → ο → Prop)
    (simulates : ∀ state other, states state other →
      (left state).Related states results (right other)) {other : τ} (initial :
        states state other) (fuel : Nat) :
    (runFor left fuel state).Related states results (runFor right fuel other) :=
  runFor_related_of_invariant (fun _ => True) states results (fun _ _ _ _ => trivial)
    (fun state other _ => simulates state other) trivial initial fuel

end RouterKernel.Foundation
