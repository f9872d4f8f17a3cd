import RouterKernel.Foundation.Machine

/-!
Contract: computations with loops, given by what they do with so much fuel.

Owns:
- `Attempt`, a computation that may fault or run out of fuel;
- `loop`, a loop whose body is such a computation;
- `Returns`, total correctness: with enough fuel the computation returns, and
  what it returns satisfies the postcondition;
- the rules for `pure`, `bind` and `loop`, and those that unroll a loop by one turn.
-/

namespace RouterKernel.Foundation

/-- A computation that faults, or is out of fuel (`none`). -/
abbrev Attempt (ε α : Type) := ExceptT ε Option α

variable {ε σ ρ α β : Type}

theorem pure_inj {left right : α} (same : (pure left : Attempt ε α) = pure right) :
    left = right := by
  injection same with same
  injection same

theorem bind_eq_pure {run : Attempt ε α} {next : α → Attempt ε β} {result : β}
    (returned : run >>= next = pure result) :
    ∃ value, run = pure value ∧ next value = pure result := by
  match run, returned with
  | some (.ok value), returned => exact ⟨value, rfl, returned⟩
  | some (.error _), returned => cases returned
  | none, returned => cases returned

def turn (body : σ → Attempt ε (Outcome σ ρ)) (state : σ) : Outcome σ (Attempt ε ρ) :=
  match (body state).run with
  | none => .halted (ExceptT.mk none)
  | some (.error fault) => .halted (throw fault)
  | some (.ok (.running next)) => .running next
  | some (.ok (.halted result)) => .halted (pure result)

section Lifted

variable {step : σ → Except ε (Outcome σ ρ)} {state : σ}

theorem turn_lift_running {next : σ} (goes : step state = .ok (.running next)) :
    turn (fun state => (liftM (step state) : Attempt ε (Outcome σ ρ))) state = .running next := by
  rw [turn, goes]
  rfl

theorem turn_lift_halted {result : ρ} (stops : step state = .ok (.halted result)) :
    turn (fun state => (liftM (step state) : Attempt ε (Outcome σ ρ))) state = .halted
      (pure result) := by
  rw [turn, stops]
  rfl

end Lifted

theorem turn_running_inv {body : σ → Attempt ε (Outcome σ ρ)} {state next : σ}
    (goes : turn body state = .running next) : body state = pure (.running next) := by
  unfold turn at goes
  split at goes
  · cases goes
  · cases goes
  · rename_i computed
    injection goes with same
    subst same
    exact computed
  · cases goes

theorem turn_halted_inv {body : σ → Attempt ε (Outcome σ ρ)} {state : σ} {result : ρ}
    (stops : turn body state = .halted (pure result)) : body state = pure (.halted result) := by
  unfold turn at stops
  split at stops
  · injection stops with impossible
    cases impossible
  · injection stops with impossible
    cases impossible
  · cases stops
  · rename_i computed
    injection stops with same
    injection same with same
    injection same with same
    subst same
    exact computed

/-- A loop.  The body may use the fuel for loops of its own. -/
def loop (body : Nat → σ → Attempt ε (Outcome σ ρ)) (fuel : Nat) (state : σ) : Attempt ε ρ :=
  match runFor (turn (body fuel)) fuel state with
  | .running _ => ExceptT.mk none
  | .halted result => result

/-- With enough fuel the computation returns a result that satisfies `post`. -/
def Returns (run : Nat → Attempt ε α) (post : α → Prop) : Prop :=
  ∃ fuel result, (∀ more, fuel ≤ more → run more = pure result) ∧ post result

variable {value : α} {run : Nat → Attempt ε α}

theorem Returns.pure {post : α → Prop} (holds : post value) :
    Returns (fun _ => (pure value : Attempt ε α)) post :=
  ⟨0, value, fun _ _ => rfl, holds⟩

theorem Returns.bind {next : Nat → α → Attempt ε β} {middle : α → Prop} {post : β → Prop}
    (first : Returns run middle)
    (rest : ∀ value, middle value → Returns (fun fuel => next fuel value) post) :
    Returns (fun fuel => run fuel >>= next fuel) post := by
  obtain ⟨fuel, value, computed, holds⟩ := first
  obtain ⟨later, result, returned, final⟩ := rest value holds
  refine ⟨max fuel later, result, ?_, final⟩
  intro more enough
  beta_reduce
  rw [computed more (le_trans (le_max_left _ _) enough), pure_bind]
  exact returned more (le_trans (le_max_right _ _) enough)

theorem Returns.step {computed : Except ε α} {next : Nat → α → Attempt ε β} {post : β → Prop}
    (computes : computed = .ok value) (rest : Returns (fun fuel => next fuel value) post) :
    Returns (fun fuel => (liftM computed : Attempt ε α) >>= next fuel) post := by
  subst computes
  exact rest

theorem Returns.lift {computed : Except ε α} {post : α → Prop} (computes : computed = .ok value)
    (holds : post value) :
    Returns (fun _ => (liftM computed : Attempt ε α)) post := by
  subst computes
  exact Returns.pure holds

theorem Returns.mono {post weaker : α → Prop} (returns : Returns run post)
    (implies : ∀ value, post value → weaker value) :
    Returns run weaker := by
  obtain ⟨fuel, result, returned, holds⟩ := returns
  exact ⟨fuel, result, returned, implies result holds⟩

/-- A computation has one result. -/
theorem Returns.post_of_eq {post : α → Prop} (returns : Returns run post)
    (same : Returns run (· = value)) : post value := by
  obtain ⟨fuel, result, returned, holds⟩ := returns
  obtain ⟨later, _, otherReturned, rfl⟩ := same
  have left := returned (max fuel later) (le_max_left _ _)
  rw [otherReturned (max fuel later) (le_max_right _ _)] at left
  injection left with left
  injection left with left
  exact left ▸ holds

/-! ## Loops -/

/-- A turn that keeps the invariant and lowers the measure, or ends the loop with
the postcondition. -/
def Turned (invariant : σ → Prop) (measure : σ → Nat) (post : ρ → Prop) (bound : Nat) :
    Outcome σ ρ → Prop
  | .running next => invariant next ∧ measure next < bound
  | .halted result => post result

variable {body : Nat → σ → Attempt ε (Outcome σ ρ)} (invariant : σ → Prop) (measure : σ → Nat)
  {post : ρ → Prop}

/-- The rule for loops, with the invariant of all states that the loop goes
through. -/
theorem loop_runs (advances : ∀ state, invariant state →
      Returns (fun fuel => body fuel state) (Turned invariant measure post (measure state)))
    {state : σ} (start : invariant state) :
    ∃ fuel result, post result ∧ ∀ more, fuel ≤ more →
      (∀ count, fuel ≤ count → runFor (turn (body more)) count state = .halted (pure result)) ∧
      ∀ count next, runFor (turn (body more)) count state = .running next → invariant next := by
  generalize bound : measure state = size
  induction size using Nat.strong_induction_on generalizing state with
  | _ size ih =>
    obtain ⟨fuel, outcome, computed, turned⟩ := advances state start
    cases outcome with
    | halted result =>
      refine ⟨fuel + 1, result, turned, ?_⟩
      intro more enough
      have here : body more state = pure (.halted result) := computed more (by omega)
      have halts : turn (body more) state = .halted (pure result) := by
        rw [turn, here]
        rfl
      constructor
      · intro count large
        obtain ⟨count, rfl⟩ := Nat.exists_eq_add_of_le' (le_trans (Nat.le_add_left 1 fuel) large)
        rw [runFor, halts]
      · intro count next reached
        cases count with
        | zero =>
          injection reached with same
          exact same ▸ start
        | succ count =>
          rw [runFor, halts] at reached
          cases reached
    | running next =>
      obtain ⟨kept, lower⟩ := turned
      obtain ⟨later, result, holds, runs⟩ :=
        ih (measure next) (bound ▸ lower) kept rfl
      refine ⟨max fuel later + 1, result, holds, ?_⟩
      intro more enough
      have here : body more state = pure (.running next) := computed more (by omega)
      have goes : turn (body more) state = .running next := by
        rw [turn, here]
        rfl
      obtain ⟨halts, passes⟩ := runs more (by omega)
      constructor
      · intro count large
        obtain ⟨count, rfl⟩ := Nat.exists_eq_add_of_le' (le_trans (Nat.le_add_left 1 _) large)
        rw [runFor, goes]
        exact halts count (by omega)
      · intro count reachedState reached
        cases count with
        | zero =>
          injection reached with same
          exact same ▸ start
        | succ count =>
          rw [runFor, goes] at reached
          exact passes count reachedState reached

variable (post) in
/-- What a loop returns, whether or not it always returns. -/
theorem loop_post (keeps : ∀ fuel state next, invariant state →
    body fuel state = pure (.running next) → invariant next)
    (ends : ∀ fuel state result, invariant state → body fuel state = pure (.halted result) →
      post result)
    {fuel : Nat} {state : σ} {result : ρ} (start : invariant state)
    (returned : loop body fuel state = pure result) : post result := by
  unfold loop at returned
  cases ran : runFor (turn (body fuel)) fuel state with
  | running last =>
    rw [ran] at returned
    cases returned
  | halted final =>
    rw [ran] at returned
    subst returned
    obtain ⟨earlier, last, _, reached, stops⟩ := runFor_halted_inv ran
    have kept : invariant last :=
      runFor_induction (fun _ state => invariant state) start
        (fun _ state next _ inv goes => keeps fuel state next inv (turn_running_inv goes)) reached
    exact ends fuel last result kept (turn_halted_inv stops)

theorem Returns.loop (advances : ∀ state, invariant state →
      Returns (fun fuel => body fuel state) (Turned invariant measure post (measure state)))
    {state : σ} (start : invariant state) :
    Returns (fun fuel => Foundation.loop body fuel state) post := by
  obtain ⟨fuel, result, holds, runs⟩ := loop_runs invariant measure advances start
  refine ⟨fuel, result, ?_, holds⟩
  intro more enough
  beta_reduce
  rw [Foundation.loop, (runs more enough).1 more enough]

/-! ## Unrolling -/

section Unrolling

variable {step : σ → Except ε (Outcome σ ρ)} {state next : σ} {result : ρ}

theorem Returns.loop_halted (stops : step state = .ok (.halted result)) (holds : post result) :
    Returns (fun fuel => Foundation.loop
      (fun _ state => (liftM (step state) : Attempt ε (Outcome σ ρ))) fuel state) post := by
  refine ⟨1, result, ?_, holds⟩
  intro more enough
  obtain ⟨fuel, rfl⟩ := Nat.exists_eq_add_of_le' enough
  beta_reduce
  rw [Foundation.loop, runFor, turn_lift_halted stops]

theorem Returns.loop_running (goes : step state = .ok (.running next))
    (rest : Returns (fun fuel => Foundation.loop
      (fun _ state => (liftM (step state) : Attempt ε (Outcome σ ρ))) fuel next) post) :
    Returns (fun fuel => Foundation.loop
      (fun _ state => (liftM (step state) : Attempt ε (Outcome σ ρ))) fuel state) post := by
  obtain ⟨fuel, value, returned, holds⟩ := rest
  have ended : runFor (turn fun state => (liftM (step state) : Attempt ε (Outcome σ ρ))) fuel next =
      .halted (Pure.pure value) := by
    have returned := returned fuel le_rfl
    beta_reduce at returned
    rw [Foundation.loop] at returned
    cases ran : runFor (turn fun state =>
      (liftM (step state) : Attempt ε (Outcome σ ρ))) fuel next with
    | running last =>
      rw [ran] at returned
      cases returned
    | halted final =>
      rw [ran] at returned
      rw [← returned]
  refine ⟨fuel + 1, value, ?_, holds⟩
  intro more enough
  obtain ⟨count, rfl⟩ := Nat.exists_eq_add_of_le' (le_trans (Nat.le_add_left 1 fuel) enough)
  beta_reduce
  rw [Foundation.loop, runFor, turn_lift_running goes]
  simp only
  rw [runFor_halted_of_le ended (by omega)]

end Unrolling

end RouterKernel.Foundation
