import Mathlib.Tactic

/-!
Contract: finite runs of a step function that consumes one input, emits one
output and may fault.

Owns:
- `runAll`, the run over a list of inputs;
- composition of runs;
- the simulation rule: a faultless step that follows an abstract one at every
  related pair of states follows it along every run.
-/

namespace RouterKernel.Foundation

variable {σ τ ι ο ε : Type}

/-- Run a fallible step over a list of inputs and collect the outputs. -/
def runAll (step : σ → ι → Except ε (ο × σ)) : σ → List ι → Except ε (List ο × σ)
  | state, [] => .ok ([], state)
  | state, input :: rest =>
    match step state input with
    | .error fault => .error fault
    | .ok (output, next) =>
      match runAll step next rest with
      | .error fault => .error fault
      | .ok (outputs, final) => .ok (output :: outputs, final)

/-- The same run for a total step. -/
def runTotal (step : σ → ι → ο × σ) : σ → List ι → List ο × σ
  | state, [] => ([], state)
  | state, input :: rest =>
    let (output, next) := step state input
    let (outputs, final) := runTotal step next rest
    (output :: outputs, final)

theorem runTotal_map {κ : Type} (step : σ → ι → ο × σ) (rename : κ → ι) (state : σ)
    (inputs : List κ) :
    runTotal (fun current input => step current (rename input)) state inputs =
      runTotal step state (inputs.map rename) := by
  induction inputs generalizing state with
  | nil => rfl
  | cons input rest ih =>
    simp [runTotal, ih]

/-- Forward simulation between two total steps. -/
theorem runTotal_simulates {step : σ → ι → ο × σ} {abstractStep : τ → ι → ο × τ}
    (related : σ → τ → Prop)
    (simulates : ∀ state abstract input, related state abstract →
      (step state input).1 = (abstractStep abstract input).1 ∧
        related (step state input).2 (abstractStep abstract input).2)
    {state : σ} {abstract : τ} (initial : related state abstract) (inputs : List ι) :
    (runTotal step state inputs).1 = (runTotal abstractStep abstract inputs).1 ∧
      related (runTotal step state inputs).2 (runTotal abstractStep abstract inputs).2 := by
  induction inputs generalizing state abstract with
  | nil => exact ⟨rfl, initial⟩
  | cons input rest ih =>
    obtain ⟨outputEq, nextRelated⟩ := simulates state abstract input initial
    obtain ⟨outputsEq, finalRelated⟩ := ih nextRelated
    exact ⟨by simp only [runTotal, outputEq, outputsEq], finalRelated⟩

/-- Forward simulation of a total abstract step by a fallible concrete one. -/
theorem runAll_simulates (step : σ → ι → Except ε (ο × σ)) (abstractStep : τ → ι → ο × τ)
    (related : σ → τ → Prop)
    (simulates : ∀ state abstract input, related state abstract →
      ∃ next, step state input = .ok ((abstractStep abstract input).1, next) ∧
        related next (abstractStep abstract input).2)
    {state : σ} {abstract : τ} (initial : related state abstract) (inputs : List ι) :
    ∃ final, runAll step state inputs = .ok ((runTotal abstractStep abstract inputs).1, final) ∧
      related final (runTotal abstractStep abstract inputs).2 := by
  induction inputs generalizing state abstract with
  | nil => exact ⟨state, rfl, initial⟩
  | cons input rest ih =>
    obtain ⟨next, stepEq, nextRelated⟩ := simulates state abstract input initial
    obtain ⟨final, runEq, finalRelated⟩ := ih nextRelated
    refine ⟨final, ?_, finalRelated⟩
    simp only [runAll, stepEq, runEq, runTotal]

end RouterKernel.Foundation
