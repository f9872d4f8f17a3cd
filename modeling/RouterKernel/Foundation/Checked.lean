import RouterKernel.Foundation.Words

/-!
Contract: computations that end with a result or with an error.

Owns: what the result of a sequence says about its parts.

Does not own: loops with fuel, which are in `Foundation.Fueled`.
-/

namespace RouterKernel.Foundation

variable {ε α β : Type} {run : Except ε α} {next : α → Except ε β}

theorem bind_ok (value : α) : (Except.ok value >>= next) = next value := rfl

theorem exists_of_bind_ok {result : β} (ran : (run >>= next) = .ok result) :
    ∃ value, run = .ok value ∧ next value = .ok result := by
  cases run with
  | error _ => exact absurd ran (by simp [bind, Except.bind])
  | ok value => exact ⟨value, rfl, ran⟩

end RouterKernel.Foundation
