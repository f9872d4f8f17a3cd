import Mathlib.Data.BitVec
import Mathlib.Tactic

/-!
Contract: the order of numbers that wrap around.

Owns:
- `precedes`, the comparison of two words by the sign of their difference;
- its meaning in terms of the distance from one to the other.
-/

namespace RouterKernel.Foundation

variable {w : Nat}

/-- The difference is negative as a signed word. -/
def precedes (first second : BitVec w) : Bool := decide ((first - second).toInt < 0)

theorem toNat_sub_comm (first second : BitVec w) :
    (first - second).toNat + (second - first).toNat = 0 ∨
      (first - second).toNat + (second - first).toNat = 2 ^ w := by
  have opposite : second - first = -(first - second) := (neg_sub first second).symm
  rw [opposite, BitVec.toNat_neg]
  have small := (first - second).isLt
  rcases Nat.eq_zero_or_pos (first - second).toNat with zero | positive
  · left
    rw [zero, Nat.sub_zero, Nat.mod_self]
  · right
    rw [Nat.mod_eq_of_lt (by omega)]
    omega

theorem precedes_iff (first second : BitVec (w + 1)) : precedes first second = true ↔
      0 < (second - first).toNat ∧ (second - first).toNat ≤ 2 ^ w := by
  rw [precedes, ← BitVec.msb_eq_toInt, BitVec.msb_eq_decide, Nat.add_sub_cancel, decide_eq_true_iff]
  rcases toNat_sub_comm first second with none | around
  · omega
  · omega

theorem not_precedes_self (number : BitVec (w + 1)) : precedes number number = false := by
  rw [← Bool.not_eq_true, precedes_iff, BitVec.sub_self]
  exact fun positive => absurd positive.1 (by simp)

end RouterKernel.Foundation
