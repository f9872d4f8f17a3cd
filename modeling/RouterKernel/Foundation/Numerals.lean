import Mathlib.Tactic

/-!
Contract: numbers written with a fixed number of digits, most significant first.

Owns:
- `padded`, the digits of a number to a width, and `evaluate`, which reads digits
  behind a number read so far;
- that reading undoes writing.
-/

namespace RouterKernel.Foundation

variable {base : Nat}

/-- The last `width` digits of a number. -/
def padded (base : Nat) : Nat → Nat → List Nat
  | 0, _ => []
  | width + 1, value => padded base width (value / base) ++ [value % base]

/-- Read digits behind a number. -/
def evaluate (base start : Nat) (digits : List Nat) : Nat :=
  digits.foldl (fun total digit => total * base + digit) start

theorem padded_length (width value : Nat) : (padded base width value).length = width := by
  induction width generalizing value with
  | zero => rfl
  | succ width ih =>
    rw [padded, List.length_append, ih, List.length_singleton]

theorem padded_lt (positive : 0 < base) {width value digit : Nat}
    (listed : digit ∈ padded base width value) : digit < base := by
  induction width generalizing value with
  | zero => cases listed
  | succ width ih =>
    rw [padded, List.mem_append, List.mem_singleton] at listed
    rcases listed with early | last
    · exact ih early
    · exact last ▸ Nat.mod_lt value positive

theorem evaluate_padded (start width value : Nat) :
    evaluate base start (padded base width value) =
      start * base ^ width + value % base ^ width := by
  induction width generalizing value with
  | zero => rw [padded, evaluate, List.foldl_nil, pow_zero, Nat.mod_one, Nat.mul_one, Nat.add_zero]
  | succ width ih =>
    have first := ih (value / base)
    rw [evaluate] at first
    have split : value % base ^ (width + 1) = value / base % base ^ width * base + value %
        base := by
      rw [pow_succ', Nat.mod_mul, Nat.mul_comm, Nat.add_comm]
    rw [padded, evaluate, List.foldl_append, first, List.foldl_cons, List.foldl_nil, split,
      pow_succ]
    ring

theorem evaluate_padded_of_lt {width value : Nat} (small : value < base ^ width) :
    evaluate base 0 (padded base width value) = value := by
  rw [evaluate_padded, Nat.zero_mul, Nat.zero_add, Nat.mod_eq_of_lt small]

end RouterKernel.Foundation
