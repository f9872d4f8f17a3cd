import Mathlib.Tactic

/-!
Contract: sums of words under exclusive or, and parities of words.

Owns:
- `xorSum`, the sum of a family of words, which is linear in the family;
- `parity`, the sum of the bits of a word, which is linear in the word.
-/

namespace RouterKernel.Foundation

variable {w : Nat}

/-- The sum of the first words of a family. -/
def xorSum (family : Nat → BitVec w) : Nat → BitVec w
  | 0 => 0
  | n + 1 => xorSum family n ^^^ family n

theorem xor_swap (a b c d : BitVec w) : (a ^^^ b) ^^^ (c ^^^ d) = (a ^^^ c) ^^^ (b ^^^ d) := by
  rw [BitVec.xor_assoc, BitVec.xor_assoc, ← BitVec.xor_assoc b, ← BitVec.xor_assoc c,
    BitVec.xor_comm b]

theorem xor_and (left right mask : BitVec w) :
    (left ^^^ right) &&& mask = (left &&& mask) ^^^ (right &&& mask) := by
  ext i inside
  simp only [BitVec.getElem_and, BitVec.getElem_xor]
  cases left[i] <;> cases right[i] <;> cases mask[i] <;> rfl

theorem xorSum_congr {f g : Nat → BitVec w} {n : Nat} (same : ∀ i < n, f i = g i) :
    xorSum f n = xorSum g n := by
  induction n with
  | zero => rfl
  | succ n ih =>
    rw [xorSum, xorSum, ih fun i small => same i (by omega), same n (by omega)]

theorem xorSum_xor (f g : Nat → BitVec w) (n : Nat) :
    xorSum (fun i => f i ^^^ g i) n = xorSum f n ^^^ xorSum g n := by
  induction n with
  | zero => exact (BitVec.xor_zero).symm
  | succ n ih => rw [xorSum, xorSum, xorSum, ih, xor_swap]

theorem xorSum_add (f : Nat → BitVec w) (n m : Nat) :
    xorSum f (n + m) = xorSum f n ^^^ xorSum (fun i => f (n + i)) m := by
  induction m with
  | zero => exact (BitVec.xor_zero).symm
  | succ m ih => rw [← Nat.add_assoc, xorSum, xorSum, ih, BitVec.xor_assoc]

theorem xorSum_zero {f : Nat → BitVec w} {n : Nat} (zero : ∀ i < n, f i = 0) : xorSum f n = 0 := by
  induction n with
  | zero => rfl
  | succ n ih =>
    rw [xorSum, ih fun i small => zero i (by omega), zero n (by omega)]
    exact BitVec.xor_zero

theorem xorSum_single {f : Nat → BitVec w} {n a : Nat} (inside : a < n)
    (zero : ∀ i < n, i ≠ a → f i = 0) :
    xorSum f n = f a := by
  induction n with
  | zero => omega
  | succ n ih =>
    rw [xorSum]
    by_cases last : a = n
    · subst last
      rw [xorSum_zero fun i small => zero i (by omega) (by omega)]
      exact BitVec.zero_xor
    · rw [ih (by omega) fun i small => zero i (by omega), zero n (by omega) (Ne.symm last)]
      exact BitVec.xor_zero

/-- The sum of the bits below `n`. -/
def parityBelow (word : BitVec w) : Nat → Bool
  | 0 => false
  | n + 1 => parityBelow word n ^^ word.getLsbD n

def parity (word : BitVec w) : Bool := parityBelow word w

theorem parityBelow_xor (left right : BitVec w) (n : Nat) :
    parityBelow (left ^^^ right) n = (parityBelow left n ^^ parityBelow right n) := by
  induction n with
  | zero => rfl
  | succ n ih =>
    rw [parityBelow, parityBelow, parityBelow, ih, BitVec.getLsbD_xor]
    cases parityBelow left n <;> cases parityBelow right n <;> cases left.getLsbD n <;>
      cases right.getLsbD n <;> rfl

theorem parity_xor (left right : BitVec w) :
    parity (left ^^^ right) = (parity left ^^ parity right) :=
  parityBelow_xor left right w

end RouterKernel.Foundation
