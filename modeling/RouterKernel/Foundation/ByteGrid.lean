import RouterKernel.Foundation.OnesComplement
import Mathlib.Tactic.LinearCombination

/-!
Contract: ones' complement sums of bytes, by their place on the grid of 16-bit words.

Owns:
- `gridSum`, the sum of a sequence of bytes that starts at an even or an odd place;
- the weight that the place gives to a word of 32 bits;
- the sum of the words of a sequence of bytes.

Does not own: the order of additions, which `Foundation.OnesComplement` has shown not to matter.
-/

namespace RouterKernel.Foundation

/-- The weight of a byte, or of a word that starts there, at an even or an odd place. -/
def gridWeight (odd : Bool) : ZMod 65535 := if odd then 256 else 1

def gridSum (odd : Bool) : List U8 → ZMod 65535
  | [] => 0
  | byte :: rest => gridWeight odd * residue byte + gridSum (!odd) rest

/-- The place after some bytes. -/
def placeAfter (odd : Bool) (count : Nat) : Bool := odd ^^ decide (count % 2 = 1)

theorem placeAfter_succ (odd : Bool) (count : Nat) :
    placeAfter odd (count + 1) = placeAfter (!odd) count := by
  unfold placeAfter
  rcases Nat.mod_two_eq_zero_or_one count with even | odd'
  · have next : (count + 1) % 2 = 1 := by omega
    simp [even, next]
  · have next : (count + 1) % 2 = 0 := by omega
    simp [odd', next]

theorem gridSum_append (odd : Bool) (first second : List U8) :
    gridSum odd (first ++ second) =
      gridSum odd first + gridSum (placeAfter odd first.length) second := by
  induction first generalizing odd with
  | nil => simp [gridSum, placeAfter]
  | cons byte rest ih =>
    rw [List.cons_append, gridSum, gridSum, ih, List.length_cons, placeAfter_succ, add_assoc]

theorem placeAfter_even (odd : Bool) {count : Nat} (even : count % 2 = 0) :
    placeAfter odd count = odd := by
  simp [placeAfter, even]

theorem gridSum_append_even (odd : Bool) {first : List U8} (second : List U8)
    (even : first.length % 2 = 0) :
    gridSum odd (first ++ second) = gridSum odd first + gridSum odd second := by
  rw [gridSum_append, placeAfter_even odd even]

theorem toNat_append_eq {m n : Nat} (high : BitVec m) (low : BitVec n) :
    (high ++ low).toNat = high.toNat * 2 ^ n + low.toNat := by
  rw [BitVec.toNat_append, ← Nat.shiftLeft_add_eq_or_of_lt low.isLt, Nat.shiftLeft_eq]

theorem residue_word (b0 b1 b2 b3 : U8) :
    residue (b3 ++ b2 ++ b1 ++ b0) = gridSum false [b0, b1, b2, b3] := by
  have value : (b3 ++ b2 ++ b1 ++ b0).toNat =
      b0.toNat + 256 * b1.toNat + (b2.toNat + 256 * b3.toNat) + 65535 *
        (b2.toNat + 256 * b3.toNat) := by
    rw [toNat_append_eq, toNat_append_eq, toNat_append_eq]
    ring
  have turn : (65535 : ZMod 65535) = 0 := by decide
  simp only [gridSum, gridWeight, residue, value, Nat.cast_add, Nat.cast_mul, Nat.cast_ofNat,
      Bool.not_false,
    Bool.not_true, if_true, Bool.false_eq_true, if_false, turn]
  ring

/-- A word at an odd place counts 256 times. -/
theorem gridSum_word (odd : Bool) (b0 b1 b2 b3 : U8) :
    gridSum odd [b0, b1, b2, b3] = gridWeight odd * residue (b3 ++ b2 ++ b1 ++ b0) := by
  have turn : (256 * 256 : ZMod 65535) = 1 := by decide
  rw [residue_word]
  cases odd with
  | false => simp [gridSum, gridWeight]
  | true =>
    simp only [gridSum, gridWeight, Bool.not_true, Bool.not_false, if_true, Bool.false_eq_true,
      if_false]
    linear_combination (-(residue b1) - residue b3) * turn

/-- The words of a sequence of bytes, the last one filled up with zeros. -/
def wordsOf : List U8 → List U32
  | b0 :: b1 :: b2 :: b3 :: rest => (b3 ++ b2 ++ b1 ++ b0) :: wordsOf rest
  | [b0, b1, b2] => [(0 : U8) ++ b2 ++ b1 ++ b0]
  | [b0, b1] => [(0 : U8) ++ (0 : U8) ++ b1 ++ b0]
  | [b0] => [(0 : U8) ++ (0 : U8) ++ (0 : U8) ++ b0]
  | [] => []

theorem sum_wordsOf (bytes : List U8) :
    ((wordsOf bytes).map residue).sum = gridSum false bytes := by
  have padding : residue 0#8 = 0 := residue_zero
  fun_induction wordsOf bytes with
  | case1 b0 b1 b2 b3 rest ih =>
    rw [List.map_cons, List.sum_cons, residue_word, ih]
    simp only [gridSum, Bool.not_false, Bool.not_true]
    ring
  | case2 b0 b1 b2 | case3 b0 b1 | case4 b0 =>
    rw [List.map_singleton, List.sum_singleton, residue_word]
    simp [gridSum, padding]
  | case5 => rfl

end RouterKernel.Foundation
