import Mathlib.Tactic

/-!
Contract: words rounded to a multiple of a power of two.

Owns:
- the low bits of a word cleared, as a division;
- `alignUp`, a word rounded up to a multiple of a power of two.
-/

namespace RouterKernel.Foundation

section Rounding

variable {w order : Nat} {word size : BitVec w}

/-- The kernel's `ALIGN`. -/
def alignUp (word size : BitVec w) : BitVec w := (word + (size - 1)) &&& ~~~(size - 1)

theorem pred_of_power (power : size.toNat = 2 ^ order) : (size - 1).toNat = 2 ^ order - 1 := by
  have positive : 0 < 2 ^ order := Nat.two_pow_pos order
  have one : (1 : BitVec w).toNat = 1 := by
    have : 1 < 2 ^ w := by omega
    simp [Nat.mod_eq_of_lt this]
  have atLeastOne : 1 ≤ size := by
    rw [BitVec.le_def, one, power]
    exact positive
  rw [BitVec.toNat_sub_of_le atLeastOne, power, one]

theorem and_not_pred (word : BitVec w) (power : size.toNat = 2 ^ order) :
    (word &&& ~~~(size - 1)).toNat = word.toNat / 2 ^ order * 2 ^ order := by
  have cleared : word &&& ~~~(size - 1) = (word >>> order) <<< order := by
    apply BitVec.eq_of_getLsbD_eq
    intro i inside
    have bit : (size - 1).getLsbD i = decide (i < order) := by
      rw [← BitVec.testBit_toNat, pred_of_power power, Nat.testBit_two_pow_sub_one]
    rw [BitVec.getLsbD_and, BitVec.getLsbD_not, bit, BitVec.getLsbD_shiftLeft,
      BitVec.getLsbD_ushiftRight]
    by_cases low : i < order
    · simp [low]
    · simp [low, inside, Nat.add_sub_cancel' (Nat.le_of_not_lt low)]
  rw [cleared, BitVec.toNat_shiftLeft, BitVec.toNat_ushiftRight, Nat.shiftLeft_eq,
    Nat.shiftRight_eq_div_pow]
  exact Nat.mod_eq_of_lt (Nat.lt_of_le_of_lt (Nat.div_mul_le_self _ _) word.isLt)

theorem alignUp_aligned (word : BitVec w) (power : size.toNat = 2 ^ order) :
    size.toNat ∣ (alignUp word size).toNat := by
  rw [alignUp, and_not_pred _ power, power]
  exact Nat.dvd_mul_left _ _

/-- Rounding up either gives the least multiple from `word` on, or has wrapped around and
no word from `word` on is a multiple. -/
theorem alignUp_least (word : BitVec w) (power : size.toNat = 2 ^ order) {multiple : Nat}
    (aligned : size.toNat ∣ multiple) (above : word.toNat ≤ multiple) :
    if word ≤ alignUp word size then (alignUp word size).toNat ≤ multiple else 2 ^ w ≤
      multiple := by
  have below := word.isLt
  have wide : 2 ^ order < 2 ^ w := power ▸ size.isLt
  have positive : 0 < 2 ^ order := Nat.two_pow_pos order
  have rounded : (alignUp word size).toNat = (word.toNat + (2 ^ order - 1)) % 2 ^ w / 2 ^ order *
      2 ^ order := by
    rw [alignUp, and_not_pred _ power, BitVec.toNat_add, pred_of_power power]
  obtain ⟨count, rfl⟩ := aligned
  rw [power] at above ⊢
  by_cases fits : word.toNat + (2 ^ order - 1) < 2 ^ w
  · rw [Nat.mod_eq_of_lt fits] at rounded
    have least : (alignUp word size).toNat ≤ 2 ^ order * count := by
      have quotient : (word.toNat + (2 ^ order - 1)) / 2 ^ order < count + 1 := by
        rw [Nat.div_lt_iff_lt_mul positive, Nat.add_mul, Nat.mul_comm count, one_mul]
        omega
      rw [rounded, Nat.mul_comm]
      exact Nat.mul_le_mul_left _ (Nat.le_of_lt_succ quotient)
    have reaches : word.toNat ≤ (alignUp word size).toNat := by
      have split := Nat.div_add_mod (word.toNat + (2 ^ order - 1)) (2 ^ order)
      rw [Nat.mul_comm] at split
      omega
    rw [if_pos (BitVec.le_def.mpr reaches)]
    exact least
  · -- the sum wraps around to less than one multiple
    have wrapped :
        (word.toNat + (2 ^ order - 1)) % 2 ^ w = word.toNat + (2 ^ order - 1) - 2 ^ w := by
      rw [Nat.mod_eq_sub_mod (by omega)]
      exact Nat.mod_eq_of_lt (by omega)
    have zero : (alignUp word size).toNat = 0 := by
      rw [rounded, wrapped, Nat.div_eq_of_lt (by omega), Nat.zero_mul]
    have short : ¬ word ≤ alignUp word size := by
      rw [BitVec.le_def]
      omega
    rw [if_neg short]
    obtain ⟨turns, whole⟩ : 2 ^ order ∣ 2 ^ w :=
      pow_dvd_pow 2 ((Nat.pow_lt_pow_iff_right (by omega)).mp wide).le
    rw [whole] at fits ⊢
    have enough : turns < count + 1 := by
      have : 2 ^ order * turns < 2 ^ order * (count + 1) := by
        rw [Nat.mul_add]
        omega
      exact Nat.lt_of_mul_lt_mul_left this
    exact Nat.mul_le_mul_left _ (Nat.le_of_lt_succ enough)

end Rounding

end RouterKernel.Foundation
