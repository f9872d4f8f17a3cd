import RouterKernel.Foundation.Words
import Mathlib.Data.ZMod.Basic

/-!
Contract: ones' complement sums of 32-bit words, folded to 16 bits.

Owns:
- `residue`, the number a word stands for in 16-bit ones' complement arithmetic;
- sums with end-around carry, and when they are zero;
- folding a sum to 16 bits, and the two representations of zero.
-/

namespace RouterKernel.Foundation

/-- The class of a word modulo `2 ^ 16 - 1`. -/
def residue {w : Nat} (word : BitVec w) : ZMod 65535 := (word.toNat : ZMod 65535)

theorem natCast_congr {left right : Nat} (same : left % 65535 = right % 65535) :
    (left : ZMod 65535) = right :=
  (ZMod.natCast_eq_natCast_iff left right 65535).mpr same

@[simp] theorem residue_zero {w : Nat} : residue (0 : BitVec w) = 0 := by
  simp [residue]

/-- All ones is zero in ones' complement, at every width that is a multiple of 16. -/
private theorem residue_complement {w k : Nat} (ones : 2 ^ w - 1 = k * 65535) (word : BitVec w) :
    residue (~~~word) = -residue word := by
  have total : (~~~word).toNat + word.toNat = k * 65535 := by
    have small := word.isLt
    rw [BitVec.toNat_not]
    omega
  have classes : residue (~~~word) + residue word = 0 := by
    rw [residue, residue, ← Nat.cast_add, total, Nat.cast_mul]
    exact mul_zero _
  exact eq_neg_of_add_eq_zero_left classes

theorem residue_not (word : U32) : residue (~~~word) = -residue word :=
  residue_complement (k := 65537) rfl word

theorem residue_not16 (word : U16) : residue (~~~word) = -residue word :=
  residue_complement (k := 1) rfl word

theorem residue_setWidth (word : U16) : residue (word.setWidth 32) = residue word := by
  have small := word.isLt
  rw [residue, residue, BitVec.toNat_setWidth, Nat.mod_eq_of_lt (by omega)]

theorem residue_append (high low : U16) : residue (high ++ low) = residue high + residue low := by
  have small := low.isLt
  rw [residue, residue, residue, ← Nat.cast_add, BitVec.toNat_append,
    ← Nat.shiftLeft_add_eq_or_of_lt small, Nat.shiftLeft_eq]
  exact natCast_congr (by omega)

/-! ## Sums with end-around carry -/

/-- Add a word and put the carry back in at the low end. -/
def endAround (sum word : U32) : U32 :=
  BitVec.ofNat 32 ((sum.toNat + word.toNat) % 2 ^ 32 + (sum.toNat + word.toNat) / 2 ^ 32)

theorem toNat_endAround (sum word : U32) : (endAround sum word).toNat =
      (sum.toNat + word.toNat) % 2 ^ 32 + (sum.toNat + word.toNat) / 2 ^ 32 := by
  have left := sum.isLt
  have right := word.isLt
  rw [endAround, BitVec.toNat_ofNat]
  omega

theorem residue_endAround (sum word : U32) :
    residue (endAround sum word) = residue sum + residue word := by
  rw [residue, residue, residue, ← Nat.cast_add, toNat_endAround]
  exact natCast_congr (by omega)

theorem endAround_eq_zero_iff (sum word : U32) : endAround sum word = 0 ↔ sum = 0 ∧ word = 0 := by
  rw [← BitVec.toNat_inj, ← BitVec.toNat_inj, ← BitVec.toNat_inj, toNat_endAround]
  change _ = 0 ↔ _ = 0 ∧ _ = 0
  omega

def onesSum (words : List U32) (start : U32) : U32 := words.foldl endAround start

theorem residue_onesSum (words : List U32) (start : U32) :
    residue (onesSum words start) = residue start + (words.map residue).sum := by
  induction words generalizing start with
  | nil => simp [onesSum]
  | cons word rest ih =>
    rw [onesSum, List.foldl_cons, ← onesSum, ih, residue_endAround, List.map_cons, List.sum_cons,
      add_assoc]

theorem onesSum_eq_zero_iff (words : List U32) (start : U32) :
    onesSum words start = 0 ↔ start = 0 ∧ ∀ word ∈ words, word = 0 := by
  induction words generalizing start with
  | nil => simp [onesSum]
  | cons word rest ih =>
    rw [onesSum, List.foldl_cons, ← onesSum, ih, endAround_eq_zero_iff, List.forall_mem_cons,
      and_assoc]

/-! ## Folding -/

/-- The upper half of a sum and its halves exchanged: both halves added with the
carry put back in. -/
def foldHalves (sum : U32) : U16 := ((sum + sum.rotateRight 16) >>> 16).setWidth 16

theorem toNat_foldHalves (sum : U32) :
    (foldHalves sum).toNat = (sum.toNat / 2 ^ 16 + sum.toNat % 2 ^ 16) % 2 ^ 16 +
        (sum.toNat / 2 ^ 16 + sum.toNat % 2 ^ 16) / 2 ^ 16 := by
  have small := sum.isLt
  have exchanged :
      (sum.rotateRight 16).toNat = sum.toNat % 2 ^ 16 * 2 ^ 16 + sum.toNat / 2 ^ 16 := by
    have below : sum.toNat / 2 ^ 16 < 2 ^ 16 := by omega
    rw [BitVec.toNat_rotateRight, Nat.shiftRight_eq_div_pow, Nat.or_comm]
    change sum.toNat <<< 16 % 2 ^ 32 ||| _ = _
    rw [Nat.shiftLeft_eq]
    have moved : sum.toNat * 2 ^ 16 % 2 ^ 32 = (sum.toNat % 2 ^ 16) <<< 16 := by
      rw [Nat.shiftLeft_eq]
      omega
    rw [moved]
    change _ ||| sum.toNat / 2 ^ 16 = _
    rw [← Nat.shiftLeft_add_eq_or_of_lt below, Nat.shiftLeft_eq]
  have total : sum.toNat + (sum.toNat % 2 ^ 16 * 2 ^ 16 + sum.toNat / 2 ^ 16) =
      65537 * (sum.toNat / 2 ^ 16 + sum.toNat % 2 ^ 16) := by omega
  have halves : sum.toNat / 2 ^ 16 + sum.toNat % 2 ^ 16 < 2 ^ 17 - 1 := by omega
  rw [foldHalves, BitVec.toNat_setWidth, BitVec.toNat_ushiftRight, BitVec.toNat_add, exchanged,
    Nat.shiftRight_eq_div_pow, total]
  generalize sum.toNat / 2 ^ 16 + sum.toNat % 2 ^ 16 = both at halves
  rcases Nat.lt_or_ge both (2 ^ 16) with short | long
  · have inner : 65537 * both % 2 ^ 32 = 65537 * both := Nat.mod_eq_of_lt (by omega)
    have upper : 65537 * both / 2 ^ 16 = both := by omega
    rw [inner, upper]
    omega
  · obtain ⟨rest, rfl⟩ := Nat.exists_eq_add_of_le long
    have inner : 65537 * (2 ^ 16 + rest) % 2 ^ 32 = 65536 + 65537 * rest := by omega
    have upper : (65536 + 65537 * rest) / 2 ^ 16 = 1 + rest := by omega
    rw [inner, upper]
    omega

theorem residue_foldHalves (sum : U32) : residue (foldHalves sum) = residue sum := by
  rw [residue, residue, toNat_foldHalves]
  exact natCast_congr (by omega)

theorem foldHalves_eq_zero_iff (sum : U32) : foldHalves sum = 0 ↔ sum = 0 := by
  have small := sum.isLt
  rw [← BitVec.toNat_inj, ← BitVec.toNat_inj, toNat_foldHalves]
  change _ = 0 ↔ _ = 0
  omega

theorem eq_of_residue_eq {left right : U16} (leftNonzero : left ≠ 0) (rightNonzero : right ≠ 0)
    (same : residue left = residue right) : left = right := by
  have leftSmall := left.isLt
  have rightSmall := right.isLt
  have leftPositive : left.toNat ≠ 0 := fun zero => leftNonzero (BitVec.eq_of_toNat_eq zero)
  have rightPositive : right.toNat ≠ 0 := fun zero => rightNonzero (BitVec.eq_of_toNat_eq zero)
  have classes : left.toNat % 65535 = right.toNat % 65535 :=
    (ZMod.natCast_eq_natCast_iff _ _ _).mp same
  apply BitVec.eq_of_toNat_eq
  omega

theorem not_foldHalves_eq_zero_iff (sum : U32) : ~~~(foldHalves sum) = 0 ↔ sum ≠ 0 ∧
    residue sum = 0 := by
  have ones : ~~~(foldHalves sum) = 0 ↔ foldHalves sum = 65535 := by
    constructor
    · intro zero
      have twice := congrArg (fun word => ~~~word) zero
      simp only [BitVec.not_not] at twice
      rw [twice]
      rfl
    · intro same
      rw [same]
      rfl
  rw [ones, ← residue_foldHalves]
  constructor
  · intro same
    refine ⟨fun zero => ?_, ?_⟩
    · rw [(foldHalves_eq_zero_iff sum).mpr zero] at same
      cases same
    · rw [same]
      rfl
  · rintro ⟨nonzero, class_zero⟩
    apply eq_of_residue_eq
    · rwa [ne_eq, foldHalves_eq_zero_iff]
    · decide
    · rw [class_zero]
      rfl

end RouterKernel.Foundation
