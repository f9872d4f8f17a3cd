import Mathlib.Data.Nat.Size
import RouterKernel.Division.Long

/-!
Contract: division of 64-bit words by 64-bit words.

Owns:
- `div64_u64`, which divides the high parts and corrects the estimate by one;
- `div64_s64`, which divides the absolute values;
- exactly when the estimate is close enough for the correction.
-/

namespace RouterKernel.Division

open RouterKernel.Foundation

/-! ## The code -/

def fls (word : U32) : Nat := Nat.size word.toNat

def correct (dividend divisor quot : U64) : U64 :=
  let quot := if quot ≠ 0 then quot - 1 else quot
  if divisor ≤ dividend - quot * divisor then quot + 1 else quot

def div64U64 (fuel : Nat) (dividend divisor : U64) : Attempt Fault U64 :=
  let high : U32 := (divisor >>> 32).setWidth 32
  if high = 0 then divU64 fuel dividend (divisor.setWidth 32)
  else do
    let n := 1 + fls high
    let quot ← divU64 fuel (dividend >>> n) ((divisor >>> n).setWidth 32)
    pure (correct dividend divisor quot)

def abs64 (x : U64) : U64 := if x.toInt < 0 then -x else x

def div64S64 (fuel : Nat) (dividend divisor : U64) : Attempt Fault U64 := do
  let quot ← div64U64 fuel (abs64 dividend) (abs64 divisor)
  let t := (dividend ^^^ divisor).sshiftRight 63
  pure ((quot ^^^ t) - t)

/-! ## The estimate -/

/-- The shift that makes the divisor a 31-bit number. -/
def shift (divisor : Nat) : Nat := 1 + Nat.size (divisor / 2 ^ 32)

/-- The divisor fits into 32 bits, or what the shift cuts off from it is small enough for
the estimate to be at most one too large. -/
def CloseEnough (dividend divisor : Nat) : Prop :=
  divisor < 2 ^ 32 ∨ dividend % divisor + (dividend / divisor + 2) * (divisor % 2 ^ shift divisor) <
    2 * divisor

instance (dividend divisor : Nat) : Decidable (CloseEnough dividend divisor) :=
  inferInstanceAs (Decidable (_ ∨ _))

section Estimate

variable {a b n : Nat}

theorem quotient_le_estimate (kept : 0 < b / 2 ^ n) : a / b ≤ a / 2 ^ n / (b / 2 ^ n) := by
  rw [Nat.le_div_iff_mul_le kept, Nat.le_div_iff_mul_le (Nat.two_pow_pos n), mul_assoc]
  calc a / b * (b / 2 ^ n * 2 ^ n) ≤ a / b * b := Nat.mul_le_mul_left _ (Nat.div_mul_le_self ..)
    _ ≤ a := Nat.div_mul_le_self ..

theorem estimate_le_iff (kept : 0 < b / 2 ^ n) :
    a / 2 ^ n / (b / 2 ^ n) ≤ a / b + 1 ↔ a % b + (a / b + 2) * (b % 2 ^ n) < 2 * b := by
  have parts := Nat.div_add_mod a b
  have cut := Nat.div_add_mod b (2 ^ n)
  rw [← Nat.lt_succ_iff, Nat.div_lt_iff_lt_mul kept, Nat.div_lt_iff_lt_mul (Nat.two_pow_pos n)]
  have scaled : (a / b + 2) * (b / 2 ^ n) * 2 ^ n + (a / b + 2) * (b % 2 ^ n) =
      b * (a / b) + 2 * b := by
    calc (a / b + 2) * (b / 2 ^ n) * 2 ^ n + (a / b + 2) * (b % 2 ^ n)
        = (a / b + 2) * (2 ^ n * (b / 2 ^ n) + b % 2 ^ n) := by ring
      _ = b * (a / b) + 2 * b := by
        rw [cut]
        ring
  change a < (a / b + 2) * (b / 2 ^ n) * 2 ^ n ↔ _
  omega

theorem shift_spec (long : 2 ^ 32 ≤ b) : 0 < b / 2 ^ shift b ∧ b / 2 ^ shift b < 2 ^ 31 := by
  have high : 0 < b / 2 ^ 32 := Nat.div_pos long (Nat.two_pow_pos 32)
  have upper := Nat.lt_size_self (b / 2 ^ 32)
  obtain ⟨k, isSize⟩ : ∃ k, Nat.size (b / 2 ^ 32) = k + 1 :=
    Nat.exists_eq_succ_of_ne_zero (Nat.size_pos.mpr high).ne'
  have lower : 2 ^ k ≤ b / 2 ^ 32 := Nat.lt_size.mp (by omega)
  rw [Nat.le_div_iff_mul_le (Nat.two_pow_pos 32)] at lower
  rw [Nat.div_lt_iff_lt_mul (Nat.two_pow_pos 32), isSize] at upper
  rw [shift, isSize]
  constructor
  · apply Nat.div_pos _ (Nat.two_pow_pos _)
    rw [show 1 + (k + 1) = k + 2 by omega, pow_add]
    omega
  · rw [Nat.div_lt_iff_lt_mul (Nat.two_pow_pos _)]
    calc b < 2 ^ (k + 1) * 2 ^ 32 := upper
      _ = 2 ^ 31 * 2 ^ (1 + (k + 1)) := by ring

end Estimate

/-! ## The correction -/

theorem correct_toNat_iff {dividend divisor quot : U64} (nonzero : divisor ≠ 0)
    (least : dividend.toNat / divisor.toNat ≤ quot.toNat) :
    (correct dividend divisor quot).toNat = dividend.toNat / divisor.toNat ↔
      quot.toNat ≤ dividend.toNat / divisor.toNat + 1 := by
  have positive := toNat_pos nonzero
  have parts := Nat.div_add_mod dividend.toNat divisor.toNat
  have left := Nat.mod_lt dividend.toNat positive
  unfold correct
  by_cases zero : quot = 0
  · have small : dividend.toNat / divisor.toNat = 0 := by
      rw [zero] at least
      exact Nat.le_zero.mp least
    rw [small, Nat.mul_zero] at parts
    have below : ¬ divisor ≤ dividend - quot * divisor := by
      rw [zero, show (0 : U64) * divisor = 0#64 from BitVec.zero_mul, BitVec.sub_zero,
        BitVec.le_def]
      omega
    simp only [zero, ne_eq, not_true_eq_false, if_false] at below ⊢
    rw [if_neg below, small]
    exact iff_of_true rfl (Nat.zero_le _)
  · have quotPositive := toNat_pos zero
    have lowered : (quot - 1).toNat = quot.toNat - 1 := by
      have one : (1 : U64) ≤ quot := BitVec.le_def.mpr quotPositive
      rw [BitVec.toNat_sub_of_le one]
      rfl
    have raised : (quot - 1 + 1).toNat = quot.toNat := by
      rw [BitVec.toNat_add, lowered]
      change (quot.toNat - 1 + 1) % 2 ^ 64 = _
      omega
    simp only [ne_eq, zero, not_false_eq_true, if_true]
    by_cases close : quot.toNat ≤ dividend.toNat / divisor.toNat + 1
    · -- The estimate minus one is not too large, so nothing wraps.
      have fits : (quot.toNat - 1) * divisor.toNat ≤ dividend.toNat := by
        calc (quot.toNat - 1) * divisor.toNat ≤ dividend.toNat / divisor.toNat * divisor.toNat :=
              Nat.mul_le_mul_right _ (by omega)
          _ ≤ dividend.toNat := Nat.div_mul_le_self ..
      have product : ((quot - 1) * divisor).toNat = (quot.toNat - 1) * divisor.toNat := by
        rw [BitVec.toNat_mul, lowered, Nat.mod_eq_of_lt (by omega)]
      have difference : (dividend - (quot - 1) * divisor).toNat =
          dividend.toNat - (quot.toNat - 1) * divisor.toNat := by
        rw [BitVec.toNat_sub_of_le, product]
        rw [BitVec.le_def, product]
        exact fits
      refine iff_of_true ?_ close
      rcases Nat.lt_or_ge (dividend.toNat / divisor.toNat) quot.toNat with above | same
      · have exact : quot.toNat - 1 = dividend.toNat / divisor.toNat := by omega
        have below : ¬ divisor ≤ dividend - (quot - 1) * divisor := by
          rw [BitVec.le_def, difference, exact, Nat.mul_comm]
          omega
        rw [if_neg below, lowered, exact]
      · have exact : quot.toNat = dividend.toNat / divisor.toNat := le_antisymm same least
        have enough : divisor ≤ dividend - (quot - 1) * divisor := by
          rw [BitVec.le_def, difference, Nat.sub_mul, one_mul, exact, Nat.mul_comm]
          have whole : divisor.toNat ≤ divisor.toNat * (dividend.toNat / divisor.toNat) :=
            Nat.le_mul_of_pos_right _ (by omega)
          omega
        rw [if_pos enough, raised, exact]
    · refine iff_of_false ?_ close
      split_ifs
      · rw [raised]
        omega
      · rw [lowered]
        omega

/-! ## Unsigned -/

theorem returns_iff {run : Nat → Attempt Fault U64} {value : U64} {post : U64 → Prop}
    (computes : Returns run (· = value)) : Returns run post ↔ post value := by
  constructor
  · exact fun returns => returns.post_of_eq computes
  · intro holds
    exact computes.mono fun _ same => same ▸ holds

theorem div64U64_iff (dividend : U64) {divisor : U64} (nonzero : divisor ≠ 0) :
    ∃ value, Returns (fun fuel => div64U64 fuel dividend divisor) (· = value) ∧
      (value.toNat = dividend.toNat / divisor.toNat ↔
        CloseEnough dividend.toNat divisor.toNat) := by
  have bound := divisor.isLt
  have isHigh : ((divisor >>> 32).setWidth 32).toNat = divisor.toNat / 2 ^ 32 := by
    rw [BitVec.toNat_setWidth, BitVec.toNat_ushiftRight, Nat.shiftRight_eq_div_pow]
    omega
  unfold div64U64
  dsimp only
  by_cases short : (divisor >>> 32).setWidth 32 = (0 : U32)
  · have small : divisor.toNat < 2 ^ 32 := by
      rw [short] at isHigh
      change 0 = _ at isHigh
      omega
    have same : (divisor.setWidth 32).toNat = divisor.toNat := by
      rw [BitVec.toNat_setWidth, Nat.mod_eq_of_lt small]
    have nonzeroLow : divisor.setWidth 32 ≠ 0 := by
      intro zero
      rw [zero] at same
      exact (toNat_pos nonzero).ne same
    obtain ⟨fuel, value, computes, isQuotient⟩ := divU64_spec dividend nonzeroLow
    simp only [if_pos short]
    refine ⟨value, ⟨fuel, value, computes, rfl⟩, iff_of_true ?_ (.inl small)⟩
    rw [isQuotient, same]
  · have long : 2 ^ 32 ≤ divisor.toNat := by
      by_contra small
      apply short
      apply BitVec.eq_of_toNat_eq
      rw [isHigh]
      exact Nat.div_eq_of_lt (by omega)
    obtain ⟨kept, narrow⟩ := shift_spec long
    have isShift : 1 + fls ((divisor >>> 32).setWidth 32) = shift divisor.toNat := by
      rw [fls, isHigh, shift]
    have shiftedDivisor : ((divisor >>> shift divisor.toNat).setWidth 32).toNat =
        divisor.toNat / 2 ^ shift divisor.toNat := by
      rw [BitVec.toNat_setWidth, BitVec.toNat_ushiftRight, Nat.shiftRight_eq_div_pow,
        Nat.mod_eq_of_lt]
      omega
    have nonzeroShifted : (divisor >>> shift divisor.toNat).setWidth 32 ≠ (0 : U32) := by
      intro zero
      rw [zero] at shiftedDivisor
      exact kept.ne shiftedDivisor
    obtain ⟨fuel, quot, computes, isQuotient⟩ :=
      divU64_spec (dividend >>> shift divisor.toNat) nonzeroShifted
    rw [shiftedDivisor, BitVec.toNat_ushiftRight, Nat.shiftRight_eq_div_pow] at isQuotient
    simp only [if_neg short, isShift]
    refine ⟨correct dividend divisor quot, ?_, ?_⟩
    · have divided : Returns (fun fuel => divU64 fuel (dividend >>> shift divisor.toNat)
          ((divisor >>> shift divisor.toNat).setWidth 32)) (· = quot) := ⟨fuel, quot, computes, rfl⟩
      refine Returns.bind divided ?_
      rintro _ rfl
      exact Returns.pure rfl
    · have least : dividend.toNat / divisor.toNat ≤ quot.toNat := by
        rw [isQuotient]
        exact quotient_le_estimate kept
      rw [correct_toNat_iff nonzero least, isQuotient, estimate_le_iff kept, CloseEnough]
      exact (or_iff_right (by omega)).symm

/-! ## Signed -/

theorem abs64_toNat (x : U64) : (abs64 x).toNat = x.toInt.natAbs := by
  have bound := x.isLt
  unfold abs64
  rw [BitVec.toInt_eq_toNat_cond]
  split_ifs with small negative negative
  · omega
  · omega
  · rw [BitVec.toNat_neg]
    omega
  · omega

theorem sshiftRight_top (x : U64) : x.sshiftRight 63 = if x.msb then BitVec.allOnes 64 else 0 := by
  ext i inside
  have spread : (x.sshiftRight 63)[i] = x.msb := by
    rw [BitVec.getElem_sshiftRight]
    by_cases first : 63 + i < 64
    · obtain rfl : i = 0 := by omega
      simp [BitVec.msb_eq_getLsbD_last]
    · rw [dif_neg first]
  rw [spread]
  cases x.msb
  · exact (BitVec.getElem_zero inside).symm
  · exact (BitVec.getElem_allOnes i inside).symm

theorem signed_quot (dividend divisor quot : U64) :
    (quot ^^^ (dividend ^^^ divisor).sshiftRight 63) - (dividend ^^^ divisor).sshiftRight 63 =
      if (dividend.toInt < 0 ↔ divisor.toInt < 0) then quot else -quot := by
  have negates : (quot ^^^ BitVec.allOnes 64) - BitVec.allOnes 64 = -quot := by
    rw [BitVec.xor_allOnes, ← BitVec.neg_one_eq_allOnes, BitVec.sub_eq_add_neg, BitVec.neg_neg,
      ← BitVec.neg_eq_not_add]
  rw [sshiftRight_top, BitVec.msb_xor, BitVec.msb_eq_toInt, BitVec.msb_eq_toInt]
  by_cases left : dividend.toInt < 0 <;> by_cases right : divisor.toInt < 0
  · simp [left, right]
  · simp only [left, right, decide_true, decide_false, Bool.xor_false, if_true, iff_false, not_true,
      if_false]
    exact negates
  · simp only [left, right, decide_true, decide_false, Bool.false_xor, if_true, false_iff, not_true,
      if_false]
    exact negates
  · simp [left, right]

theorem tdiv_eq (a b : Int) : a.tdiv b = if (a < 0 ↔ b < 0) then ((a.natAbs / b.natAbs : Nat) : Int)
      else -((a.natAbs / b.natAbs : Nat) : Int) := by
  have notNegative (n : Nat) : ¬ Int.ofNat n < 0 := Int.not_lt.mpr (Int.natCast_nonneg n)
  have negative := Int.negSucc_lt_zero
  cases a with
  | ofNat m =>
    cases b with
    | ofNat n => exact (if_pos (iff_of_false (notNegative m) (notNegative n))).symm
    | negSucc n => exact (if_neg fun both => notNegative m (both.mpr (negative n))).symm
  | negSucc m =>
    cases b with
    | ofNat n => exact (if_neg fun both => notNegative n (both.mp (negative m))).symm
    | negSucc n => exact (if_pos (iff_of_true (negative m) (negative n))).symm

theorem toInt_eq_iff (quot : U64) {q : Nat} (fits : q < 2 ^ 63) :
    quot.toInt = q ↔ quot.toNat = q := by
  have bound := quot.isLt
  rw [BitVec.toInt_eq_toNat_cond]
  split_ifs <;> omega

theorem toInt_neg_eq_iff (quot : U64) {q : Nat} (fits : q ≤ 2 ^ 63) :
    (-quot).toInt = -q ↔ quot.toNat = q := by
  have bound := quot.isLt
  rw [BitVec.toInt_eq_toNat_cond, BitVec.toNat_neg]
  split_ifs <;> omega

theorem div64S64_iff (dividend : U64) {divisor : U64} (nonzero : divisor ≠ 0)
    (least : -2 ^ 63 ≤ dividend.toInt.tdiv divisor.toInt)
    (most : dividend.toInt.tdiv divisor.toInt < 2 ^ 63) :
    ∃ value, Returns (fun fuel => div64S64 fuel dividend divisor) (· = value) ∧
      (value.toInt = dividend.toInt.tdiv divisor.toInt ↔
        CloseEnough dividend.toInt.natAbs divisor.toInt.natAbs) := by
  have nonzeroAbs : abs64 divisor ≠ 0 := by
    intro zero
    have isZero := congrArg BitVec.toNat zero
    rw [abs64_toNat] at isZero
    apply nonzero
    exact BitVec.eq_of_toInt_eq (Int.natAbs_eq_zero.mp isZero)
  obtain ⟨quot, computes, close⟩ := div64U64_iff (abs64 dividend) nonzeroAbs
  rw [abs64_toNat, abs64_toNat] at close
  refine ⟨(quot ^^^ (dividend ^^^ divisor).sshiftRight 63) - (dividend ^^^ divisor).sshiftRight 63,
    ?_, ?_⟩
  · refine Returns.bind computes ?_
    rintro _ rfl
    exact Returns.pure rfl
  · rw [← close, signed_quot]
    rw [tdiv_eq] at least most ⊢
    by_cases same : dividend.toInt < 0 ↔ divisor.toInt < 0
    · rw [if_pos same] at least most
      rw [if_pos same, if_pos same]
      exact toInt_eq_iff quot (by omega)
    · rw [if_neg same] at least most
      rw [if_neg same, if_neg same]
      exact toInt_neg_eq_iff quot (by omega)

/-! ## Both -/

/-- `div64_u64` returns the quotient, and `div64_s64` the truncated quotient where it can be
represented, exactly if the estimate is close enough. -/
theorem div64_exact_iff (dividend : U64) {divisor : U64} (nonzero : divisor ≠ 0) :
    (Returns (fun fuel => div64U64 fuel dividend divisor)
        (fun quot => quot.toNat = dividend.toNat / divisor.toNat) ↔
      CloseEnough dividend.toNat divisor.toNat) ∧
    (-2 ^ 63 ≤ dividend.toInt.tdiv divisor.toInt → dividend.toInt.tdiv divisor.toInt < 2 ^ 63 →
      (Returns (fun fuel => div64S64 fuel dividend divisor)
          (fun quot => quot.toInt = dividend.toInt.tdiv divisor.toInt) ↔
        CloseEnough dividend.toInt.natAbs divisor.toInt.natAbs)) := by
  constructor
  · obtain ⟨value, computes, close⟩ := div64U64_iff dividend nonzero
    rw [returns_iff computes, close]
  · intro least most
    obtain ⟨value, computes, close⟩ := div64S64_iff dividend nonzero least most
    rw [returns_iff computes, close]

theorem div64_exact_iff_powerOfTwo :
    Returns (fun fuel => div64U64 fuel 0xffffffffffffffff 0x100000000)
      (fun quot => quot.toNat = 0xffffffffffffffff / 0x100000000) := by
  have nonzero : (0x100000000 : U64) ≠ 0 := by decide
  refine (div64_exact_iff 0xffffffffffffffff nonzero).1.mpr (.inr ?_)
  decide

/-- The largest dividend and the divisor 2^32 + 3: the quotient is two too large. -/
theorem div64U64_inexact : ¬ Returns (fun fuel => div64U64 fuel 0xffffffffffffffff 0x100000003)
      (fun quot => quot.toNat = 0xffffffffffffffff / 0x100000003) := by
  intro returns
  obtain ⟨value, computes, close⟩ :=
    div64U64_iff 0xffffffffffffffff (show (0x100000003 : U64) ≠ 0 by decide)
  have isClose := close.mp ((returns_iff computes).mp returns)
  revert isClose
  decide

end RouterKernel.Division
