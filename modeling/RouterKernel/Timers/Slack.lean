import RouterKernel.Foundation.Dyadic
import RouterKernel.Foundation.Words

/-!
Contract: the rounding of timer expiries in kernel/timer.c.

Owns:
- `apply_slack`, for a given and for an automatic slack;
- that it picks the roundest tick of its window.
-/

namespace RouterKernel.Timers

open RouterKernel.Foundation

/-- `find_last_bit` of one word. -/
def findLastBit (word : U32) : Nat := if word = 0 then 32 else word.toNat.log2

/-- The end of `apply_slack`, behind the choice of `expires_limit`. -/
def roundDownTo (expires expiresLimit : U32) : U32 :=
  let mask := expires ^^^ expiresLimit
  if mask = 0 then expires
  else
    let bit := findLastBit mask
    expiresLimit &&& ~~~((1#32 <<< bit) - 1)

/-- `apply_slack`, with `timer->slack`. -/
def applySlack (slack jiffies expires : U32) : U32 :=
  if 0 ≤ slack.toInt then roundDownTo expires (expires + slack)
  else
    let delta := expires - jiffies
    if delta.toInt < 256 then expires else roundDownTo expires (expires + delta.sdiv 256)

/-- The ticks behind `expires`, up to `slack` of them. -/
def InWindow (expires : U32) (slack : Nat) (tick : U32) : Prop :=
  0 < (tick - expires).toNat ∧ (tick - expires).toNat ≤ slack

variable {expires expiresLimit : U32}

theorem quotients_eq_iff (bit : Nat) :
    expires.toNat / 2 ^ bit = expiresLimit.toNat / 2 ^ bit ↔ (expires ^^^ expiresLimit).toNat <
      2 ^ bit := by
  rw [← Nat.div_eq_zero_iff_lt (Nat.two_pow_pos bit), ← Nat.shiftRight_eq_div_pow,
      ← Nat.shiftRight_eq_div_pow,
    ← Nat.shiftRight_eq_div_pow, ← BitVec.toNat_ushiftRight, ← BitVec.toNat_ushiftRight,
      ← BitVec.toNat_ushiftRight,
    BitVec.toNat_inj, ← BitVec.xor_eq_zero_iff, ← BitVec.ushiftRight_xor_distrib,
      ← BitVec.toNat_inj, BitVec.toNat_zero]

/-- The highest bit in which two words differ: behind it they are the same. -/
theorem highest_difference (differ : expires ^^^ expiresLimit ≠ 0) :
    ∃ bit < 32, roundDownTo expires expiresLimit = expiresLimit &&& ~~~((1#32 <<< bit) - 1) ∧
      expires.toNat / 2 ^ (bit + 1) = expiresLimit.toNat / 2 ^ (bit + 1) ∧
      expires.toNat / 2 ^ bit ≠ expiresLimit.toNat / 2 ^ bit := by
  have nonzero : (expires ^^^ expiresLimit).toNat ≠ 0 :=
    fun zero => differ (BitVec.eq_of_toNat_eq zero)
  have bound := (Nat.log2_lt nonzero).mpr (expires ^^^ expiresLimit).isLt
  refine ⟨(expires ^^^ expiresLimit).toNat.log2, bound, ?_, ?_, ?_⟩
  · simp only [roundDownTo, if_neg differ, findLastBit]
  · exact (quotients_eq_iff _).mpr Nat.lt_log2_self
  · rw [Ne, quotients_eq_iff, not_lt]
    exact Nat.log2_self_le nonzero

/-- The result is the roundest tick behind `expires` up to `expires + slack`. -/
theorem roundDownTo_roundest (expires : U32) {slack : U32} (positive : 0 < slack.toNat)
    (small : slack.toNat < 2 ^ 31) :
    InWindow expires slack.toNat (roundDownTo expires (expires + slack)) ∧
      ∀ tick, InWindow expires slack.toNat tick → ∀ k, 2 ^ k ∣ tick.toNat →
        2 ^ k ∣ (roundDownTo expires (expires + slack)).toNat := by
  have differ : expires ^^^ (expires + slack) ≠ 0 := by
    rw [Ne, BitVec.ofNat_eq_ofNat, BitVec.xor_eq_zero_iff]
    bv_omega
  obtain ⟨bit, inside, rounds, above, here⟩ := highest_difference differ
  have power : (1#32 <<< bit).toNat = 2 ^ bit := by
    rw [← BitVec.twoPow_eq, BitVec.toNat_twoPow]
    exact Nat.mod_eq_of_lt (Nat.pow_lt_pow_right (by decide) inside)
  have value : (roundDownTo expires (expires + slack)).toNat =
      (expires + slack).toNat / 2 ^ bit * 2 ^ bit := by
    rw [rounds, and_not_pred _ power]
  generalize roundDownTo expires (expires + slack) = result at *
  have downward := Nat.div_mul_le_self (expires + slack).toNat (2 ^ bit)
  by_cases wraps : expires.toNat ≤ (expires + slack).toNat
  · have less : expires.toNat / 2 ^ bit < (expires + slack).toNat / 2 ^ bit :=
      lt_of_le_of_ne (Nat.div_le_div_right wraps) here
    have later : expires.toNat < result.toNat := by
      rw [value]
      exact (Nat.div_lt_iff_lt_mul (Nat.two_pow_pos bit)).mp less
    refine ⟨⟨by bv_omega, by bv_omega⟩, fun tick window k divides => ?_⟩
    by_cases low : k ≤ bit
    · rw [value]
      exact (pow_dvd_pow 2 low).mul_left _
    · -- a rounder tick would lie between two words that are the same from the next bit on
      exfalso
      obtain ⟨first, last⟩ := window
      have multiple : 2 ^ (bit + 1) ∣ tick.toNat := (pow_dvd_pow 2 (by omega)).trans divides
      have behind : expires.toNat < tick.toNat := by bv_omega
      have notLater : tick.toNat ≤ (expires + slack).toNat := by bv_omega
      have upper := Nat.div_le_div_right (c := 2 ^ (bit + 1)) notLater
      rw [← above] at upper
      have exactly := Nat.div_mul_cancel multiple
      have lower := Nat.div_mul_le_self expires.toNat (2 ^ (bit + 1))
      have := Nat.mul_le_mul_right (2 ^ (bit + 1)) upper
      omega
  · -- the window crosses zero, so the highest bit differs
    have last : bit = 31 := by
      by_contra less
      have high : 2 ^ 31 ≤ expires.toNat := by bv_omega
      have low : (expires + slack).toNat < 2 ^ 31 := by bv_omega
      have exponent : 2 ^ 31 = 2 ^ (31 - (bit + 1)) * 2 ^ (bit + 1) := by
        rw [← pow_add]
        congr 1
        omega
      rw [exponent] at high low
      have := (Nat.le_div_iff_mul_le (Nat.two_pow_pos (bit + 1))).mpr high
      have := (Nat.div_lt_iff_lt_mul (Nat.two_pow_pos (bit + 1))).mpr low
      omega
    have zero : result.toNat = 0 := by
      rw [value, last]
      bv_omega
    refine ⟨⟨by bv_omega, by bv_omega⟩, fun tick window k divides => ?_⟩
    rw [zero]
    exact Nat.dvd_zero _

/-- A given slack picks the roundest tick of its window; an automatic slack is a 256th of the time
that is left, and nothing for a timer that is due. -/
theorem applySlack_roundest (slack jiffies expires : U32) : (0 < slack.toInt →
      InWindow expires slack.toNat (applySlack slack jiffies expires) ∧
        ∀ tick, InWindow expires slack.toNat tick → ∀ k, 2 ^ k ∣ tick.toNat →
          2 ^ k ∣ (applySlack slack jiffies expires).toNat) ∧
    (slack.toInt < 0 →
      ((applySlack slack jiffies expires - expires).toNat : Int) ≤
        max 0 (expires - jiffies).toInt / 256) := by
  constructor
  · intro positive
    have given := BitVec.toInt_eq_toNat_cond slack
    rw [applySlack, if_pos positive.le]
    split_ifs at given with low
    · exact roundDownTo_roundest expires (by omega) (by omega)
    · omega
  · intro negative
    rw [applySlack, if_neg (by omega)]
    have given := BitVec.toInt_eq_toNat_cond (expires - jiffies)
    dsimp only
    generalize expires - jiffies = delta at *
    by_cases soon : delta.toInt < 256
    · rw [if_pos soon, BitVec.sub_self]
      simp only [BitVec.toNat_zero]
      omega
    · split_ifs at given with low
      · have share : (delta.sdiv 256).toNat = delta.toNat / 256 := by
          have plain : delta.msb = false := by
            rw [BitVec.msb_eq_false_iff_two_mul_lt]
            omega
          simp [BitVec.sdiv_eq, plain, show (256#32).msb = false by decide]
        have window :=
          (roundDownTo_roundest expires (show 0 < (delta.sdiv 256).toNat by omega) (by omega)).1
        rw [if_neg soon]
        have bounded := window.2
        omega
      · omega

end RouterKernel.Timers
