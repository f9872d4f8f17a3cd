import Mathlib.Tactic

/-!
Contract: neighbouring fractions in the division chain of a number `N / D`.

Owns:
- the remainders of Euclid's algorithm and the convergents of `N / D`;
- `Convergents`, two fractions and the rest of the division, and one division step;
- `Closer`, the comparison of distances to `N / D`;
- which fractions within limits are closer than the second of the two.
-/

namespace RouterKernel.Foundation

variable {N D n d p0 q0 p1 q1 p q : Nat}

/-- The remainders of Euclid's algorithm. -/
def euclid (N D : Nat) : Nat → Nat
  | 0 => N
  | 1 => D
  | k + 2 => euclid N D k % euclid N D (k + 1)

/-- The numerators of the convergents of `N / D`, which begin with `0 / 1` and `1 / 0`. -/
def convergentNum (N D : Nat) : Nat → Nat
  | 0 => 0
  | 1 => 1
  | k + 2 => convergentNum N D k + euclid N D k / euclid N D (k + 1) * convergentNum N D (k + 1)

/-- The denominators of the convergents. -/
def convergentDen (N D : Nat) : Nat → Nat
  | 0 => 1
  | 1 => 0
  | k + 2 => convergentDen N D k + euclid N D k / euclid N D (k + 1) * convergentDen N D (k + 1)

/-- The fractions `p0 / q0` and `p1 / q1`, with `n` and `d` left to divide. -/
structure Convergents (N D n d p0 q0 p1 q1 : Nat) : Prop where
  numerator : n * p1 + d * p0 = N
  denominator : n * q1 + d * q0 = D
  unimodular : (p0 : ℤ) * q1 - p1 * q0 = 1 ∨ (p0 : ℤ) * q1 - p1 * q0 = -1

theorem Convergents.divide (chain : Convergents N D n d p0 q0 p1 q1) :
    Convergents N D d (n % d) p1 q1 (p0 + n / d * p1) (q0 + n / d * q1) := by
  have division : d * (n / d) + n % d = n := Nat.div_add_mod n d
  refine ⟨?_, ?_, ?_⟩
  · rw [← chain.numerator]
    conv_rhs => rw [← division]
    ring
  · rw [← chain.denominator]
    conv_rhs => rw [← division]
    ring
  · push_cast
    rcases chain.unimodular with one | one
    · exact Or.inr (by linear_combination -one)
    · exact Or.inl (by linear_combination -one)

theorem convergents_euclid (N D k : Nat) :
    Convergents N D (euclid N D k) (euclid N D (k + 1)) (convergentNum N D k)
    (convergentDen N D k) (convergentNum N D (k + 1)) (convergentDen N D (k + 1)) := by
  induction k with
  | zero => refine ⟨?_, ?_, Or.inr ?_⟩ <;> simp [euclid, convergentNum, convergentDen]
  | succ k ih => exact ih.divide

/-- As long as the division goes on, the denominators grow from the second convergent on. -/
theorem convergentDen_grows {k : Nat} (more : ∀ j ≤ k, euclid N D (j + 1) ≠ 0) :
    euclid N D (k + 2) < euclid N D (k + 1) ∧ convergentDen N D (k + 1) ≤
        convergentDen N D (k + 2) ∧
      0 < convergentDen N D (k + 2) := by
  have positive : 0 < euclid N D (k + 1) := Nat.pos_of_ne_zero (more k le_rfl)
  refine ⟨Nat.mod_lt _ positive, ?_⟩
  induction k with
  | zero => simp [convergentDen]
  | succ k ih =>
    have before : 0 < euclid N D (k + 1) := Nat.pos_of_ne_zero (more k (Nat.le_succ k))
    obtain ⟨-, nonzero⟩ := ih (fun j below => more j (Nat.le_succ_of_le below)) before
    -- from the second step on the quotient is not zero
    have quotient : 1 ≤ euclid N D (k + 1) / euclid N D (k + 2) :=
      (Nat.one_le_div_iff positive).mpr (Nat.mod_lt _ before).le
    have product : convergentDen N D (k + 2) ≤ euclid N D (k + 1) / euclid N D (k + 2) *
        convergentDen N D (k + 2) :=
      Nat.le_mul_of_pos_left _ quotient
    have next : convergentDen N D (k + 3) = convergentDen N D (k + 1) +
        euclid N D (k + 1) / euclid N D (k + 2) * convergentDen N D (k + 2) := rfl
    change convergentDen N D (k + 2) ≤ convergentDen N D (k + 3) ∧ 0 < convergentDen N D (k + 3)
    omega

theorem convergent_le {k : Nat} (more : euclid N D (k + 1) ≠ 0) :
    convergentNum N D (k + 2) ≤ N ∧ convergentDen N D (k + 2) ≤ D := by
  have chain := convergents_euclid N D (k + 1)
  have positive := Nat.pos_of_ne_zero more
  have numerator : convergentNum N D (k + 2) ≤ euclid N D (k + 1) * convergentNum N D (k + 2) :=
    Nat.le_mul_of_pos_left _ positive
  have denominator : convergentDen N D (k + 2) ≤ euclid N D (k + 1) * convergentDen N D (k + 2) :=
    Nat.le_mul_of_pos_left _ positive
  have sumN : euclid N D (k + 1) * convergentNum N D (k + 2) + euclid N D (k + 2) *
      convergentNum N D (k + 1) = N :=
    chain.numerator
  have sumD : euclid N D (k + 1) * convergentDen N D (k + 2) + euclid N D (k + 2) *
      convergentDen N D (k + 1) = D :=
    chain.denominator
  omega

/-- `p / q` is strictly closer to `N / D` than `p1 / q1`. -/
def Closer (N D p q p1 q1 : Nat) : Prop :=
  |(p : ℚ) / q - (N : ℚ) / D| < |(p1 : ℚ) / q1 - (N : ℚ) / D|

theorem distance_eq (positive : 0 < q) (denominator : 0 < D) :
    |(p : ℚ) / q - (N : ℚ) / D| = |(p : ℚ) * D - q * N| / (q * D) := by
  have nonzero : (q : ℚ) ≠ 0 := Nat.cast_ne_zero.mpr positive.ne'
  have nonzeroD : (D : ℚ) ≠ 0 := Nat.cast_ne_zero.mpr denominator.ne'
  have product : (0 : ℚ) < q * D :=
    mul_pos (Nat.cast_pos.mpr positive) (Nat.cast_pos.mpr denominator)
  rw [div_sub_div _ _ nonzero nonzeroD, abs_div, abs_of_pos product]

/-- The comparison without division. -/
theorem closer_iff (positive : 0 < q) (positive1 : 0 < q1) (denominator : 0 < D) :
    Closer N D p q p1 q1 ↔ |(p : ℤ) * D - q * N| * q1 < |(p1 : ℤ) * D - q1 * N| * q := by
  have castQ : (0 : ℚ) < q := Nat.cast_pos.mpr positive
  have castQ1 : (0 : ℚ) < q1 := Nat.cast_pos.mpr positive1
  have castD : (0 : ℚ) < D := Nat.cast_pos.mpr denominator
  rw [Closer, distance_eq positive denominator, distance_eq positive1 denominator,
    div_lt_div_iff₀ (mul_pos castQ castD) (mul_pos castQ1 castD), ← mul_assoc, ← mul_assoc,
    mul_lt_mul_iff_left₀ castD]
  exact_mod_cast Iff.rfl

section

variable (chain : Convergents N D n d p0 q0 p1 q1)

include chain

theorem Convergents.distance : |(p1 : ℤ) * D - q1 * N| = d := by
  have expand : (p1 : ℤ) * D - q1 * N = -d * (p0 * q1 - p1 * q0) := by
    rw [← chain.numerator, ← chain.denominator]
    push_cast
    ring
  rw [expand]
  rcases chain.unimodular with one | one
  · rw [one, mul_one, abs_neg, Nat.abs_cast]
  · rw [one, mul_neg_one, neg_neg, Nat.abs_cast]

theorem Convergents.coordinates (p q : Nat) : ∃ i j : ℤ, (p : ℤ) = i * p0 + j * p1 ∧
    (q : ℤ) = i * q0 + j * q1 ∧
      |(p : ℤ) * D - q * N| = |i * n - j * d| := by
  have split : (p : ℤ) * D - q * N = n * (p * q1 - q * p1) - d * (p0 * q - q0 * p) := by
    rw [← chain.numerator, ← chain.denominator]
    push_cast
    ring
  rcases chain.unimodular with one | one
  · refine ⟨p * q1 - q * p1, p0 * q - q0 * p,
      by linear_combination -p * one, by linear_combination -q * one, ?_⟩
    rw [split]
    congr 1
    ring
  · refine ⟨-(p * q1 - q * p1), -(p0 * q - q0 * p),
      by linear_combination p * one, by linear_combination q * one, ?_⟩
    rw [split, ← abs_neg]
    congr 1
    ring

theorem Convergents.coordinates_pos (order : d ≤ n) (grows : q0 ≤ q1) {i j : ℤ}
    (closer : |i * n - j * d| * q1 < d * (i * q0 + j * q1)) :
    0 < i ∧ 0 < j ∧ (n : ℤ) * q1 - d * q0 < 2 * (j * (d * q1)) := by
  have natural1 : (0 : ℤ) ≤ q1 := Int.natCast_nonneg q1
  have upper : (i * n - j * d) * q1 < d * (i * q0 + j * q1) :=
    lt_of_le_of_lt (mul_le_mul_of_nonneg_right (le_abs_self _) natural1) closer
  have lower : -(i * n - j * d) * q1 < d * (i * q0 + j * q1) :=
    lt_of_le_of_lt (mul_le_mul_of_nonneg_right (neg_le_abs _) natural1) closer
  have castD : (n : ℤ) * q1 + d * q0 = D := by exact_mod_cast chain.denominator
  have positiveI : 0 < i := by
    have product : 0 < i * (D : ℤ) := by
      rw [← castD]
      linarith
    exact pos_of_mul_pos_left product (Int.natCast_nonneg D)
  have rest : 0 ≤ (n : ℤ) * q1 - d * q0 := by
    have products : d * q0 ≤ n * q1 := Nat.mul_le_mul order grows
    linarith
  have scaled : (n : ℤ) * q1 - d * q0 ≤ i * (n * q1 - d * q0) :=
    le_mul_of_one_le_left rest positiveI
  have bound : (n : ℤ) * q1 - d * q0 < 2 * (j * (d * q1)) := by linarith
  have positiveJ : 0 < j := by
    have product : 0 < j * ((d : ℤ) * q1) := by linarith
    exact pos_of_mul_pos_left product (mul_nonneg (Int.natCast_nonneg d) natural1)
  exact ⟨positiveI, positiveJ, bound⟩

/-- Within limits a fraction is closer than the second one just when one of the fractions
`(p0 + m p1) / (q0 + m q1)` is, and these are compared by the rest of the division. -/
theorem Convergents.exists_closer_iff (order : d ≤ n) (grows : q0 ≤ q1) (positive : 0 < q1)
    (denominator : 0 < D)
    (maxP maxQ : Nat) :
    (∃ p q, p ≤ maxP ∧ 1 ≤ q ∧ q ≤ maxQ ∧ Closer N D p q p1 q1) ↔
      ∃ m, 1 ≤ m ∧ p0 + m * p1 ≤ maxP ∧ q0 + m * q1 ≤ maxQ ∧ n * q1 < d * (q0 + 2 * m * q1) := by
  constructor
  · rintro ⟨p, q, boundP, positiveQ, boundQ, closer⟩
    rw [closer_iff positiveQ positive denominator, chain.distance] at closer
    obtain ⟨i, j, combineP, combineQ, distance⟩ := chain.coordinates p q
    rw [distance, combineQ] at closer
    obtain ⟨positiveI, positiveJ, bound⟩ := chain.coordinates_pos order grows closer
    obtain ⟨m, rfl⟩ := Int.eq_ofNat_of_zero_le positiveJ.le
    have moreP : (p0 : ℤ) ≤ i * p0 := le_mul_of_one_le_left (Int.natCast_nonneg p0) positiveI
    have moreQ : (q0 : ℤ) ≤ i * q0 := le_mul_of_one_le_left (Int.natCast_nonneg q0) positiveI
    refine ⟨m, by exact_mod_cast positiveJ, ?_, ?_, ?_⟩
    · have cast : (p0 : ℤ) + m * p1 ≤ p := by linarith
      exact le_trans (by exact_mod_cast cast) boundP
    · have cast : (q0 : ℤ) + m * q1 ≤ q := by linarith
      exact le_trans (by exact_mod_cast cast) boundQ
    · have cast : (n : ℤ) * q1 < d * (q0 + 2 * m * q1) := by linarith
      exact_mod_cast cast
  · rintro ⟨m, one, boundP, boundQ, less⟩
    have positiveM : 0 < m * q1 := Nat.mul_pos one positive
    refine ⟨p0 + m * p1, q0 + m * q1, boundP, by omega, boundQ, ?_⟩
    rw [closer_iff (by omega) positive denominator, chain.distance]
    have combine : |((p0 + m * p1 : Nat) : ℤ) * D - ((q0 + m * q1 : Nat) : ℤ) * N| = |(n : ℤ) - m *
        d| := by
      have expand : ((p0 + m * p1 : Nat) : ℤ) * D - ((q0 + m * q1 : Nat) : ℤ) * N =
          (n - m * d) * (p0 * q1 - p1 * q0) := by
        rw [← chain.numerator, ← chain.denominator]
        push_cast
        ring
      rw [expand, abs_mul]
      rcases chain.unimodular with unit | unit
      · rw [unit, abs_one, mul_one]
      · rw [unit, abs_neg, abs_one, mul_one]
    have natural1 : (0 : ℤ) < q1 := by exact_mod_cast positive
    rw [combine, ← abs_of_pos natural1, ← abs_mul, abs_lt]
    push_cast
    have positiveD : 0 < (n : ℤ) * q1 + d * q0 := by exact_mod_cast chain.denominator ▸ denominator
    constructor <;> linarith

end

end RouterKernel.Foundation
