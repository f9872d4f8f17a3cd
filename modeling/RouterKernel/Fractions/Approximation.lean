import RouterKernel.Foundation.Convergents
import RouterKernel.Foundation.Machine
import RouterKernel.Foundation.Words

/-!
Contract: the rational approximation of `lib/rational.c`.

Owns:
- `rational_best_approximation`, with the 32-bit products of its loop;
- that no product overflows and the result is within the limits;
- the convergent that it returns, and exactly when no other fraction within the limits is closer.

Does not own: convergents and neighbouring fractions (`Foundation.Convergents`).
-/

namespace RouterKernel.Fractions

open RouterKernel.Foundation

structure State where
  n : Nat
  d : Nat
  n0 : Nat
  d0 : Nat
  n1 : Nat
  d1 : Nat
deriving DecidableEq, Repr

/-- `n0 + a * n1`, with `a = n / d`. -/
def State.nextNumerator (s : State) : Nat := s.n0 + s.n / s.d * s.n1

/-- `d0 + a * d1`. -/
def State.nextDenominator (s : State) : Nat := s.d0 + s.n / s.d * s.d1

def turn (maxNumerator maxDenominator : Nat) (s : State) : Outcome State (Nat × Nat) :=
  if maxNumerator < s.n1 ∨ maxDenominator < s.d1 then .halted (s.n0, s.d0)
  else if s.d = 0 then .halted (s.n1, s.d1)
  else .running ⟨s.d, s.n % s.d, s.n1, s.d1, s.nextNumerator % 2 ^ 32, s.nextDenominator % 2 ^ 32⟩

def State.start (givenNumerator givenDenominator : Nat) : State :=
  ⟨givenNumerator, givenDenominator, 0, 1, 1, 0⟩

/-- `rational_best_approximation`: so many turns of its loop. -/
def rationalBestApproximation (givenNumerator givenDenominator maxNumerator maxDenominator : U32)
    (turns : Nat) :
    Outcome State (Nat × Nat) :=
  runFor (turn maxNumerator.toNat maxDenominator.toNat) turns
    (.start givenNumerator.toNat givenDenominator.toNat)

/-! ## The convergents -/

section Loop

variable {N D maxN maxD : Nat}

/-- The convergent that the loop has arrived at after `k` turns is within the limits. -/
def Within (N D maxN maxD k : Nat) : Prop := convergentNum N D (k + 1) ≤ maxN ∧
    convergentDen N D (k + 1) ≤ maxD

/-- Up to the `k`-th, the convergents are within the limits; there the division has come out even,
or the next convergent exceeds them. -/
structure LastWithin (N D maxN maxD k : Nat) : Prop where
  within : ∀ j ≤ k, Within N D maxN maxD j
  more : ∀ j < k, euclid N D (j + 1) ≠ 0
  ends : euclid N D (k + 1) = 0 ∨ ¬ Within N D maxN maxD (k + 1)

/-- `n / d` is a best approximation of `N / D` within the limits. -/
def Best (N D maxN maxD n d : Nat) : Prop :=
  n ≤ maxN ∧ 1 ≤ d ∧ d ≤ maxD ∧ ∀ p q, p ≤ maxN → 1 ≤ q → q ≤ maxD → ¬ Closer N D p q n d

/-- No fraction between the `k`-th convergent and the one before is within the limits and closer:
for these the remainders decide. -/
def Settled (N D maxN maxD k : Nat) : Prop :=
  1 ≤ convergentDen N D (k + 1) ∧
    ∀ m, 1 ≤ m → convergentNum N D k + m * convergentNum N D (k + 1) ≤ maxN →
      convergentDen N D k + m * convergentDen N D (k + 1) ≤ maxD →
        euclid N D (k + 1) * (convergentDen N D k + 2 * m * convergentDen N D (k + 1)) ≤
          euclid N D k * convergentDen N D (k + 1)

theorem best_iff_settled {k : Nat} (last : LastWithin N D maxN maxD k) (denominator : 0 < D) :
    Best N D maxN maxD (convergentNum N D (k + 1)) (convergentDen N D (k + 1)) ↔
      Settled N D maxN maxD k := by
  cases k with
  | zero => simp [Best, Settled, convergentDen]
  | succ k =>
    obtain ⟨less, grows, positive⟩ := convergentDen_grows fun j below =>
      last.more j (Nat.lt_succ_of_le below)
    have closer := (convergents_euclid N D (k + 1)).exists_closer_iff less.le grows positive
      denominator maxN maxD
    constructor
    · rintro ⟨-, -, -, best⟩
      refine ⟨positive, fun m one fitsN fitsD => not_lt.mp fun beyond => ?_⟩
      obtain ⟨p, q, boundP, oneQ, boundQ, isCloser⟩ := closer.mpr ⟨m, one, fitsN, fitsD, beyond⟩
      exact best p q boundP oneQ boundQ isCloser
    · rintro ⟨-, settled⟩
      have within := last.within (k + 1) le_rfl
      refine ⟨within.1, positive, within.2, fun p q boundP oneQ boundQ isCloser => ?_⟩
      obtain ⟨m, one, fitsN, fitsD, beyond⟩ := closer.mp ⟨p, q, boundP, oneQ, boundQ, isCloser⟩
      exact absurd (settled m one fitsN fitsD) (not_le.mpr beyond)

/-! ## The states of the loop -/

/-- The state after `k` turns. -/
def State.after (N D k : Nat) : State :=
  ⟨euclid N D k, euclid N D (k + 1), convergentNum N D k, convergentDen N D k,
      convergentNum N D (k + 1),
    convergentDen N D (k + 1)⟩

theorem turn_after (smallN : N < 2 ^ 32) (smallD : D < 2 ^ 32) {k : Nat} {next : State}
    (goes : turn maxN maxD (.after N D k) = .running next) :
    Within N D maxN maxD k ∧ euclid N D (k + 1) ≠ 0 ∧ next = .after N D (k + 1) := by
  unfold turn at goes
  split_ifs at goes with exceeds ended
  obtain ⟨exactN, exactD⟩ := convergent_le ended
  have numerator : (State.after N D k).nextNumerator % 2 ^ 32 = convergentNum N D (k + 2) :=
    Nat.mod_eq_of_lt (lt_of_le_of_lt exactN smallN)
  have denominator : (State.after N D k).nextDenominator % 2 ^ 32 = convergentDen N D (k + 2) :=
    Nat.mod_eq_of_lt (lt_of_le_of_lt exactD smallD)
  rw [numerator, denominator] at goes
  have exceeds : ¬(maxN < convergentNum N D (k + 1) ∨ maxD < convergentDen N D (k + 1)) := exceeds
  exact ⟨by rw [Within]; omega, ended, (Outcome.running.inj goes).symm⟩

theorem running_after (smallN : N < 2 ^ 32) (smallD : D < 2 ^ 32) {turns : Nat} {s : State}
    (running : runFor (turn maxN maxD) turns (.start N D) = .running s) :
    s = .after N D turns ∧ ∀ j < turns, Within N D maxN maxD j ∧ euclid N D (j + 1) ≠ 0 := by
  refine runFor_induction
    (fun k s => s = .after N D k ∧ ∀ j < k, Within N D maxN maxD j ∧ euclid N D (j + 1) ≠ 0) ⟨rfl,
      by omega⟩ ?_ running
  rintro k s next - ⟨rfl, before⟩ goes
  obtain ⟨within, more, rfl⟩ := turn_after smallN smallD goes
  refine ⟨rfl, fun j below => ?_⟩
  rcases Nat.lt_succ_iff_lt_or_eq.mp below with earlier | rfl
  · exact before j earlier
  · exact ⟨within, more⟩

/-- The loop ends with the last convergent within the limits. -/
theorem exists_last (maxD : Nat) (smallN : N < 2 ^ 32) (smallD : D < 2 ^ 32)
    (positiveN : 1 ≤ maxN) :
    ∃ k, LastWithin N D maxN maxD k ∧ ∃ turns, runFor (turn maxN maxD) turns (.start N D) =
      .halted (convergentNum N D (k + 1), convergentDen N D (k + 1)) := by
  have lowers (state next : State) (_ : True) (goes : turn maxN maxD state = .running next) :
      True ∧ next.d < state.d := by
    unfold turn at goes
    split_ifs at goes with exceeds ended
    obtain rfl := Outcome.running.inj goes
    exact ⟨trivial, Nat.mod_lt _ (Nat.pos_of_ne_zero ended)⟩
  obtain ⟨result, halted⟩ := runFor_halts (fun _ => True) State.d lowers (.start N D) trivial
  obtain ⟨k, s, -, running, stops⟩ := runFor_halted_inv halted
  obtain ⟨rfl, before⟩ := running_after smallN smallD running
  unfold turn at stops
  split_ifs at stops with exceeds ended
  · -- the convergent of the turn before is taken
    have outside : ¬ Within N D maxN maxD k := by
      have : maxN < convergentNum N D (k + 1) ∨ maxD < convergentDen N D (k + 1) := exceeds
      rw [Within]
      omega
    cases k with
    | zero => exact absurd ⟨positiveN, Nat.zero_le _⟩ outside
    | succ k =>
      exact ⟨k, ⟨fun j below => (before j (Nat.lt_succ_of_le below)).1,
        fun j below => (before j (Nat.lt_succ_of_lt below)).2, Or.inr outside⟩, _,
          Outcome.halted.inj stops ▸ halted⟩
  · have inside : Within N D maxN maxD k := by
      have : ¬(maxN < convergentNum N D (k + 1) ∨ maxD < convergentDen N D (k + 1)) := exceeds
      rw [Within]
      omega
    refine ⟨k, ⟨fun j below => ?_, fun j below => (before j below).2, Or.inl ended⟩, _,
      Outcome.halted.inj stops ▸ halted⟩
    rcases Nat.lt_or_eq_of_le below with earlier | rfl
    · exact (before j earlier).1
    · exact inside

end Loop

/-- The function returns the last convergent within the limits, without an overflow, and it is a
best approximation just when the fractions between this one and the one before are not closer. -/
theorem rationalBestApproximation_best_iff
    (givenNumerator givenDenominator maxNumerator maxDenominator : U32)
    (denominator : 1 ≤ givenDenominator.toNat) (positiveN : 1 ≤ maxNumerator.toNat) :
    (∀ turns s, rationalBestApproximation givenNumerator givenDenominator maxNumerator
        maxDenominator turns = .running s →
        s.d ≠ 0 → s.nextNumerator < 2 ^ 32 ∧ s.nextDenominator < 2 ^ 32) ∧
      ∃ k turns n d,
        LastWithin givenNumerator.toNat givenDenominator.toNat maxNumerator.toNat
          maxDenominator.toNat k ∧
        rationalBestApproximation givenNumerator givenDenominator maxNumerator maxDenominator
          turns = .halted (n, d) ∧
        n ≤ maxNumerator.toNat ∧ d ≤ maxDenominator.toNat ∧
        (Best givenNumerator.toNat givenDenominator.toNat maxNumerator.toNat maxDenominator.toNat n
            d ↔
          Settled givenNumerator.toNat givenDenominator.toNat maxNumerator.toNat
            maxDenominator.toNat k) := by
  have smallN := givenNumerator.isLt
  have smallD := givenDenominator.isLt
  constructor
  · intro turns s running more
    obtain ⟨rfl, -⟩ := running_after smallN smallD running
    obtain ⟨exactN, exactD⟩ := convergent_le more
    exact ⟨lt_of_le_of_lt exactN smallN, lt_of_le_of_lt exactD smallD⟩
  · obtain ⟨k, last, turns, returns⟩ := exists_last maxDenominator.toNat smallN smallD positiveN
    have within := last.within k le_rfl
    exact ⟨k, turns, _, _, last, returns, within.1, within.2, best_iff_settled last denominator⟩

/-- The fraction 1/2 is within the limits and is found. -/
theorem rationalBestApproximation_best_iff_half :
    ∃ k turns n d, LastWithin 2 4 3 3 k ∧ rationalBestApproximation 2 4 3 3 turns = .halted (n, d) ∧
      (Best 2 4 3 3 n d ↔ Settled 2 4 3 3 k) := by
  obtain ⟨k, turns, n, d, last, returns, -, -, best⟩ :=
    (rationalBestApproximation_best_iff 2 4 3 3 (by decide) (by decide)).2
  exact ⟨k, turns, n, d, last, returns, best⟩

/-- For 3/10 and denominators up to 7 the result is 1/3, although 2/7 is closer; for 5 and
numerators up to 3 it is 1/0. -/
theorem one_third_for_three_tenths : rationalBestApproximation 3 10 10 7 4 = .halted (1, 3) ∧
    Closer 3 10 2 7 1 3 ∧
      rationalBestApproximation 5 1 3 3 2 = .halted (1, 0) := by
  refine ⟨by decide, ?_, by decide⟩
  rw [closer_iff (by decide) (by decide) (by decide)]
  decide

end RouterKernel.Fractions
