import Mathlib.Tactic
import Mathlib.Order.Interval.Finset.Nat

/-!
Contract: a bucket of tokens that fills with time and from which calls take.

Owns:
- `Bucket`, what the levels after the calls, the calls that took tokens and the times of
  the calls have to do with each other;
- `granted`, the calls between two calls that took tokens, and the bound on their number.
-/

namespace RouterKernel.Foundation

variable {burst cost factor : Nat} {level times : Nat → Nat} {taken : Nat → Bool}

/-- What call `k` takes. -/
def price (cost : Nat) (taken : Nat → Bool) (k : Nat) : Nat := if taken k then cost else 0

/-- No call finds more than `burst`, nor more than the last one left and time has added. -/
structure Bucket (burst cost : Nat) (level times : Nat → Nat) (taken : Nat → Bool) : Prop where
  capped : ∀ k, level k + price cost taken k ≤ burst
  refilled : ∀ k, level (k + 1) + price cost taken (k + 1) ≤ level k + (times (k + 1) - times k)

/-- The calls from `first` to `last` that took tokens. -/
def granted (taken : Nat → Bool) (first last : Nat) : Finset Nat :=
  (Finset.Icc first last).filter fun k => taken k

theorem card_granted_self (taken : Nat → Bool) (cost k : Nat) :
    cost * (granted taken k k).card = price cost taken k := by
  rw [granted, Finset.Icc_self, Finset.filter_singleton, price]
  split <;> simp

theorem card_granted_succ (taken : Nat → Bool) (cost : Nat) {first last : Nat} (le : first ≤ last) :
    cost * (granted taken first (last + 1)).card =
      cost * (granted taken first last).card + price cost taken (last + 1) := by
  have outside : last + 1 ∉ (Finset.Icc first last).filter fun k => taken k := by simp
  rw [granted, ← Finset.insert_Icc_right_eq_Icc_add_one (le.trans (Nat.le_succ last)),
    Finset.filter_insert, price]
  split
  · rw [Finset.card_insert_of_notMem outside, Nat.mul_succ, granted]
  · rw [Nat.add_zero, granted]

/-- The books of a bucket: all that was taken was there at first or has been added. -/
theorem Bucket.account (bucket : Bucket burst cost level times taken) (ordered : Monotone times)
    {first last : Nat} (le : first ≤ last) :
    level last + cost * (granted taken first last).card ≤ burst + (times last - times first) := by
  induction last, le using Nat.le_induction with
  | base =>
    rw [card_granted_self, Nat.sub_self]
    exact bucket.capped first
  | succ last le ih =>
    have refilled := bucket.refilled last
    have later : times last ≤ times (last + 1) := ordered (Nat.le_succ last)
    have since := ordered le
    rw [card_granted_succ taken cost le]
    omega

theorem Bucket.card_le (bucket : Bucket (factor * cost) cost level times taken)
    (positive : 0 < cost)
    (ordered : Monotone times) {first last : Nat} (le : first ≤ last) :
    (granted taken first last).card ≤ factor + (times last - times first) / cost := by
  have account := bucket.account ordered le
  have taken : (granted taken first last).card * cost ≤
      factor * cost + (times last - times first) := by
    rw [Nat.mul_comm]
    omega
  calc (granted _ first last).card
      ≤ (factor * cost + (times last - times first)) / cost :=
        (Nat.le_div_iff_mul_le positive).mpr taken
    _ = factor + (times last - times first) / cost := by
      rw [Nat.add_comm, Nat.add_mul_div_right _ _ positive, Nat.add_comm]

end RouterKernel.Foundation
