import Mathlib.Tactic

/-!
Contract: the Gregorian calendar.

Owns:
- leap years and the lengths of years and months;
- the number of a day, counted from 1 January of the year 0, year by year and month by
  month, and its closed form;
- weekdays.

Does not own: times of day and seconds.

Months are counted from 0.
-/

namespace RouterKernel.Foundation.Gregorian

def LeapYear (year : Nat) : Prop := year % 4 = 0 ∧ (year % 100 ≠ 0 ∨ year % 400 = 0)

instance : DecidablePred LeapYear := fun _ => inferInstanceAs (Decidable (_ ∧ _))

def yearLength (year : Nat) : Nat := if LeapYear year then 366 else 365

def monthLength (year : Nat) : Nat → Nat
  | 1 => if LeapYear year then 29 else 28
  | 3 => 30
  | 5 => 30
  | 8 => 30
  | 10 => 30
  | _ => 31

def daysBeforeYear : Nat → Nat
  | 0 => 0
  | year + 1 => daysBeforeYear year + yearLength year

def daysBeforeMonth (year : Nat) : Nat → Nat
  | 0 => 0
  | month + 1 => daysBeforeMonth year month + monthLength year month

def dayNumber (year month day : Nat) : Nat :=
  daysBeforeYear year + daysBeforeMonth year month + (day - 1)

/-- The day of the week, from Sunday on; 1 January of the year 0 was a Saturday. -/
def weekday (year month day : Nat) : Nat := (dayNumber year month day + 6) % 7

theorem daysBeforeYear_eq (year : Nat) :
    daysBeforeYear year + (year + 99) / 100 = 365 * year + (year + 3) / 4 + (year + 399) / 400 := by
  induction year with
  | zero => rfl
  | succ year ih =>
    rw [daysBeforeYear, yearLength]
    split_ifs with leap
    · unfold LeapYear at leap
      omega
    · unfold LeapYear at leap
      omega

theorem daysBeforeMonth_twelve (year : Nat) : daysBeforeMonth year 12 = yearLength year := by
  simp only [daysBeforeMonth, monthLength, yearLength]
  split_ifs <;> rfl

end RouterKernel.Foundation.Gregorian
