/-
# The Gregorian calendar

Years, the length of their months, and the number of a day counted from the first of January
of the year zero.

* `daysBeforeYear_eq`, `daysBeforeMarch_eq` : the days before a year and before its March, in
  closed form;
* `daysBeforeMonth_eq` : the days of a year before one of its months.
-/
import Mathlib.Algebra.BigOperators.Fin
import Mathlib.Algebra.Order.Ring.Int
import Mathlib.Tactic.IntervalCases
import Mathlib.Tactic.Ring

namespace Gregorian

/-- A year with a 29th of February. -/
def LeapYear (y : ℕ) : Prop := 4 ∣ y ∧ (100 ∣ y → 400 ∣ y)

instance (y : ℕ) : Decidable (LeapYear y) :=
  inferInstanceAs (Decidable (_ ∧ (_ → _)))

def daysInYear (y : ℕ) : ℕ := if LeapYear y then 366 else 365

/-- The length of a month. -/
def daysInMonth (y m : ℕ) : ℕ :=
  if m = 2 then (if LeapYear y then 29 else 28)
  else if m = 4 ∨ m = 6 ∨ m = 9 ∨ m = 11 then 30
  else 31

/-- A date of the calendar. -/
structure Date where
  year : ℕ
  month : ℕ
  day : ℕ
  deriving DecidableEq, Repr

/-- The date exists. -/
def Date.Exists (date : Date) : Prop :=
  1 ≤ date.month ∧ date.month ≤ 12 ∧ 1 ≤ date.day ∧ date.day ≤ daysInMonth date.year date.month

instance (date : Date) : Decidable date.Exists :=
  inferInstanceAs (Decidable (_ ∧ _))

/-- The days of all the years before a year. -/
def daysBeforeYear (y : ℕ) : ℕ := ∑ i ∈ Finset.range y, daysInYear i

/-- The days of a year before one of its months. -/
def daysBeforeMonth (y m : ℕ) : ℕ := ∑ i ∈ Finset.range (m - 1), daysInMonth y (i + 1)

/-- The number of a date: the days from the first of January of the year zero. -/
def Date.number (date : Date) : ℤ :=
  daysBeforeYear date.year + daysBeforeMonth date.year date.month + date.day - 1

/-- The leap years among the multiples of 4, 100 and 400. -/
theorem leapYear_eq (y : ℕ) :
    ((if LeapYear y then 1 else 0 : ℕ) : ℤ) =
      ((y : ℤ) / 4 - (y - 1) / 4) - ((y : ℤ) / 100 - (y - 1) / 100) +
        ((y : ℤ) / 400 - (y - 1) / 400) := by
  have hfour : (y : ℤ) / 4 - (y - 1) / 4 = if 4 ∣ y then 1 else 0 := by
    split <;> omega
  have hcentury : (y : ℤ) / 100 - (y - 1) / 100 = if 100 ∣ y then 1 else 0 := by
    split <;> omega
  have hera : (y : ℤ) / 400 - (y - 1) / 400 = if 400 ∣ y then 1 else 0 := by
    split <;> omega
  rw [hfour, hcentury, hera]
  unfold LeapYear
  by_cases h400 : 400 ∣ y
  · have h100 : 100 ∣ y := Dvd.dvd.trans (by norm_num) h400
    have h4 : 4 ∣ y := Dvd.dvd.trans (by norm_num) h400
    simp [h400, h100, h4]
  · by_cases h100 : 100 ∣ y
    · have h4 : 4 ∣ y := Dvd.dvd.trans (by norm_num) h100
      simp [h400, h100, h4]
    · simp [h400, h100]

/-- The days before a year: one more for every fourth year, but for the centuries that
400 does not divide. -/
theorem daysBeforeYear_eq (y : ℕ) :
    (daysBeforeYear y : ℤ) =
      365 * y + (y - 1) / 4 - (y - 1) / 100 + (y - 1) / 400 + 1 := by
  unfold daysBeforeYear
  induction y with
  | zero => rfl
  | succ y ih =>
    have hleap := leapYear_eq y
    have hyear : daysInYear y = 365 + (if LeapYear y then 1 else 0 : ℕ) := by
      unfold daysInYear
      split <;> rfl
    rw [Finset.sum_range_succ, hyear]
    push_cast at hleap ih ⊢
    rw [ih, hleap, add_sub_cancel_right]
    ring

/-- The days before the March of a year. -/
theorem daysBeforeMarch_eq (y : ℕ) :
    (daysBeforeYear y : ℤ) + ((if LeapYear y then 60 else 59 : ℕ) : ℤ) =
      365 * y + (y : ℤ) / 4 - (y : ℤ) / 100 + (y : ℤ) / 400 + 60 := by
  have hleap := leapYear_eq y
  have hfebruary : (if LeapYear y then 60 else 59 : ℕ) = 59 + (if LeapYear y then 1 else 0 : ℕ) := by
    split <;> rfl
  rw [daysBeforeYear_eq, hfebruary]
  push_cast at hleap ⊢
  rw [hleap]
  ring

/-- The days before a month, in a year that starts in March. -/
theorem daysBeforeMonth_eq {m : ℕ} (y : ℕ) (hlow : 1 ≤ m) (hhigh : m ≤ 12) :
    daysBeforeMonth y m =
      if m ≤ 2 then 31 * (m - 1)
      else (153 * (m - 3) + 2) / 5 + (if LeapYear y then 60 else 59) := by
  unfold daysBeforeMonth daysInMonth
  by_cases hleap : LeapYear y
  · interval_cases m <;> simp [Finset.sum_range_succ, hleap]
  · interval_cases m <;> simp [Finset.sum_range_succ, hleap]

end Gregorian
