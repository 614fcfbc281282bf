import Mathlib.Algebra.BigOperators.Intervals
import Mathlib.Tactic.IntervalCases
import Mathlib.Tactic.Ring

/-!
# Dates of the Gregorian calendar

The number of a day counts the years, the months and the days from 1970-01-01 on;
the lengths of the months and the rule for leap years are all it rests on.
-/

namespace LeadLag.Core

def IsLeap (year : ℕ) : Prop := year % 4 = 0 ∧ (year % 100 ≠ 0 ∨ year % 400 = 0)

instance : DecidablePred IsLeap := fun year => by
  unfold IsLeap
  infer_instance

def daysInMonth (year : ℕ) : ℕ → ℕ
  | 2 => if IsLeap year then 29 else 28
  | 4 | 6 | 9 | 11 => 30
  | _ => 31

def daysInYear (year : ℕ) : ℕ := ∑ m ∈ Finset.Icc 1 12, daysInMonth year m

structure ValidDate (year month day : ℕ) : Prop where
  month_pos : 1 ≤ month
  month_le : month ≤ 12
  day_pos : 1 ≤ day
  day_le : day ≤ daysInMonth year month

def daysBeforeYear (year : ℕ) : ℕ := ∑ y ∈ Finset.Ico 1970 year, daysInYear y

def daysBeforeMonth (year month : ℕ) : ℕ := ∑ m ∈ Finset.Ico 1 month, daysInMonth year m

/-- The days from 1970-01-01 to the date. -/
def dayNumber (year month day : ℕ) : ℕ :=
  daysBeforeYear year + daysBeforeMonth year month + (day - 1)

/-- The leap years up to a year. -/
def leapYears (year : ℕ) : ℤ := (year : ℤ) / 4 - (year : ℤ) / 100 + (year : ℤ) / 400

theorem leapYears_succ (year : ℕ) :
    leapYears (year + 1) = leapYears year + if IsLeap (year + 1) then 1 else 0 := by
  unfold leapYears IsLeap
  push_cast
  split_ifs <;> omega

theorem daysInYear_eq (year : ℕ) : daysInYear year = 365 + if IsLeap year then 1 else 0 := by
  have hmonths : Finset.Icc 1 12 = {1, 2, 3, 4, 5, 6, 7, 8, 9, 10, 11, 12} := by decide
  unfold daysInYear
  rw [hmonths]
  by_cases hleap : IsLeap year
  · simp [daysInMonth, hleap]
  · simp [daysInMonth, hleap]

theorem daysBeforeYear_eq (n : ℕ) : (daysBeforeYear (1970 + n) : ℤ) =
    365 * n + leapYears (1969 + n) - leapYears 1969 := by
  induction n with
  | zero => simp [daysBeforeYear]
  | succ n ih =>
    have hsum : daysBeforeYear (1970 + (n + 1)) =
        daysBeforeYear (1970 + n) + daysInYear (1970 + n) :=
      Finset.sum_Ico_succ_top (Nat.le_add_right 1970 n) _
    have hyear : 1969 + n + 1 = 1970 + n := by omega
    have hleap := leapYears_succ (1969 + n)
    rw [hyear] at hleap
    have hnext : leapYears (1969 + (n + 1)) = leapYears (1970 + n) :=
      congrArg leapYears (by omega)
    rw [hsum, hnext, hleap, Nat.cast_add, ih, daysInYear_eq]
    push_cast
    ring

theorem daysBeforeMonth_succ (year : ℕ) {month : ℕ} (h : 1 ≤ month) :
    daysBeforeMonth year (month + 1) = daysBeforeMonth year month + daysInMonth year month :=
  Finset.sum_Ico_succ_top h _

end LeadLag.Core
