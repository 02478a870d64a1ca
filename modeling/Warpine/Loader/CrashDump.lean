import Mathlib.Data.List.Basic
import Warpine.Lib.Panics
import Warpine.Vfs.DosTimes

/-! The time in the name of a crash dump. The calendar is walked year by year and month by
month here, where a file's time is turned into a date by one formula. -/
namespace Warpine.Loader
open Warpine.Lib Calendar Warpine.Vfs

structure Timestamp where
  year : Nat
  month : Nat
  day : Nat
  h : Nat
  m : Nat
  s : Nat

def leapYear (year : Nat) : Bool :=
  year % 4 == 0 && !(year % 100 == 0) || year % 400 == 0

def daysInYear (year : Nat) : Nat := if leapYear year then 366 else 365

theorem daysInYear_pos (year : Nat) : 0 < daysInYear year := by
  unfold daysInYear
  split <;> decide

/-- The year is a `u32`, and its overflow is a panic. -/
def yearLoop (days year : Nat) : Option (Nat × Nat) :=
  if days < daysInYear year then some (year, days)
  else do
    let next ← addWord 32 year 1
    yearLoop (days - daysInYear year) next
termination_by days
decreasing_by
  have := daysInYear_pos year
  omega

def monthTable (leap : Bool) : List Nat :=
  [31, if leap then 29 else 28, 31, 30, 31, 30, 31, 31, 30, 31, 30, 31]

def monthLoop : List Nat → Nat → Nat → Nat × Nat
  | [], days, month => (month, days)
  | md :: rest, days, month =>
      if days < md then (month, days) else monthLoop rest (days - md) (month + 1)

def timestamp (secs : Nat) : Option Timestamp := do
  let (year, days) ← yearLoop (secs / 86400) 1970
  let (month, days) := monthLoop (monthTable (leapYear year)) days 1
  return { year, month, day := days + 1
           h := secs / 3600 % 24, m := secs / 60 % 60, s := secs % 60 }

/-- `{:0width$}`. -/
def zeroPadded (width n : Nat) : List Char := (Nat.toDigits 10 n).leftpad width '0'

def formatTimestamp (ts : Int) : Option (List Char) := do
  let at_ ← timestamp (asSecs ts)
  return zeroPadded 4 at_.year ++ ['-'] ++ zeroPadded 2 at_.month ++ ['-'] ++
    zeroPadded 2 at_.day ++ [' '] ++ zeroPadded 2 at_.h ++ [':'] ++ zeroPadded 2 at_.m ++
      [':'] ++ zeroPadded 2 at_.s ++ [' ', 'U', 'T', 'C']

section Loops

variable {days year month : Nat}

theorem leapYear_eq (year : Nat) : leapYear year = isLeap year := by
  rw [Bool.eq_iff_iff, isLeap_iff]
  simp [leapYear]
  omega

theorem daysInYear_eq (year : Nat) : daysInYear year = yearDays year := by
  rw [daysInYear, leapYear_eq, yearDays]

/-- The years that are left behind lie before the day, and the last one ends after it. -/
theorem yearLoop_spec (small : yearStart year + days < yearStart (2 ^ 32)) :
    ∃ last rest, yearLoop days year = some (last, rest) ∧
      yearStart last + rest = yearStart year + days ∧ rest < yearDays last := by
  induction days using Nat.strong_induction_on generalizing year with
  | h days ih =>
    rw [yearLoop, daysInYear_eq]
    by_cases inside : days < yearDays year
    · exact ⟨year, days, if_pos inside, rfl, inside⟩
    have whole : yearStart (year + 1) + (days - yearDays year) = yearStart year + days := by
      rw [yearStart]
      omega
    have bound : year + 1 < 2 ^ 32 := by
      by_contra beyond
      have le := yearStart_mono (Nat.le_of_not_lt beyond)
      omega
    obtain ⟨last, rest, found, sum, short⟩ := ih (days - yearDays year)
      (by have := daysInYear_pos year; rw [daysInYear_eq] at this; omega) (whole.symm ▸ small)
    refine ⟨last, rest, ?_, sum.trans whole, short⟩
    rw [if_neg inside, addWord, if_pos bound]
    exact found

theorem monthTable_eq (leap : Bool) :
    monthTable leap = (List.range' 1 12).map (monthDays leap) := by
  cases leap <;> rfl

theorem monthLoop_spec {leap : Bool} {months : Nat}
    (small : monthStart leap month + days < monthStart leap (month + months)) :
    ∃ last rest, monthLoop ((List.range' month months).map (monthDays leap)) days month =
        (last, rest) ∧ monthStart leap last + rest = monthStart leap month + days ∧
      rest < monthDays leap last ∧ month ≤ last ∧ last < month + months := by
  induction months generalizing days month with
  | zero => exact absurd small (by rw [Nat.add_zero]; omega)
  | succ months ih =>
    rw [List.range'_succ, List.map_cons, monthLoop]
    by_cases inside : days < monthDays leap month
    · exact ⟨month, days, if_pos inside, rfl, inside, Nat.le_refl _, by omega⟩
    have whole : monthStart leap (month + 1) + (days - monthDays leap month) =
        monthStart leap month + days := by
      rw [monthStart]
      omega
    have small' : monthStart leap (month + 1) + (days - monthDays leap month) <
        monthStart leap (month + 1 + months) := by
      rw [whole, Nat.add_right_comm]
      exact small
    obtain ⟨last, rest, found, sum, short, low, high⟩ := ih small'
    refine ⟨last, rest, ?_, sum.trans whole, short, by omega, by omega⟩
    rw [if_neg inside]
    exact found

end Loops

/-- The loops give the date with the day's number. -/
theorem timestamp_date {secs : Nat}
    (small : epoch.number + secs / 86400 < yearStart (2 ^ 32)) :
    ∃ (at_ : Timestamp) (date : Date), timestamp secs = some at_ ∧ date.number = epoch.number + secs / 86400 ∧
      (at_.year, at_.month, at_.day) = (date.year, date.month, date.day) := by
  have start : epoch.number = yearStart 1970 := number_january rfl rfl
  rw [start] at small ⊢
  obtain ⟨year, days, years, sum, short⟩ := yearLoop_spec small
  have inYear : monthStart (isLeap year) 1 + days < monthStart (isLeap year) (1 + 12) := by
    rw [monthStart_thirteen]
    unfold yearDays at short
    simpa [monthStart, monthDays] using short
  obtain ⟨month, rest, months, total, inside, low, high⟩ := monthLoop_spec inYear
  refine ⟨⟨year, month, rest + 1, secs / 3600 % 24, secs / 60 % 60, secs % 60⟩,
    ⟨year, month, rest + 1, ⟨low, by omega⟩, ⟨by omega, inside⟩⟩, ?_, ?_, rfl⟩
  · unfold timestamp
    rw [years, Option.bind_eq_bind, Option.bind_some]
    dsimp only
    rw [monthTable_eq, leapYear_eq, months]
    rfl
  · have first : monthStart (isLeap year) 1 = 0 := rfl
    unfold Date.number
    dsimp only
    omega

/-- Both algorithms give one date. -/
theorem timestamp_eq_daysToYmd {secs : Nat}
    (before : epoch.number + secs / 86400 < yearStart 10000) :
    ∃ at_, timestamp secs = some at_ ∧
      (at_.year, at_.month, at_.day) = daysToYmd (secs / 86400) := by
  have small := Nat.lt_of_lt_of_le before (yearStart_mono (show 10000 ≤ 2 ^ 32 by decide))
  obtain ⟨at_, date, found, number, fields⟩ := timestamp_date small
  obtain ⟨other, same, result⟩ := daysToYmd_date (secs / 86400)
  obtain rfl := Date.number_inj (number.trans same.symm)
  exact ⟨at_, found, fields.trans result.symm⟩

/-- The last day of February in a year with a leap day that a century begins with. -/
theorem timestamp_on_leap_day : ∃ at_, timestamp 951782400 = some at_ ∧
    (at_.year, at_.month, at_.day) = (2000, 2, 29) := by
  have before : epoch.number + 951782400 / 86400 < yearStart 10000 := by
    have start := yearStart_eq 10000
    rw [epoch_number]
    omega
  exact timestamp_eq_daysToYmd before

end Warpine.Loader
