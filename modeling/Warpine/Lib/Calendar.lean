/-! The Gregorian calendar, in the years before it was made too: years of months of days,
numbered from the first day of the year 0. -/
namespace Warpine.Lib.Calendar

def isLeap (year : Nat) : Bool := year % 4 == 0 && (year % 100 != 0 || year % 400 == 0)

def yearDays (year : Nat) : Nat := if isLeap year then 366 else 365

def monthDays (leap : Bool) : Nat → Nat
  | 2 => if leap then 29 else 28
  | 4 | 6 | 9 | 11 => 30
  | 1 | 3 | 5 | 7 | 8 | 10 | 12 => 31
  | _ => 0

/-- The days before a year. -/
def yearStart : Nat → Nat
  | 0 => 0
  | year + 1 => yearStart year + yearDays year

/-- The days of a year before a month. -/
def monthStart (leap : Bool) : Nat → Nat
  | 0 => 0
  | month + 1 => monthStart leap month + monthDays leap month

structure Date where
  year : Nat
  month : Nat
  day : Nat
  month_valid : 1 ≤ month ∧ month ≤ 12
  day_valid : 1 ≤ day ∧ day ≤ monthDays (isLeap year) month

namespace Date

def number (date : Date) : Nat :=
  yearStart date.year + monthStart (isLeap date.year) date.month + (date.day - 1)

/-- The order of the fields, the year first. -/
def Before (first second : Date) : Prop :=
  first.year < second.year ∨ first.year = second.year ∧
    (first.month < second.month ∨ first.month = second.month ∧ first.day < second.day)

end Date

section Years

theorem isLeap_iff (year : Nat) :
    isLeap year = true ↔ year % 4 = 0 ∧ (year % 100 ≠ 0 ∨ year % 400 = 0) := by
  simp [isLeap]

/-- The leap years before a year. -/
theorem yearStart_eq (year : Nat) :
    yearStart year + (year + 99) / 100 = 365 * year + (year + 3) / 4 + (year + 399) / 400 := by
  induction year with
  | zero => rfl
  | succ year ih =>
    rw [yearStart, yearDays]
    by_cases leap : isLeap year = true
    · rw [if_pos leap]
      rw [isLeap_iff] at leap
      omega
    · rw [if_neg leap]
      rw [isLeap_iff] at leap
      omega

theorem isLeap_add_era (year era : Nat) : isLeap (year + 400 * era) = isLeap year := by
  rw [Bool.eq_iff_iff, isLeap_iff, isLeap_iff]
  omega

/-- Every four hundred years the calendar begins again. -/
theorem yearStart_add_era (year era : Nat) :
    yearStart (year + 400 * era) = yearStart year + 146097 * era := by
  have here := yearStart_eq year
  have there := yearStart_eq (year + 400 * era)
  omega

theorem yearStart_mono {first second : Nat} (le : first ≤ second) :
    yearStart first ≤ yearStart second := by
  induction le with
  | refl => exact Nat.le_refl _
  | step _ ih =>
    rw [yearStart]
    omega

theorem monthStart_mono {leap : Bool} {first second : Nat} (le : first ≤ second) :
    monthStart leap first ≤ monthStart leap second := by
  induction le with
  | refl => exact Nat.le_refl _
  | step _ ih =>
    rw [monthStart]
    omega

theorem monthStart_thirteen (leap : Bool) :
    monthStart leap 13 = if leap then 366 else 365 := by
  cases leap <;> rfl

end Years

namespace Date

variable {first second : Date}

/-- A date lies in its year, and in its month. -/
theorem number_lt_next_month (date : Date) :
    date.number < yearStart date.year + monthStart (isLeap date.year) (date.month + 1) := by
  have day := date.day_valid
  unfold number
  rw [monthStart]
  omega

theorem day_le (date : Date) : date.day ≤ 31 := by
  have day := date.day_valid
  have longest : monthDays (isLeap date.year) date.month ≤ 31 := by
    unfold monthDays
    split <;> (try split) <;> decide
  omega

theorem number_lt_next_year (date : Date) : date.number < yearStart (date.year + 1) := by
  have month := date.number_lt_next_month
  have last := @monthStart_mono (isLeap date.year) (date.month + 1) 13
    (by have := date.month_valid; omega)
  rw [monthStart_thirteen] at last
  rw [yearStart, yearDays]
  omega

theorem yearStart_le_number (date : Date) : yearStart date.year ≤ date.number := by
  unfold number
  omega

/-- The numbers follow the order of the fields. -/
theorem number_lt_of_before (before : Before first second) : first.number < second.number := by
  rcases before with year | ⟨sameYear, month | ⟨sameMonth, day⟩⟩
  · have ends := first.number_lt_next_year
    have begins := second.yearStart_le_number
    have between := @yearStart_mono (first.year + 1) second.year (by omega)
    omega
  · have ends := first.number_lt_next_month
    have between := @monthStart_mono (isLeap second.year) (first.month + 1) second.month (by omega)
    have begins : yearStart second.year + monthStart (isLeap second.year) second.month ≤
      second.number := Nat.le_add_right ..
    rw [sameYear] at ends
    omega
  · have valid := first.day_valid.1
    unfold number
    rw [sameYear, sameMonth]
    omega

theorem not_before_of_le (le : first.number ≤ second.number) : ¬ Before second first := by
  intro before
  have := number_lt_of_before before
  omega

/-- A day has one date. -/
theorem number_inj (same : first.number = second.number) : first = second := by
  have left := not_before_of_le (Nat.le_of_eq same)
  have right := not_before_of_le (Nat.le_of_eq same.symm)
  unfold Before at left right
  obtain ⟨year, month, day, _, _⟩ := first
  obtain ⟨year', month', day', _, _⟩ := second
  dsimp only at left right
  have fields : year = year' ∧ month = month' ∧ day = day' := by omega
  obtain ⟨rfl, rfl, rfl⟩ := fields
  rfl

end Date

end Warpine.Lib.Calendar
