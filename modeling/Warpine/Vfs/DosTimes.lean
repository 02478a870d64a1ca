import Mathlib.Data.UInt
import Mathlib.Order.Monotone.Basic
import Warpine.Lib.Calendar
import Warpine.Lib.Words
import Warpine.Vfs.HostDir

/-! The times of a file as the guest sees them: a day of the host's clock is turned into a
date of the Gregorian calendar and packed into two words. -/
namespace Warpine.Vfs
open Warpine.Lib Calendar

def nanosPerSec : Int := 1000000000

/-- The seconds of a clock that counts nanoseconds from 1970 on. What is before counts as the
start. -/
def asSecs (st : Int) : Nat := (st / nanosPerSec).toNat

section Eras

/-- The days of an era before a year of it. -/
def eraStart (yoe : Nat) : Nat := 365 * yoe + yoe / 4 - yoe / 100

/-- The last year of an era has a leap day at its end. -/
def eraLast (yoe : Nat) : Nat := if yoe = 399 then 146096 else eraStart (yoe + 1) - 1

def yearOfEra (doe : Nat) : Nat := (doe - doe / 1460 + doe / 36524 - doe / 146096) / 365

theorem yearOfEra_mono : Monotone yearOfEra := by
  suffices h : Monotone fun doe => doe - doe / 1460 + doe / 36524 - doe / 146096 from
    fun _ _ le => Nat.div_le_div_right (h le)
  apply monotone_nat_of_le_succ
  intro doe
  have fourth : (doe + 1) / 146096 - doe / 146096 ≤ (doe + 1) / 36524 - doe / 36524 := by
    rw [Nat.succ_div, Nat.succ_div]
    by_cases whole : 146096 ∣ doe + 1
    · rw [if_pos whole, if_pos (Nat.dvd_trans (by decide) whole)]
      omega
    · rw [if_neg whole]
      omega
  have small : (doe + 1) / 1460 ≤ doe / 1460 + 1 := by omega
  have order : doe / 146096 ≤ doe / 36524 := by omega
  have order' : (doe + 1) / 146096 ≤ (doe + 1) / 36524 := by omega
  have grows : doe / 36524 ≤ (doe + 1) / 36524 := by omega
  have grows' : doe / 146096 ≤ (doe + 1) / 146096 := by omega
  have less : doe / 1460 ≤ doe := Nat.div_le_self ..
  have less' : (doe + 1) / 1460 ≤ doe + 1 := Nat.div_le_self ..
  omega

set_option synthInstance.maxSize 512 in
/-- The years of an era: the formula at the first and the last day of each, and the calendar,
in which the year begins with a January. Then the months from March on, which belong to the same
year of the calendar, and January and February, which are the last. -/
theorem era_checked :
    (∀ yoe < 400, (yearOfEra (eraStart yoe) = yoe ∧ yearOfEra (eraLast yoe) = yoe) ∧
      yearStart yoe + (if isLeap yoe then 1 else 0) = eraStart yoe + 1 ∧
        yearStart (yoe + 1) = eraStart yoe + 366 ∧
          (eraLast yoe = eraStart yoe + 365 → isLeap (yoe + 1) = true) ∧
            eraLast yoe ≤ eraStart yoe + 365) ∧
    (∀ leap : Bool, ∀ doy < 306, (5 * doy + 2) / 153 < 10 ∧
      doy - (153 * ((5 * doy + 2) / 153) + 2) / 5 + 1 ≤ monthDays leap ((5 * doy + 2) / 153 + 3) ∧
        monthStart leap ((5 * doy + 2) / 153 + 3) +
          (doy - (153 * ((5 * doy + 2) / 153) + 2) / 5) = doy + 59 + if leap then 1 else 0) ∧
    (∀ leap : Bool, ∀ doy < 366, 306 ≤ doy → (doy = 365 → leap = true) →
      ((5 * doy + 2) / 153 = 10 ∨ (5 * doy + 2) / 153 = 11) ∧
        doy - (153 * ((5 * doy + 2) / 153) + 2) / 5 + 1 ≤ monthDays leap ((5 * doy + 2) / 153 - 9) ∧
          monthStart leap ((5 * doy + 2) / 153 - 9) +
            (doy - (153 * ((5 * doy + 2) / 153) + 2) / 5) + 306 = doy) := by
  decide +kernel

/-- A day of an era lies in the year that the formula gives. -/
theorem yearOfEra_spec {doe : Nat} (inside : doe < 146097) :
    yearOfEra doe < 400 ∧ eraStart (yearOfEra doe) ≤ doe ∧ doe ≤ eraLast (yearOfEra doe) := by
  have top : yearOfEra doe ≤ 399 := by
    have last := yearOfEra_mono (show doe ≤ 146096 by omega)
    have value : yearOfEra 146096 = 399 := by decide
    omega
  refine ⟨by omega, ?_, ?_⟩
  · by_contra early
    have some_ : yearOfEra doe ≠ 0 := by
      intro none
      rw [none] at early
      exact early (Nat.zero_le _)
    -- then the day lies in the year before, or earlier
    have before := (era_checked.1 (yearOfEra doe - 1) (by omega)).1.2
    have last : eraLast (yearOfEra doe - 1) = eraStart (yearOfEra doe) - 1 := by
      unfold eraLast
      rw [if_neg (by omega), Nat.sub_add_cancel (by omega)]
    have le := yearOfEra_mono (show doe ≤ eraLast (yearOfEra doe - 1) by omega)
    omega
  · by_contra late
    by_cases end_ : yearOfEra doe = 399
    · rw [end_] at late
      have value : eraLast 399 = 146096 := rfl
      omega
    · have after := (era_checked.1 (yearOfEra doe + 1) (by omega)).1.1
      have last : eraLast (yearOfEra doe) = eraStart (yearOfEra doe + 1) - 1 := if_neg end_
      have le := yearOfEra_mono (show eraStart (yearOfEra doe + 1) ≤ doe by omega)
      omega

end Eras

def epoch : Date := ⟨1970, 1, 1, by decide, by decide⟩

/-- The first day of a year. -/
theorem number_january {date : Date} (month : date.month = 1) (day : date.day = 1) :
    date.number = yearStart date.year := by
  unfold Date.number
  rw [month, day]
  rfl

theorem epoch_number : epoch.number = 719528 := by
  have start := yearStart_eq 1970
  rw [number_january rfl rfl, show epoch.year = 1970 from rfl]
  omega

/-- The algorithm gives the date with the day's number. -/
theorem daysToYmd_date (days : Nat) : ∃ date : Date,
    date.number = epoch.number + days ∧ daysToYmd days = (date.year, date.month, date.day) := by
  let doe := (days + 719468) % 146097
  let era := (days + 719468) / 146097
  have inside : doe < 146097 := Nat.mod_lt _ (by decide)
  obtain ⟨top, low, high⟩ := yearOfEra_spec inside
  obtain ⟨_, here, next, leapDay, longest⟩ := era_checked.1 _ top
  have whole : doe + 146097 * era = days + 719468 := Nat.mod_add_div ..
  have result : daysToYmd days =
      let doy := doe - eraStart (yearOfEra doe)
      let mp := (5 * doy + 2) / 153
      let m := if mp < 10 then mp + 3 else mp - 9
      let y := yearOfEra doe + era * 400
      (if m ≤ 2 then y + 1 else y, m, doy - (153 * mp + 2) / 5 + 1) := by
    have rest : days + 719468 - era * 146097 = doe := by omega
    unfold daysToYmd
    dsimp only
    rw [rest]
    rfl
  rw [epoch_number, result]
  dsimp only
  generalize yearOfEra doe = yoe at *
  obtain ⟨doy, hdoy⟩ : ∃ doy, doy = doe - eraStart yoe := ⟨_, rfl⟩
  rw [← hdoy]
  by_cases spring : doy < 306
  · -- from March on the year is the one of the era
    have leap := isLeap_add_era yoe era
    have start := yearStart_add_era yoe era
    have months := era_checked.2.1 (isLeap yoe) doy spring
    generalize (5 * doy + 2) / 153 = mp at months ⊢
    generalize doy - (153 * mp + 2) / 5 = day at months ⊢
    obtain ⟨month, inMonth, number⟩ := months
    refine ⟨⟨yoe + 400 * era, mp + 3, day + 1, by omega, by rw [leap]; omega⟩, ?_, ?_⟩
    · unfold Date.number
      dsimp only
      rw [leap, start]
      omega
    · rw [if_pos month, if_neg (by omega)]
      exact Prod.ext (by dsimp only; omega) rfl
  · -- January and February belong to the next one
    have leap := isLeap_add_era (yoe + 1) era
    have start := yearStart_add_era (yoe + 1) era
    have months := era_checked.2.2 (isLeap (yoe + 1)) doy (by omega) (by omega)
      (fun last => leapDay (by omega))
    generalize (5 * doy + 2) / 153 = mp at months ⊢
    generalize doy - (153 * mp + 2) / 5 = day at months ⊢
    obtain ⟨month, inMonth, number⟩ := months
    refine ⟨⟨yoe + 1 + 400 * era, mp - 9, day + 1, by omega, by rw [leap]; omega⟩, ?_, ?_⟩
    · unfold Date.number
      dsimp only
      rw [leap, start]
      omega
    · rw [if_neg (show ¬ mp < 10 by omega), if_pos (by omega)]
      exact Prod.ext (by dsimp only; omega) rfl

/-- An instant of universal time, to the second. -/
structure Utc where
  date : Date
  hour : Nat
  minute : Nat
  second : Nat
  time_valid : hour < 24 ∧ minute < 60 ∧ second < 60

namespace Utc

/-- The seconds from the start of 1970 on. -/
def stamp (utc : Utc) : Int :=
  ((utc.date.number : Int) - epoch.number) * 86400 +
    (utc.hour * 3600 + utc.minute * 60 + utc.second : Nat)

def midnight (date : Date) : Utc := ⟨date, 0, 0, 0, by decide⟩

/-- An instant is shown in one way. -/
theorem stamp_inj {first second : Utc} (same : first.stamp = second.stamp) : first = second := by
  have valid := first.time_valid
  have valid' := second.time_valid
  unfold stamp at same
  have day : first.date = second.date := Date.number_inj (by omega)
  have time : first.hour = second.hour ∧ first.minute = second.minute ∧
      first.second = second.second := by
    rw [day] at same
    omega
  obtain ⟨date, hour, minute, sec, _⟩ := first
  obtain ⟨date', hour', minute', sec', _⟩ := second
  dsimp only at day time
  obtain ⟨rfl, rfl, rfl⟩ := time
  rw [Utc.mk.injEq]
  exact ⟨day, rfl, rfl, rfl⟩

end Utc

def firstDos : Date := ⟨1980, 1, 1, by decide, by decide⟩
def pastDos : Date := ⟨2108, 1, 1, by decide, by decide⟩

/-- A host time from 1980-01-01 to the end of 2107-12-31. -/
def InDosRange (st : Int) : Prop :=
  (Utc.midnight firstDos).stamp * nanosPerSec ≤ st ∧
    st < (Utc.midnight pastDos).stamp * nanosPerSec

instance (st : Int) : Decidable (InDosRange st) :=
  inferInstanceAs (Decidable (_ ∧ _))

theorem firstDos_number : firstDos.number = 723180 := by
  have start := yearStart_eq 1980
  rw [number_january rfl rfl, show firstDos.year = 1980 from rfl]
  omega

theorem pastDos_number : pastDos.number = 769931 := by
  have start := yearStart_eq 2108
  rw [number_january rfl rfl, show pastDos.year = 2108 from rfl]
  omega

theorem Utc.stamp_midnight (date : Date) :
    (Utc.midnight date).stamp = ((date.number : Int) - 719528) * 86400 := by
  unfold Utc.stamp Utc.midnight
  dsimp only
  rw [epoch_number]
  omega

theorem inDosRange_iff {st : Int} : InDosRange st ↔
    315532800 * nanosPerSec ≤ st ∧ st < 4354819200 * nanosPerSec := by
  unfold InDosRange
  rw [Utc.stamp_midnight, Utc.stamp_midnight, firstDos_number, pastDos_number]
  exact Iff.rfl

/-- The year, the month and the day in seven, four and five bits. -/
def unpackDate (word : UInt16) : Nat × Nat × Nat :=
  (1980 + word.toNat / 512, word.toNat / 32 % 16, word.toNat % 32)

/-- The hour, the minute and the second in five, six and five bits. -/
def unpackTime (word : UInt16) : Nat × Nat × Nat :=
  (word.toNat / 2048, word.toNat / 32 % 64, word.toNat % 32 * 2)

/-- The two words in the order of their weight. -/
def dosStamp (words : UInt16 × UInt16) : Nat := words.1.toNat * u16Size + words.2.toNat

section Packing

/-- Three fields of a word, of which the lower ones have `low` and `middle` bits. -/
theorem packed_toNat (middle low : UInt16) {a b c : Nat}
    (bits : low.toNat + middle.toNat < 16)
    (ha : a < 2 ^ (16 - (low.toNat + middle.toNat))) (hb : b < 2 ^ middle.toNat)
    (hc : c < 2 ^ low.toNat) :
    (UInt16.ofNat a <<< (low + middle) ||| UInt16.ofNat b <<< low ||| UInt16.ofNat c).toNat =
      2 ^ (low.toNat + middle.toNat) * a + (2 ^ low.toNat * b + c) := by
  have places : (low + middle).toNat = low.toNat + middle.toNat := by
    rw [UInt16.toNat_add, Nat.mod_eq_of_lt (by omega)]
  have split : 2 ^ (low.toNat + middle.toNat) * 2 ^ (16 - (low.toNat + middle.toNat)) = 2 ^ 16 := by
    rw [← Nat.pow_add, Nat.add_sub_cancel' (by omega)]
  have half : 2 ^ (low.toNat + middle.toNat) = 2 ^ low.toNat * 2 ^ middle.toNat := Nat.pow_add ..
  have lower : 2 ^ low.toNat * b + c < 2 ^ (low.toNat + middle.toNat) := by
    have := Nat.mul_le_mul_left (2 ^ low.toNat) (show b + 1 ≤ 2 ^ middle.toNat from hb)
    rw [half]
    rw [Nat.mul_add] at this
    omega
  have whole : 2 ^ (low.toNat + middle.toNat) * a + (2 ^ low.toNat * b + c) < 2 ^ 16 := by
    have := Nat.mul_le_mul_left (2 ^ (low.toNat + middle.toNat))
      (show a + 1 ≤ 2 ^ (16 - (low.toNat + middle.toNat)) from ha)
    rw [split, Nat.mul_add] at this
    omega
  have small : 2 ^ (16 - (low.toNat + middle.toNat)) ≤ 2 ^ 16 :=
    Nat.pow_le_pow_right (by decide) (by omega)
  have small' : 2 ^ middle.toNat ≤ 2 ^ 16 := Nat.pow_le_pow_right (by decide) (by omega)
  have small'' : 2 ^ low.toNat ≤ 2 ^ 16 := Nat.pow_le_pow_right (by decide) (by omega)
  rw [UInt16.or_assoc, UInt16.toNat_or, UInt16.toNat_or, UInt16.toNat_shiftLeft,
    UInt16.toNat_shiftLeft, UInt16.toNat_ofNat_of_lt' (by unfold UInt16.size; omega),
    UInt16.toNat_ofNat_of_lt' (by unfold UInt16.size; omega),
    UInt16.toNat_ofNat_of_lt' (by unfold UInt16.size; omega), places,
    Nat.mod_eq_of_lt bits, Nat.mod_eq_of_lt (show low.toNat < 16 by omega),
    Nat.shiftLeft_eq, Nat.shiftLeft_eq, Nat.mul_comm a, Nat.mul_comm b,
    Nat.mod_eq_of_lt (by omega), Nat.mod_eq_of_lt (by omega),
    ← Nat.two_pow_add_eq_or_of_lt hc, ← Nat.two_pow_add_eq_or_of_lt lower]

end Packing

/-- The words of a host time, by the instant that the clock shows. -/
theorem systemtimeToDos_utc {st : Int} (inRange : InDosRange st) : ∃ utc : Utc,
    utc.stamp = st / nanosPerSec ∧ 1980 ≤ utc.date.year ∧ utc.date.year < 2108 ∧
      (systemtimeToDos (asSecs st)).1.toNat =
        512 * (utc.date.year - 1980) + (32 * utc.date.month + utc.date.day) ∧
      (systemtimeToDos (asSecs st)).2.toNat =
        2048 * utc.hour + (32 * utc.minute + utc.second / 2) := by
  have first := firstDos_number
  rw [inDosRange_iff] at inRange
  unfold nanosPerSec at inRange
  obtain ⟨secs, hsecs⟩ : ∃ secs : Nat, st / nanosPerSec = secs :=
    Int.eq_ofNat_of_zero_le (by unfold nanosPerSec; omega)
  have bounds : 315532800 ≤ secs ∧ secs < 4354819200 := by
    unfold nanosPerSec at hsecs
    omega
  obtain ⟨date, number, ymd⟩ := daysToYmd_date (secs / 86400)
  rw [epoch_number] at number
  have early : ¬ Date.Before date firstDos := Date.not_before_of_le (by omega)
  have late : date.year < 2108 := by
    by_contra far
    have begins := Date.yearStart_le_number date
    have mono := @yearStart_mono 2108 date.year (by omega)
    have value := yearStart_eq 2108
    omega
  have year : 1980 ≤ date.year := by
    by_contra before
    exact early (Or.inl (by unfold firstDos; dsimp only; omega))
  have whole : asSecs st = secs := by
    rw [asSecs, hsecs]
    rfl
  have month := date.month_valid
  have day := date.day_valid
  have longest := date.day_le
  refine ⟨⟨date, secs % 86400 / 3600, secs % 86400 % 3600 / 60, secs % 86400 % 60, by omega⟩,
    ?_, year, late, ?_, ?_⟩
  · unfold Utc.stamp
    dsimp only
    rw [hsecs, epoch_number]
    omega
  · unfold systemtimeToDos
    dsimp only
    rw [whole, ymd]
    apply packed_toNat 4 5 (by decide)
    · exact show date.year - 1980 < 128 by omega
    · exact show date.month < 16 by omega
    · exact show date.day < 32 by omega
  · unfold systemtimeToDos
    dsimp only
    rw [whole]
    have halved : UInt16.ofNat (secs % 86400 % 60) / 2 = UInt16.ofNat (secs % 86400 % 60 / 2) := by
      apply UInt16.toNat.inj
      rw [UInt16.toNat_div, UInt16.toNat_ofNat_of_lt' (by unfold UInt16.size; omega),
        UInt16.toNat_ofNat_of_lt' (by unfold UInt16.size; omega)]
      rfl
    rw [halved]
    apply packed_toNat 6 5 (by decide)
    · exact show secs % 86400 / 3600 < 32 by omega
    · exact show secs % 86400 % 3600 / 60 < 64 by omega
    · exact show secs % 86400 % 60 / 2 < 32 by omega

/-- The fields keep the order of the instants. -/
theorem Utc.fields_le {utc utc' : Utc} (order : utc.stamp ≤ utc'.stamp)
    (first : 1980 ≤ utc.date.year) (first' : 1980 ≤ utc'.date.year) :
    (512 * (utc.date.year - 1980) + (32 * utc.date.month + utc.date.day)) * u16Size +
        (2048 * utc.hour + (32 * utc.minute + utc.second / 2)) ≤
      (512 * (utc'.date.year - 1980) + (32 * utc'.date.month + utc'.date.day)) * u16Size +
        (2048 * utc'.hour + (32 * utc'.minute + utc'.second / 2)) := by
  have valid := utc.time_valid
  have valid' := utc'.time_valid
  have longest := utc.date.day_le
  have longest' := utc'.date.day_le
  have months := utc.date.month_valid
  have months' := utc'.date.month_valid
  unfold Utc.stamp at order
  have days := Date.not_before_of_le (show utc.date.number ≤ utc'.date.number by omega)
  unfold u16Size
  by_cases same : utc.date.number = utc'.date.number
  · rw [Date.number_inj same]
    omega
  · have other : utc.date.year ≠ utc'.date.year ∨ utc.date.month ≠ utc'.date.month ∨
        utc.date.day ≠ utc'.date.day := by
      by_contra equal
      apply same
      unfold Date.number
      rw [show utc.date.year = utc'.date.year by omega,
        show utc.date.month = utc'.date.month by omega, show utc.date.day = utc'.date.day by omega]
    unfold Date.Before at days
    omega

/-- In the years that the words can hold, they unpack to the instant of the clock, the seconds
by twos, and a later clock never gives less. -/
theorem dos_words_correct :
    (∀ st, InDosRange st → ∃! utc : Utc, utc.stamp = st / nanosPerSec ∧
      unpackDate (systemtimeToDos (asSecs st)).1 = (utc.date.year, utc.date.month, utc.date.day) ∧
        unpackTime (systemtimeToDos (asSecs st)).2 = (utc.hour, utc.minute, utc.second / 2 * 2)) ∧
      ∀ st later, InDosRange st → InDosRange later → st ≤ later →
        dosStamp (systemtimeToDos (asSecs st)) ≤ dosStamp (systemtimeToDos (asSecs later)) := by
  constructor
  · intro st inRange
    obtain ⟨utc, stamp, first, last, date, time⟩ := systemtimeToDos_utc inRange
    have month := utc.date.month_valid
    have day := utc.date.day_valid
    have longest := utc.date.day_le
    have valid := utc.time_valid
    refine ⟨utc, ⟨stamp, ?_, ?_⟩, fun other shown => Utc.stamp_inj (by rw [shown.1, stamp])⟩
    · unfold unpackDate
      rw [date]
      ext <;> dsimp only <;> omega
    · unfold unpackTime
      rw [time]
      ext <;> dsimp only <;> omega
  · intro st later inRange inRange' le
    obtain ⟨utc, stamp, first, last, date, time⟩ := systemtimeToDos_utc inRange
    obtain ⟨utc', stamp', first', last', date', time'⟩ := systemtimeToDos_utc inRange'
    have order : st / nanosPerSec ≤ later / nanosPerSec := Int.ediv_le_ediv (by decide) le
    rw [← stamp, ← stamp'] at order
    unfold dosStamp
    rw [date, date', time, time']
    exact Utc.fields_le order first first'

theorem dos_words_correct_leap :
    (∃! utc : Utc, utc.stamp = 951827697 ∧
      unpackDate (systemtimeToDos (asSecs 951827697000000000)).1 =
        (utc.date.year, utc.date.month, utc.date.day) ∧
        unpackTime (systemtimeToDos (asSecs 951827697000000000)).2 =
          (utc.hour, utc.minute, utc.second / 2 * 2)) ∧
      dosStamp (systemtimeToDos (asSecs 951827697000000000)) ≤
        dosStamp (systemtimeToDos (asSecs 951827698000000000)) :=
  ⟨dos_words_correct.1 951827697000000000 (inDosRange_iff.mpr (by decide)),
    dos_words_correct.2 951827697000000000 951827698000000000 (inDosRange_iff.mpr (by decide))
      (inDosRange_iff.mpr (by decide)) (by decide)⟩

end Warpine.Vfs
