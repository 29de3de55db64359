import Mathlib.Order.Basic
import Mathlib.Tactic.IntervalCases
import Mathlib.Tactic.Ring

/-!
# The proleptic Gregorian calendar

The days are counted from the first day of the year 0, by the lengths of the
years and of the months.  Valid dates are a structure, and the count orders
them by year, month and day.
-/

namespace Tcslog.Lib.Calendar

/-- Every fourth year is a leap year, except the centuries that 400 does not divide. -/
def isLeap (year : Nat) : Prop :=
  year % 4 = 0 ∧ (year % 100 ≠ 0 ∨ year % 400 = 0)

instance (year : Nat) : Decidable (isLeap year) :=
  inferInstanceAs (Decidable (_ ∧ _))

def yearLength (year : Nat) : Nat :=
  if isLeap year then 366 else 365

/-- The length of a month, the months being numbered from 1. -/
def monthLength (year : Nat) : Nat → Nat
  | 1 | 3 | 5 | 7 | 8 | 10 | 12 => 31
  | 4 | 6 | 9 | 11 => 30
  | 2 => if isLeap year then 29 else 28
  | _ => 0

theorem monthLength_le (year month : Nat) : monthLength year month ≤ 31 := by
  by_cases leap : isLeap year <;> simp only [monthLength, leap, if_true, if_false] <;> split <;> omega

def daysBeforeYear : Nat → Nat
  | 0 => 0
  | year + 1 => daysBeforeYear year + yearLength year

/-- The days of a year before its month `month`. -/
def daysBeforeMonth (year : Nat) : Nat → Nat
  | 0 => 0
  | month + 1 => daysBeforeMonth year month + monthLength year month

/-- A date of the calendar. -/
@[ext]
structure Date where
  year : Nat
  month : Nat
  day : Nat
  month_pos : 1 ≤ month
  month_le : month ≤ 12
  day_pos : 1 ≤ day
  day_le : day ≤ monthLength year month

/-- The number of days before a date. -/
def Date.count (date : Date) : Nat :=
  daysBeforeYear date.year + daysBeforeMonth date.year date.month + (date.day - 1)

/-! ## Years -/

theorem daysBeforeYear_eq (year : Nat) :
    daysBeforeYear year + (year + 99) / 100 = 365 * year + (year + 3) / 4 + (year + 399) / 400 := by
  induction year with
  | zero => rfl
  | succ year ih =>
      rw [daysBeforeYear, yearLength]
      split
      case isTrue leap =>
        rw [isLeap] at leap
        omega
      case isFalse common =>
        rw [isLeap] at common
        omega

theorem daysBeforeYear_le {year year' : Nat} (less : year < year') :
    daysBeforeYear year + yearLength year ≤ daysBeforeYear year' := by
  induction less with
  | refl => exact Nat.le_refl _
  | step _ ih => exact ih.trans (Nat.le_add_right _ _)

/-! ## Months -/

theorem daysBeforeMonth_le {year month month' : Nat} (less : month < month') :
    daysBeforeMonth year month + monthLength year month ≤ daysBeforeMonth year month' := by
  induction less with
  | refl => exact Nat.le_refl _
  | step _ ih => exact ih.trans (Nat.le_add_right _ _)

/-- The twelve months make up the year. -/
theorem daysBeforeMonth_thirteen (year : Nat) : daysBeforeMonth year 13 = yearLength year := by
  by_cases leap : isLeap year <;> simp [daysBeforeMonth, monthLength, yearLength, leap]

namespace Date

variable {date date' : Date}

/-! ## The order of the dates -/

theorem count_lt_of_year_lt (less : date.year < date'.year) : date.count < date'.count := by
  have years := daysBeforeYear_le less
  have months : daysBeforeMonth date.year date.month + monthLength date.year date.month ≤
      yearLength date.year := by
    rw [← daysBeforeMonth_thirteen]
    exact daysBeforeMonth_le (Nat.lt_succ_of_le date.month_le)
  have days := date.day_le
  have first := date.day_pos
  rw [count, count]
  omega

theorem count_lt_of_month_lt (same : date.year = date'.year) (less : date.month < date'.month) :
    date.count < date'.count := by
  have months : daysBeforeMonth date.year date.month + monthLength date.year date.month ≤
      daysBeforeMonth date.year date'.month := daysBeforeMonth_le less
  have days := date.day_le
  have first := date.day_pos
  rw [count, count, ← same]
  omega

/-- The earlier of two dates has the earlier year, in one year the earlier month, and in one
month the earlier day. -/
theorem lex_of_count_lt (less : date.count < date'.count) :
    date.year < date'.year ∨ date.year = date'.year ∧ (date.month < date'.month ∨
      date.month = date'.month ∧ date.day < date'.day) := by
  rcases Nat.lt_trichotomy date.year date'.year with year | year | year
  · exact .inl year
  · refine .inr ⟨year, ?_⟩
    rcases Nat.lt_trichotomy date.month date'.month with month | month | month
    · exact .inl month
    · refine .inr ⟨month, ?_⟩
      rw [count, count, year, month] at less
      omega
    · exact absurd (count_lt_of_month_lt year.symm month) less.asymm
  · exact absurd (count_lt_of_year_lt year) less.asymm

theorem count_injective (same : date.count = date'.count) : date = date' := by
  have year : date.year = date'.year := by
    rcases Nat.lt_trichotomy date.year date'.year with less | year | more
    · exact absurd same (count_lt_of_year_lt less).ne
    · exact year
    · exact absurd same (count_lt_of_year_lt more).ne'
  have month : date.month = date'.month := by
    rcases Nat.lt_trichotomy date.month date'.month with less | month | more
    · exact absurd same (count_lt_of_month_lt year less).ne
    · exact month
    · exact absurd same (count_lt_of_month_lt year.symm more).ne'
  have first := date.day_pos
  have first' := date'.day_pos
  rw [count, count, year, month] at same
  exact Date.ext year month (by omega)

end Date

/-! ## Years that start in March -/

/-- The days before the March of a year, less the days up to the March of the year 0. -/
def daysBeforeMarch (year : Nat) : Nat :=
  365 * year + year / 4 - year / 100 + year / 400

/-- January and February are a year but for 306 days, leap day or not. -/
theorem daysBeforeMonth_three (year : Nat) : daysBeforeMonth year 3 + 306 = yearLength year := by
  by_cases leap : isLeap year <;> simp [daysBeforeMonth, monthLength, yearLength, leap]

theorem daysBeforeMarch_eq (year : Nat) :
    daysBeforeMarch year + 60 = daysBeforeYear year + daysBeforeMonth year 3 := by
  have following : daysBeforeYear (year + 1) = daysBeforeYear year + yearLength year := rfl
  have months := daysBeforeMonth_three year
  have years := daysBeforeYear_eq (year + 1)
  rw [daysBeforeMarch]
  omega

/-- The months from March on have the same lengths in all years, 153 days in five months. -/
theorem daysBeforeMonth_march {year month : Nat} (small : month < 10) :
    daysBeforeMonth year (month + 3) = daysBeforeMonth year 3 + (153 * month + 2) / 5 := by
  interval_cases month <;> simp [daysBeforeMonth, monthLength]

theorem monthLength_march (year : Nat) {month : Nat} (small : month < 10) :
    monthLength year (month + 3) + (153 * month + 2) / 5 = (153 * month + 155) / 5 := by
  interval_cases month <;> simp [monthLength]

/-- January follows 306 days after the start of March. -/
theorem daysBeforeYear_succ (year : Nat) :
    daysBeforeYear (year + 1) = daysBeforeMarch year + 60 + 306 := by
  have following : daysBeforeYear (year + 1) = daysBeforeYear year + yearLength year := rfl
  have months := daysBeforeMonth_three year
  have march := daysBeforeMarch_eq year
  omega

/-- The day `doy` of a year that starts in March, as a date of the calendar. -/
theorem exists_date_of_march (year : Nat) {doy : Nat} (within : doy < 365 ∨ doy = 365 ∧ isLeap (year + 1)) :
    ∃ date : Date, date.count = daysBeforeMarch year + 60 + doy ∧
      date.month = (if (5 * doy + 2) / 153 < 10 then (5 * doy + 2) / 153 + 3
        else (5 * doy + 2) / 153 - 9) ∧
      date.year = (if date.month ≤ 2 then year + 1 else year) ∧
      date.day = doy - (153 * ((5 * doy + 2) / 153) + 2) / 5 + 1 := by
  have march := daysBeforeMarch_eq year
  have january := daysBeforeYear_succ year
  generalize mp_eq : (5 * doy + 2) / 153 = mp
  have low : 153 * mp ≤ 5 * doy + 2 := by omega
  have high : 5 * doy + 2 < 153 * mp + 153 := by omega
  by_cases early : mp < 10
  · have length := monthLength_march year early
    refine ⟨⟨year, mp + 3, doy - (153 * mp + 2) / 5 + 1, by omega, by omega, by omega, by omega⟩, ?_⟩
    simp only [Date.count, daysBeforeMonth_march early, early, if_true]
    refine ⟨by omega, trivial, ?_, trivial⟩
    rw [if_neg (by omega)]
  · rcases (by omega : mp = 10 ∨ mp = 11) with rfl | rfl
    · have length : doy - 306 + 1 ≤ monthLength (year + 1) 1 := by
        simp only [monthLength]
        omega
      refine ⟨⟨year + 1, 1, doy - 306 + 1, by omega, by omega, by omega, length⟩, ?_⟩
      simp only [Date.count, daysBeforeMonth, monthLength]
      exact ⟨by omega, rfl, rfl, trivial⟩
    · have length : doy - 337 + 1 ≤ monthLength (year + 1) 2 := by
        simp only [monthLength]
        split
        case isTrue leap => omega
        case isFalse common =>
          rcases within with within | ⟨-, leap⟩
          · omega
          · contradiction
      refine ⟨⟨year + 1, 2, doy - 337 + 1, by omega, by omega, by omega, length⟩, ?_⟩
      simp only [Date.count, daysBeforeMonth, monthLength]
      exact ⟨by omega, rfl, rfl, trivial⟩

/-! ## Eras of 400 years -/

/-- A division into parts of one length and a last part that is a day longer. -/
theorem exists_parts (n length count : Nat) (within : n ≤ length * (count + 1)) (pos : 0 < length) :
    ∃ part rest, part ≤ count ∧ rest ≤ length ∧ n = length * part + rest ∧
      (rest = length → part = count) := by
  rcases Nat.lt_or_eq_of_le within with less | rfl
  · have small := Nat.mod_lt n pos
    refine ⟨n / length, n % length, ?_, small.le, (Nat.div_add_mod n length).symm, ?_⟩
    · exact Nat.le_of_lt_succ (Nat.div_lt_of_lt_mul less)
    · intro last
      exact absurd last small.ne
  · exact ⟨count, length, Nat.le_refl _, Nat.le_refl _, Nat.mul_succ length count, fun _ => rfl⟩

/-- A day of an era by centuries, groups of four years, years and days: the last day of a group
is the leap day, and it is missing from the last group but in the last century. -/
theorem exists_groups {doe : Nat} (within : doe < 146097) :
    ∃ century group year day, century ≤ 3 ∧ group ≤ 24 ∧ year ≤ 3 ∧ day ≤ 365 ∧
      doe = 36524 * century + 1461 * group + 365 * year + day ∧
      (day = 365 → year = 3 ∧ (group = 24 → century = 3)) := by
  obtain ⟨century, rest, century_le, rest_le, rfl, century_last⟩ :=
    exists_parts doe 36524 3 (by omega) (by omega)
  obtain ⟨year, day, year_le, day_le, split, year_last⟩ :=
    exists_parts (rest % 1461) 365 3 (by omega) (by omega)
  refine ⟨century, rest / 1461, year, day, century_le, by omega, year_le, day_le, by omega, ?_⟩
  intro last
  refine ⟨year_last last, fun group_last => century_last ?_⟩
  have := year_last last
  omega

/-- The year of an era that a day falls in, by the days that the year is short of 365.25. -/
theorem year_of_era {doe century group year day : Nat} (century_le : century ≤ 3)
    (group_le : group ≤ 24) (year_le : year ≤ 3) (day_le : day ≤ 365)
    (split : doe = 36524 * century + 1461 * group + 365 * year + day)
    (leap : day = 365 → year = 3 ∧ (group = 24 → century = 3)) :
    (doe - doe / 1460 + doe / 36524 - doe / 146096) / 365 = 100 * century + 4 * group + year := by
  rcases Nat.lt_or_eq_of_le day_le with common | rfl
  · have quarters : doe / 1460 =
        25 * century + group + (24 * century + group + 365 * year + day) / 1460 := by omega
    have centuries : doe / 36524 = century := by omega
    have eras : doe / 146096 = 0 := by omega
    have beyond : (24 * century + group + 365 * year + day) / 1460 ≤ day := by
      rcases Nat.eq_zero_or_pos day with rfl | pos
      · omega
      · omega
    generalize (24 * century + group + 365 * year + day) / 1460 = extra at *
    rw [quarters, centuries, eras, Nat.div_eq_iff (by omega)]
    constructor
    · omega
    · omega
  · obtain ⟨rfl, last⟩ := leap rfl
    have quarters : doe / 1460 = 25 * century + group + 1 := by omega
    rcases Nat.lt_or_eq_of_le group_le with inner | rfl
    · have centuries : doe / 36524 = century := by omega
      have eras : doe / 146096 = 0 := by omega
      rw [quarters, centuries, eras, Nat.div_eq_iff (by omega)]
      omega
    · obtain rfl := last rfl
      subst split
      rfl

theorem daysBeforeMarch_add_eras (year era : Nat) :
    daysBeforeMarch (year + era * 400) = daysBeforeMarch year + 146097 * era := by
  rw [daysBeforeMarch, daysBeforeMarch]
  omega

/-! ## Times of day -/

/-- A date with a time of the day, to the nanosecond. -/
@[ext]
structure Moment extends Date where
  hour : Nat
  minute : Nat
  second : Nat
  nano : Nat
  hour_lt : hour < 24
  minute_lt : minute < 60
  second_lt : second < 60
  nano_lt : nano < 10 ^ 9

/-- The number of nanoseconds before a moment. -/
def Moment.count (moment : Moment) : Nat :=
  (((moment.toDate.count * 24 + moment.hour) * 60 + moment.minute) * 60 + moment.second) * 10 ^ 9 +
    moment.nano

end Tcslog.Lib.Calendar
