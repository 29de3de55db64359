import Tcslog.Format
import Tcslog.Lib.Calendar
import Tcslog.Lib.Text

/-!
# Timestamps in text

A timestamp is rendered as its date and time in the Gregorian calendar.  The
date comes from a closed form over eras of 400 years that start in March; it is
compared with the calendar that counts the days of years and months.
-/

namespace Tcslog

open Lib.Calendar Lib.Text

def nanosPerSec : UInt64 := 1000000000

def secsPerDay : UInt64 := 86400

/-- A count of days since 1970-01-01 as year, month and day. -/
def civilFromDays (days : UInt64) : UInt64 × UInt64 × UInt64 :=
  -- the epoch becomes 0000-03-01, so that the leap day ends the year and the era
  let z := days + 719468
  let era := z / 146097
  let doe := z % 146097
  let yoe := (doe - doe / 1460 + doe / 36524 - doe / 146096) / 365
  let year := yoe + era * 400
  let doy := doe - (365 * yoe + yoe / 4 - yoe / 100)
  let mp := (5 * doy + 2) / 153
  let day := doy - (153 * mp + 2) / 5 + 1
  let month := if mp < 10 then mp + 3 else mp - 9
  (if month ≤ 2 then year + 1 else year, month, day)

/-- The text of a timestamp. -/
def writeTimestamp (ts : Timestamp) : List Char :=
  let secs := ts / nanosPerSec
  let nanos := ts % nanosPerSec
  let days := secs / secsPerDay
  let secsOfDay := secs % secsPerDay
  let (year, month, day) := civilFromDays days
  let hour := secsOfDay / 3600
  let minute := secsOfDay % 3600 / 60
  let second := secsOfDay % 60
  padded 4 year.toNat ++ '-' :: padded 2 month.toNat ++ '-' :: padded 2 day.toNat ++
    'T' :: padded 2 hour.toNat ++ ':' :: padded 2 minute.toNat ++ ':' :: padded 2 second.toNat ++
    '.' :: padded 9 nanos.toNat ++ ['Z']

def timestampStrLen : Nat := 30

section Arithmetic

variable {a b : UInt64}

theorem toNat_add_of_lt (fits : a.toNat + b.toNat < 2 ^ 64) :
    (a + b).toNat = a.toNat + b.toNat := by
  rw [UInt64.toNat_add, Nat.mod_eq_of_lt fits]

theorem toNat_mul_of_lt (fits : a.toNat * b.toNat < 2 ^ 64) :
    (a * b).toNat = a.toNat * b.toNat := by
  rw [UInt64.toNat_mul, Nat.mod_eq_of_lt fits]

theorem toNat_sub_of_le (le : b.toNat ≤ a.toNat) :
    (a - b).toNat = a.toNat - b.toNat :=
  UInt64.toNat_sub_of_le _ _ (UInt64.le_iff_toNat_le.mpr le)

end Arithmetic

/-! ## The date -/

/-- The year of the era, and the day of that year. -/
theorem yearOfEra_spec {doe : UInt64} (within : doe.toNat < 146097) :
    ∃ yoe doy, ((doe - doe / 1460 + doe / 36524 - doe / 146096) / 365).toNat = yoe ∧ yoe < 400 ∧
      doe.toNat = 365 * yoe + yoe / 4 - yoe / 100 + doy ∧
      (doy < 365 ∨ doy = 365 ∧ ∀ era, isLeap (yoe + era * 400 + 1)) := by
  obtain ⟨century, group, year, day, century_le, group_le, year_le, day_le, split, leap⟩ :=
    exists_groups within
  have yoe_eq := year_of_era century_le group_le year_le day_le split leap
  have quarters : (doe - doe / 1460).toNat = doe.toNat - doe.toNat / 1460 := by
    rw [toNat_sub_of_le (by rw [UInt64.toNat_div]; exact Nat.div_le_self _ _), UInt64.toNat_div]
    rfl
  have centuries : (doe - doe / 1460 + doe / 36524).toNat =
      doe.toNat - doe.toNat / 1460 + doe.toNat / 36524 := by
    rw [toNat_add_of_lt, quarters, UInt64.toNat_div]
    · rfl
    · rw [quarters, UInt64.toNat_div]
      simp only [UInt64.reduceToNat]
      omega
  have leap_days : (100 * century + 4 * group + year) / 4 = 25 * century + group := by omega
  have missing : (100 * century + 4 * group + year) / 100 = century := by omega
  refine ⟨100 * century + 4 * group + year, day, ?_, by omega, ?_, ?_⟩
  · rw [UInt64.toNat_div, toNat_sub_of_le, centuries, UInt64.toNat_div]
    · exact yoe_eq
    · rw [centuries, UInt64.toNat_div]
      simp only [UInt64.reduceToNat]
      omega
  · rw [leap_days, missing]
    omega
  · rcases Nat.lt_or_eq_of_le day_le with common | last
    · exact .inl common
    · obtain ⟨rfl, last_group⟩ := leap last
      refine .inr ⟨last, fun era => ?_⟩
      rw [isLeap]
      by_cases group_last : group = 24
      · have := last_group group_last
        omega
      · omega

theorem dayOfYear_toNat {doe yoe : UInt64} {doy : Nat} (yoe_lt : yoe.toNat < 400)
    (split : doe.toNat = 365 * yoe.toNat + yoe.toNat / 4 - yoe.toNat / 100 + doy) :
    (doe - (365 * yoe + yoe / 4 - yoe / 100)).toNat = doy := by
  have days : (365 * yoe).toNat = 365 * yoe.toNat := toNat_mul_of_lt (by
    simp only [UInt64.reduceToNat]
    omega)
  have quarters : (365 * yoe + yoe / 4).toNat = 365 * yoe.toNat + yoe.toNat / 4 := by
    rw [toNat_add_of_lt, days, UInt64.toNat_div]
    · rfl
    · rw [days, UInt64.toNat_div]
      simp only [UInt64.reduceToNat]
      omega
  have centuries : (365 * yoe + yoe / 4 - yoe / 100).toNat =
      365 * yoe.toNat + yoe.toNat / 4 - yoe.toNat / 100 := by
    rw [toNat_sub_of_le, quarters, UInt64.toNat_div]
    · rfl
    · rw [quarters, UInt64.toNat_div]
      simp only [UInt64.reduceToNat]
      omega
  rw [toNat_sub_of_le (by omega), centuries]
  omega

/-- The month, of the months that start in March, and the day of it. -/
theorem monthOfYear_toNat {doy : UInt64} (doy_le : doy.toNat ≤ 365) :
    ((5 * doy + 2) / 153).toNat = (5 * doy.toNat + 2) / 153 ∧
    (doy - (153 * ((5 * doy + 2) / 153) + 2) / 5 + 1).toNat =
      doy.toNat - (153 * ((5 * doy.toNat + 2) / 153) + 2) / 5 + 1 := by
  have scaled : (5 * doy).toNat = 5 * doy.toNat := toNat_mul_of_lt (by
    simp only [UInt64.reduceToNat]
    omega)
  have moved : (5 * doy + 2).toNat = 5 * doy.toNat + 2 := by
    rw [toNat_add_of_lt, scaled]
    · rfl
    · rw [scaled]
      simp only [UInt64.reduceToNat]
      omega
  have month : ((5 * doy + 2) / 153).toNat = (5 * doy.toNat + 2) / 153 := by
    rw [UInt64.toNat_div, moved]
    rfl
  generalize (5 * doy + 2) / 153 = mp at *
  have small : mp.toNat < 12 := by omega
  have days : (153 * mp).toNat = 153 * mp.toNat := toNat_mul_of_lt (by
    simp only [UInt64.reduceToNat]
    omega)
  have months : ((153 * mp + 2) / 5).toNat = (153 * mp.toNat + 2) / 5 := by
    rw [UInt64.toNat_div, toNat_add_of_lt, days]
    · rfl
    · rw [days]
      simp only [UInt64.reduceToNat]
      omega
  refine ⟨month, ?_⟩
  rw [← month, toNat_add_of_lt, toNat_sub_of_le, months]
  · rfl
  · rw [months]
    omega
  · rw [toNat_sub_of_le, months]
    · simp only [UInt64.reduceToNat]
      omega
    · rw [months]
      omega

/-- The closed form gives the date that the calendar counts, and none of its steps wraps. -/
theorem civilFromDays_spec {days : UInt64} (small : days.toNat < 2 ^ 32) :
    ∃ date : Date, date.count = 719528 + days.toNat ∧
      (civilFromDays days).1.toNat = date.year ∧ (civilFromDays days).2.1.toNat = date.month ∧
      (civilFromDays days).2.2.toNat = date.day := by
  have z_eq : (days + 719468).toNat = days.toNat + 719468 := toNat_add_of_lt (by
    simp only [UInt64.reduceToNat]
    omega)
  simp only [civilFromDays]
  generalize days + 719468 = z at *
  have doe_eq : (z % 146097).toNat = z.toNat % 146097 := UInt64.toNat_mod _ _
  have era_eq : (z / 146097).toNat = z.toNat / 146097 := UInt64.toNat_div _ _
  generalize z % 146097 = doe at *
  generalize z / 146097 = era at *
  obtain ⟨_, doy, rfl, yoe_lt, split, leap⟩ := yearOfEra_spec (by omega : doe.toNat < 146097)
  generalize (doe - doe / 1460 + doe / 36524 - doe / 146096) / 365 = yoe at *
  have doy_eq := dayOfYear_toNat yoe_lt split
  generalize doe - (365 * yoe + yoe / 4 - yoe / 100) = doy' at *
  subst doy_eq
  have doy_le : doy'.toNat ≤ 365 := by omega
  obtain ⟨month_eq, day_eq⟩ := monthOfYear_toNat doy_le
  have eras : (era * 400).toNat = era.toNat * 400 := toNat_mul_of_lt (by
    simp only [UInt64.reduceToNat]
    omega)
  have year_eq : (yoe + era * 400).toNat = yoe.toNat + era.toNat * 400 := by
    rw [toNat_add_of_lt, eras]
    omega
  obtain ⟨date, count, month, year, day⟩ := exists_date_of_march (yoe.toNat + era.toNat * 400)
    (leap.imp_right fun leap => ⟨leap.1, leap.2 _⟩)
  rw [← month_eq] at month
  rw [← day_eq] at day
  generalize (5 * doy' + 2) / 153 = mp at *
  have month' : (if mp < 10 then mp + 3 else mp - 9).toNat = date.month := by
    rw [month]
    by_cases early : mp < 10
    · have early' : mp.toNat < 10 := UInt64.lt_iff_toNat_lt.mp early
      rw [if_pos early, if_pos early', toNat_add_of_lt]
      · rfl
      · simp only [UInt64.reduceToNat]
        omega
    · have late : ¬ mp.toNat < 10 := fun early' => early (UInt64.lt_iff_toNat_lt.mpr early')
      rw [if_neg early, if_neg late, toNat_sub_of_le]
      · rfl
      · simp only [UInt64.reduceToNat]
        omega
  generalize (if mp < 10 then mp + 3 else mp - 9) = month'' at *
  have era_days : daysBeforeMarch yoe.toNat = 365 * yoe.toNat + yoe.toNat / 4 - yoe.toNat / 100 := by
    rw [daysBeforeMarch, Nat.div_eq_of_lt yoe_lt, Nat.add_zero]
  refine ⟨date, ?_, ?_, month', day.symm⟩
  · rw [count, daysBeforeMarch_add_eras, era_days]
    omega
  · rw [year, ← month']
    by_cases winter : month'' ≤ 2
    · have winter' : month''.toNat ≤ 2 := UInt64.le_iff_toNat_le.mp winter
      rw [if_pos winter, if_pos winter', toNat_add_of_lt, year_eq]
      · rfl
      · rw [year_eq]
        simp only [UInt64.reduceToNat]
        omega
    · have summer : ¬ month''.toNat ≤ 2 := fun winter' => winter (UInt64.le_iff_toNat_le.mpr winter')
      rw [if_neg winter, if_neg summer, year_eq]

/-! ## The text -/

/-- The text of a moment: each field with a fixed number of digits. -/
def render (moment : Moment) : List Char :=
  decimal 4 moment.year ++ '-' :: decimal 2 moment.month ++ '-' :: decimal 2 moment.day ++
    'T' :: decimal 2 moment.hour ++ ':' :: decimal 2 moment.minute ++
    ':' :: decimal 2 moment.second ++ '.' :: decimal 9 moment.nano ++ ['Z']

theorem length_render (moment : Moment) : (render moment).length = timestampStrLen := by
  simp [render, timestampStrLen]

/-- Dates compare as their texts. -/
theorem compares_date (date : Date) {date' : Date} (four : date'.year < 10000) :
    Compares date.count date'.count
      (decimal 4 date.year ++ '-' :: decimal 2 date.month ++ '-' :: decimal 2 date.day)
      (decimal 4 date'.year ++ '-' :: decimal 2 date'.month ++ '-' :: decimal 2 date'.day) where
  lt less := by
    have month := date'.month_le
    have longest := date'.day_le.trans (monthLength_le _ _)
    simp only [List.append_assoc, List.cons_append]
    rcases Date.lex_of_count_lt less with year | ⟨same, month | ⟨same', day⟩⟩
    · exact append_lt_append (by simp) (decimal_lt year four)
    · rw [same]
      apply List.append_left_lt
      rw [List.cons_lt_cons_self]
      exact append_lt_append (by simp) (decimal_lt month (by omega))
    · rw [same, same']
      apply List.append_left_lt
      rw [List.cons_lt_cons_self]
      apply List.append_left_lt
      rw [List.cons_lt_cons_self]
      exact decimal_lt day (by omega)
  eq same := by rw [Date.count_injective same]
  length := by simp

theorem render_lt {moment moment' : Moment} (four : moment'.year < 10000)
    (less : moment.count < moment'.count) :
    render moment < render moment' := by
  have hours := (compares_date moment.toDate four).place 'T' (by omega : 24 ≤ 10 ^ 2)
    moment.hour_lt moment'.hour_lt
  have minutes := hours.place ':' (by omega : 60 ≤ 10 ^ 2) moment.minute_lt moment'.minute_lt
  have seconds := minutes.place ':' (by omega : 60 ≤ 10 ^ 2) moment.second_lt moment'.second_lt
  have nanos := seconds.place '.' (Nat.le_refl (10 ^ 9)) moment.nano_lt moment'.nano_lt
  exact append_lt_append nanos.length (nanos.lt less)

/-- The moment that timestamps count from. -/
def unixEpoch : Moment where
  year := 1970
  month := 1
  day := 1
  month_pos := by decide
  month_le := by decide
  day_pos := by decide
  day_le := by decide
  hour := 0
  minute := 0
  second := 0
  nano := 0
  hour_lt := by decide
  minute_lt := by decide
  second_lt := by decide
  nano_lt := by decide

theorem count_unixEpoch : unixEpoch.toDate.count = 719528 := by
  have years := daysBeforeYear_eq 1970
  simp only [Date.count, unixEpoch, daysBeforeMonth, monthLength]
  omega

theorem year_lt_of_count_lt {date : Date} (small : date.count < 3000000) : date.year < 10000 := by
  have years := daysBeforeYear_eq date.year
  rw [Date.count] at small
  omega

/-- The text of a timestamp is that of the moment which it counts from the epoch. -/
theorem writeTimestamp_eq_render (ts : Timestamp) :
    ∃ moment : Moment, moment.year < 10000 ∧ moment.count = unixEpoch.count + ts.toNat ∧
      writeTimestamp ts = render moment := by
  have ts_lt := ts.toNat_lt
  have secs : (ts / nanosPerSec).toNat = ts.toNat / 1000000000 := UInt64.toNat_div _ _
  have nanos : (ts % nanosPerSec).toNat = ts.toNat % 1000000000 := UInt64.toNat_mod _ _
  have days : (ts / nanosPerSec / secsPerDay).toNat = ts.toNat / 1000000000 / 86400 := by
    rw [UInt64.toNat_div, secs]
    rfl
  have ofDay : (ts / nanosPerSec % secsPerDay).toNat = ts.toNat / 1000000000 % 86400 := by
    rw [UInt64.toNat_mod, secs]
    rfl
  obtain ⟨date, count, year, month, day⟩ :=
    civilFromDays_spec (by omega : (ts / nanosPerSec / secsPerDay).toNat < 2 ^ 32)
  have four : date.year < 10000 := year_lt_of_count_lt (by omega)
  have month_le := date.month_le
  have day_le := date.day_le.trans (monthLength_le _ _)
  simp only [writeTimestamp]
  generalize ts / nanosPerSec % secsPerDay = secsOfDay at *
  generalize ts / nanosPerSec / secsPerDay = dayNumber at *
  have hour : (secsOfDay / 3600).toNat = secsOfDay.toNat / 3600 := UInt64.toNat_div _ _
  have minute : (secsOfDay % 3600 / 60).toNat = secsOfDay.toNat % 3600 / 60 := by
    rw [UInt64.toNat_div, UInt64.toNat_mod]
    rfl
  have second : (secsOfDay % 60).toNat = secsOfDay.toNat % 60 := UInt64.toNat_mod _ _
  refine ⟨⟨date, secsOfDay.toNat / 3600, secsOfDay.toNat % 3600 / 60, secsOfDay.toNat % 60,
    ts.toNat % 1000000000, by omega, by omega, by omega, by omega⟩, four, ?_, ?_⟩
  · simp only [Moment.count, count_unixEpoch, count]
    simp only [unixEpoch]
    omega
  · rw [year, month, day, hour, minute, second, nanos, padded_eq_decimal (by omega),
      padded_eq_decimal (by omega), padded_eq_decimal (by omega), padded_eq_decimal (by omega),
      padded_eq_decimal (by omega), padded_eq_decimal (by omega), padded_eq_decimal (by omega)]
    rfl

example : writeTimestamp 951782400000000042 = "2000-02-29T00:00:00.000000042Z".toList := by
  decide +kernel

theorem writeTimestamp_lt {ts ts' : Timestamp} (less : ts < ts') :
    writeTimestamp ts < writeTimestamp ts' := by
  obtain ⟨moment, -, count, text⟩ := writeTimestamp_eq_render ts
  obtain ⟨moment', four, count', text'⟩ := writeTimestamp_eq_render ts'
  rw [text, text']
  apply render_lt four
  rw [count, count']
  exact Nat.add_lt_add_left (UInt64.lt_iff_toNat_lt.mp less) _

/-- Every timestamp is rendered, in thirty characters, as the date and time of the calendar that
it counts from the epoch, and the texts are ordered as the timestamps are. -/
theorem timestamps_rendered :
    (∀ ts : Timestamp, (writeTimestamp ts).length = timestampStrLen ∧
      ∃ moment : Moment, moment.year < 10000 ∧ moment.count = unixEpoch.count + ts.toNat ∧
        writeTimestamp ts = render moment) ∧
    (∀ ts ts' : Timestamp, writeTimestamp ts = writeTimestamp ts' → ts = ts') ∧
    ∀ ts ts' : Timestamp, writeTimestamp ts < writeTimestamp ts' ↔ ts < ts' := by
  have order (ts ts' : Timestamp) : writeTimestamp ts < writeTimestamp ts' ↔ ts < ts' := by
    refine ⟨fun less => UInt64.not_le.mp fun after => ?_, writeTimestamp_lt⟩
    rcases UInt64.lt_or_eq_of_le after with after | rfl
    · exact absurd (writeTimestamp_lt after) (List.lt_asymm less)
    · exact absurd less (List.lt_irrefl _)
  refine ⟨fun ts => ?_, fun ts ts' same => ?_, order⟩
  · obtain ⟨moment, four, count, text⟩ := writeTimestamp_eq_render ts
    refine ⟨?_, moment, four, count, text⟩
    rw [text]
    exact length_render moment
  · have not_after : ¬ ts' < ts := by
      rw [← order, same]
      exact List.lt_irrefl _
    have not_before : ¬ ts < ts' := by
      rw [← order, same]
      exact List.lt_irrefl _
    rcases UInt64.lt_or_eq_of_le (UInt64.not_lt.mp not_after) with less | eq
    · exact absurd less not_before
    · exact eq

end Tcslog
