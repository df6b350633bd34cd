import Mathlib.Algebra.Group.Nat.Defs
import TimeSwitch.Proofs.Calendar.NextDay

/-!
Seconds and civil times correspond. Counting the days before a date adds up years and months;
finding the date of a day takes them off again, one after the other, until what is left does not
fill the next. Between the first and the last second of the calendar the two undo each other.
-/

namespace TimeSwitch

namespace Calendar

/-! ### Taking spans off -/

/-- From `span` on, whole spans are taken off a count of days for as long as what is left fills
the next one. This comes to an end at `last`, with `rest` days left. -/
inductive Peels (length : Nat → Nat) : (span day last rest : Nat) → Prop
  | stops {span day : Nat} (h : day < length span) : Peels length span day span day
  | takes {span day last rest : Nat} (h : length span ≤ day)
      (hlater : Peels length (span + 1) (day - length span) last rest) :
      Peels length span day last rest

variable {length : Nat → Nat} {span day last rest : Nat}

/-- If no span is empty, there is an end. -/
theorem exists_peels (hpos : ∀ n, 0 < length n) (span day : Nat) :
    ∃ last rest, Peels length span day last rest := by
  induction day using Nat.strongRecOn generalizing span with
  | ind day ih =>
      by_cases h : day < length span
      · exact ⟨span, day, .stops h⟩
      · have hle : length span ≤ day := Nat.not_lt.1 h
        have hless : day - length span < day := by
          have := hpos span
          omega
        obtain ⟨last, rest, hlater⟩ := ih _ hless (span + 1)
        exact ⟨last, rest, .takes hle hlater⟩

theorem Peels.unique {last' rest' : Nat} (h : Peels length span day last rest)
    (h' : Peels length span day last' rest') : last = last' ∧ rest = rest' := by
  induction h with
  | stops hlt =>
      cases h' with
      | stops => exact ⟨rfl, rfl⟩
      | takes hle => omega
  | takes hle hlater ih =>
      cases h' with
      | stops hlt => omega
      | takes _ hlater' => exact ih hlater'

theorem Peels.le {shortest : Nat} (h : Peels length span day last rest)
    (hshortest : ∀ n, shortest ≤ length n) :
    span ≤ last ∧ shortest * (last - span) + rest ≤ day := by
  induction h with
  | stops => simp
  | @takes span day last rest hle hlater ih =>
      obtain ⟨hspan, hday⟩ := ih
      have hone := hshortest span
      have hsplit : last - span = (last - (span + 1)) + 1 := by omega
      rw [hsplit, Nat.mul_succ]
      omega

/-- Looking a day up in a row of spans is taking off as many of them as there are. -/
theorem locate_range_eq_some_iff {count i : Nat} :
    locate ((List.range' span count).map length) day = some (i, rest) ↔
      i < count ∧ Peels length span day (span + i) rest := by
  induction count generalizing span day i with
  | zero => simp [locate]
  | succ count ih =>
      rw [List.range'_succ, List.map_cons, locate]
      split_ifs with h
      · rw [Option.some.injEq, Prod.mk.injEq]
        constructor
        · rintro ⟨rfl, rfl⟩
          exact ⟨Nat.succ_pos count, .stops h⟩
        · rintro ⟨-, hpeels⟩
          generalize hlast : span + i = last at hpeels
          cases hpeels with
          | stops => exact ⟨by omega, rfl⟩
          | takes hle => omega
      · rw [Option.map_eq_some_iff]
        constructor
        · rintro ⟨⟨j, r⟩, hlater, heq⟩
          obtain ⟨rfl, rfl⟩ := Prod.mk.inj heq
          obtain ⟨hj, hpeels⟩ := ih.1 hlater
          rw [Nat.add_right_comm] at hpeels
          exact ⟨by omega, .takes (Nat.not_lt.1 h) hpeels⟩
        · rintro ⟨hi, hpeels⟩
          generalize hlast : span + i = last at hpeels
          cases hpeels with
          | stops hlt => exact absurd hlt h
          | takes hle hlater =>
              obtain ⟨hspan, -⟩ := hlater.le fun n => Nat.zero_le (length n)
              obtain ⟨j, rfl⟩ : ∃ j, i = j + 1 := ⟨i - 1, by omega⟩
              rw [← hlast, Nat.add_comm j, ← Nat.add_assoc] at hlater
              exact ⟨(j, rest), ih.2 ⟨by omega, hlater⟩, rfl⟩

theorem monthLengths_eq (leap : Bool) :
    monthLengths leap = (List.range' 0 12).map (daysInMonth leap) := by
  cases leap <;> rfl

end Calendar

namespace CivilTime

open Calendar

variable {t : CivilTime}

theorem yearLengths_eq (n : Nat) :
    yearLengths n = (List.range' baseYear n).map daysInYear := by
  rw [yearLengths, List.range'_eq_map_range, List.map_map]
  rfl

/-! ### From a civil time to its second and back -/

theorem totalDays_calendar : totalDays (yearLengths (lastYear + 1)) = 36525 := by decide +kernel

theorem dayNumber_lt (h : t.Exists) : t.dayNumber < 36525 := by
  have hsome : locate (yearLengths (lastYear + 1)) t.dayNumber ≠ none := by
    rw [locate_year h]
    exact nofun
  rwa [ne_eq, locate_eq_none_iff, totalDays_calendar, Nat.not_le] at hsome

theorem secondOfDay_lt (h : t.Exists) : t.secondOfDay < secondsPerDay := by
  have := h.hour
  have := h.minute
  have := h.second
  simp only [secondOfDay, secondsPerDay]
  omega

theorem toUnix_bounds (h : t.Exists) : 946684800 ≤ t.toUnix ∧ t.toUnix ≤ 4102444799 := by
  have hday := dayNumber_lt h
  have hsecond := secondOfDay_lt h
  simp only [toUnix, daysBeforeBase, secondsPerDay] at hsecond ⊢
  omega

theorem toUnix_div_secondsPerDay (h : t.Exists) :
    t.toUnix / secondsPerDay = daysBeforeBase + t.dayNumber := by
  rw [toUnix, Nat.mul_comm, Nat.mul_add_div (by decide), Nat.div_eq_of_lt (secondOfDay_lt h),
    Nat.add_zero]

theorem ofUnix_toUnix (h : t.Exists) :
    ofUnix t.toUnix = .ok { t with weekday := t.calendarWeekday } := by
  have hhour := h.hour
  have hminute := h.minute
  have hsecond := h.second
  have hofDay := secondOfDay_lt h
  have hdays := toUnix_div_secondsPerDay h
  have hrest : t.toUnix % secondsPerDay = t.secondOfDay := by
    rw [toUnix, Nat.mul_comm, Nat.mul_add_mod, Nat.mod_eq_of_lt hofDay]
  rw [ofUnix, hdays, hrest, if_neg (by omega), Nat.add_sub_cancel_left, ofDayNumber?_dayNumber h]
  simp only [secondOfDay, calendarWeekday, Except.ok.injEq, CivilTime.mk.injEq, true_and]
  omega

/-! ### From a second to its civil time and back -/

/-- The days of a year fall into its twelve months. -/
theorem exists_month {year dayOfYear : Nat} (h : dayOfYear < daysInYear year) :
    ∃ month rest, locate (monthLengths (isLeap year)) dayOfYear = some (month, rest) := by
  cases hmonth : locate (monthLengths (isLeap year)) dayOfYear with
  | some found => exact ⟨found.1, found.2, rfl⟩
  | none =>
      rw [locate_eq_none_iff, totalDays_monthLengths] at hmonth
      omega

theorem ofDayNumber?_of_year {day year dayOfYear : Nat}
    (h : locate (yearLengths (lastYear + 1)) day = some (year, dayOfYear)) :
    ∃ month rest, locate (monthLengths (isLeap (baseYear + year))) dayOfYear = some (month, rest) ∧
      ofDayNumber? day = some { base with
        year, month, day := rest + 1, weekday := weekdayOf day } := by
  obtain ⟨hyear, hrest, -⟩ := locate_eq_some_iff.1 h
  rw [getElem_yearLengths] at hrest
  obtain ⟨month, rest, hmonth⟩ := exists_month hrest
  refine ⟨month, rest, hmonth, ?_⟩
  simp only [ofDayNumber?, h, hmonth, Option.bind_eq_bind, Option.bind_some, Option.pure_def]

theorem ofDayNumber?_eq_none_iff {day : Nat} : ofDayNumber? day = none ↔ 36525 ≤ day := by
  rw [← totalDays_calendar, ← locate_eq_none_iff]
  cases hyear : locate (yearLengths (lastYear + 1)) day with
  | none => simp [ofDayNumber?, hyear]
  | some found =>
      obtain ⟨month, rest, -, hdate⟩ := ofDayNumber?_of_year hyear
      simp [hdate]

theorem dayNumber_of_ofDayNumber? {day : Nat} (h : ofDayNumber? day = some t) :
    t.dayNumber = day := by
  cases hfound : locate (yearLengths (lastYear + 1)) day with
  | none => simp [ofDayNumber?, hfound] at h
  | some found =>
      obtain ⟨month, rest, hmonth, hdate⟩ := ofDayNumber?_of_year hfound
      obtain ⟨hyear, -, hday⟩ := locate_eq_some_iff.1 hfound
      obtain ⟨-, -, hdayOfYear⟩ := locate_eq_some_iff.1 hmonth
      rw [length_yearLengths] at hyear
      rw [daysBefore_yearLengths (Nat.le_of_lt hyear)] at hday
      rw [hdate, Option.some.injEq] at h
      subst h
      simp only [dayNumber, inLeapYear, fullYear, Nat.add_sub_cancel]
      omega

theorem toUnix_of_ofUnix {s : Nat} (h : ofUnix s = .ok t) : t.toUnix = s := by
  unfold ofUnix at h
  dsimp only at h
  split_ifs at h with hearly
  cases hdate : ofDayNumber? (s / secondsPerDay - daysBeforeBase) with
  | none =>
      rw [hdate] at h
      cases h
  | some date =>
      rw [hdate] at h
      cases h
      have hday : date.dayNumber = s / secondsPerDay - daysBeforeBase :=
        dayNumber_of_ofDayNumber? hdate
      have hsplit := Nat.div_add_mod s secondsPerDay
      show (daysBeforeBase + date.dayNumber) * secondsPerDay + _ = s
      simp only [secondOfDay, secondsPerDay] at *
      omega

/-- Outside the calendar, and only there, no civil time is found. -/
theorem ofUnix_eq_error_iff {s : Nat} {defect : CalendarDefect} :
    ofUnix s = .error defect ↔ defect = .year ∧ ¬(946684800 ≤ s ∧ s ≤ 4102444799) := by
  unfold ofUnix
  dsimp only
  split_ifs with hearly
  · simp only [daysBeforeBase, secondsPerDay] at hearly
    rw [Except.error.injEq, eq_comm]
    exact (and_iff_left (by omega)).symm
  · simp only [daysBeforeBase, secondsPerDay] at hearly ⊢
    cases hdate : ofDayNumber? (s / 86400 - 10957) with
    | none =>
        rw [ofDayNumber?_eq_none_iff] at hdate
        rw [Except.error.injEq, eq_comm]
        exact (and_iff_left (by omega)).symm
    | some date =>
        have hin : ¬36525 ≤ s / 86400 - 10957 := by
          rw [← ofDayNumber?_eq_none_iff, hdate]
          exact Option.some_ne_none date
        simp only [reduceCtorEq, false_iff, not_and]
        omega

theorem exists_ofUnix {s : Nat} (h : 946684800 ≤ s ∧ s ≤ 4102444799) :
    ∃ t, ofUnix s = .ok t := by
  cases hfound : ofUnix s with
  | ok t => exact ⟨t, rfl⟩
  | error defect => exact absurd h (ofUnix_eq_error_iff.1 hfound).2

/-! ### How a civil time is found -/

theorem locate_year_of_peels {day year dayOfYear : Nat}
    (h : Peels daysInYear baseYear day year dayOfYear) (hin : year ≤ baseYear + lastYear) :
    ∃ offset, year = baseYear + offset ∧
      locate (yearLengths (lastYear + 1)) day = some (offset, dayOfYear) := by
  obtain ⟨hbase, -⟩ := h.le le_daysInYear
  obtain ⟨offset, rfl⟩ := Nat.exists_eq_add_of_le hbase
  refine ⟨offset, rfl, ?_⟩
  rw [yearLengths_eq, locate_range_eq_some_iff]
  exact ⟨Nat.lt_succ_of_le (Nat.le_of_add_le_add_left hin), h⟩

theorem locate_year_of_late {day year dayOfYear : Nat}
    (h : Peels daysInYear baseYear day year dayOfYear) (hlate : baseYear + lastYear < year) :
    locate (yearLengths (lastYear + 1)) day = none := by
  cases hfound : locate (yearLengths (lastYear + 1)) day with
  | none => rfl
  | some found =>
      rw [yearLengths_eq, locate_range_eq_some_iff] at hfound
      obtain ⟨hoffset, hpeels⟩ := hfound
      obtain ⟨hyear, -⟩ := h.unique hpeels
      omega

/-- The years taken off end at a year, and if the calendar has it, the months taken off what is
left end at the month and the day. -/
theorem ofUnix_of_peels {s year dayOfYear : Nat} (hs : 946684800 ≤ s)
    (h : Peels daysInYear baseYear (s / secondsPerDay - daysBeforeBase) year dayOfYear) :
    if year ≤ baseYear + lastYear then
      ∃ month rest t, Peels (daysInMonth (isLeap year)) 0 dayOfYear month rest ∧
        ofUnix s = .ok t ∧ t.fullYear = year ∧ t.month = month ∧ t.day = rest + 1
    else ofUnix s = .error .year := by
  have hdays : ¬s / secondsPerDay < daysBeforeBase := by
    simp only [secondsPerDay, daysBeforeBase]
    omega
  unfold ofUnix
  dsimp only
  rw [if_neg hdays]
  split_ifs with hin
  · obtain ⟨offset, rfl, hyear⟩ := locate_year_of_peels h hin
    obtain ⟨month, rest, hmonth, hdate⟩ := ofDayNumber?_of_year hyear
    rw [monthLengths_eq, locate_range_eq_some_iff, Nat.zero_add] at hmonth
    rw [hdate]
    exact ⟨month, rest, _, hmonth.2, rfl, rfl, rfl, rfl⟩
  · have hyear := locate_year_of_late h (Nat.not_le.1 hin)
    have hnone : ofDayNumber? (s / secondsPerDay - daysBeforeBase) = none := by
      simp [ofDayNumber?, hyear]
    rw [hnone]

/-- Years end before they can no longer be counted in sixteen bits. -/
theorem year_lt_of_peels {s year dayOfYear : Nat} (hs : s < 2 ^ 32)
    (h : Peels daysInYear baseYear (s / secondsPerDay - daysBeforeBase) year dayOfYear) :
    year < 2 ^ 16 := by
  obtain ⟨-, hdays⟩ := h.le le_daysInYear
  simp only [secondsPerDay, daysBeforeBase, baseYear] at hdays
  omega

/-! ### Both ways -/

/-- The seconds of the calendar are those from 2000-01-01 to 2099-12-31; each has a civil time
that exists and leads back to it, and no other second has one. A civil time that exists has a
second of at most thirty-two bits, whose civil time is the same but for the weekday: that is the
one of the date, a Saturday on the base date and the next one every day. To find a civil time,
years and then months are taken off a count of days, and there is always an end to both. -/
theorem seconds_correspond :
    (∀ s, 946684800 ≤ s ∧ s ≤ 4102444799 →
      ∃ t, ofUnix s = .ok t ∧ t.defect? = none ∧ t.toUnix = s) ∧
    (∀ s, ¬(946684800 ≤ s ∧ s ≤ 4102444799) → ofUnix s = .error .year) ∧
    (∀ t : CivilTime, t.defect? = none → t.toUnix < 2 ^ 32 ∧
      ofUnix t.toUnix = .ok { t with weekday := t.calendarWeekday }) ∧
    base.calendarWeekday = .saturday ∧
    (∀ t : CivilTime, t.defect? = none →
      t.nextDay.calendarWeekday = t.calendarWeekday.next) ∧
    ∀ s, 946684800 ≤ s → ∃ year dayOfYear,
      Peels daysInYear baseYear (s / secondsPerDay - daysBeforeBase) year dayOfYear ∧
      (s < 2 ^ 32 → year < 2 ^ 16) ∧
      if year ≤ baseYear + lastYear then
        ∃ month rest t, Peels (daysInMonth (isLeap year)) 0 dayOfYear month rest ∧
          ofUnix s = .ok t ∧ t.fullYear = year ∧ t.month = month ∧ t.day = rest + 1
      else ofUnix s = .error .year := by
  refine ⟨fun s hs => ?_, fun s hs => ofUnix_eq_error_iff.2 ⟨rfl, hs⟩, fun t ht => ?_,
    calendarWeekday_base, fun t ht => calendarWeekday_nextDay (defect?_eq_none_iff.1 ht),
    fun s hs => ?_⟩
  · obtain ⟨t, hfound⟩ := exists_ofUnix hs
    exact ⟨t, hfound, defect?_eq_none_iff.2 (exists_of_ofUnix hfound), toUnix_of_ofUnix hfound⟩
  · have hexists := defect?_eq_none_iff.1 ht
    exact ⟨Nat.lt_of_le_of_lt (toUnix_bounds hexists).2 (by decide), ofUnix_toUnix hexists⟩
  · obtain ⟨year, dayOfYear, hpeels⟩ := exists_peels
      (fun n => Nat.lt_of_lt_of_le (by decide) (le_daysInYear n)) baseYear
      (s / secondsPerDay - daysBeforeBase)
    exact ⟨year, dayOfYear, hpeels, fun hbits => year_lt_of_peels hbits hpeels,
      ofUnix_of_peels hs hpeels⟩

/-- The last second of the leap day of 2000, with a wrong weekday: it was a Tuesday. -/
theorem seconds_correspond_leap_day :
    let t : CivilTime := ⟨0, 1, 29, .monday, 23, 59, 59⟩
    t.defect? = none ∧ t.toUnix = 951868799 ∧
      ofUnix t.toUnix = .ok { t with weekday := .tuesday } ∧
      t.nextDay.calendarWeekday = .wednesday ∧ ofUnix 4102444800 = .error .year := by
  intro t
  have ht : t.defect? = none := by decide
  have hunix : t.toUnix = 951868799 := by decide
  obtain ⟨-, houtside, hcivil, -, hnext, -⟩ := seconds_correspond
  have hfound := (hcivil t ht).2
  have hweekday : t.calendarWeekday = .tuesday := by decide
  rw [hweekday] at hfound
  refine ⟨ht, hunix, hfound, ?_, houtside 4102444800 (by decide)⟩
  rw [hnext t ht, hweekday]
  rfl

end CivilTime

end TimeSwitch
