import TimeSwitch.Proofs.Calendar.Seconds

/-!
Seconds tell times apart and in order. Whatever is counted over spans is found in the order of the
count, so a later field of a time never outweighs an earlier one, and between a time and the same
time on the day after there is always one day of seconds.
-/

namespace TimeSwitch

namespace Calendar

variable {spans : List Nat} {day day' n n' rest rest' : Nat}

/-- Of two days, the later one is found in a later span, or later in the same span. -/
theorem lt_iff_of_locate (h : locate spans day = some (n, rest))
    (h' : locate spans day' = some (n', rest')) : day < day' ↔ n < n' ∨ n = n' ∧ rest < rest' := by
  induction spans generalizing day day' n n' with
  | nil => cases h
  | cons span spans ih =>
      rw [locate] at h h'
      split_ifs at h h' with hin hin'
      · obtain ⟨rfl, rfl⟩ := Prod.mk.inj (Option.some.inj h)
        obtain ⟨rfl, rfl⟩ := Prod.mk.inj (Option.some.inj h')
        omega
      · obtain ⟨rfl, rfl⟩ := Prod.mk.inj (Option.some.inj h)
        obtain ⟨⟨later', r'⟩, -, heq'⟩ := Option.map_eq_some_iff.1 h'
        obtain ⟨rfl, rfl⟩ := Prod.mk.inj heq'
        omega
      · obtain ⟨⟨later, r⟩, -, heq⟩ := Option.map_eq_some_iff.1 h
        obtain ⟨rfl, rfl⟩ := Prod.mk.inj heq
        obtain ⟨rfl, rfl⟩ := Prod.mk.inj (Option.some.inj h')
        omega
      · obtain ⟨⟨later, r⟩, hlater, heq⟩ := Option.map_eq_some_iff.1 h
        obtain ⟨⟨later', r'⟩, hlater', heq'⟩ := Option.map_eq_some_iff.1 h'
        obtain ⟨rfl, rfl⟩ := Prod.mk.inj heq
        obtain ⟨rfl, rfl⟩ := Prod.mk.inj heq'
        have hspans := ih hlater hlater'
        omega

end Calendar

namespace CivilTime

open Calendar

variable {t u : CivilTime}

/-- The date and the time of day, from the year down to the second and without the weekday. -/
def fields (t : CivilTime) : List Nat :=
  [t.year, t.month, t.day, t.hour, t.minute, t.second]

/-! ### Dates in order -/

theorem dayNumber_lt_iff (ht : t.Exists) (hu : u.Exists) :
    t.dayNumber < u.dayNumber ↔
      t.year < u.year ∨ t.year = u.year ∧
        (t.month < u.month ∨ t.month = u.month ∧ t.day < u.day) := by
  rw [lt_iff_of_locate (locate_year ht) (locate_year hu)]
  refine or_congr_right (and_congr_right fun hyear => ?_)
  -- in one year the months of both have the same lengths
  have hleap : t.inLeapYear = u.inLeapYear := by
    rw [inLeapYear, inLeapYear, fullYear, fullYear, hyear]
  have hmonth := locate_month ht
  rw [hleap] at hmonth ⊢
  rw [lt_iff_of_locate hmonth (locate_month hu)]
  have := ht.day_pos
  have := hu.day_pos
  omega

theorem dayNumber_eq_iff (ht : t.Exists) (hu : u.Exists) :
    t.dayNumber = u.dayNumber ↔ t.year = u.year ∧ t.month = u.month ∧ t.day = u.day := by
  constructor
  · exact date_eq_of_dayNumber_eq ht hu
  · rintro ⟨hyear, hmonth, hday⟩
    simp only [dayNumber, inLeapYear, fullYear, hyear, hmonth, hday]

/-! ### Times in order -/

theorem secondOfDay_lt_iff (ht : t.Exists) (hu : u.Exists) :
    t.secondOfDay < u.secondOfDay ↔
      t.hour < u.hour ∨ t.hour = u.hour ∧
        (t.minute < u.minute ∨ t.minute = u.minute ∧ t.second < u.second) := by
  have := ht.minute
  have := ht.second
  have := hu.minute
  have := hu.second
  simp only [secondOfDay]
  omega

theorem toUnix_lt_iff (ht : t.Exists) (hu : u.Exists) :
    t.toUnix < u.toUnix ↔
      t.dayNumber < u.dayNumber ∨ t.dayNumber = u.dayNumber ∧ t.secondOfDay < u.secondOfDay := by
  have := secondOfDay_lt ht
  have := secondOfDay_lt hu
  simp only [toUnix, secondsPerDay] at *
  omega

theorem fields_lt_iff (ht : t.Exists) (hu : u.Exists) :
    t.fields < u.fields ↔ t.toUnix < u.toUnix := by
  rw [toUnix_lt_iff ht hu, dayNumber_lt_iff ht hu, dayNumber_eq_iff ht hu,
    secondOfDay_lt_iff ht hu]
  simp only [fields, List.cons_lt_cons_iff, List.lt_irrefl, and_false, or_false]
  omega

theorem fields_eq_iff (ht : t.Exists) (hu : u.Exists) :
    t.fields = u.fields ↔ t.toUnix = u.toUnix := by
  have hdate := dayNumber_eq_iff ht hu
  have hday := secondOfDay_lt ht
  have hday' := secondOfDay_lt hu
  simp only [fields, List.cons.injEq, and_true]
  constructor
  · rintro ⟨hyear, hmonth, hday, hhour, hminute, hsecond⟩
    rw [toUnix, toUnix, hdate.2 ⟨hyear, hmonth, hday⟩, secondOfDay, secondOfDay, hhour, hminute,
      hsecond]
  · intro hseconds
    simp only [toUnix, secondsPerDay] at hseconds hday hday'
    have hclock : t.secondOfDay = u.secondOfDay := by omega
    obtain ⟨hyear, hmonth, hday⟩ := hdate.1 (by omega)
    have := ht.minute
    have := ht.second
    have := hu.minute
    have := hu.second
    simp only [secondOfDay] at hclock
    exact ⟨hyear, hmonth, hday, by omega, by omega, by omega⟩

theorem minute_eq_iff (ht : t.Exists) (hu : u.Exists) :
    t.toUnix / 60 = u.toUnix / 60 ↔ t.year = u.year ∧ t.month = u.month ∧ t.day = u.day ∧
      t.hour = u.hour ∧ t.minute = u.minute := by
  have hminute := calendarMinute_eq_iff ht hu
  simp only [calendarMinute, CalendarMinute.mk.injEq] at hminute
  exact hminute.symm

/-! ### The same time on the day after -/

theorem secondOfDay_nextDay (t : CivilTime) : t.nextDay.secondOfDay = t.secondOfDay := by
  unfold nextDay
  split_ifs <;> rfl

theorem toUnix_nextDay (h : t.Exists) : t.nextDay.toUnix = t.toUnix + secondsPerDay := by
  rw [toUnix, toUnix, dayNumber_nextDay h, secondOfDay_nextDay]
  simp only [secondsPerDay]
  omega

theorem toUnix_nextDay_lt (h : t.Exists) : t.nextDay.toUnix < 2 ^ 32 := by
  have hlast := (toUnix_bounds h).2
  rw [toUnix_nextDay h, secondsPerDay]
  omega

/-- Only the last day of the calendar is not followed by another. -/
theorem exists_nextDay (h : t.Exists)
    (hlast : ¬(t.year = lastYear ∧ t.month = 11 ∧ t.day = 31)) : t.nextDay.Exists := by
  obtain ⟨hyear, hmonth, hpos, hday, hhour, hminute, hsecond⟩ := h
  have hfirst (leap : Bool) {month : Nat} (h : month < 12) : 1 ≤ daysInMonth leap month :=
    Nat.le_trans (by decide) (le_daysInMonth h)
  unfold nextDay
  split_ifs with hin hnext
  · exact ⟨hyear, hmonth, Nat.succ_pos _, hin, hhour, hminute, hsecond⟩
  · have hmonth : t.month + 1 < 12 := Nat.succ_lt_succ hnext
    exact ⟨hyear, hmonth, Nat.le_refl 1, hfirst _ hmonth, hhour, hminute, hsecond⟩
  · have hdecember : t.month = 11 := by omega
    have hlength : daysInMonth t.inLeapYear t.month = 31 := by rw [hdecember]; rfl
    have hyear : t.year + 1 ≤ lastYear := by omega
    have hjanuary : 0 < 12 := by decide
    exact ⟨hyear, hjanuary, Nat.le_refl 1, hfirst _ hjanuary, hhour, hminute, hsecond⟩

/-- Among times that exist, the order of the fields from the year down is the order of the seconds,
and times with the same fields are those with the same second; the seconds are in the same minute
if nothing but the second of the minute differs. The same time on the day after is later by one day
of seconds; it exists unless the day was the last of the calendar, and thirty-two bits hold its
second even then. -/
theorem seconds_order_times (ht : t.defect? = none) (hu : u.defect? = none) :
    (t.fields < u.fields ↔ t.toUnix < u.toUnix) ∧
    (t.fields = u.fields ↔ t.toUnix = u.toUnix) ∧
    (t.toUnix / 60 = u.toUnix / 60 ↔ t.year = u.year ∧ t.month = u.month ∧ t.day = u.day ∧
      t.hour = u.hour ∧ t.minute = u.minute) ∧
    (t.nextDay.toUnix = t.toUnix + 86400 ∧ t.nextDay.toUnix < 2 ^ 32) ∧
    (t.nextDay.defect? = none ∨ t.year = lastYear ∧ t.month = 11 ∧ t.day = 31) := by
  rw [defect?_eq_none_iff] at ht hu
  refine ⟨fields_lt_iff ht hu, fields_eq_iff ht hu, minute_eq_iff ht hu,
    ⟨toUnix_nextDay ht, toUnix_nextDay_lt ht⟩, ?_⟩
  by_cases hlast : t.year = lastYear ∧ t.month = 11 ∧ t.day = 31
  · exact .inr hlast
  · exact .inl (defect?_eq_none_iff.2 (exists_nextDay ht hlast))

/-- The last second of a leap day comes before the first of the day after, whose second field is
smaller. -/
theorem seconds_order_times_leap_day :
    let t : CivilTime := ⟨24, 1, 29, .monday, 23, 59, 59⟩
    let u : CivilTime := ⟨24, 2, 1, .sunday, 0, 0, 0⟩
    t.defect? = none ∧ u.defect? = none ∧ t.fields < u.fields ∧ t.toUnix < u.toUnix ∧
      t.toUnix / 60 ≠ u.toUnix / 60 ∧ t.nextDay.fields = [24, 2, 1, 23, 59, 59] ∧
      t.nextDay.toUnix = t.toUnix + 86400 := by
  intro t u
  have ht : t.defect? = none := by decide
  have hu : u.defect? = none := by decide
  obtain ⟨hlt, -, hminute, ⟨hnext, -⟩, -⟩ := seconds_order_times ht hu
  have hfields : t.fields < u.fields := by decide
  refine ⟨ht, hu, hfields, hlt.1 hfields, fun hsame => ?_, by decide, hnext⟩
  exact absurd (hminute.1 hsame).2.1 (by decide)

end CivilTime

end TimeSwitch
