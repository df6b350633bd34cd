import TimeSwitch.Calendar.UnixTime
import TimeSwitch.Proofs.Text.Ascii

/-!
Times that exist: a check lets exactly these pass, each is written in 21 characters, and every
second since 1970 that has a civil time has one that exists.
-/

namespace TimeSwitch

theorem isAscii_abbreviation (day : Weekday) : IsAscii day.abbreviation := by
  cases day <;> decide

namespace CivilTime

variable {t : CivilTime}

theorem checked_eq_ok {t' : CivilTime} : t.checked = .ok t' ↔ t.Exists ∧ t = t' := by
  unfold checked
  cases h : t.defect? with
  | none => simp [defect?_eq_none_iff.1 h]
  | some defect =>
      simp only [reduceCtorEq, false_iff, not_and]
      intro hexists
      rw [defect?_eq_none_iff.2 hexists] at h
      cases h

theorem day_le_of_exists (h : t.Exists) : t.day ≤ 31 :=
  Nat.le_trans h.day_le (Calendar.daysInMonth_le _ _)

theorem isAscii_render (t : CivilTime) : IsAscii t.render := by
  simp [render, isAscii_abbreviation]

theorem length_render (h : t.Exists) : t.render.length = 21 := by
  have hyear := h.year
  have hmonth := h.month
  have hday := day_le_of_exists h
  have hhour := h.hour
  have hminute := h.minute
  have hsecond := h.second
  simp only [lastYear] at hyear
  simp [render, Decimal.padded_two_of_lt (show t.year < 100 by omega),
    Decimal.padded_two_of_lt (show t.month + 1 < 100 by omega),
    Decimal.padded_two_of_lt (show t.day < 100 by omega),
    Decimal.padded_two_of_lt (show t.hour < 100 by omega),
    Decimal.padded_two_of_lt (show t.minute < 100 by omega),
    Decimal.padded_two_of_lt (show t.second < 100 by omega)]

/-! ### Times of seconds -/

theorem exists_of_ofDayNumber? {day : Nat} (h : ofDayNumber? day = some t) : t.Exists := by
  simp only [ofDayNumber?, Option.bind_eq_bind, Option.bind_eq_some_iff] at h
  obtain ⟨⟨year, dayOfYear⟩, hyear, ⟨month, dayOfMonth⟩, hmonth, h⟩ := h
  obtain ⟨hyear, -, -⟩ := Calendar.locate_eq_some_iff.1 hyear
  obtain ⟨hmonth, hday, -⟩ := Calendar.locate_eq_some_iff.1 hmonth
  rw [Calendar.getElem_monthLengths] at hday
  simp only [yearLengths, List.length_map, List.length_range] at hyear
  cases h
  exact ⟨Nat.le_of_lt_succ hyear, hmonth, Nat.succ_pos _, hday, Nat.zero_lt_succ _,
    Nat.zero_lt_succ _, Nat.zero_lt_succ _⟩

theorem exists_of_ofUnix {seconds : Nat} (h : ofUnix seconds = .ok t) : t.Exists := by
  unfold ofUnix at h
  dsimp only at h
  by_cases hearly : seconds / secondsPerDay < daysBeforeBase
  · rw [if_pos hearly] at h
    cases h
  · rw [if_neg hearly] at h
    cases hdate : ofDayNumber? (seconds / secondsPerDay - daysBeforeBase) with
    | none =>
        rw [hdate] at h
        cases h
    | some date =>
        rw [hdate] at h
        cases h
        obtain ⟨hyear, hmonth, hpos, hday, -, -, -⟩ := exists_of_ofDayNumber? hdate
        have hofDay : seconds % secondsPerDay < 86400 := Nat.mod_lt _ (by decide)
        refine ⟨hyear, hmonth, hpos, hday, ?_, ?_, ?_⟩
        · show seconds % secondsPerDay / 3600 < 24
          omega
        · exact Nat.mod_lt _ (by decide)
        · exact Nat.mod_lt _ (by decide)

end CivilTime

end TimeSwitch
