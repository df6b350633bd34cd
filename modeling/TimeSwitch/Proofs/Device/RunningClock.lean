import Mathlib.Algebra.GroupWithZero.Nat
import TimeSwitch.Proofs.Alarm.Spacing
import TimeSwitch.Proofs.Device.ClockRoundTrip

/-!
A clock that runs. However its seconds come, one by one or many at a time, a software clock shows
the date and the time of day that these seconds lead to, as long as the calendar has them, and a
weekday that moves on at every midnight from the one that it was set to.
-/

namespace TimeSwitch

namespace CivilTime

/-- The midnights among so many seconds after the second `start`. -/
def midnights (start seconds : Nat) : Nat :=
  (List.range' (start + 1) seconds).countP fun s => s % secondsPerDay = 0

theorem midnights_succ (start seconds : Nat) :
    midnights start (seconds + 1) =
      midnights start seconds + if (start + 1 + seconds) % secondsPerDay = 0 then 1 else 0 := by
  rw [midnights, List.range'_1_concat, List.countP_append, List.countP_singleton, ← midnights]
  simp only [decide_eq_true_eq]

theorem midnights_eq (start seconds : Nat) :
    midnights start seconds = (start + seconds) / secondsPerDay - start / secondsPerDay := by
  induction seconds with
  | zero => simp [midnights]
  | succ seconds ih =>
      rw [midnights_succ, ih, secondsPerDay]
      split_ifs with hmidnight
      · omega
      · omega

theorem index_calendarWeekday (t : CivilTime) :
    t.calendarWeekday.index = (t.dayNumber + 6) % 7 := by
  rw [calendarWeekday, weekdayOf, Weekday.index_afterSunday]

/-- As many midnights pass between two times as there are days between their dates. -/
theorem midnights_eq_sub {t u : CivilTime} (ht : t.Exists) (hu : u.Exists) {seconds : Nat}
    (h : u.toUnix = t.toUnix + seconds) :
    midnights t.toUnix seconds = u.dayNumber - t.dayNumber := by
  rw [midnights_eq, ← h, toUnix_div_secondsPerDay ht, toUnix_div_secondsPerDay hu]
  omega

end CivilTime

namespace Device.SoftClock

open CivilTime

variable {clock : SoftClock} {time calendar : CivilTime} {s : Nat}

/-! ### Advancing -/

theorem advance_of_not_isSet (h : clock.isSet = false) (seconds : Nat) :
    clock.advance seconds = clock := by
  obtain ⟨_ | s, shift⟩ := clock
  · rfl
  · cases h

/-- Many advances are one by their total. -/
theorem foldl_advance (h : ∀ s ∈ clock.seconds, s ≤ maxSeconds) (advances : List Nat) :
    advances.foldl advance clock = clock.advance advances.sum := by
  induction advances generalizing clock with
  | nil => exact (advance_zero clock h).symm
  | cons seconds advances ih =>
      have hafter : ∀ s ∈ (clock.advance seconds).seconds, s ≤ maxSeconds := by
        intro s hs
        obtain ⟨_, -, rfl⟩ := Option.map_eq_some_iff.1 hs
        exact Nat.min_le_right _ _
      rw [List.foldl_cons, ih hafter, advance_advance, List.sum_cons]

/-! ### Setting and reading -/

theorem set_of_defect (h : time.defect? ≠ none) (clock : SoftClock) :
    set time clock = .error .invalidTime clock := by
  obtain ⟨defect, hdefect⟩ := Option.ne_none_iff_exists'.1 h
  have hchecked : time.checked = .error defect := by rw [checked, hdefect]
  rw [set, hchecked]

theorem now_of_seconds (hseconds : clock.seconds = some s) (hcalendar : ofUnix s = .ok calendar) :
    now clock = .ok { calendar with
      weekday := .afterSunday (calendar.weekday.index + clock.weekdayShift) } clock := by
  rw [now, hseconds]
  dsimp only
  rw [hcalendar]

/-- A clock that was set to a time and shows a later one: its weekday moved on at each midnight. -/
theorem index_weekday_shifted (ht : time.Exists) (hc : ofUnix s = .ok calendar) {seconds : Nat}
    (h : s = time.toUnix + seconds) :
    (calendar.weekday.index + (time.weekday.index + 7 - time.calendarWeekday.index) % 7) % 7 =
      (time.weekday.index + midnights time.toUnix seconds) % 7 := by
  have hcalendar := exists_of_ofUnix hc
  have hle : time.dayNumber ≤ calendar.dayNumber := by
    have hday := toUnix_div_secondsPerDay ht
    have hday' := toUnix_div_secondsPerDay hcalendar
    rw [toUnix_of_ofUnix hc, h] at hday'
    simp only [secondsPerDay] at hday hday'
    omega
  rw [weekday_of_ofUnix hc, index_calendarWeekday, index_calendarWeekday,
    midnights_eq_sub ht hcalendar ((toUnix_of_ofUnix hc).trans h)]
  omega

/-- A clock that was set to `time` has come to the second `s`. -/
structure CameTo (time : CivilTime) (s : Nat) (clock : SoftClock) : Prop where
  seconds_eq : clock.seconds = some (min s maxSeconds)
  shift_eq : clock.weekdayShift = (time.weekday.index + 7 - time.calendarWeekday.index) % 7

theorem cameTo_advance (h : CameTo time s clock) (seconds : Nat) :
    CameTo time (s + seconds) (clock.advance seconds) where
  seconds_eq := by
    rw [advance, h.seconds_eq, Option.map_some, Option.some.injEq]
    omega
  shift_eq := h.shift_eq

theorem exists_set (h : time.Exists) (clock : SoftClock) :
    ∃ started, set time clock = .ok () started ∧ CameTo time time.toUnix started := by
  refine ⟨_, set_eq_ok h clock, ?_, rfl⟩
  rw [Nat.min_eq_left (Nat.le_trans (toUnix_bounds h).2 (by decide))]

/-- The time that a clock shows, as long as the calendar has its second. -/
theorem exists_shown (ht : time.Exists) {seconds : Nat}
    (h : CameTo time (time.toUnix + seconds) clock) (hin : time.toUnix + seconds ≤ 4102444799) :
    ∃ shown, now clock = .ok shown clock ∧ shown.Exists ∧
      shown.toUnix = time.toUnix + seconds ∧
      shown.weekday.index = (time.weekday.index + midnights time.toUnix seconds) % 7 := by
  have hfirst := (toUnix_bounds ht).1
  obtain ⟨calendar, hcalendar⟩ := exists_ofUnix (s := time.toUnix + seconds) ⟨by omega, hin⟩
  have hseconds := h.seconds_eq
  rw [Nat.min_eq_left (Nat.le_trans hin (by decide))] at hseconds
  have hnow := now_of_seconds hseconds hcalendar
  refine ⟨_, hnow, exists_of_now hnow, ?_, ?_⟩
  · rw [toUnix_weekday, toUnix_of_ofUnix hcalendar]
  · rw [Weekday.index_afterSunday, h.shift_eq]
    exact index_weekday_shifted ht hcalendar rfl

theorem now_of_late (h : CameTo time s clock) (hlate : 4102444799 < s) :
    now clock = .error .invalidTime clock := by
  have herror : ofUnix (min s maxSeconds) = .error .year := by
    refine ofUnix_eq_error_iff.2 ⟨rfl, ?_⟩
    rw [maxSeconds]
    omega
  rw [now, h.seconds_eq]
  dsimp only
  rw [herror]

/-- A clock that is set to a time, and advanced in however many steps, shows the time of the second
that it has come to, as long as the calendar has that second; after that it cannot be read. The
weekday is the one that it was set to, moved on at each midnight, whether or not it is the one of
the calendar. A clock is not set to a time that does not exist, and one that is not set stays so. -/
theorem advanced_clock_keeps_time (clock : SoftClock) (time : CivilTime) :
    (time.defect? = none → ∃ started, set time clock = .ok () started ∧
      ∀ advances : List Nat,
        let s := time.toUnix + advances.sum
        let after := advances.foldl advance started
        after = started.advance advances.sum ∧
          if s ≤ 4102444799 then
            ∃ shown, now after = .ok shown after ∧ shown.defect? = none ∧ shown.toUnix = s ∧
              ofUnix s = .ok { shown with weekday := shown.calendarWeekday } ∧
              shown.weekday.index = (time.weekday.index + midnights time.toUnix advances.sum) % 7
          else now after = .error .invalidTime after) ∧
      (time.defect? ≠ none → set time clock = .error .invalidTime clock) ∧
      (clock.isSet = false → ∀ advances : List Nat, advances.foldl advance clock = clock) := by
  refine ⟨fun htime => ?_, fun hdefect => set_of_defect hdefect clock, fun hunset advances => ?_⟩
  · have ht := defect?_eq_none_iff.1 htime
    obtain ⟨started, hset, hstarted⟩ := exists_set ht clock
    refine ⟨started, hset, fun advances => ?_⟩
    intro s after
    have htotal : after = started.advance advances.sum := by
      refine foldl_advance (fun s hs => ?_) advances
      obtain rfl := Option.some.inj (hstarted.seconds_eq.symm.trans hs)
      exact Nat.min_le_right _ _
    have hcame : CameTo time s after := htotal ▸ cameTo_advance hstarted advances.sum
    refine ⟨htotal, ?_⟩
    split_ifs with hin
    · obtain ⟨shown, hnow, hexists, hunix, hweekday⟩ := exists_shown ht hcame hin
      have hfound := ofUnix_toUnix hexists
      rw [hunix] at hfound
      exact ⟨shown, hnow, defect?_eq_none_iff.2 hexists, hunix, hfound, hweekday⟩
    · exact now_of_late hcame (Nat.not_le.1 hin)
  · induction advances with
    | nil => rfl
    | cons seconds advances ih => rw [List.foldl_cons, advance_of_not_isSet hunset, ih]

end Device.SoftClock

end TimeSwitch
