import Mathlib.Data.List.Dedup
import Mathlib.Data.List.Sort
import TimeSwitch.Proofs.Alarm.Recurrences
import TimeSwitch.Proofs.Alarm.Spacing
import TimeSwitch.Proofs.Sequence

/-!
An alarm that is ticked every second. While it is active it counts nothing, and neither does the
tick that ends an activation; but an activation shorter than the spacing of the recurrences is over
at the first second of the next one at the latest, and there are other seconds in that minute. So
no recurrence is missed.
-/

namespace TimeSwitch

open CivilTime Sequence

/-- A civil time for each second, from a second on. -/
inductive SecondBySecond : Nat → List CivilTime → Prop
  | nil (s : Nat) : SecondBySecond s []
  | cons {s : Nat} {t : CivilTime} {times : List CivilTime} (h : ofUnix s = .ok t)
      (hlater : SecondBySecond (s + 1) times) : SecondBySecond s (t :: times)

/-! ### Times second by second -/

theorem exists_secondBySecond {s n : Nat} (hfirst : 946684800 ≤ s) (hlast : s + n ≤ 4102444800) :
    ∃ times, (List.range' s n).mapM ofUnix = .ok times ∧ times.length = n ∧
      SecondBySecond s times := by
  induction n generalizing s with
  | zero => exact ⟨[], rfl, rfl, .nil s⟩
  | succ n ih =>
      obtain ⟨t, ht⟩ := @exists_ofUnix s ⟨hfirst, by omega⟩
      obtain ⟨times, htimes, hlength, hlater⟩ := @ih (s + 1) (by omega) (by omega)
      refine ⟨t :: times, ?_, by rw [List.length_cons, hlength], .cons ht hlater⟩
      rw [List.range'_succ, List.mapM_cons, ht, ok_bind, htimes]
      rfl

namespace SecondBySecond

variable {s : Nat} {t : CivilTime} {times : List CivilTime}

theorem exists_of_mem (h : SecondBySecond s times) (ht : t ∈ times) :
    ∃ v, s ≤ v ∧ ofUnix v = .ok t := by
  induction h with
  | nil => cases ht
  | @cons s first times hfirst hlater ih =>
      rcases List.mem_cons.1 ht with rfl | ht
      · exact ⟨s, Nat.le_refl s, hfirst⟩
      · obtain ⟨v, hv, hfound⟩ := ih ht
        exact ⟨v, Nat.le_of_succ_le hv, hfound⟩

/-- Minutes do not go back. -/
theorem pairwise (h : SecondBySecond s times) :
    times.Pairwise fun t u => t.minuteNumber ≤ u.minuteNumber := by
  induction h with
  | nil => exact .nil
  | @cons s first times hfirst hlater ih =>
      refine .cons (fun u hu => ?_) ih
      obtain ⟨v, hv, hfound⟩ := hlater.exists_of_mem hu
      rw [minuteNumber_of_ofUnix hfirst, minuteNumber_of_ofUnix hfound]
      omega

end SecondBySecond

namespace Alarm

variable {a : Alarm} {now t : CivilTime} {f s : Nat} {times : List CivilTime}

/-! ### Activations -/

/-- The alarm fired at a second, when its target recurred, and at the second `s` it has not been
over for longer than one second. -/
structure FiredAt (f s : Nat) (a : Alarm) : Prop where
  recurs : ∃ t, ofUnix f = .ok t ∧ a.schedule.period.recurs a.schedule.target t = true
  before : f < s
  lastMinute : a.lastMinute = some (f / 60)
  recent : s ≤ f + a.schedule.minutes * 60 + 1
  until_eq : a.activeUntil = f + a.schedule.minutes * 60

/-- The alarm is active only because of a recent firing. -/
def Timely (s : Nat) (a : Alarm) : Prop :=
  a.active = true → ∃ f, FiredAt f s a

theorem timely_tick (h : a.InCycle) (hminutes : a.schedule.minutes < a.schedule.period.spacing)
    (htimely : Timely s a) (hnow : ofUnix s = .ok now) : Timely (s + 1) (a.tick now).2 := by
  have hunix := toUnix_of_ofUnix hnow
  have hmoves := moves_tick h now
  generalize (a.tick now).2 = b at hmoves
  intro hactive
  cases hmoves with
  | expires => cases hactive
  | counts hrest | waits hrest =>
      rw [hrest] at hactive
      cases hactive
  | lasts _ hin =>
      obtain ⟨f, hrecurs, hbefore, hlast, -, huntil⟩ := htimely hactive
      exact ⟨f, hrecurs, by omega, hlast, by omega, huntil⟩
  | fires _ hdue =>
      have hspacing := a.schedule.period.spacing_le_month
      have hbounds := toUnix_bounds (exists_of_ofUnix hnow)
      simp only [isDue, Bool.and_eq_true] at hdue
      have huntil : min (now.toUnix + a.schedule.minutes * 60) maxSeconds =
          s + a.schedule.minutes * 60 := by
        rw [hunix] at hbounds ⊢
        simp only [maxSeconds]
        omega
      refine ⟨s, ⟨now, hnow, hdue.1⟩, Nat.lt_succ_self s, ?_, ?_, huntil⟩
      · rw [minuteNumber_of_ofUnix hnow]
      · show s + 1 ≤ s + a.schedule.minutes * 60 + 1
        omega

/-- An activation reaches into a minute of a later recurrence with its first second at most. -/
theorem mod_sixty_eq_zero_of_firedAt (h : FiredAt f s a)
    (hminutes : a.schedule.minutes < a.schedule.period.spacing) (hnow : ofUnix s = .ok now)
    (hrecurs : a.schedule.period.recurs a.schedule.target now = true)
    (hlast : a.lastMinute ≠ some (s / 60)) : s % 60 = 0 := by
  obtain ⟨⟨t, ht, hfirst⟩, hbefore, hminute, hrecent, -⟩ := h
  have hne : f / 60 ≠ s / 60 := fun heq => hlast (hminute.trans (congrArg some heq))
  have hspacing := Period.spacing_le ht hnow hfirst hrecurs (by omega)
  omega

/-! ### Nothing is missed -/

/-- A minute that recurs was the last one counted before, or one of its seconds is counted. -/
theorem exists_counted_of_recurs (h : a.InCycle)
    (hminutes : a.schedule.minutes < a.schedule.period.spacing) (htimely : Timely s a)
    (htimes : SecondBySecond s times) (hend : (s + times.length) % 60 = 0) (ht : t ∈ times)
    (hrecurs : a.schedule.period.recurs a.schedule.target t = true) :
    a.lastMinute = some t.minuteNumber ∨
      ∃ u ∈ ticksThat countsAt (times.map Event.tick) a, u.minuteNumber = t.minuteNumber := by
  induction htimes generalizing a t with
  | nil => cases ht
  | @cons s now times hnow hlater ih =>
      rw [List.length_cons] at hend
      have hschedule : (a.tick now).2.schedule = a.schedule := schedule_tick now a
      -- what holds of the later times, seen from before this tick
      have hrest {u : CivilTime} (hu : u ∈ times)
          (hrecurs : a.schedule.period.recurs a.schedule.target u = true) :
          (a.tick now).2.lastMinute = some u.minuteNumber ∨
            ∃ v ∈ ticksThat countsAt (times.map Event.tick) (a.tick now).2,
              v.minuteNumber = u.minuteNumber :=
        ih (inCycle_act h (.tick now)) (by rwa [hschedule]) (timely_tick h hminutes htimely hnow)
          (by omega) hu (by rwa [hschedule])
      rw [List.map_cons, ticksThat]
      cases counting_tick h now with
      | counted hcounts _ _ hlast =>
          rw [if_pos hcounts]
          rcases List.mem_cons.1 ht with rfl | ht
          · exact .inr ⟨t, List.mem_cons_self, rfl⟩
          · obtain hsame | ⟨v, hv, hminute⟩ := hrest ht hrecurs
            · rw [hlast, Option.some.injEq] at hsame
              exact .inr ⟨now, List.mem_cons_self, hsame⟩
            · exact .inr ⟨v, List.mem_cons_of_mem now hv, hminute⟩
      | passed hcounts hold hlast =>
          rw [if_neg (by simp [hcounts])]
          rw [hlast] at hrest
          rcases List.mem_cons.1 ht with rfl | ht
          · by_cases hsame : a.lastMinute = some t.minuteNumber
            · exact .inl hsame
            · -- the alarm is active, so another second of the minute is still to come
              have hactive : a.active = true := by
                by_contra hidle
                exact hsame (hold (by simp [recursAt, hidle, hrecurs]))
              obtain ⟨f, hf⟩ := htimely hactive
              have hminute := minuteNumber_of_ofUnix hnow
              have hzero := mod_sixty_eq_zero_of_firedAt hf hminutes hnow hrecurs
                (by rwa [hminute] at hsame)
              cases hlater with
              | nil =>
                  rw [List.length_nil] at hend
                  omega
              | @cons _ next _ hnext _ =>
                  have hnextMinute : next.minuteNumber = t.minuteNumber := by
                    rw [hminute, minuteNumber_of_ofUnix hnext]
                    omega
                  have hagain := Period.recurs_eq_of_same_minute hnow hnext
                    (show s / 60 = (s + 1) / 60 by omega) ▸ hrecurs
                  rw [← hnextMinute]
                  exact hrest List.mem_cons_self hagain
          · exact hrest ht hrecurs

/-- The minutes of the times at which a target recurs, each once. -/
def recurringMinutes (period : Period) (target : CivilTime) (times : List CivilTime) : List Nat :=
  ((times.filter (period.recurs target)).map minuteNumber).dedup

theorem mem_recurringMinutes {period : Period} {target : CivilTime} {m : Nat} :
    m ∈ recurringMinutes period target times ↔
      ∃ t ∈ times, period.recurs target t = true ∧ t.minuteNumber = m := by
  simp [recurringMinutes, and_assoc]

theorem pairwise_recurringMinutes (period : Period) (target : CivilTime)
    (htimes : SecondBySecond s times) :
    (recurringMinutes period target times).Pairwise (· < ·) := by
  have hsublist : (times.filter (period.recurs target)).Sublist times := List.filter_sublist
  have hordered := List.pairwise_map.2 (htimes.pairwise.sublist hsublist)
  have hle := hordered.sublist (List.dedup_sublist _)
  exact (hle.and (List.nodup_dedup _)).imp fun h => Nat.lt_of_le_of_ne h.1 h.2

theorem times_map_tick (times : List CivilTime) : Alarm.times (times.map Event.tick) = times := by
  rw [Alarm.times, List.filterMap_map]
  exact List.filterMap_some

theorem recurs_of_mem_ticksThat {events : List Event} (ht : t ∈ ticksThat recursAt events a) :
    a.schedule.period.recurs a.schedule.target t = true := by
  induction events generalizing a with
  | nil => cases ht
  | cons event events ih =>
      cases event with
      | deactivate => exact @ih a.deactivate ht
      | tick now =>
          have hlater := @ih (a.tick now).2
          rw [schedule_tick] at hlater
          rw [ticksThat] at ht
          split_ifs at ht with hnow
          · rcases List.mem_cons.1 ht with rfl | ht
            · exact (Bool.and_eq_true_iff.1 hnow).2
            · exact hlater ht
          · exact hlater ht

/-- The minutes that are counted are those in which the target recurs. -/
theorem counted_eq_recurringMinutes (period : Period) (target : CivilTime) (count minutes : Nat)
    (hminutes : (Schedule.clamped period target count minutes).minutes < period.spacing)
    (htimes : SecondBySecond s times) (hend : (s + times.length) % 60 = 0) :
    (ticksThat countsAt (times.map Event.tick)
        (ofSchedule (.clamped period target count minutes))).map minuteNumber =
      recurringMinutes period target times := by
  have hcycle := inCycle_ofSchedule period target count minutes
  obtain ⟨-, hforward⟩ := counted_minutes_forward hcycle (fun m hm => nomatch hm)
    ((times_map_tick times).symm ▸ htimes.pairwise)
  refine (List.pairwise_map.2 hforward).eq_of_mem_iff
    (pairwise_recurringMinutes period target htimes) fun m => ?_
  rw [List.mem_map, mem_recurringMinutes]
  constructor
  · rintro ⟨t, ht, rfl⟩
    have hmem := mem_times_of_mem_ticksThat ht
    rw [times_map_tick] at hmem
    exact ⟨t, hmem, recurs_of_mem_ticksThat (counted_subset hcycle _ ht), rfl⟩
  · rintro ⟨t, ht, hrecurs, rfl⟩
    obtain hbefore | hcounted :=
      exists_counted_of_recurs hcycle hminutes nofun htimes hend ht hrecurs
    · cases hbefore
    · exact hcounted

/-! ### Firings -/

/-- A tick at `now` makes the alarm active. -/
def firesAt (now : CivilTime) (a : Alarm) : Bool := Event.fires (.tick now) a

/-- What a tick does to the count: nothing, one more, or it makes it full and starts it again. -/
inductive FillsUp (now : CivilTime) (a : Alarm) : Prop
  | passes (hfires : firesAt now a = false) (hcounts : countsAt now a = false)
      (hseen : (a.tick now).2.seen = a.seen)
  | counts (hfires : firesAt now a = false) (hcounts : countsAt now a = true)
      (hseen : (a.tick now).2.seen = a.seen + 1)
  | fires (hfires : firesAt now a = true) (hcounts : countsAt now a = true)
      (hfull : a.seen + 1 = a.schedule.count) (hseen : (a.tick now).2.seen = 0)

theorem fillsUp_tick (h : a.InCycle) (now : CivilTime) : FillsUp now a := by
  have hbalance := count_fires_add_seen_tick h now
  have hlt := h.seen_lt
  cases hfires : firesAt now a with
  | false =>
      rw [firesAt] at hfires
      cases hcounts : countsAt now a with
      | false => exact .passes hfires hcounts (by simpa [hfires, hcounts] using hbalance)
      | true => exact .counts hfires hcounts (by simpa [hfires, hcounts] using hbalance)
  | true =>
      rw [← firesAt, hfires, Bool.toNat_true, Nat.mul_one] at hbalance
      have hcounts : countsAt now a = true := by
        by_contra hpassed
        rw [Bool.eq_false_of_not_eq_true hpassed, Bool.toNat_false] at hbalance
        omega
      rw [hcounts, Bool.toNat_true] at hbalance
      exact .fires hfires hcounts (by omega) (by omega)

/-- Among the ticks that count, the alarm fires whenever its count is full. -/
theorem getElem?_ticksThat_firesAt (h : a.InCycle) (events : List Event) (i : Nat) :
    (ticksThat firesAt events a)[i]? =
      (ticksThat countsAt events a)[(i + 1) * a.schedule.count - 1 - a.seen]? := by
  induction events generalizing a i with
  | nil => rfl
  | cons event events ih =>
      cases event with
      | deactivate => exact ih (inCycle_act h .deactivate) i
      | tick now =>
          have hlater := ih (inCycle_act h (.tick now))
          have hschedule : (a.tick now).2.schedule = a.schedule := schedule_tick now a
          have hcount : (i + 1) * a.schedule.count = i * a.schedule.count + a.schedule.count :=
            Nat.succ_mul ..
          rw [Event.act, hschedule] at hlater
          rw [ticksThat, ticksThat]
          cases fillsUp_tick h now with
          | passes hfires hcounts hseen =>
              rw [hfires, hcounts, if_neg Bool.false_ne_true, if_neg Bool.false_ne_true, hlater,
                hseen]
          | counts hfires hcounts hseen =>
              have hlt := (inCycle_act h (.tick now)).seen_lt
              rw [Event.act, hschedule, hseen] at hlt
              have hindex : (i + 1) * a.schedule.count - 1 - a.seen =
                  (i + 1) * a.schedule.count - 1 - (a.seen + 1) + 1 := by
                omega
              rw [hfires, hcounts, if_neg Bool.false_ne_true, if_pos rfl, hlater, hseen, hindex,
                List.getElem?_cons_succ]
          | fires hfires hcounts hfull hseen =>
              rw [hfires, hcounts, if_pos rfl, if_pos rfl]
              have hindex : (i + 1) * a.schedule.count - 1 - a.seen = i * a.schedule.count := by
                omega
              rw [hindex]
              cases i with
              | zero => rw [Nat.zero_mul, List.getElem?_cons_zero, List.getElem?_cons_zero]
              | succ i =>
                  have hpos : a.schedule.count ≤ (i + 1) * a.schedule.count :=
                    Nat.le_mul_of_pos_left _ (Nat.succ_pos i)
                  obtain ⟨k, hk⟩ := Nat.exists_eq_add_one_of_ne_zero
                    (show (i + 1) * a.schedule.count ≠ 0 by omega)
                  rw [List.getElem?_cons_succ, hlater, hseen, hk, Nat.add_sub_cancel, Nat.sub_zero,
                    List.getElem?_cons_succ]

/-- Weekly, monthly and yearly recurrences lie further apart than any activation lasts. An alarm
whose activations are shorter than the gap of its period, ticked at every second up to the last of
a minute, counts each minute in which its target recurs once and fires whenever that makes its
count full. The duration is the one that the schedule has in the end, sixty minutes if it was
given none. -/
theorem every_recurrence_counted (period : Period) (target : CivilTime)
    (count minutes first last : Nat)
    (hgap : ∀ gap ∈ period.gap?, (Schedule.clamped period target count minutes).minutes < gap)
    (hfirst : 946684800 ≤ first) (horder : first ≤ last) (hlast : last ≤ 4102444799)
    (hend : last % 60 = 59) :
    (period.gap? = none → ∀ s v t u, ofUnix s = .ok t → ofUnix v = .ok u →
      period.recurs target t = true → period.recurs target u = true →
      t.minuteNumber < u.minuteNumber → t.minuteNumber + 9999 < u.minuteNumber) ∧
    ∃ times, (List.range' first (last + 1 - first)).mapM ofUnix = .ok times ∧
      let a := ofSchedule (.clamped period target count minutes)
      let events := times.map Event.tick
      let recurring := recurringMinutes period target times
      a.schedule.count * firings events a + (run events a).seen = recurring.length ∧
        (ticksThat countsAt events a).map minuteNumber = recurring ∧
        ∀ i, ((ticksThat firesAt events a).map minuteNumber)[i]? =
          recurring[(i + 1) * a.schedule.count - 1]? := by
  constructor
  · intro hnone s v t u ht hu hrecurs hrecurs' hlt
    rw [minuteNumber_of_ofUnix ht, minuteNumber_of_ofUnix hu] at hlt ⊢
    have hspacing := Period.spacing_le ht hu hrecurs hrecurs' hlt
    have hfar : 9999 < period.spacing := Period.maxMinutes_lt_spacing hnone
    omega
  · obtain ⟨times, hmap, hlength, htimes⟩ :=
      @exists_secondBySecond first (last + 1 - first) hfirst (by omega)
    refine ⟨times, hmap, ?_⟩
    intro a events recurring
    have hcycle : a.InCycle := inCycle_ofSchedule period target count minutes
    have hminutes := Period.minutes_lt_spacing hgap
      (Schedule.minutes_clamped_bounds period target count minutes).2
    have hcounted : (ticksThat countsAt events a).map minuteNumber = recurring :=
      counted_eq_recurringMinutes period target count minutes hminutes htimes (by omega)
    refine ⟨?_, hcounted, fun i => ?_⟩
    · have hsum := count_firings_add_seen hcycle events
      rw [hsum, ← hcounted, List.length_map]
      exact Nat.zero_add _
    · rw [← hcounted, List.getElem?_map, List.getElem?_map, getElem?_ticksThat_firesAt hcycle]
      rfl

/-- An hour, less a minute, from the last second of a minute that recurs: the alarm is active until
the first second of the next such minute, which ends the activation, and counts the second after. -/
theorem every_recurrence_counted_tight :
    let target : CivilTime := { CivilTime.base with minute := 7 }
    let a := ofSchedule (.clamped .hour target 1 59)
    (∀ gap ∈ Period.hour.gap?, (Schedule.clamped .hour target 1 59).minutes < gap) ∧
      ∃ times, (List.range' 1438452479 3601).mapM ofUnix = .ok times ∧
        let events := times.map Event.tick
        a.schedule.count * firings events a + (run events a).seen =
          (recurringMinutes .hour target times).length := by
  intro target a
  have hgap : ∀ gap ∈ Period.hour.gap?, (Schedule.clamped .hour target 1 59).minutes < gap := by
    decide
  obtain ⟨-, times, hmap, hsum, -⟩ := every_recurrence_counted .hour target 1 59 1438452479
    1438456079 hgap (by decide) (by decide) (by decide) (by decide)
  exact ⟨hgap, times, hmap, hsum⟩

end Alarm

end TimeSwitch
