import Mathlib.Data.Finset.Card
import TimeSwitch.Proofs.Alarm.Events
import TimeSwitch.Proofs.Calendar.Minutes

/-!
The bookkeeping of recurrences. Every recurrence that an alarm counts is kept in its count until
a firing uses up a full one, and over time that does not go back each minute is counted once, when
a tick first finds the alarm at rest in it.
-/

namespace TimeSwitch.Alarm

/-- The event makes the alarm active. -/
def Event.fires (event : Event) (a : Alarm) : Bool :=
  !a.active && (event.act a).active

/-- How often the alarm becomes active. -/
def firings : List Event → Alarm → Nat
  | [], _ => 0
  | event :: events, a => (event.fires a).toNat + firings events (event.act a)

/-- The target recurs at `now`, and the alarm is at rest. -/
def recursAt (now : CivilTime) (a : Alarm) : Bool :=
  !a.active && a.schedule.period.recurs a.schedule.target now

/-- A tick at `now` counts a recurrence: the count moves on, or the alarm fires. -/
def countsAt (now : CivilTime) (a : Alarm) : Bool :=
  (a.tick now).2.seen != a.seen || Event.fires (.tick now) a

/-- The times of the ticks that are of a kind, which may depend on the alarm as it is then. -/
def ticksThat (kind : CivilTime → Alarm → Bool) : List Event → Alarm → List CivilTime
  | [], _ => []
  | .deactivate :: events, a => ticksThat kind events a.deactivate
  | .tick now :: events, a =>
    let later := ticksThat kind events (a.tick now).2
    if kind now a then now :: later else later

variable {a : Alarm} {now : CivilTime} {events : List Event}

/-! ### One event -/

/-- A tick counts when it is the first to find a recurrence in its minute, which is the last minute
counted from then on. -/
inductive Counting (now : CivilTime) (a : Alarm) : Prop
  | counted (hcounts : countsAt now a = true) (hrecurs : recursAt now a = true)
      (hnew : a.lastMinute ≠ some now.minuteNumber)
      (hlast : (a.tick now).2.lastMinute = some now.minuteNumber)
  | passed (hcounts : countsAt now a = false)
      (hold : recursAt now a = true → a.lastMinute = some now.minuteNumber)
      (hlast : (a.tick now).2.lastMinute = a.lastMinute)

theorem counting_tick (h : a.InCycle) (now : CivilTime) : Counting now a := by
  have hmoves := moves_tick h now
  generalize hb : (a.tick now).2 = b at hmoves
  cases hmoves with
  | expires hactive | lasts hactive =>
      refine .passed ?_ ?_ ?_ <;> simp [countsAt, recursAt, Event.fires, hactive, hb]
  | counts hrest hdue =>
      simp only [isDue, Bool.and_eq_true, bne_iff_ne] at hdue
      refine .counted ?_ ?_ hdue.2 ?_ <;>
        simp [countsAt, recursAt, hrest, hdue.1, hb]
  | fires hrest hdue =>
      simp only [isDue, Bool.and_eq_true, bne_iff_ne] at hdue
      refine .counted ?_ ?_ hdue.2 ?_ <;>
        simp [countsAt, recursAt, Event.fires, Event.act, hrest, hdue.1, hb]
  | waits hrest hnot =>
      refine .passed ?_ ?_ ?_
      · simp [countsAt, Event.fires, Event.act, hrest, hb]
      · simpa [recursAt, isDue, hrest] using hnot
      · rw [hb]

/-- Nothing counted is lost: it stays in the count, or a firing uses it up with the others. -/
theorem count_fires_add_seen_tick (h : a.InCycle) (now : CivilTime) :
    a.schedule.count * (Event.fires (.tick now) a).toNat + (a.tick now).2.seen =
      a.seen + (countsAt now a).toNat := by
  have hmoves := moves_tick h now
  simp only [countsAt, Event.fires, Event.act]
  generalize (a.tick now).2 = b at hmoves
  cases hmoves with
  | expires hactive | lasts hactive => simp [hactive]
  | counts hrest =>
      have hmoved : (a.seen + 1 != a.seen) = true := by simp
      simp [hrest, hmoved]
  | fires hrest hdue hfull => simp [hrest, hfull]
  | waits hrest => simp [hrest]

theorem fires_deactivate (a : Alarm) : Event.fires .deactivate a = false := by
  simp [Event.fires, Event.act, deactivate]

/-! ### Whole runs -/

theorem count_firings_add_seen (h : a.InCycle) (events : List Event) :
    a.schedule.count * firings events a + (run events a).seen =
      a.seen + (ticksThat countsAt events a).length := by
  induction events generalizing a with
  | nil => simp [firings, run, ticksThat]
  | cons event events ih =>
      have hlater := ih (inCycle_act h event)
      rw [schedule_act] at hlater
      rw [firings, Nat.mul_add, Nat.add_assoc, run_cons, hlater]
      cases event with
      | deactivate =>
          rw [fires_deactivate]
          simp [ticksThat, Event.act, deactivate]
      | tick now =>
          have htick := count_fires_add_seen_tick h now
          rw [Event.act, ← Nat.add_assoc, htick, Nat.add_assoc, ticksThat]
          cases countsAt now a <;> simp [Nat.add_comm]

theorem mem_times_of_mem_ticksThat {kind : CivilTime → Alarm → Bool} {t : CivilTime}
    (h : t ∈ ticksThat kind events a) : t ∈ times events := by
  induction events generalizing a with
  | nil => cases h
  | cons event events ih =>
      cases event with
      | deactivate => exact ih h
      | tick now =>
          rw [times_tick, List.mem_cons]
          rw [ticksThat] at h
          split_ifs at h
          · exact (List.mem_cons.1 h).imp id ih
          · exact .inr (ih h)

theorem counted_subset (h : a.InCycle) (events : List Event) :
    ticksThat countsAt events a ⊆ ticksThat recursAt events a := by
  induction events generalizing a with
  | nil => exact List.Subset.refl _
  | cons event events ih =>
      have hlater := ih (inCycle_act h event)
      cases event with
      | deactivate => exact hlater
      | tick now =>
          rw [ticksThat, ticksThat]
          cases counting_tick h now with
          | counted hcounts hrecurs =>
              rw [if_pos hcounts, if_pos hrecurs]
              exact List.cons_subset_cons now hlater
          | passed hcounts =>
              rw [if_neg (by simp [hcounts])]
              split_ifs
              · exact List.subset_cons_of_subset now hlater
              · exact hlater

/-- A minute in which the alarm is found at rest was the last one counted before, or is counted. -/
theorem exists_counted (h : a.InCycle) {t : CivilTime} (ht : t ∈ ticksThat recursAt events a) :
    a.lastMinute = some t.minuteNumber ∨
      ∃ u ∈ ticksThat countsAt events a, u.minuteNumber = t.minuteNumber := by
  induction events generalizing a with
  | nil => cases ht
  | cons event events ih =>
      cases event with
      | deactivate => exact ih (inCycle_act h .deactivate) ht
      | tick now =>
          have hlater := ih (inCycle_act h (.tick now))
          rw [Event.act] at hlater
          rw [ticksThat] at ht ⊢
          cases counting_tick h now with
          | counted hcounts hrecurs hnew hlast =>
              rw [if_pos hrecurs] at ht
              rw [if_pos hcounts]
              right
              rcases List.mem_cons.1 ht with rfl | ht
              · exact ⟨t, List.mem_cons_self, rfl⟩
              · rcases hlater ht with hsame | ⟨u, hu, hminute⟩
                · rw [hlast, Option.some.injEq] at hsame
                  exact ⟨now, List.mem_cons_self, hsame⟩
                · exact ⟨u, List.mem_cons_of_mem now hu, hminute⟩
          | passed hcounts hold hlast =>
              rw [if_neg (by simp [hcounts])]
              rw [hlast] at hlater
              split_ifs at ht with hrecurs
              · rcases List.mem_cons.1 ht with rfl | ht
                · exact .inl (hold hrecurs)
                · exact hlater ht
              · exact hlater ht

/-- If minutes do not go back, the minutes counted go forward from the last one counted before. -/
theorem counted_minutes_forward (h : a.InCycle)
    (hlast : ∀ m ∈ a.lastMinute, ∀ t ∈ times events, m ≤ t.minuteNumber)
    (hordered : (times events).Pairwise fun t u => t.minuteNumber ≤ u.minuteNumber) :
    (∀ m ∈ a.lastMinute, ∀ t ∈ ticksThat countsAt events a, m < t.minuteNumber) ∧
      (ticksThat countsAt events a).Pairwise fun t u => t.minuteNumber < u.minuteNumber := by
  induction events generalizing a with
  | nil => exact ⟨fun _ _ t ht => (List.not_mem_nil ht).elim, List.Pairwise.nil⟩
  | cons event events ih =>
      cases event with
      | deactivate => exact ih (inCycle_act h .deactivate) hlast hordered
      | tick now =>
          rw [times_tick] at hordered
          obtain ⟨hnow, hordered⟩ := List.pairwise_cons.1 hordered
          have hnotpast : ∀ m ∈ a.lastMinute, m ≤ now.minuteNumber :=
            fun m hm => hlast m hm now List.mem_cons_self
          have hlater := ih (inCycle_act h (.tick now))
          rw [Event.act] at hlater
          rw [ticksThat]
          cases counting_tick h now with
          | counted hcounts hrecurs hnew hcounted =>
              rw [hcounted] at hlater
              obtain ⟨hafter, hpairwise⟩ := hlater
                (fun m hm => by
                  rw [← Option.some.inj hm]
                  exact hnow)
                hordered
              have hafter := hafter now.minuteNumber rfl
              rw [if_pos hcounts]
              refine ⟨fun m hm t ht => ?_, .cons hafter hpairwise⟩
              have hlt : m < now.minuteNumber :=
                Nat.lt_of_le_of_ne (hnotpast m hm) fun heq => hnew (heq ▸ hm)
              rcases List.mem_cons.1 ht with rfl | ht
              · exact hlt
              · exact Nat.lt_trans hlt (hafter t ht)
          | passed hcounts hold hkept =>
              rw [hkept] at hlater
              rw [if_neg (by simp [hcounts])]
              exact hlater (fun m hm t ht => hlast m hm t (List.mem_cons_of_mem now ht)) hordered

/-! ### Conservation -/

/-- Of an alarm with a schedule within its limits, run over ticks at times that exist and do not
go back: the recurrences used up by firings and those still in the count are as many as the
calendar minutes in which a tick found the target recurring and the alarm at rest, and no calendar
minute is counted twice. -/
theorem recurrences_conserved (period : Period) (target : CivilTime) (count minutes : Nat)
    (events : List Event) (hexist : ∀ t ∈ times events, t.defect? = none)
    (hordered : (times events).Pairwise fun t u => t.toUnix ≤ u.toUnix) :
    let a := ofSchedule (.clamped period target count minutes)
    a.schedule.count * firings events a + (run events a).seen =
        ((ticksThat recursAt events a).map CivilTime.calendarMinute).toFinset.card ∧
      ((ticksThat countsAt events a).map CivilTime.calendarMinute).Nodup := by
  intro a
  have hcycle : a.InCycle := inCycle_ofSchedule period target count minutes
  have hminute : ∀ {t u}, t ∈ times events → u ∈ times events →
      (t.calendarMinute = u.calendarMinute ↔ t.minuteNumber = u.minuteNumber) :=
    fun ht hu => CivilTime.calendarMinute_eq_iff (CivilTime.defect?_eq_none_iff.1 (hexist _ ht))
      (CivilTime.defect?_eq_none_iff.1 (hexist _ hu))
  obtain ⟨-, hforward⟩ := counted_minutes_forward hcycle (fun m hm => nomatch hm)
    (hordered.imp CivilTime.minuteNumber_le_of_toUnix_le)
  have hnodup : ((ticksThat countsAt events a).map CivilTime.calendarMinute).Nodup := by
    refine List.pairwise_map.2 (hforward.imp_of_mem fun ht hu hlt heq => ?_)
    have hsame := (hminute (mem_times_of_mem_ticksThat ht) (mem_times_of_mem_ticksThat hu)).1 heq
    exact Nat.ne_of_lt hlt hsame
  have hsame : ((ticksThat recursAt events a).map CivilTime.calendarMinute).toFinset =
      ((ticksThat countsAt events a).map CivilTime.calendarMinute).toFinset := by
    ext minute
    simp only [List.mem_toFinset, List.mem_map]
    constructor
    · rintro ⟨t, ht, rfl⟩
      obtain hbefore | ⟨u, hu, heq⟩ := exists_counted hcycle ht
      · cases hbefore
      · exact ⟨u, hu, (hminute (mem_times_of_mem_ticksThat hu)
          (mem_times_of_mem_ticksThat ht)).2 heq⟩
    · rintro ⟨t, ht, rfl⟩
      exact ⟨t, counted_subset hcycle events ht, rfl⟩
  refine ⟨?_, hnodup⟩
  calc a.schedule.count * firings events a + (run events a).seen
      = (ticksThat countsAt events a).length := by
        rw [count_firings_add_seen hcycle]
        exact Nat.zero_add _
    _ = ((ticksThat countsAt events a).map CivilTime.calendarMinute).toFinset.card := by
        rw [List.toFinset_card_of_nodup hnodup, List.length_map]
    _ = ((ticksThat recursAt events a).map CivilTime.calendarMinute).toFinset.card := by
        rw [hsame]

/-- Three times seven past the hour, when two of them make one firing. The alarm fires in the second
minute and is found at rest in it again, since it is deactivated within it. -/
theorem recurrences_conserved_over_two_firings :
    let time (hour minute second : Nat) : CivilTime :=
      { CivilTime.base with year := 21, hour := hour, minute := minute, second := second }
    let events : List Event :=
      [.tick (time 18 7 0), .tick (time 18 7 30), .tick (time 19 7 0), .tick (time 19 7 10),
        .deactivate, .tick (time 19 7 30), .tick (time 20 7 0)]
    let a := ofSchedule (.clamped .hour (time 17 7 0) 2 60)
    (∀ t ∈ times events, t.defect? = none) ∧
      (times events).Pairwise (fun t u => t.toUnix ≤ u.toUnix) ∧
      a.schedule.count * firings events a + (run events a).seen =
        ((ticksThat recursAt events a).map CivilTime.calendarMinute).toFinset.card ∧
      ((ticksThat countsAt events a).map CivilTime.calendarMinute).Nodup ∧
      firings events a = 1 ∧ (run events a).seen = 1 := by
  intro time events a
  have hexist : ∀ t ∈ times events, t.defect? = none := by decide
  have hordered : (times events).Pairwise fun t u => t.toUnix ≤ u.toUnix := by decide
  obtain ⟨hsum, hnodup⟩ :=
    recurrences_conserved .hour (time 17 7 0) 2 60 events hexist hordered
  exact ⟨hexist, hordered, hsum, hnodup, by decide, by decide⟩

end TimeSwitch.Alarm
