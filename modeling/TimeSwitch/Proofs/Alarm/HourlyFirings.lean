import TimeSwitch.Proofs.Alarm.ActiveWindow

/-!
An alarm that fires at each recurrence, ticked every second. It fires whenever its target recurs,
but not while an activation lasts nor at the second that ends it. An hourly alarm that is active for
an hour therefore fires two seconds later in its minute than the hour before, and when that is too
late for the minute, it does not fire in that hour.
-/

namespace TimeSwitch.Alarm

open CivilTime

variable {a : Alarm} {now : CivilTime} {latest : Option Nat} {s : Nat} {times : List CivilTime}

/-- The seconds at which the alarm fires. -/
def firingSeconds (events : List Event) (a : Alarm) : List Nat :=
  (ticksThat firesAt events a).map toUnix

/-! ### From firing to firing -/

/-- Each recurrence makes a firing. -/
structure Prompt (a : Alarm) : Prop extends Sound a where
  count_eq_one : a.schedule.count = 1

/-- Of an alarm that is ticked every second and has come to the second `s`, the last second before
at which it fired, if there is one. -/
structure LastFired (latest : Option Nat) (s : Nat) (a : Alarm) : Prop where
  before : ∀ p ∈ latest, p < s
  until_eq : ∀ p ∈ latest, a.activeUntil = p + 60 * a.schedule.minutes
  lastMinute_eq : a.lastMinute = latest.map (· / 60)
  active_iff : a.active = true ↔ ∃ p ∈ latest, s ≤ p + 60 * a.schedule.minutes + 1

/-- The target recurs at the second `s`. -/
def RecursAtSecond (s : Nat) (a : Alarm) : Prop :=
  ∃ t, ofUnix s = .ok t ∧ a.schedule.period.recurs a.schedule.target t = true

/-- What the tick at the second `s` does: the alarm fires, or the target does not recur, or the
alarm is held back by an activation. -/
inductive Turn (latest : Option Nat) (s : Nat) (now : CivilTime) (a : Alarm) : Prop
  | fires (hrecurs : RecursAtSecond s a) (hover : ∀ p ∈ latest, p + 60 * a.schedule.minutes + 1 < s)
      (hfires : firesAt now a = true) (hnext : LastFired (some s) (s + 1) (a.tick now).2)
  | passes (hheld : RecursAtSecond s a → ∃ p ∈ latest, s ≤ p + 60 * a.schedule.minutes + 1)
      (hfires : firesAt now a = false) (hnext : LastFired latest (s + 1) (a.tick now).2)

theorem prompt_act (h : a.Prompt) (event : Event) : (event.act a).Prompt where
  toSound := sound_act h.toSound event
  count_eq_one := (congrArg Schedule.count (schedule_act event a)).trans h.count_eq_one

theorem recursAtSecond_iff (hnow : ofUnix s = .ok now) :
    RecursAtSecond s a ↔ a.schedule.period.recurs a.schedule.target now = true := by
  constructor
  · rintro ⟨t, ht, hrecurs⟩
    obtain rfl := Except.ok.inj (ht.symm.trans hnow)
    exact hrecurs
  · intro hrecurs
    exact ⟨now, hnow, hrecurs⟩

/-- At rest, the alarm is past the activation that began last. -/
theorem LastFired.over (h : LastFired latest s a) (hrest : a.active = false) :
    ∀ p ∈ latest, p + 60 * a.schedule.minutes + 1 < s := by
  intro p hp
  refine Nat.not_le.1 fun hle => ?_
  have hactive := h.active_iff.2 ⟨p, hp, hle⟩
  rw [hrest] at hactive
  cases hactive

/-- At a tick that does not fire, only whether the alarm is active may change. -/
theorem LastFired.next {b : Alarm} (h : LastFired latest s a) (hschedule : b.schedule = a.schedule)
    (huntil : b.activeUntil = a.activeUntil) (hminute : b.lastMinute = a.lastMinute)
    (hactive : b.active = true ↔ ∃ p ∈ latest, s ≤ p + 60 * a.schedule.minutes) :
    LastFired latest (s + 1) b := by
  constructor
  · intro p hp
    exact Nat.lt_succ_of_lt (h.before p hp)
  · rw [huntil, hschedule]
    exact h.until_eq
  · rw [hminute, h.lastMinute_eq]
  · simpa [hschedule] using hactive

theorem lastFired_of_fires (h : a.Prompt) (hnow : ofUnix s = .ok now)
    (hfires : firesAt now a = true) : LastFired (some s) (s + 1) (a.tick now).2 := by
  have hfired := justFired_tick h.toSound (exists_of_ofUnix hnow) hfires
  constructor
  · rintro p ⟨⟩
    exact Nat.lt_succ_self s
  · rintro p ⟨⟩
    rw [hfired.activeUntil_eq, toUnix_of_ofUnix hnow]
  · rw [hfired.lastMinute_eq, minuteNumber_of_ofUnix hnow]
    rfl
  · have hpos := hfired.within.minutes_pos
    exact iff_of_true hfired.active ⟨s, rfl, by omega⟩

theorem turn_tick (h : a.Prompt) (hlast : LastFired latest s a) (hnow : ofUnix s = .ok now) :
    Turn latest s now a := by
  have hunix := toUnix_of_ofUnix hnow
  have hminute := minuteNumber_of_ofUnix hnow
  have hmoves := moves_tick h.toInCycle now
  generalize hb : (a.tick now).2 = b at hmoves
  have hfires : firesAt now a = (!a.active && b.active) := by
    rw [firesAt, Event.fires, Event.act, hb]
  cases hmoves with
  | expires hactive hover =>
      refine .passes (fun _ => hlast.active_iff.1 hactive) (by rw [hfires, hactive]; rfl) ?_
      rw [hb]
      refine hlast.next rfl rfl rfl (iff_of_false Bool.false_ne_true ?_)
      rintro ⟨p, hp, hle⟩
      rw [hlast.until_eq p hp] at hover
      omega
  | lasts hactive hin =>
      have hheld := hlast.active_iff.1 hactive
      refine .passes (fun _ => hheld) (by rw [hfires, hactive]; rfl) ?_
      rw [hb]
      obtain ⟨p, hp, -⟩ := hheld
      rw [hlast.until_eq p hp, hunix] at hin
      exact hlast.next rfl rfl rfl (iff_of_true hactive ⟨p, hp, hin⟩)
  | counts _ _ hmore =>
      rw [h.count_eq_one] at hmore
      omega
  | fires hrest hdue =>
      have hfires : firesAt now a = true := by rw [hfires, hrest]; rfl
      simp only [isDue, Bool.and_eq_true] at hdue
      exact .fires ((recursAtSecond_iff hnow).2 hdue.1) (hlast.over hrest) hfires
        (lastFired_of_fires h hnow hfires)
  | waits hrest hnot =>
      have hover := hlast.over hrest
      refine .passes (fun hrecurs => ?_) (by rw [hfires, hrest]; rfl) ?_
      · -- the target recurs in a minute already counted, which is the one of the last firing
        rw [recursAtSecond_iff hnow] at hrecurs
        have hsame : a.lastMinute = some (s / 60) := by simpa [isDue, hrecurs, hminute] using hnot
        rw [hlast.lastMinute_eq, Option.map_eq_some_iff] at hsame
        obtain ⟨p, hp, hdiv⟩ := hsame
        have hpos := h.within.minutes_pos
        have hlong := hover p hp
        omega
      · rw [hb]
        refine hlast.next rfl rfl rfl (iff_of_false (by simp [hrest]) ?_)
        rintro ⟨p, hp, hle⟩
        have hlong := hover p hp
        omega

/-! ### All firings -/

theorem le_of_mem_firingSeconds {v : Nat} (htimes : SecondBySecond s times)
    (h : v ∈ firingSeconds (times.map Event.tick) a) : s ≤ v := by
  obtain ⟨t, ht, rfl⟩ := List.mem_map.1 h
  have hmem := mem_times_of_mem_ticksThat ht
  rw [times_map_tick] at hmem
  obtain ⟨v, hle, hfound⟩ := htimes.exists_of_mem hmem
  rwa [toUnix_of_ofUnix hfound]

theorem firingSeconds_cons (hnow : ofUnix s = .ok now) :
    firingSeconds ((now :: times).map Event.tick) a =
      if firesAt now a then s :: firingSeconds (times.map Event.tick) (a.tick now).2
      else firingSeconds (times.map Event.tick) (a.tick now).2 := by
  rw [firingSeconds, List.map_cons, ticksThat]
  split_ifs
  · rw [List.map_cons, toUnix_of_ofUnix hnow]
    rfl
  · rfl

theorem recursAtSecond_tick {v : Nat} :
    RecursAtSecond v (a.tick now).2 ↔ RecursAtSecond v a := by
  rw [RecursAtSecond, RecursAtSecond, schedule_tick]

/-- Nothing that fired before `v` holds the alarm back there: neither what fired last before the ticks
nor what fires at them. -/
def Clear (latest : Option Nat) (fired : List Nat) (length v : Nat) : Prop :=
  ∀ p, p ∈ latest ∨ p ∈ fired → p < v → p + length < v

/-- At a firing, only what fired earlier counts. -/
theorem clear_head {fired : List Nat} {length : Nat} (hover : ∀ p ∈ latest, p + length < s)
    (hlater : ∀ p ∈ fired, s < p) : Clear latest (s :: fired) length s := by
  rintro p (hp | hp) hlt
  · exact hover p hp
  · rcases List.mem_cons.1 hp with rfl | hp
    · exact absurd hlt (Nat.lt_irrefl p)
    · exact absurd hlt (Nat.lt_asymm (hlater p hp))

/-- After a firing, what fired before it no longer holds back. -/
theorem clear_cons_iff {fired : List Nat} {length v : Nat} (hover : ∀ p ∈ latest, p + length < s)
    (hv : s < v) : Clear latest (s :: fired) length v ↔ Clear (some s) fired length v := by
  constructor
  · rintro hclear p (hp | hp) hlt
    · obtain rfl := Option.some.inj hp
      exact hclear s (.inr List.mem_cons_self) hlt
    · exact hclear p (.inr (List.mem_cons_of_mem s hp)) hlt
  · rintro hclear p (hp | hp) hlt
    · exact Nat.lt_trans (hover p hp) hv
    · rcases List.mem_cons.1 hp with rfl | hp
      · exact hclear p (.inl rfl) hlt
      · exact hclear p (.inr hp) hlt

/-- The alarm fires at the seconds at which its target recurs, but not before the second one after
an activation. -/
theorem mem_firingSeconds_iff (h : a.Prompt) (hlast : LastFired latest s a)
    (htimes : SecondBySecond s times) {v : Nat} :
    v ∈ firingSeconds (times.map Event.tick) a ↔
      (s ≤ v ∧ v < s + times.length) ∧ RecursAtSecond v a ∧
        Clear latest (firingSeconds (times.map Event.tick) a) (60 * a.schedule.minutes + 1) v := by
  induction htimes generalizing a latest with
  | nil s =>
      refine iff_of_false List.not_mem_nil ?_
      rintro ⟨⟨hle, hlt⟩, -⟩
      exact absurd hlt (Nat.not_lt.2 hle)
  | @cons s now times hnow hlater ih =>
      have hlater' : ∀ p ∈ firingSeconds (times.map Event.tick) (a.tick now).2, s < p :=
        fun _ hp => le_of_mem_firingSeconds hlater hp
      have hindex : s + (now :: times).length = s + 1 + times.length := by
        rw [List.length_cons, Nat.add_comm times.length, Nat.add_assoc]
      rw [firingSeconds_cons hnow, hindex]
      cases turn_tick h hlast hnow with
      | fires hrecurs hover hfires hnext =>
          have hrest := ih (prompt_act h (.tick now)) hnext
          rw [Event.act, recursAtSecond_tick, schedule_tick] at hrest
          rw [if_pos hfires, List.mem_cons, hrest]
          by_cases hv : v = s
          · subst hv
            refine iff_of_true (.inl rfl) ⟨⟨Nat.le_refl v, by omega⟩, hrecurs, ?_⟩
            exact clear_head hover hlater'
          · rw [or_iff_right hv, Nat.succ_le_iff, (Ne.symm hv).le_iff_lt]
            refine and_congr_right fun hin => and_congr_right fun _ => ?_
            exact (clear_cons_iff hover hin.1).symm
      | passes hheld hfires hnext =>
          have hrest := ih (prompt_act h (.tick now)) hnext
          rw [Event.act, recursAtSecond_tick, schedule_tick] at hrest
          rw [if_neg (by simp [hfires]), hrest]
          constructor
          · rintro ⟨hin, hrecurs, hclear⟩
            exact ⟨⟨Nat.le_of_succ_le hin.1, hin.2⟩, hrecurs, hclear⟩
          · rintro ⟨hin, hrecurs, hclear⟩
            have hv : v ≠ s := by
              rintro rfl
              obtain ⟨p, hp, hle⟩ := hheld hrecurs
              exact absurd (hclear p (.inl hp) (hlast.before p hp)) (Nat.not_lt.2 hle)
            exact ⟨⟨by omega, hin.2⟩, hrecurs, hclear⟩

/-! ### Hour by hour -/

theorem recursAtSecond_hour_iff (hperiod : a.schedule.period = .hour)
    (hin : 946684800 ≤ s ∧ s ≤ 4102444799) :
    RecursAtSecond s a ↔ s / 60 % 60 = a.schedule.target.minute := by
  obtain ⟨t, ht⟩ := exists_ofUnix hin
  have hexists := exists_of_ofUnix ht
  have hminute := minuteNumber_eq hexists
  have hlt := hexists.minute
  rw [minuteNumber_of_ofUnix ht] at hminute
  rw [recursAtSecond_iff ht, hperiod, Period.recurs_hour_iff]
  omega

/-- What fires from the second `first` to the second `last`: each second of that minute of an hour,
unless something fires in the hour before it or in the second before that hour. -/
def FiresHourly (minute first last : Nat) (fired : List Nat) : Prop :=
  ∀ s, s ∈ fired ↔ (first ≤ s ∧ s ≤ last) ∧ s / 60 % 60 = minute ∧
    ∀ p ∈ fired, p < s → p + 3601 < s

theorem exists_firesHourly (target : CivilTime) {first last : Nat} (hfirst : 946684800 ≤ first)
    (horder : first ≤ last) (hlast : last ≤ 4102444799) :
    ∃ times, (List.range' first (last + 1 - first)).mapM ofUnix = .ok times ∧
      FiresHourly target.minute first last
        (firingSeconds (times.map Event.tick) (ofSchedule (.clamped .hour target 1 0))) := by
  obtain ⟨times, hmap, hlength, htimes⟩ :=
    @exists_secondBySecond first (last + 1 - first) hfirst (by omega)
  refine ⟨times, hmap, fun s => ?_⟩
  have hprompt : (ofSchedule (.clamped .hour target 1 0)).Prompt :=
    ⟨sound_ofSchedule .hour target 1 0, rfl⟩
  have hfresh : LastFired none first (ofSchedule (.clamped .hour target 1 0)) :=
    ⟨nofun, nofun, rfl, by simp [ofSchedule]⟩
  rw [mem_firingSeconds_iff hprompt hfresh htimes, hlength]
  constructor
  · rintro ⟨hin, hrecurs, hclear⟩
    have hin' : first ≤ s ∧ s ≤ last := by omega
    refine ⟨hin', (recursAtSecond_hour_iff rfl (by omega)).1 hrecurs, fun p hp hlt => ?_⟩
    exact hclear p (.inr hp) hlt
  · rintro ⟨hin, hminute, hclear⟩
    refine ⟨by omega, (recursAtSecond_hour_iff rfl (by omega)).2 hminute, ?_⟩
    rintro p (hp | hp) hlt
    · cases hp
    · exact hclear p hp hlt

namespace FiresHourly

variable {minute first last m p : Nat} {fired : List Nat}

/-- At the first second nothing holds back. -/
theorem mem_first (h : FiresHourly minute first last fired) (horder : first ≤ last)
    (hminute : first / 60 % 60 = minute) : first ∈ fired := by
  refine (h first).2 ⟨⟨Nat.le_refl first, horder⟩, hminute, fun p hp hlt => ?_⟩
  exact absurd hlt (Nat.not_lt.2 ((h p).1 hp).1.1)

/-- A firing in the minute an hour ago is followed by one two seconds later in this minute. -/
theorem later_by_two (h : FiresHourly minute first last fired) (hfirst : first ≤ m)
    (hlast : m + 59 ≤ last) (hm : m % 3600 = minute * 60) (hp : p ∈ fired)
    (hhour : m ≤ p + 3600) (hin : p + 3602 < m + 60) : p + 3602 ∈ fired := by
  refine (h _).2 ⟨by omega, by omega, fun q hq hlt => ?_⟩
  have hnone : ¬p < q := by
    intro hlater
    have hclear := ((h q).1 hq).2.2 p hp hlater
    omega
  omega

/-- If nothing fired in the minute an hour ago, the first second of this minute fires. -/
theorem first_second (h : FiresHourly minute first last fired) (hfirst : first ≤ m)
    (hlast : m + 59 ≤ last) (hm : m % 3600 = minute * 60)
    (hnone : ∀ p ∈ fired, p < m → p + 3600 < m) : m ∈ fired := by
  refine (h m).2 ⟨by omega, by omega, fun q hq hlt => ?_⟩
  have hbefore := hnone q hq hlt
  have hminute := ((h q).1 hq).2.1
  omega

/-- An hour is missed if the one before fired in one of the last two seconds of its minute. -/
theorem exists_mem_iff (h : FiresHourly minute first last fired) (hfirst : first ≤ m)
    (hlast : m + 59 ≤ last) (hm : m % 3600 = minute * 60) :
    (∃ s ∈ fired, s / 60 = m / 60) ↔ ∀ p ∈ fired, p + 3600 ≠ m + 58 ∧ p + 3600 ≠ m + 59 := by
  constructor
  · rintro ⟨s, hs, hsame⟩ p hp
    have hclear := ((h s).1 hs).2.2 p hp
    omega
  · intro hearly
    by_cases hnone : ∀ p ∈ fired, p < m → p + 3600 < m
    · exact ⟨m, h.first_second hfirst hlast hm hnone, rfl⟩
    · push Not at hnone
      obtain ⟨p, hp, hlt, hle⟩ := hnone
      have hminute := ((h p).1 hp).2.1
      have hlate := hearly p hp
      have hin : p + 3602 < m + 60 := by omega
      exact ⟨p + 3602, h.later_by_two hfirst hlast hm hp hle hin, by omega⟩

end FiresHourly

/-- An hourly alarm that is active for an hour at each recurrence, ticked at every second from
`first` to `last`. It fires at each second of its minute of an hour that no firing in the hour
before, or in the second before that hour, holds back. So a firing is followed by one two seconds
later in the minute an hour on, and an hour of which the whole minute is ticked is missed just if
the alarm fired in one of the last two seconds of the minute an hour before. -/
theorem hourly_firings_come_later (target : CivilTime) (first last : Nat)
    (hfirst : 946684800 ≤ first) (horder : first ≤ last) (hlast : last ≤ 4102444799) :
    ∃ times, (List.range' first (last + 1 - first)).mapM ofUnix = .ok times ∧
      let fired := firingSeconds (times.map Event.tick) (ofSchedule (.clamped .hour target 1 0))
      FiresHourly target.minute first last fired ∧
        ∀ m, first ≤ m → m + 59 ≤ last → m % 3600 = target.minute * 60 →
          (∀ p ∈ fired, m ≤ p + 3600 → p + 3602 < m + 60 → p + 3602 ∈ fired) ∧
            ((∃ s ∈ fired, s / 60 = m / 60) ↔
              ∀ p ∈ fired, p + 3600 ≠ m + 58 ∧ p + 3600 ≠ m + 59) := by
  obtain ⟨times, hmap, hlaw⟩ := exists_firesHourly target hfirst horder hlast
  refine ⟨times, hmap, hlaw, fun m hin hin' hm => ⟨fun p hp => ?_, ?_⟩⟩
  · exact hlaw.later_by_two hin hin' hm hp
  · exact hlaw.exists_mem_iff hin hin' hm

/-- From seven past six on, at seven past the hour: the next firing is two seconds late. -/
theorem hourly_firings_come_later_by_two :
    let target : CivilTime := ⟨15, 7, 1, .saturday, 18, 7, 0⟩
    946684800 ≤ 1438452420 ∧ 1438452420 ≤ 1438456079 ∧ 1438456079 ≤ 4102444799 ∧
      ∃ times, (List.range' 1438452420 3660).mapM ofUnix = .ok times ∧
        let fired := firingSeconds (times.map Event.tick) (ofSchedule (.clamped .hour target 1 0))
        1438452420 ∈ fired ∧ 1438456022 ∈ fired := by
  intro target
  obtain ⟨times, hmap, hlaw, hhours⟩ := hourly_firings_come_later target 1438452420 1438456079
    (by decide) (by decide) (by decide)
  have hstart := hlaw.mem_first (by decide) (by decide)
  obtain ⟨hlater, -⟩ := hhours 1438456020 (by decide) (by decide) (by decide)
  exact ⟨by decide, by decide, by decide, times, hmap, hstart,
    hlater 1438452420 hstart (by decide) (by decide)⟩

/-- The ticks begin at 18:07:58, where the alarm fires. At 19:07:59 that activation is found over,
which was the last second of the minute. -/
theorem hourly_alarm_misses_an_hour :
    let target : CivilTime := ⟨15, 7, 1, .saturday, 18, 7, 0⟩
    ∃ times, (List.range' 1438452478 3602).mapM ofUnix = .ok times ∧
      let fired := firingSeconds (times.map Event.tick) (ofSchedule (.clamped .hour target 1 0))
      1438452478 ∈ fired ∧ 1438452478 ≤ 1438456020 ∧ 1438456020 + 59 < 1438452478 + 3602 ∧
        1438456020 % 3600 = target.minute * 60 ∧ ∀ s ∈ fired, s / 60 ≠ 1438456020 / 60 := by
  intro target
  obtain ⟨times, hmap, hlaw⟩ := @exists_firesHourly target 1438452478 1438456079 (by decide)
    (by decide) (by decide)
  have hstart := hlaw.mem_first (by decide) (by decide)
  refine ⟨times, hmap, hstart, by decide, by decide, by decide, fun s hs => ?_⟩
  have hclear := ((hlaw s).1 hs).2.2 1438452478 hstart
  omega

end TimeSwitch.Alarm
