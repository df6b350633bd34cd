import TimeSwitch.Proofs.Alarm.Events
import TimeSwitch.Proofs.Device.Places

/-!
One alarm slot at a time. The clock and a slot go through whatever happens to a device as a timer
of their own, in which no other slot, trigger, channel or reply has a part. A slot holds the alarm
that it was armed with last, moved on by the ticks since then: each once, in order, and to the time
that the clock was read to have.
-/

namespace TimeSwitch

namespace Alarm

/-- The alarm after ticks at these times. -/
def ticked (times : List CivilTime) (a : Alarm) : Alarm :=
  run (times.map .tick) a

theorem map_ticked_nil (a : Option Alarm) : a.map (ticked []) = a := by
  cases a <;> rfl

theorem map_ticked_append (earlier later : List CivilTime) (a : Option Alarm) :
    (a.map (ticked earlier)).map (ticked later) = a.map (ticked (earlier ++ later)) := by
  cases a with
  | none => rfl
  | some a => simp [ticked, run]

end Alarm

/-- The request is about the clock or about the slot. -/
def Wire.Request.concerns (slot : AlarmSlot) : Wire.Request → Bool
  | setClock _ | readClock | reset => true
  | setAlarm other _ | clearAlarm other => other = slot
  | setTrigger .. | clearTrigger _ | setDirection .. | readChannel _ => false

namespace Device

open Sequence Wire

/-- The clock of a device with one of its alarm slots. -/
structure Timer (κ : Type) where
  clock : κ
  alarm : Option Alarm

namespace Timer

variable {κ : Type} [Clock κ]

/-- What a request does to the timer of a slot. -/
def perform (slot : AlarmSlot) : Request → Timer κ → Timer κ
  | .setClock time, t => { t with clock := stateOf (Clock.set time t.clock) }
  | .readClock, t => { t with clock := stateOf (Clock.now t.clock) }
  | .setAlarm other schedule, t =>
    if other = slot then { t with alarm := some (.ofSchedule schedule) } else t
  | .clearAlarm other, t => if other = slot then { t with alarm := none } else t
  | .reset, t => { t with alarm := none }
  | .setTrigger .., t | .clearTrigger _, t | .setDirection .., t | .readChannel _, t => t

/-- A tick moves the alarm, if the clock can be read. -/
def tick (t : Timer κ) : Timer κ :=
  match Clock.now t.clock with
  | .error _ clock => { t with clock }
  | .ok now clock => ⟨clock, t.alarm.map fun alarm => (alarm.tick now).2⟩

theorem perform_of_not_concerns {slot : AlarmSlot} {request : Request}
    (h : request.concerns slot = false) (t : Timer κ) : perform slot request t = t := by
  cases request with
  | setClock | readClock | reset => cases h
  | setAlarm | clearAlarm => exact if_neg (of_decide_eq_false h)
  | setTrigger | clearTrigger | setDirection | readChannel => rfl

end Timer

namespace Controller

variable {κ π : Type} {slot : AlarmSlot}

/-! ### Events that concern a slot -/

namespace Event

/-- The request that an event brings, if it brings one. -/
def request? : Event κ π → Option Request
  | line tag body => (Request.decode (tag :: body)).toOption
  | request r => some r
  | tick | take | clock _ | pin .. => none

def Arms (slot : AlarmSlot) (schedule : Schedule) (event : Event κ π) : Prop :=
  event.request? = some (.setAlarm slot schedule)

def Disarms (slot : AlarmSlot) (event : Event κ π) : Prop :=
  event.request? = some (.clearAlarm slot) ∨ event.request? = some .reset

theorem not_arms_of_disarms {event : Event κ π} (h : event.Disarms slot) (schedule : Schedule) :
    ¬event.Arms slot schedule := by
  intro harms
  obtain h | h := h
  · cases h.symm.trans harms
  · cases h.symm.trans harms

/-- The event has to do with the clock, as every tick does, or with the slot. -/
def concerns (slot : AlarmSlot) : Event κ π → Bool
  | line tag body => (Request.decode (tag :: body)).toOption.any (·.concerns slot)
  | request r => r.concerns slot
  | tick | clock _ => true
  | take | pin .. => false

variable [Clock κ]

/-- What an event does to the timer of a slot. -/
def actOn (slot : AlarmSlot) : Event κ π → Timer κ → Timer κ
  | line tag body, t => match Request.decode (tag :: body) with
    | .ok r => t.perform slot r
    | .error _ => t
  | request r, t => t.perform slot r
  | tick, t => t.tick
  | clock change, t => { t with clock := change t.clock }
  | take, t | pin .., t => t

theorem actOn_of_not_concerns {event : Event κ π} (h : event.concerns slot = false)
    (t : Timer κ) : event.actOn slot t = t := by
  cases event with
  | tick | clock => cases h
  | take | pin => rfl
  | request r => exact Timer.perform_of_not_concerns h t
  | line tag body =>
      rw [concerns] at h
      rw [actOn]
      cases hdecode : Request.decode (tag :: body) with
      | error fault => rfl
      | ok r =>
          rw [hdecode] at h
          exact Timer.perform_of_not_concerns h t

end Event

/-! ### Since when a slot is armed -/

/-- The event arms the slot, and nothing that comes since arms it again or disarms it. -/
structure ArmedSince (slot : AlarmSlot) (schedule : Schedule) (arming : Event κ π)
    (since : List (Event κ π)) : Prop where
  arms : arming.Arms slot schedule
  notArmed : ∀ event ∈ since, ∀ later, ¬event.Arms slot later
  notDisarmed : ∀ event ∈ since, ¬event.Disarms slot

/-- The slot was armed and then disarmed, every time. -/
def DisarmedIn (slot : AlarmSlot) (events : List (Event κ π)) : Prop :=
  ∀ before arming since schedule, events = before ++ arming :: since →
    arming.Arms slot schedule → ∃ event ∈ since, event.Disarms slot

theorem disarmedIn_concat {events : List (Event κ π)} {event : Event κ π}
    (harms : ∀ schedule, ¬event.Arms slot schedule)
    (h : event.Disarms slot ∨ DisarmedIn slot events) : DisarmedIn slot (events ++ [event]) := by
  intro before arming since schedule heq harming
  obtain rfl | ⟨earlier, last, rfl⟩ := List.eq_nil_or_concat' since
  · obtain ⟨-, hlast⟩ := List.append_inj' heq rfl
    obtain rfl := List.singleton_inj.1 hlast
    exact absurd harming (harms schedule)
  · rw [← List.cons_append, ← List.append_assoc] at heq
    obtain ⟨hevents, hlast⟩ := List.append_inj' heq rfl
    obtain rfl := List.singleton_inj.1 hlast
    obtain h | h := h
    · exact ⟨event, List.mem_append_right _ List.mem_cons_self, h⟩
    · obtain ⟨disarming, hmem, hdisarms⟩ := h before arming earlier schedule hevents harming
      exact ⟨disarming, List.mem_append_left _ hmem, hdisarms⟩

theorem ArmedSince.concat {schedule : Schedule} {arming event : Event κ π}
    {since : List (Event κ π)} (h : ArmedSince slot schedule arming since)
    (harms : ∀ later, ¬event.Arms slot later) (hdisarms : ¬event.Disarms slot) :
    ArmedSince slot schedule arming (since ++ [event]) where
  arms := h.arms
  notArmed := List.forall_mem_append.2 ⟨h.notArmed, List.forall_mem_singleton.2 harms⟩
  notDisarmed := List.forall_mem_append.2 ⟨h.notDisarmed, List.forall_mem_singleton.2 hdisarms⟩

/-! ### The timer of a slot -/

def timer (slot : AlarmSlot) (c : Controller κ π) : Timer κ := ⟨c.clock, c.alarms.get? slot⟩

theorem timer_eq_of_onlyAt {place : Place} {c after : Controller κ π} (h : OnlyAt place c after)
    (hclock : place ≠ .clock) (halarm : place ≠ .alarm slot) : after.timer slot = c.timer slot := by
  have hsame := Held.clock.inj (h.held .clock hclock.symm)
  have hheld := Held.alarm.inj (h.held (.alarm slot) halarm.symm)
  rw [timer, timer, hsame, hheld]

variable [Clock κ] [Pin π]

theorem timer_perform (request : Request) (c : Controller κ π) :
    (stateOf (handlers.perform request c)).timer slot = (c.timer slot).perform slot request := by
  cases request with
  | setClock time =>
      rw [perform_setClock]
      simp only [Timer.perform, timer]
      cases Clock.set time c.clock <;> rfl
  | readClock =>
      rw [perform_readClock]
      simp only [Timer.perform, timer]
      cases Clock.now c.clock <;> rfl
  | setAlarm other schedule =>
      rw [Timer.perform]
      split_ifs with hother
      · subst hother
        exact congrArg (Timer.mk c.clock) (Slots.get?_put_self ..)
      · exact timer_eq_of_onlyAt (onlyAt_perform rfl c) nofun fun heq =>
          hother (Place.alarm.inj heq)
  | clearAlarm other =>
      rw [Timer.perform]
      split_ifs with hother
      · subst hother
        exact congrArg (Timer.mk c.clock) (Slots.get?_clear_self ..)
      · exact timer_eq_of_onlyAt (onlyAt_perform rfl c) nofun fun heq =>
          hother (Place.alarm.inj heq)
  | reset =>
      obtain ⟨pins, panel, hreset⟩ := exists_reset_eq c
      change c.reset.timer slot = _
      rw [hreset]
      exact congrArg (Timer.mk c.clock) (Slots.get?_empty slot)
  | setTrigger | clearTrigger | setDirection | readChannel =>
      exact timer_eq_of_onlyAt (onlyAt_perform rfl c) nofun nofun

theorem timer_tick (slot : AlarmSlot) (c : Controller κ π) :
    (stateOf (tick c)).timer slot = (c.timer slot).tick := by
  rw [tick_eq, Timer.tick]
  simp only [timer]
  cases Clock.now c.clock with
  | error fault clock => rfl
  | ok now clock =>
      have hframe := (drives_driveChannels (c.moveTo now clock).snapshot Channel.nodup_all
        (c.moveTo now clock)).frame
      simp only [stateOf]
      rw [hframe.clock, hframe.alarms]
      exact congrArg (Timer.mk clock) (AlarmSlots.get?_tick now c.alarms slot)

/-- No more than the clock and the slot is needed to tell what becomes of them. -/
theorem timer_act (event : Event κ π) (c : Controller κ π) :
    (event.act c).timer slot = event.actOn slot (c.timer slot) := by
  cases event with
  | line tag body =>
      rw [Event.act, Event.actOn]
      cases hdecode : Request.decode (tag :: body) with
      | error fault =>
          rw [handled_of_error hdecode]
          rfl
      | ok r =>
          refine Eq.trans ?_ (timer_perform r c)
          rw [handled_of_ok hdecode]
          cases handlers.perform r c <;> rfl
  | request r => exact timer_perform r c
  | tick => exact timer_tick slot c
  | take | clock change | pin channel change => rfl

theorem timer_run_congr {a b : Controller κ π} (h : a.timer slot = b.timer slot)
    (events : List (Event κ π)) : (run events a).timer slot = (run events b).timer slot := by
  induction events generalizing a b with
  | nil => exact h
  | cons event events ih =>
      refine ih ?_
      rw [timer_act, timer_act, h]

/-- What concerns neither the clock nor the slot may be left out. -/
theorem timer_run_filter (slot : AlarmSlot) (events : List (Event κ π)) (c : Controller κ π) :
    (run (events.filter (·.concerns slot)) c).timer slot = (run events c).timer slot := by
  induction events generalizing c with
  | nil => rfl
  | cons event events ih =>
      cases hevent : event.concerns slot with
      | true =>
          rw [List.filter_cons_of_pos hevent]
          exact ih (event.act c)
      | false =>
          have hsame : c.timer slot = (event.act c).timer slot := by
            rw [timer_act, Event.actOn_of_not_concerns hevent]
          rw [List.filter_cons_of_neg (by simp [hevent])]
          exact (timer_run_congr hsame _).trans (ih (event.act c))

/-! ### What becomes of a slot -/

/-- The time of a tick that succeeded. -/
def Outcome.time? : Outcome → Option CivilTime
  | .report (.ok r) => some r.now
  | _ => none

/-- The times that successful ticks read from the clock. -/
def readings (events : List (Event κ π)) (c : Controller κ π) : List CivilTime :=
  (observed events c).filterMap fun seen => seen.1.time?

theorem readings_cons (event : Event κ π) (events : List (Event κ π)) (c : Controller κ π) :
    readings (event :: events) c =
      (event.outcome c).time?.toList ++ readings events (event.act c) := by
  rw [readings, observed, List.filterMap_cons, readings]
  cases (event.outcome c).time? <;> rfl

/-- What an event makes of a slot. -/
inductive Effect (slot : AlarmSlot) (event : Event κ π) (c : Controller κ π) : Option Alarm → Prop
  | armed {schedule : Schedule} (h : event.Arms slot schedule) :
      Effect slot event c (some (.ofSchedule schedule))
  | disarmed (h : event.Disarms slot) : Effect slot event c none
  | moved (harms : ∀ schedule, ¬event.Arms slot schedule) (hdisarms : ¬event.Disarms slot) :
      Effect slot event c
        ((c.alarms.get? slot).map (Alarm.ticked (event.outcome c).time?.toList))

theorem effect_of_request {event : Event κ π} {r : Request} {c : Controller κ π}
    (hrequest : event.request? = some r) (htime : (event.outcome c).time? = none) :
    Effect slot event c ((c.timer slot).perform slot r).alarm := by
  have hmoved (hsame : ((c.timer slot).perform slot r).alarm = c.alarms.get? slot)
      (harms : ∀ schedule, r ≠ .setAlarm slot schedule)
      (hdisarms : r ≠ .clearAlarm slot ∧ r ≠ .reset) :
      Effect slot event c ((c.timer slot).perform slot r).alarm := by
    have heffect := @Effect.moved κ π _ _ slot event c
      (fun schedule h => harms schedule (Option.some.inj (hrequest.symm.trans h)))
      (fun h => h.elim (fun h => hdisarms.1 (Option.some.inj (hrequest.symm.trans h)))
        fun h => hdisarms.2 (Option.some.inj (hrequest.symm.trans h)))
    rw [htime] at heffect
    rw [hsame, ← Alarm.map_ticked_nil (c.alarms.get? slot)]
    exact heffect
  cases r with
  | setAlarm other schedule =>
      by_cases hother : other = slot
      · subst hother
        rw [Timer.perform, if_pos rfl]
        exact .armed hrequest
      · refine hmoved ?_ ?_ ⟨nofun, nofun⟩
        · rw [Timer.perform, if_neg hother]
          rfl
        · exact fun _ h => hother (Request.setAlarm.inj h).1
  | clearAlarm other =>
      by_cases hother : other = slot
      · subst hother
        rw [Timer.perform, if_pos rfl]
        exact .disarmed (.inl hrequest)
      · refine hmoved ?_ nofun ⟨?_, nofun⟩
        · rw [Timer.perform, if_neg hother]
          rfl
        · exact fun h => hother (Request.clearAlarm.inj h)
  | reset => exact .disarmed (.inr hrequest)
  | setClock | readClock | setTrigger | clearTrigger | setDirection | readChannel =>
      exact hmoved rfl nofun ⟨nofun, nofun⟩

theorem effect_act (slot : AlarmSlot) (event : Event κ π) (c : Controller κ π) :
    Effect slot event c ((event.act c).alarms.get? slot) := by
  have hact : (event.act c).alarms.get? slot = (event.actOn slot (c.timer slot)).alarm :=
    congrArg Timer.alarm (timer_act event c)
  have hmoved (harms : ∀ r, event.request? ≠ some r)
      (hsame : (event.act c).alarms.get? slot =
        (c.alarms.get? slot).map (Alarm.ticked (event.outcome c).time?.toList)) :
      Effect slot event c ((event.act c).alarms.get? slot) := by
    rw [hsame]
    exact .moved (fun schedule => harms _) (fun h => h.elim (harms _) (harms _))
  cases event with
  | line tag body =>
      cases hdecode : Request.decode (tag :: body) with
      | error fault =>
          have hrequest : (.line tag body : Event κ π).request? = none := by
            rw [Event.request?, hdecode]
            rfl
          refine hmoved (fun r h => ?_) ?_
          · rw [hrequest] at h
            cases h
          · rw [hact, Event.actOn, hdecode]
            exact (Alarm.map_ticked_nil _).symm
      | ok r =>
          have hrequest : (.line tag body : Event κ π).request? = some r := by
            rw [Event.request?, hdecode]
            rfl
          rw [hact, Event.actOn, hdecode]
          exact effect_of_request hrequest rfl
  | request r =>
      rw [hact]
      exact effect_of_request rfl rfl
  | tick =>
      refine hmoved (by rintro r ⟨⟩) ?_
      rw [hact, Event.actOn, Timer.tick, Event.outcome, tick_eq]
      simp only [timer]
      cases Clock.now c.clock with
      | error fault clock => exact (Alarm.map_ticked_nil _).symm
      | ok now clock => rfl
  | take | clock change | pin channel change =>
      exact hmoved (by rintro r ⟨⟩) (hact.trans (Alarm.map_ticked_nil _).symm)

/-- As long as a slot is not armed again, what it held is moved on or taken out. -/
theorem alarm_run_of_not_armed {events : List (Event κ π)}
    (harms : ∀ event ∈ events, ∀ schedule, ¬event.Arms slot schedule) (c : Controller κ π) :
    ((∃ event ∈ events, event.Disarms slot) ∧ (run events c).alarms.get? slot = none) ∨
      (∀ event ∈ events, ¬event.Disarms slot) ∧ (run events c).alarms.get? slot =
        (c.alarms.get? slot).map (Alarm.ticked (readings events c)) := by
  induction events generalizing c with
  | nil => exact .inr ⟨nofun, (Alarm.map_ticked_nil _).symm⟩
  | cons event events ih =>
      rw [List.forall_mem_cons] at harms
      have hlater := ih harms.2 (event.act c)
      have heffect := effect_act slot event c
      rw [List.exists_mem_cons_iff, List.forall_mem_cons, readings_cons, ← Alarm.map_ticked_append]
      generalize (event.act c).alarms.get? slot = held at heffect hlater
      cases heffect with
      | armed h => exact absurd h (harms.1 _)
      | disarmed h =>
          refine .inl ⟨.inl h, ?_⟩
          obtain ⟨-, hnone⟩ | ⟨-, hnone⟩ := hlater
          · exact hnone
          · exact hnone
      | moved _ hdisarms =>
          obtain ⟨hsome, hnone⟩ | ⟨hnot, hheld⟩ := hlater
          · exact .inl ⟨.inr hsome, hnone⟩
          · exact .inr ⟨⟨hdisarms, hnot⟩, hheld⟩

/-! ### Slots -/

theorem alarm_act_of_arms {schedule : Schedule} {event : Event κ π}
    (h : event.Arms slot schedule) (c : Controller κ π) :
    (event.act c).alarms.get? slot = some (.ofSchedule schedule) := by
  have heffect := effect_act slot event c
  generalize (event.act c).alarms.get? slot = held at heffect
  cases heffect with
  | armed h' =>
      obtain ⟨-, rfl⟩ := Request.setAlarm.inj (Option.some.inj (h.symm.trans h'))
      rfl
  | disarmed hdisarms => exact absurd h (Event.not_arms_of_disarms hdisarms schedule)
  | moved harms => exact absurd h (harms schedule)

theorem alarm_run_of_armedSince {schedule : Schedule} {arming : Event κ π}
    {since : List (Event κ π)} (h : ArmedSince slot schedule arming since)
    (before : List (Event κ π)) (c : Controller κ π) :
    (run (before ++ arming :: since) c).alarms.get? slot =
      some (.ticked (readings since (run (before ++ [arming]) c)) (.ofSchedule schedule)) := by
  have hfirst : run (before ++ [arming]) c = arming.act (run before c) := List.foldl_append ..
  have hrun : run (before ++ arming :: since) c = run since (run (before ++ [arming]) c) := by
    rw [List.append_cons]
    exact List.foldl_append ..
  rw [hrun]
  obtain ⟨⟨event, hmem, hdisarms⟩, -⟩ | ⟨-, hheld⟩ :=
    alarm_run_of_not_armed h.notArmed (run (before ++ [arming]) c)
  · exact absurd hdisarms (h.notDisarmed event hmem)
  · rw [hheld, hfirst, alarm_act_of_arms h.arms]
    rfl

theorem armedSince_or_empty (events : List (Event κ π)) {c : Controller κ π}
    (hempty : c.alarms.get? slot = none) :
    (∃ before arming since schedule, events = before ++ arming :: since ∧
      ArmedSince slot schedule arming since) ∨
        DisarmedIn slot events ∧ (run events c).alarms.get? slot = none := by
  induction events using List.reverseRecOn with
  | nil =>
      refine .inr ⟨fun before arming since schedule h => ?_, hempty⟩
      cases before <;> cases h
  | append_singleton events event ih =>
      have hrun : run (events ++ [event]) c = event.act (run events c) := List.foldl_append ..
      have heffect := effect_act slot event (run events c)
      rw [hrun]
      generalize (event.act (run events c)).alarms.get? slot = held at heffect
      cases heffect with
      | armed h => exact .inl ⟨events, event, [], _, rfl, h, nofun, nofun⟩
      | disarmed h =>
          exact .inr ⟨disarmedIn_concat (Event.not_arms_of_disarms h) (.inl h), rfl⟩
      | moved harms hdisarms =>
          obtain ⟨before, arming, since, schedule, rfl, harmed⟩ | ⟨hdisarmed, hnone⟩ := ih
          · refine .inl ⟨before, arming, since ++ [event], schedule, ?_, harmed.concat harms hdisarms⟩
            rw [List.append_assoc, List.cons_append]
          · refine .inr ⟨disarmedIn_concat harms (.inr hdisarmed), ?_⟩
            rw [hnone]
            rfl

/-- Whatever happens, a slot is empty if it was disarmed each time after it was armed, and
otherwise holds the alarm that it was armed with last, moved on by the successful ticks since then.
What happens to anything but the clock and the slot makes no difference. -/
theorem slots_evolve_apart (clock : κ) (pins : Vector π 4) (settings : Settings)
    (events : List (Event κ π)) (slot : AlarmSlot) :
    let start := boot clock pins settings
    let held := (run events start).alarms.get? slot
    (held = none ↔ DisarmedIn slot events) ∧
      (∀ alarm, held = some alarm ↔ ∃ before arming since schedule,
        events = before ++ arming :: since ∧ ArmedSince slot schedule arming since ∧
          alarm = .ticked (readings since (run (before ++ [arming]) start)) (.ofSchedule schedule)) ∧
      ∀ other : Controller κ π, other.clock = start.clock → other.alarms.get? slot = none →
        (run (events.filter (·.concerns slot)) other).alarms.get? slot = held := by
  intro start held
  have hstart : start.alarms.get? slot = none := by
    obtain ⟨pins', panel, hboot⟩ := exists_boot_eq clock pins settings
    simp only [start, hboot, Slots.get?_empty]
  have hcases := armedSince_or_empty events hstart
  refine ⟨⟨fun hnone => ?_, fun hdisarmed => ?_⟩, fun alarm => ⟨fun halarm => ?_, ?_⟩, ?_⟩
  · obtain ⟨before, arming, since, schedule, rfl, harmed⟩ | ⟨hdisarmed, -⟩ := hcases
    · cases hnone.symm.trans (alarm_run_of_armedSince harmed before start)
    · exact hdisarmed
  · obtain ⟨before, arming, since, schedule, heq, harmed⟩ | ⟨-, hnone⟩ := hcases
    · obtain ⟨event, hmem, hdisarms⟩ := hdisarmed before arming since schedule heq harmed.arms
      exact absurd hdisarms (harmed.notDisarmed event hmem)
    · exact hnone
  · obtain ⟨before, arming, since, schedule, rfl, harmed⟩ | ⟨-, hnone⟩ := hcases
    · have hheld := alarm_run_of_armedSince harmed before start
      exact ⟨before, arming, since, schedule, rfl, harmed,
        Option.some.inj (halarm.symm.trans hheld)⟩
    · cases halarm.symm.trans hnone
  · rintro ⟨before, arming, since, schedule, rfl, harmed, rfl⟩
    exact alarm_run_of_armedSince harmed before start
  · intro other hclock hempty
    have hsame : other.timer slot = start.timer slot := by
      rw [timer, timer, hclock, hempty, hstart]
    have hfilter := timer_run_filter slot events other
    exact congrArg Timer.alarm (hfilter.trans (timer_run_congr hsame events))

/-- A slot is armed by a line. The first tick finds the clock not set, and the next two count the
recurrences that the alarm needs to fire; a second alarm is armed in between. -/
theorem slots_evolve_apart_late_clock :
    let arming : Event SoftClock Bench.Pin := .line 67 (Octets.ofText "03 02H 07".toList)
    let since : List (Event SoftClock Bench.Pin) :=
      [.tick, .request (.setClock ⟨15, 7, 1, .saturday, 18, 7, 0⟩), .tick,
        .request (.setAlarm 5 .blank), .clock (·.advance 3600), .tick]
    let schedule : Schedule := ⟨.hour, { CivilTime.base with minute := 7 }, 2, 60⟩
    let start := boot .unset (Vector.replicate 4 Bench.Pin.start) .standard
    ArmedSince 3 schedule arming since ∧
      readings since (run [arming] start) =
        [⟨15, 7, 1, .saturday, 18, 7, 0⟩, ⟨15, 7, 1, .saturday, 19, 7, 0⟩] ∧
      (run (arming :: since) start).alarms.get? 3 =
        some ⟨schedule, true, 0, true, 1438459620, some 23974267, fun _ => rfl⟩ := by
  intro arming since schedule start
  have harmed : ArmedSince 3 schedule arming since := by
    refine ⟨rfl, ?_, ?_⟩
    · simp [since, Event.Arms, Event.request?]
    · simp [since, Event.Disarms, Event.request?]
  have hreadings : readings since (run [arming] start) =
      [⟨15, 7, 1, .saturday, 18, 7, 0⟩, ⟨15, 7, 1, .saturday, 19, 7, 0⟩] := by
    decide +kernel
  refine ⟨harmed, hreadings, ?_⟩
  obtain ⟨-, hholds, -⟩ := slots_evolve_apart .unset (Vector.replicate 4 Bench.Pin.start) .standard
    (arming :: since) 3
  have hheld := (hholds _).2 ⟨[], arming, since, schedule, rfl, harmed, rfl⟩
  have halarm : Alarm.ticked [⟨15, 7, 1, .saturday, 18, 7, 0⟩, ⟨15, 7, 1, .saturday, 19, 7, 0⟩]
      (.ofSchedule schedule) = ⟨schedule, true, 0, true, 1438459620, some 23974267, fun _ => rfl⟩ := by
    decide +kernel
  rw [List.nil_append, hreadings, halarm] at hheld
  exact hheld

end Controller

end Device

end TimeSwitch
