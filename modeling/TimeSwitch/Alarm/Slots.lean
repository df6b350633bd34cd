import TimeSwitch.Alarm.Basic
import TimeSwitch.Slots

/-!
The seventeen alarm slots. All armed alarms move with the clock, each on its own: by `tickEach_all`,
moving them one after the other and counting what they say comes to moving them together and
comparing them with before.
-/

namespace TimeSwitch

/-- The place of an alarm in the device. -/
abbrev AlarmSlot := Fin 17

namespace AlarmSlot

def all : List AlarmSlot := List.finRange 17

/-- The slot of that number, if there is one. -/
def ofNat? (n : Nat) : Option AlarmSlot :=
  if h : n < 17 then some ⟨n, h⟩ else none

@[simp] theorem ofNat?_val (slot : AlarmSlot) : ofNat? slot.val = some slot := by
  simp [ofNat?]

theorem mem_all (slot : AlarmSlot) : slot ∈ all := List.mem_finRange slot

theorem nodup_all : all.Nodup := List.nodup_finRange 17

end AlarmSlot

abbrev AlarmSlots := Slots 17 Alarm

namespace AlarmSlots

/-- Moves every alarm to the time `now`. -/
def tick (now : CivilTime) (slots : AlarmSlots) : AlarmSlots :=
  slots.mapValues fun alarm => (alarm.tick now).2

/-- Moves the alarms of some slots to the time `now`, one after the other, and counts those that
become active and those that cease to be. -/
def tickEach (now : CivilTime) : List AlarmSlot → AlarmSlots → (Nat × Nat) × AlarmSlots
  | [], slots => ((0, 0), slots)
  | slot :: rest, slots =>
    match slots.get? slot with
    | none => tickEach now rest slots
    | some alarm =>
      let (active, ticked) := alarm.tick now
      let ((fired, expired), slots) := tickEach now rest (slots.put slot ticked)
      (((active && !alarm.active).toNat + fired, (alarm.active && !active).toNat + expired), slots)

/-- Whether a slot holds an alarm that is active; an empty slot does not. -/
def isActive (slots : AlarmSlots) (slot : AlarmSlot) : Bool :=
  (slots.get? slot).any (·.active)

/-- The slots of `after` that are active and were not before. -/
def started (before after : AlarmSlots) : List AlarmSlot :=
  AlarmSlot.all.filter fun slot => after.isActive slot && !before.isActive slot

/-- The slots of `after` that were active before and no longer are. -/
def ended (before after : AlarmSlots) : List AlarmSlot :=
  AlarmSlot.all.filter fun slot => before.isActive slot && !after.isActive slot

@[simp] theorem get?_tick (now : CivilTime) (slots : AlarmSlots) (slot : AlarmSlot) :
    (slots.tick now).get? slot = (slots.get? slot).map fun alarm => (alarm.tick now).2 := by
  simp [tick]

/-! ### One after the other -/

theorem tickEach_cons_of_some {now : CivilTime} {slot : AlarmSlot} {rest : List AlarmSlot}
    {slots : AlarmSlots} {alarm : Alarm} (h : slots.get? slot = some alarm) :
    tickEach now (slot :: rest) slots =
      let later := tickEach now rest (slots.put slot (alarm.tick now).2)
      ((((slots.tick now).isActive slot && !slots.isActive slot).toNat + later.1.1,
        (slots.isActive slot && !(slots.tick now).isActive slot).toNat + later.1.2), later.2) := by
  rw [tickEach, h]
  simp only [isActive, get?_tick, h, Option.map_some, Option.any_some, alarm.said_tick now]

theorem get?_tickEach_of_notMem {now : CivilTime} {which : List AlarmSlot} {slots : AlarmSlots}
    {slot : AlarmSlot} (h : slot ∉ which) :
    (tickEach now which slots).2.get? slot = slots.get? slot := by
  induction which generalizing slots with
  | nil => rfl
  | cons first rest ih =>
      rw [List.mem_cons, not_or] at h
      cases hfirst : slots.get? first with
      | none =>
          rw [tickEach, hfirst]
          exact ih h.2
      | some alarm =>
          rw [tickEach_cons_of_some hfirst]
          exact (ih h.2).trans (Slots.get?_put_of_ne (Ne.symm h.1))

theorem get?_tickEach_of_mem {now : CivilTime} {which : List AlarmSlot} {slots : AlarmSlots}
    {slot : AlarmSlot} (hnodup : which.Nodup) (h : slot ∈ which) :
    (tickEach now which slots).2.get? slot = (slots.tick now).get? slot := by
  induction which generalizing slots with
  | nil => exact absurd h List.not_mem_nil
  | cons first rest ih =>
      rw [List.nodup_cons] at hnodup
      cases hfirst : slots.get? first with
      | none =>
          rw [tickEach, hfirst]
          obtain rfl | hrest := List.mem_cons.1 h
          · refine (get?_tickEach_of_notMem hnodup.1).trans ?_
            rw [get?_tick, hfirst]
            rfl
          · exact ih hnodup.2 hrest
      | some alarm =>
          rw [tickEach_cons_of_some hfirst]
          obtain rfl | hrest := List.mem_cons.1 h
          · refine (get?_tickEach_of_notMem hnodup.1).trans ?_
            rw [Slots.get?_put_self, get?_tick, hfirst]
            rfl
          · have hne : first ≠ slot := fun heq => hnodup.1 (heq ▸ hrest)
            refine (ih hnodup.2 hrest).trans ?_
            rw [get?_tick, get?_tick, Slots.get?_put_of_ne hne]

/-- Only the slots that are moved are counted. -/
theorem counts_tickEach_congr {now : CivilTime} {which : List AlarmSlot} {slots others : AlarmSlots}
    (h : ∀ slot ∈ which, slots.get? slot = others.get? slot) :
    (tickEach now which slots).1 = (tickEach now which others).1 := by
  induction which generalizing slots others with
  | nil => rfl
  | cons first rest ih =>
      rw [List.forall_mem_cons] at h
      cases hfirst : others.get? first with
      | none =>
          rw [tickEach, tickEach, h.1, hfirst]
          exact ih h.2
      | some alarm =>
          have hlater : (tickEach now rest (slots.put first (alarm.tick now).2)).1 =
              (tickEach now rest (others.put first (alarm.tick now).2)).1 := by
            refine ih fun slot hslot => ?_
            by_cases heq : first = slot
            · subst heq
              rw [Slots.get?_put_self, Slots.get?_put_self]
            · rw [Slots.get?_put_of_ne heq, Slots.get?_put_of_ne heq]
              exact h.2 slot hslot
          rw [tickEach, tickEach, h.1, hfirst]
          simp only [hlater]

theorem counts_tickEach (now : CivilTime) (which : List AlarmSlot) (slots : AlarmSlots)
    (hnodup : which.Nodup) : (tickEach now which slots).1 =
      ((which.filter fun slot => (slots.tick now).isActive slot && !slots.isActive slot).length,
        (which.filter fun slot =>
          slots.isActive slot && !(slots.tick now).isActive slot).length) := by
  induction which with
  | nil => rfl
  | cons first rest ih =>
      rw [List.nodup_cons] at hnodup
      cases hfirst : slots.get? first with
      | none =>
          have hbefore : slots.isActive first = false := by
            rw [isActive, hfirst]
            rfl
          have hafter : (slots.tick now).isActive first = false := by
            rw [isActive, get?_tick, hfirst]
            rfl
          rw [tickEach, hfirst]
          dsimp only
          rw [ih hnodup.2]
          simp [hbefore, hafter]
      | some alarm =>
          have hlater : (tickEach now rest (slots.put first (alarm.tick now).2)).1 =
              (tickEach now rest slots).1 :=
            counts_tickEach_congr fun slot hslot =>
              Slots.get?_put_of_ne fun heq => hnodup.1 (heq ▸ hslot)
          rw [tickEach_cons_of_some hfirst]
          dsimp only
          rw [hlater, ih hnodup.2, List.filter_cons, List.filter_cons]
          cases slots.isActive first <;> cases (slots.tick now).isActive first <;>
            simp [Nat.add_comm]

/-- One after the other, the alarms come to what they come to together, and those are counted that
became active and that ceased to be. -/
theorem tickEach_all (now : CivilTime) (slots : AlarmSlots) :
    tickEach now AlarmSlot.all slots =
      (((started slots (slots.tick now)).length, (ended slots (slots.tick now)).length),
        slots.tick now) := by
  exact Prod.ext (counts_tickEach now _ slots AlarmSlot.nodup_all)
    (Slots.ext_get? fun slot => get?_tickEach_of_mem AlarmSlot.nodup_all (AlarmSlot.mem_all slot))

end AlarmSlots

end TimeSwitch
