import TimeSwitch.Proofs.Device.Histories
import TimeSwitch.Proofs.Device.Ticking

/-!
Controllers that cannot be told apart. The last text that was parsed and the reply that waits in
the outbox have no influence on what a controller does, so two controllers that agree on all else
show the same outcomes and pins whatever happens to them.
-/

namespace TimeSwitch.Device.Controller

open Formula Sequence Wire

variable {κ π α β : Type}

/-- The same but for the session of parsing and the outbox. -/
structure Alike (a b : Controller κ π) : Prop where
  clock : a.clock = b.clock
  pins : a.pins = b.pins
  settings : a.settings = b.settings
  alarms : a.alarms = b.alarms
  triggers : a.triggers = b.triggers
  panel : a.panel = b.panel

/-- The same outcome, in states that are alike. -/
inductive AlikeResults {ε : Type} : EStateM.Result ε (Controller κ π) α →
    EStateM.Result ε (Controller κ π) α → Prop
  | ok {value : α} {a b : Controller κ π} (h : Alike a b) :
      AlikeResults (.ok value a) (.ok value b)
  | error {fault : ε} {a b : Controller κ π} (h : Alike a b) :
      AlikeResults (.error fault a) (.error fault b)

variable {a b : Controller κ π}

namespace Alike

theorem rfl_but (a : Controller κ π) (session : Session) (outbox : Option Octets) :
    Alike a { a with session, outbox } :=
  ⟨rfl, rfl, rfl, rfl, rfl, rfl⟩

theorem exists_eq (h : Alike a b) : ∃ session outbox, b = { a with session, outbox } := by
  cases a
  cases b
  obtain ⟨rfl, rfl, rfl, rfl, rfl, rfl⟩ := h
  exact ⟨_, _, rfl⟩

theorem withOutbox (h : Alike a b) (x y : Option Octets) :
    Alike (a.withOutbox x) (b.withOutbox y) :=
  ⟨h.clock, h.pins, h.settings, h.alarms, h.triggers, h.panel⟩

end Alike

namespace AlikeResults

variable {ε : Type} {r s : EStateM.Result ε (Controller κ π) α}

theorem outcomeOf_eq (h : AlikeResults r s) : outcomeOf r = outcomeOf s := by
  cases h <;> rfl

theorem stateOf (h : AlikeResults r s) : Alike (stateOf r) (stateOf s) := by
  cases h <;> assumption

end AlikeResults

/-! ### Actions that cannot tell what is alike apart -/

/-- Done in states that are alike, the action comes to the same. -/
def Blind {ε : Type} (action : EStateM ε (Controller κ π) α) : Prop :=
  ∀ a b, Alike a b → AlikeResults (action a) (action b)

theorem blind_pure (value : α) : Blind (pure value : Action (Controller κ π) α) :=
  fun _ _ h => .ok h

theorem blind_bind {action : Action (Controller κ π) α} {next : α → Action (Controller κ π) β}
    (haction : Blind action) (hnext : ∀ value, Blind (next value)) :
    Blind (action >>= next) := by
  intro a b h
  have hfirst := haction a b h
  simp only [bind, EStateM.bind]
  generalize action a = r at hfirst ⊢
  generalize action b = s at hfirst ⊢
  cases hfirst with
  | ok h => exact hnext _ _ _ h
  | error h => exact .error h

theorem blind_modify {change : Controller κ π → Controller κ π}
    (h : ∀ {a b}, Alike a b → Alike (change a) (change b)) :
    Blind (modify change : Action (Controller κ π) Unit) :=
  fun _ _ hab => .ok (h hab)

theorem blind_onClock (action : EStateM ClockFault κ α) :
    Blind (onClock action : Action (Controller κ π) α) := by
  intro a b h
  rw [onClock, onClock, h.clock]
  cases action b.clock with
  | ok value clock => exact .ok ⟨rfl, h.pins, h.settings, h.alarms, h.triggers, h.panel⟩
  | error fault clock => exact .error ⟨rfl, h.pins, h.settings, h.alarms, h.triggers, h.panel⟩

theorem blind_setTrigger (channel : Channel) (text : String) :
    Blind (setTrigger channel text : Action (Controller κ π) Unit) := by
  intro a b h
  obtain ⟨session, outbox, rfl⟩ := h.exists_eq
  have hparse : session.parse text = a.session.parse text := rfl
  simp only [setTrigger_eq, hparse]
  split
  · exact .error (.rfl_but a session outbox)
  · split
    · exact .ok ⟨rfl, rfl, rfl, rfl, rfl, rfl⟩
    · exact .error ⟨rfl, rfl, rfl, rfl, rfl, rfl⟩

theorem channelState_eq_of_alike (h : Alike a b) (channel : Channel) :
    a.channelState channel = b.channelState channel := by
  rw [channelState, channelState, pin, pin, h.pins, h.panel]

section Pins

variable [Pin π]

theorem blind_setDirection (channel : Channel) (direction : Direction) :
    Blind (setDirection channel direction : Action (Controller κ π) Unit) := by
  intro a b h
  obtain ⟨session, outbox, rfl⟩ := h.exists_eq
  have hpin : ({ a with session, outbox } : Controller κ π).pin channel = a.pin channel := rfl
  simp only [setDirection, hpin]
  cases Pin.setDirection direction (a.pin channel) with
  | ok _ pin => exact .ok ⟨rfl, rfl, rfl, rfl, rfl, rfl⟩
  | error fault pin => exact .error ⟨rfl, rfl, rfl, rfl, rfl, rfl⟩

theorem alike_reset (h : Alike a b) : Alike a.reset b.reset := by
  have hchannels : ∀ channel, a.reset.channelState channel = b.reset.channelState channel := by
    intro channel
    rw [channelState_reset, channelState_reset, channelState_eq_of_alike h, h.settings]
  obtain ⟨hpins, hpanel⟩ := eq_of_channelState hchannels
  obtain ⟨pins, panel, ha⟩ := exists_reset_eq a
  obtain ⟨pins', panel', hb⟩ := exists_reset_eq b
  rw [ha, hb] at hpins hpanel ⊢
  exact ⟨h.clock, hpins, h.settings, rfl, congrArg Settings.triggers h.settings, hpanel⟩

theorem reading_eq_of_alike (h : Alike a b) (channel : Channel) :
    a.reading channel = b.reading channel := by
  rw [reading, reading, pin, pin, h.pins, h.panel]

theorem snapshot_eq_of_alike (h : Alike a b) : a.snapshot = b.snapshot := by
  have hreading : a.reading = b.reading := funext (reading_eq_of_alike h)
  rw [snapshot, snapshot, h.settings, h.alarms]
  simp only [hreading]

/-! ### Driving -/

theorem alike_driveChannel (h : Alike a b) (snapshot : Snapshot) (channel : Channel) :
    (driveChannel snapshot channel a).1 = (driveChannel snapshot channel b).1 ∧
      Alike (driveChannel snapshot channel a).2 (driveChannel snapshot channel b).2 := by
  have hdirection : a.panel.direction channel = b.panel.direction channel := by rw [h.panel]
  cases hb : b.panel.direction channel with
  | input =>
      rw [driveChannel_input snapshot (hdirection.trans hb), driveChannel_input snapshot hb]
      exact ⟨rfl, h⟩
  | output =>
      obtain ⟨session, hdrive⟩ := driveChannel_output snapshot (hdirection.trans hb)
      obtain ⟨session', hdrive'⟩ := driveChannel_output snapshot hb
      have hwanted : wanted snapshot a channel = wanted snapshot b channel := by
        rw [wanted, wanted, h.triggers]
      have hpin : a.pin channel = b.pin channel := by rw [pin, pin, h.pins]
      rw [hdrive, hdrive', hwanted, hpin, h.pins, h.panel]
      exact ⟨rfl, h.clock, rfl, h.settings, h.alarms, h.triggers, rfl⟩

theorem alike_driveChannels (h : Alike a b) (snapshot : Snapshot) (channels : List Channel) :
    (driveChannels snapshot channels a).1 = (driveChannels snapshot channels b).1 ∧
      Alike (driveChannels snapshot channels a).2 (driveChannels snapshot channels b).2 := by
  induction channels generalizing a b with
  | nil => exact ⟨rfl, h⟩
  | cons channel channels ih =>
      obtain ⟨hchanged, hmiddle⟩ := alike_driveChannel h snapshot channel
      obtain ⟨hswitched, hafter⟩ := ih hmiddle
      rw [driveChannels_cons, driveChannels_cons, hchanged, hswitched]
      exact ⟨rfl, hafter⟩

variable [Clock κ]

/-! ### Requests, lines and ticks -/

theorem blind_perform (request : Request) :
    Blind ((handlers : Handlers (Controller κ π)).perform request) := by
  cases request with
  | setClock time => exact blind_bind (blind_onClock _) fun _ => blind_pure _
  | readClock => exact blind_bind (blind_onClock _) fun _ => blind_pure _
  | setAlarm slot schedule =>
      refine blind_bind (blind_modify fun h => ?_) fun _ => blind_pure _
      have halarms := congrArg (·.put slot (.ofSchedule schedule)) h.alarms
      exact ⟨h.clock, h.pins, h.settings, halarms, h.triggers, h.panel⟩
  | clearAlarm slot =>
      refine blind_bind (blind_modify fun h => ?_) fun _ => blind_pure _
      have halarms := congrArg (·.clear slot) h.alarms
      exact ⟨h.clock, h.pins, h.settings, halarms, h.triggers, h.panel⟩
  | setTrigger channel text => exact blind_bind (blind_setTrigger channel text) fun _ => blind_pure _
  | clearTrigger channel =>
      refine blind_bind (blind_modify fun h => ?_) fun _ => blind_pure _
      have htriggers := congrArg (·.clear channel) h.triggers
      exact ⟨h.clock, h.pins, h.settings, h.alarms, htriggers, h.panel⟩
  | setDirection channel direction =>
      exact blind_bind (blind_setDirection channel direction) fun _ => blind_pure _
  | readChannel channel =>
      intro a b h
      rw [perform_readChannel, perform_readChannel, reading_eq_of_alike h]
      exact .ok h
  | reset => exact blind_bind (blind_modify alike_reset) fun _ => blind_pure _

theorem alike_handled (h : Alike a b) (tag : UInt8) (body : Octets) :
    Alike (handled (tag :: body) a) (handled (tag :: body) b) ∧
      (handled (tag :: body) a).outbox = (handled (tag :: body) b).outbox := by
  cases hdecode : Request.decode (tag :: body) with
  | error fault =>
      rw [handled_of_error hdecode, handled_of_error hdecode]
      exact ⟨h.withOutbox _ _, rfl⟩
  | ok request =>
      rw [handled_of_ok hdecode, handled_of_ok hdecode]
      have hperform := blind_perform request a b h
      generalize handlers.perform request a = r at hperform
      generalize handlers.perform request b = s at hperform
      cases hperform with
      | @ok text _ _ h =>
          refine ⟨h.withOutbox _ _, ?_⟩
          cases text <;> rfl
      | error h => exact ⟨h.withOutbox _ _, rfl⟩

theorem blind_tick : Blind (tick : EStateM ClockFault (Controller κ π) TickReport) := by
  intro a b h
  rw [tick_eq, tick_eq, h.clock]
  cases Clock.now b.clock with
  | error fault clock =>
      exact .error ⟨rfl, h.pins, h.settings, h.alarms, h.triggers, h.panel⟩
  | ok now clock =>
      have hmoved : Alike (a.moveTo now clock) (b.moveTo now clock) :=
        ⟨rfl, h.pins, h.settings, congrArg (·.tick now) h.alarms, h.triggers, h.panel⟩
      obtain ⟨hswitched, hafter⟩ :=
        alike_driveChannels hmoved (b.moveTo now clock).snapshot Channel.all
      dsimp only
      rw [snapshot_eq_of_alike hmoved, hswitched, hmoved.alarms, h.alarms]
      exact .ok hafter

/-! ### Whatever happens -/

theorem alike_act (h : Alike a b) (event : Event κ π) :
    event.outcome a = event.outcome b ∧ Alike (event.act a) (event.act b) := by
  cases event with
  | line tag body =>
      obtain ⟨hafter, hreply⟩ := alike_handled h tag body
      exact ⟨congrArg Outcome.reply hreply, hafter⟩
  | request r =>
      have hperform := blind_perform r a b h
      exact ⟨congrArg Outcome.answer hperform.outcomeOf_eq, hperform.stateOf⟩
  | tick =>
      have htick := blind_tick a b h
      exact ⟨congrArg Outcome.report htick.outcomeOf_eq, htick.stateOf⟩
  | take => exact ⟨rfl, h.withOutbox none none⟩
  | clock change =>
      exact ⟨rfl, congrArg change h.clock, h.pins, h.settings, h.alarms, h.triggers, h.panel⟩
  | pin channel change =>
      refine ⟨rfl, h.clock, ?_, h.settings, h.alarms, h.triggers, h.panel⟩
      change channel.update (change (channel.valueIn a.pins)) a.pins = _
      rw [h.pins]
      rfl

theorem observed_eq_of_alike (h : Alike a b) (events : List (Event κ π)) :
    observed events a = observed events b := by
  induction events generalizing a b with
  | nil => rfl
  | cons event events ih =>
      obtain ⟨houtcome, hafter⟩ := alike_act h event
      rw [observed, observed, houtcome, hafter.pins, ih hafter]

end Pins

end TimeSwitch.Device.Controller
