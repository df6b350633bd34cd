import Mathlib.Data.Fintype.Card
import TimeSwitch.Bench.Pin
import TimeSwitch.Proofs.Device.Channels
import TimeSwitch.Proofs.Formula.Parsing
import TimeSwitch.Proofs.Formula.Storing

/-!
A tick is one step for all outputs at once. The outputs are driven one after the other, but each
to the level that its trigger asks for in a snapshot that was taken before the first of them, so
which of them comes first does not show.
-/

namespace TimeSwitch.Device

open Formula

/-- A pin that tells the level it was driven to last. -/
class DrivenPin (π : Type) extends Pin π where
  isSetHigh_setHigh : ∀ pin : π, isSetHigh (setHigh pin) = true
  isSetHigh_setLow : ∀ pin : π, isSetHigh (setLow pin) = false

instance : DrivenPin Bench.Pin where
  isSetHigh_setHigh _ := rfl
  isSetHigh_setLow _ := rfl

@[simp] theorem isSetHigh_setLevel {π : Type} [DrivenPin π] (high : Bool) (pin : π) :
    Pin.isSetHigh (Pin.setLevel high pin) = high := by
  cases high with
  | true => exact DrivenPin.isSetHigh_setHigh pin
  | false => exact DrivenPin.isSetHigh_setLow pin

namespace Controller

variable {κ π : Type}

/-! ### What driving leaves alone -/

/-- Only pins, panel and the session of parsing may differ. -/
structure Frame (before after : Controller κ π) : Prop where
  clock : after.clock = before.clock
  settings : after.settings = before.settings
  alarms : after.alarms = before.alarms
  triggers : after.triggers = before.triggers
  outbox : after.outbox = before.outbox

theorem Frame.refl (c : Controller κ π) : Frame c c := ⟨rfl, rfl, rfl, rfl, rfl⟩

theorem Frame.trans {a b c : Controller κ π} (hab : Frame a b) (hbc : Frame b c) : Frame a c :=
  ⟨hbc.clock.trans hab.clock, hbc.settings.trans hab.settings, hbc.alarms.trans hab.alarms,
    hbc.triggers.trans hab.triggers, hbc.outbox.trans hab.outbox⟩

variable [Pin π]

/-! ### One channel -/

/-- The level that a channel's trigger asks for in a snapshot. -/
def wanted (snapshot : Snapshot) (c : Controller κ π) (channel : Channel) : Bool :=
  valueOf (c.triggers.get? channel) snapshot.value

theorem level_askedLevel (snapshot : Snapshot) (text : Option String) (session : Session) :
    (askedLevel snapshot text session).1 = valueOf text snapshot.value := by
  cases text with
  | none => rfl
  | some text => exact Session.evaluate_parse session text snapshot.value

variable {snapshot : Snapshot} {channel other : Channel} {c : Controller κ π}

theorem driveChannel_input (snapshot : Snapshot) (h : c.panel.direction channel = .input) :
    driveChannel snapshot channel c = (false, c) := by
  rw [driveChannel, h]

theorem driveChannel_output (snapshot : Snapshot) (h : c.panel.direction channel = .output) :
    ∃ session, driveChannel snapshot channel c =
      (c.panel.level channel != wanted snapshot c channel,
        { c with
          pins := channel.update (Pin.setLevel (wanted snapshot c channel) (c.pin channel)) c.pins
          panel := c.panel.setLevel channel (wanted snapshot c channel)
          session }) := by
  have hlevel := level_askedLevel snapshot (c.triggers.get? channel) c.session
  refine ⟨(askedLevel snapshot (c.triggers.get? channel) c.session).2, ?_⟩
  rw [driveChannel, h, wanted, ← hlevel]

theorem frame_driveChannel : Frame c (driveChannel snapshot channel c).2 := by
  cases h : c.panel.direction channel with
  | input =>
      rw [driveChannel_input snapshot h]
      exact .refl c
  | output =>
      obtain ⟨session, hdrive⟩ := driveChannel_output snapshot h
      rw [hdrive]
      exact ⟨rfl, rfl, rfl, rfl, rfl⟩

theorem channelState_driveChannel_self (snapshot : Snapshot)
    (h : c.panel.direction channel = .output) :
    (driveChannel snapshot channel c).2.channelState channel =
      (c.channelState channel).driven (wanted snapshot c channel) := by
  obtain ⟨session, hdrive⟩ := driveChannel_output snapshot h
  rw [hdrive, ChannelState.driven, channelState, channelState, pin, Channel.valueIn_update_self,
    Panel.direction_setLevel, Panel.level_setLevel_self]

theorem channelState_driveChannel_of_ne (snapshot : Snapshot) (h : channel ≠ other)
    (c : Controller κ π) :
    (driveChannel snapshot channel c).2.channelState other = c.channelState other := by
  cases hdirection : c.panel.direction channel with
  | input => rw [driveChannel_input snapshot hdirection]
  | output =>
      obtain ⟨session, hdrive⟩ := driveChannel_output snapshot hdirection
      rw [hdrive, channelState, channelState, pin, Channel.valueIn_update_of_ne h,
        Panel.direction_setLevel, Panel.level_setLevel_of_ne h, ← pin]

theorem changed_driveChannel (snapshot : Snapshot) (channel : Channel) (c : Controller κ π) :
    (driveChannel snapshot channel c).1 =
      (c.panel.level channel != (driveChannel snapshot channel c).2.panel.level channel) := by
  cases h : c.panel.direction channel with
  | input =>
      rw [driveChannel_input snapshot h]
      exact (bne_self_eq_false _).symm
  | output =>
      obtain ⟨session, hdrive⟩ := driveChannel_output snapshot h
      rw [hdrive, Panel.level_setLevel_self]

/-! ### All channels -/

theorem driveChannels_cons (snapshot : Snapshot) (channel : Channel) (channels : List Channel)
    (c : Controller κ π) :
    driveChannels snapshot (channel :: channels) c =
      ((driveChannel snapshot channel c).1.toNat +
          (driveChannels snapshot channels (driveChannel snapshot channel c).2).1,
        (driveChannels snapshot channels (driveChannel snapshot channel c).2).2) := rfl

/-- What driving some channels comes to: each output among them is at the level that its trigger
asked for, and no other channel has changed. -/
structure Drives (snapshot : Snapshot) (channels : List Channel) (before : Controller κ π)
    (switched : Nat) (after : Controller κ π) : Prop where
  frame : Frame before after
  output : ∀ channel ∈ channels, before.panel.direction channel = .output →
    after.channelState channel =
      (before.channelState channel).driven (wanted snapshot before channel)
  kept : ∀ channel, channel ∉ channels ∨ before.panel.direction channel = .input →
    after.channelState channel = before.channelState channel
  switched : switched =
    channels.countP fun channel => before.panel.level channel != after.panel.level channel

theorem drives_nil (snapshot : Snapshot) (c : Controller κ π) : Drives snapshot [] c 0 c :=
  ⟨.refl c, nofun, fun _ _ => rfl, rfl⟩

theorem switched_cons {channels : List Channel} {after : Controller κ π} (hnew : channel ∉ channels)
    (hself : after.channelState channel = (driveChannel snapshot channel c).2.channelState channel) :
    (driveChannel snapshot channel c).1.toNat + (channels.countP fun other =>
        (driveChannel snapshot channel c).2.panel.level other != after.panel.level other) =
      (channel :: channels).countP fun other =>
        c.panel.level other != after.panel.level other := by
  have hcount : (channels.countP fun other =>
      (driveChannel snapshot channel c).2.panel.level other != after.panel.level other) =
        channels.countP fun other => c.panel.level other != after.panel.level other := by
    refine List.countP_congr fun other hmem => ?_
    have hne : channel ≠ other := fun heq => hnew (heq ▸ hmem)
    have hlevel : (driveChannel snapshot channel c).2.panel.level other = c.panel.level other :=
      congrArg ChannelState.level (channelState_driveChannel_of_ne snapshot hne c)
    rw [hlevel]
  have hlevel : after.panel.level channel =
      (driveChannel snapshot channel c).2.panel.level channel :=
    congrArg ChannelState.level hself
  rw [List.countP_cons, hcount, changed_driveChannel, hlevel, Nat.add_comm]
  cases c.panel.level channel != _ <;> rfl

theorem drives_cons {channels : List Channel} {n : Nat} {after : Controller κ π}
    (hnew : channel ∉ channels)
    (hrest : Drives snapshot channels (driveChannel snapshot channel c).2 n after) :
    Drives snapshot (channel :: channels) c
      ((driveChannel snapshot channel c).1.toNat + n) after := by
  have hframe : Frame c (driveChannel snapshot channel c).2 := frame_driveChannel
  have hself := hrest.kept channel (.inl hnew)
  have hother : ∀ other, channel ≠ other →
      (driveChannel snapshot channel c).2.channelState other = c.channelState other :=
    fun other hne => channelState_driveChannel_of_ne snapshot hne c
  have hne : ∀ other ∈ channels, channel ≠ other := fun other hmem heq => hnew (heq ▸ hmem)
  refine ⟨hframe.trans hrest.frame, ?_, ?_, ?_⟩
  · intro other hmem houtput
    rcases List.mem_cons.1 hmem with rfl | hmem
    · exact hself.trans (channelState_driveChannel_self snapshot houtput)
    · have hsame := hother other (hne other hmem)
      have hdriven := hrest.output other hmem
        ((congrArg ChannelState.direction hsame).trans houtput)
      rw [hsame, wanted, hframe.triggers] at hdriven
      exact hdriven
  · intro other hkept
    by_cases heq : channel = other
    · obtain rfl := heq
      have hinput := hkept.resolve_left fun h => h List.mem_cons_self
      rw [hself, driveChannel_input snapshot hinput]
    · have hsame := hother other heq
      refine (hrest.kept other (hkept.imp ?_ ?_)).trans hsame
      · exact fun h hmem => h (List.mem_cons_of_mem _ hmem)
      · exact (congrArg ChannelState.direction hsame).trans
  · rw [hrest.switched]
    exact switched_cons hnew hself

theorem drives_driveChannels (snapshot : Snapshot) {channels : List Channel}
    (hnodup : channels.Nodup) (c : Controller κ π) :
    Drives snapshot channels c (driveChannels snapshot channels c).1
      (driveChannels snapshot channels c).2 := by
  induction channels generalizing c with
  | nil => exact drives_nil snapshot c
  | cons channel channels ih =>
      obtain ⟨hnew, hnodup⟩ := List.nodup_cons.1 hnodup
      exact drives_cons hnew (ih hnodup (driveChannel snapshot channel c).2)

/-! ### The tick -/

/-- What a source shows in a tick at `now`: a channel as it was before the tick, an alarm as it is
once it has moved to `now`. An input that cannot be read shows low, and so does an empty slot. -/
def shown (now : CivilTime) (c : Controller κ π) : Source → Bool
  | .input channel => match c.panel.direction channel, Pin.isHigh (c.pin channel) with
    | .input, .ok high => high
    | .input, .error _ => false
    | .output, _ => c.panel.level channel
  | .alarm slot => match c.alarms.get? slot with
    | some alarm => (alarm.tick now).2.active
    | none => false
  | .always => true
  | .never => false

/-- What a tick at `now` comes to, all channels changing together. -/
structure Ticks (now : CivilTime) (before : Controller κ π) (report : TickReport)
    (after : Controller κ π) : Prop where
  settings : after.settings = before.settings
  triggers : after.triggers = before.triggers
  outbox : after.outbox = before.outbox
  alarms : ∀ slot, after.alarms.get? slot =
    (before.alarms.get? slot).map fun alarm => (alarm.tick now).2
  directions : ∀ channel, after.panel.direction channel = before.panel.direction channel
  input : ∀ channel, before.panel.direction channel = .input →
    after.pin channel = before.pin channel ∧
      after.panel.level channel = before.panel.level channel
  output : ∀ channel, before.panel.direction channel = .output → ∃ level,
    Asks (fun s => before.shown now (before.settings.sources.get s))
        (before.triggers.get? channel) level ∧
      after.pin channel = Pin.setLevel level (before.pin channel) ∧
      Pin.isSetHigh (after.pin channel) = level ∧ after.panel.level channel = level
  now : report.now = now
  fired : report.fired = (Finset.univ.filter fun slot =>
    before.alarms.isActive slot = false ∧ after.alarms.isActive slot = true).card
  expired : report.expired = (Finset.univ.filter fun slot =>
    before.alarms.isActive slot = true ∧ after.alarms.isActive slot = false).card
  switched : report.switched = (Finset.univ.filter fun channel =>
    before.panel.direction channel = .output ∧
      before.panel.level channel ≠ after.panel.level channel).card

theorem isOn_reading (c : Controller κ π) (channel : Channel) (now : CivilTime) :
    (c.reading channel).isOn = c.shown now (.input channel) := by
  rw [reading, shown]
  cases c.panel.direction channel with
  | output => exact Reading.isOn_ofLevel _
  | input =>
      cases Pin.isHigh (c.pin channel) with
      | ok high => exact Reading.isOn_ofLevel high
      | error fault => rfl

theorem isActive_tick (c : Controller κ π) (slot : AlarmSlot) (now : CivilTime) :
    (c.alarms.tick now).isActive slot = c.shown now (.alarm slot) := by
  rw [AlarmSlots.isActive, AlarmSlots.get?_tick, shown]
  cases c.alarms.get? slot <;> rfl

theorem value_snapshot (now : CivilTime) (clock : κ) (c : Controller κ π) :
    (c.moveTo now clock).snapshot.value =
      fun s => c.shown now (c.settings.sources.get s) := by
  funext s
  simp only [Snapshot.value, snapshot, moveTo]
  cases c.settings.sources.get s with
  | input channel => exact isOn_reading c channel now
  | alarm slot => exact isActive_tick c slot now
  | always | never => rfl

end Controller

/-- Counting along a list that has everything once is counting. -/
theorem length_filter_eq_card {α : Type} [Fintype α] [DecidableEq α] {all : List α}
    (hnodup : all.Nodup) (hall : ∀ a, a ∈ all) (p : α → Bool) :
    (all.filter p).length = (Finset.univ.filter fun a => p a = true).card := by
  rw [← List.toFinset_card_of_nodup (hnodup.filter p)]
  congr 1
  ext a
  simp [hall a]

namespace Controller

variable [DrivenPin π]

theorem ticks_of_drives {now : CivilTime} {clock : κ} {switched : Nat} {c after : Controller κ π}
    (h : Drives (c.moveTo now clock).snapshot Channel.all (c.moveTo now clock) switched after) :
    Ticks now c
      { now
        fired := (AlarmSlots.started c.alarms (c.moveTo now clock).alarms).length
        expired := (AlarmSlots.ended c.alarms (c.moveTo now clock).alarms).length
        switched } after where
  settings := h.frame.settings
  triggers := h.frame.triggers
  outbox := h.frame.outbox
  alarms slot := by
    rw [h.frame.alarms]
    exact AlarmSlots.get?_tick now c.alarms slot
  directions channel := by
    cases hdirection : c.panel.direction channel with
    | input =>
        have hkept := h.kept channel (.inr hdirection)
        exact (congrArg ChannelState.direction hkept).trans hdirection
    | output =>
        have hdriven := h.output channel (Channel.mem_all channel) hdirection
        exact (congrArg ChannelState.direction hdriven).trans hdirection
  input channel hinput := by
    have hkept := h.kept channel (.inr hinput)
    exact ⟨congrArg ChannelState.pin hkept, congrArg ChannelState.level hkept⟩
  output channel houtput := by
    have hdriven := h.output channel (Channel.mem_all channel) houtput
    have hpin := congrArg ChannelState.pin hdriven
    refine ⟨_, asks_valueOf _ _, ?_⟩
    rw [← value_snapshot now clock c]
    refine ⟨hpin, ?_, congrArg ChannelState.level hdriven⟩
    exact (congrArg Pin.isSetHigh hpin).trans (isSetHigh_setLevel _ _)
  now := rfl
  fired := by
    rw [h.frame.alarms, AlarmSlots.started,
      length_filter_eq_card AlarmSlot.nodup_all AlarmSlot.mem_all]
    simp only [Bool.and_eq_true, Bool.not_eq_true', and_comm]
  expired := by
    rw [h.frame.alarms, AlarmSlots.ended,
      length_filter_eq_card AlarmSlot.nodup_all AlarmSlot.mem_all]
    simp only [Bool.and_eq_true, Bool.not_eq_true']
  switched := by
    dsimp only
    rw [h.switched, List.countP_eq_length_filter,
      length_filter_eq_card Channel.nodup_all Channel.mem_all]
    congr 1
    refine Finset.filter_congr fun channel _ => ?_
    rw [bne_iff_ne]
    refine ⟨fun hne => ⟨?_, hne⟩, And.right⟩
    cases hdirection : c.panel.direction channel with
    | output => rfl
    | input =>
        have hkept := h.kept channel (.inr hdirection)
        exact absurd (congrArg ChannelState.level hkept).symm hne

/-- If the clock cannot be read, nothing happens but what that did to the clock. Otherwise all
channels change together: which levels there are after the tick depends on those before it, on
the inputs and on the alarms at the current time. -/
theorem tick_is_one_step [Clock κ] (c : Controller κ π) :
    match Clock.now c.clock with
    | .error fault clock => tick c = .error fault { c with clock }
    | .ok now clock => ∃ report after, tick c = .ok report after ∧ after.clock = clock ∧
        Ticks now c report after := by
  rw [tick_eq]
  cases Clock.now c.clock with
  | error fault clock => rfl
  | ok now clock =>
      have hdrives := drives_driveChannels (c.moveTo now clock).snapshot Channel.nodup_all
        (c.moveTo now clock)
      exact ⟨_, _, rfl, hdrives.frame.clock, ticks_of_drives hdrives⟩

/-- Two outputs that each ask for the level of the other change places. -/
theorem tick_is_one_step_swap :
    let c : Controller SoftClock Bench.Pin :=
      { boot ⟨some 1438452420, 0⟩ (Vector.replicate 4 .start) .standard with
        triggers := (Slots.empty.put 0 "1").put 1 "0"
        panel := ⟨#v[.output, .output, .input, .input], #v[true, false, false, false]⟩ }
    ∃ now report after, Clock.now c.clock = .ok now c.clock ∧ tick c = .ok report after ∧
      Ticks now c report after ∧ report.switched = 2 ∧
      after.panel.level 0 = false ∧ after.panel.level 1 = true := by
  intro c
  have htick := tick_is_one_step c
  have hlevels : (match tick c with
      | .ok report after => (report.switched, after.panel.level 0, after.panel.level 1)
      | .error _ _ => (0, true, false)) = (2, false, true) := by
    cbv
  obtain ⟨now, hnow⟩ : ∃ now, Clock.now c.clock = .ok now c.clock := ⟨_, rfl⟩
  rw [hnow] at htick
  obtain ⟨report, after, htick, -, hticks⟩ := htick
  rw [htick, Prod.mk.injEq, Prod.mk.injEq] at hlevels
  exact ⟨now, report, after, hnow, htick, hticks, hlevels⟩

end Controller

end TimeSwitch.Device
