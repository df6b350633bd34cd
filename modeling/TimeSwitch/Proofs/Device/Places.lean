import TimeSwitch.Proofs.Device.Rebooting
import TimeSwitch.Proofs.Device.Verdicts

/-!
Every request but a reset has its place: the clock, an alarm slot, a trigger or a channel. It looks
at nothing else and touches nothing else, so a line changes at most the place of its request, and
two requests with different places can be carried out in either order.
-/

namespace TimeSwitch.Device

open Sequence Wire

inductive Place
  | clock
  | alarm (slot : AlarmSlot)
  | trigger (channel : Channel)
  | channel (channel : Channel)
  deriving DecidableEq

/-- What a controller holds in a place. -/
inductive Held (κ π : Type)
  | clock (clock : κ)
  | alarm (alarm : Option Alarm)
  | trigger (text : Option String)
  | channel (state : ChannelState π)

/-- A pin that a refusal leaves as it is. -/
class FirmPin (π : Type) extends Pin π where
  refused : ∀ {direction fault} {pin after : π},
    setDirection direction pin = .error fault after → after = pin

instance {π : Type} [SettledPin π] : FirmPin π where
  refused := SettledPin.refused

theorem SoftClock.stateOf_now (clock : SoftClock) : stateOf (Clock.now clock) = clock := by
  obtain ⟨time, h⟩ | ⟨fault, h⟩ := SoftClock.now_state clock
  · exact congrArg stateOf h
  · exact congrArg stateOf h

theorem SoftClock.eq_of_set_eq_error {clock after : SoftClock} {time : CivilTime}
    {fault : ClockFault} (h : Clock.set time clock = .error fault after) : after = clock := by
  change SoftClock.set time clock = .error fault after at h
  rw [SoftClock.set] at h
  split at h
  · cases h
  · exact (EStateM.Result.error.inj h).2.symm

end Device

namespace Wire.Request

open Device

/-- The place that the request is about. -/
def place? : Request → Option Place
  | setClock _ | readClock => some .clock
  | setAlarm slot _ | clearAlarm slot => some (.alarm slot)
  | setTrigger channel _ | clearTrigger channel => some (.trigger channel)
  | setDirection channel _ | readChannel channel => some (.channel channel)
  | reset => none

def onlyReads : Request → Bool
  | readClock | readChannel _ => true
  | _ => false

end Wire.Request

namespace Device.Controller

open Sequence Wire

variable {κ π : Type} {a b c : Controller κ π} {place : Place}

def held (c : Controller κ π) : Place → Held κ π
  | .clock => .clock c.clock
  | .alarm slot => .alarm (c.alarms.get? slot)
  | .trigger channel => .trigger (c.triggers.get? channel)
  | .channel channel => .channel (c.channelState channel)

@[simp] theorem held_withOutbox (outbox : Option Octets) (c : Controller κ π) (place : Place) :
    (c.withOutbox outbox).held place = c.held place := by
  cases place <;> rfl

/-- Besides the settings, nothing but what the places hold tells two controllers apart. -/
theorem alike_iff :
    Alike a b ↔ a.settings = b.settings ∧ ∀ place, a.held place = b.held place := by
  constructor
  · intro h
    refine ⟨h.settings, fun place => ?_⟩
    cases place with
    | clock => exact congrArg Held.clock h.clock
    | alarm slot => exact congrArg (fun alarms => Held.alarm (alarms.get? slot)) h.alarms
    | trigger channel =>
        exact congrArg (fun triggers => Held.trigger (triggers.get? channel)) h.triggers
    | channel channel => exact congrArg Held.channel (channelState_eq_of_alike h channel)
  · rintro ⟨hsettings, hheld⟩
    obtain ⟨hpins, hpanel⟩ := eq_of_channelState fun channel =>
      Held.channel.inj (hheld (.channel channel))
    exact ⟨Held.clock.inj (hheld .clock), hpins, hsettings,
      Slots.ext_get? fun slot => Held.alarm.inj (hheld (.alarm slot)),
      Slots.ext_get? fun channel => Held.trigger.inj (hheld (.trigger channel)), hpanel⟩

/-! ### A request touches nothing else -/

/-- At most what is held in the place is changed. -/
structure OnlyAt (place : Place) (c after : Controller κ π) : Prop where
  settings : after.settings = c.settings
  held : ∀ other, other ≠ place → after.held other = c.held other

theorem OnlyAt.withOutbox {after : Controller κ π} (h : OnlyAt place c after)
    (outbox : Option Octets) : OnlyAt place c (after.withOutbox outbox) where
  settings := h.settings
  held other hne := (held_withOutbox outbox after other).trans (h.held other hne)

theorem onlyAt_clock (clock : κ) : OnlyAt .clock c { c with clock } where
  settings := rfl
  held other hne := by
    cases other with
    | clock => exact absurd rfl hne
    | alarm | trigger | channel => rfl

theorem onlyAt_alarm {slot : AlarmSlot} {alarms : AlarmSlots}
    (h : ∀ other, slot ≠ other → alarms.get? other = c.alarms.get? other) :
    OnlyAt (.alarm slot) c { c with alarms } where
  settings := rfl
  held other hne := by
    cases other with
    | alarm other => exact congrArg Held.alarm (h other fun heq => hne (heq ▸ rfl))
    | clock | trigger | channel => rfl

theorem onlyAt_trigger {channel : Channel} {triggers : Triggers} (session : Formula.Session)
    (h : ∀ other, channel ≠ other → triggers.get? other = c.triggers.get? other) :
    OnlyAt (.trigger channel) c { c with triggers, session } where
  settings := rfl
  held other hne := by
    cases other with
    | trigger other => exact congrArg Held.trigger (h other fun heq => hne (heq ▸ rfl))
    | clock | alarm | channel => rfl

theorem onlyAt_setDirection [Pin π] (channel : Channel) (direction : Direction)
    (c : Controller κ π) :
    OnlyAt (.channel channel) c (stateOf (setDirection channel direction c)) := by
  obtain ⟨pins, panel, hafter⟩ := exists_setDirection_eq channel direction c
  refine ⟨by rw [hafter], fun other hne => ?_⟩
  cases other with
  | channel other =>
      have hother : channel ≠ other := fun heq => hne (heq ▸ rfl)
      exact congrArg Held.channel (channelState_setDirection_of_ne hother direction c)
  | clock | alarm | trigger =>
      rw [hafter]
      rfl

section Requests

variable [Clock κ] [Pin π] {request : Request}

theorem onlyAt_perform (hplace : request.place? = some place) (c : Controller κ π) :
    OnlyAt place c (stateOf (handlers.perform request c)) := by
  cases request with
  | reset => cases hplace
  | setClock time =>
      obtain rfl := Option.some.inj hplace
      rw [perform_setClock]
      cases Clock.set time c.clock <;> exact onlyAt_clock _
  | readClock =>
      obtain rfl := Option.some.inj hplace
      rw [perform_readClock]
      cases Clock.now c.clock <;> exact onlyAt_clock _
  | setAlarm slot schedule =>
      obtain rfl := Option.some.inj hplace
      exact onlyAt_alarm fun other hne => Slots.get?_put_of_ne hne
  | clearAlarm slot =>
      obtain rfl := Option.some.inj hplace
      exact onlyAt_alarm fun other hne => Slots.get?_clear_of_ne hne
  | setTrigger channel text =>
      obtain rfl := Option.some.inj hplace
      rw [perform_setTrigger, setTrigger_eq]
      split_ifs
      · exact onlyAt_trigger c.session fun _ _ => rfl
      · exact onlyAt_trigger _ fun other hne => Slots.get?_put_of_ne hne
      · exact onlyAt_trigger _ fun _ _ => rfl
  | clearTrigger channel =>
      obtain rfl := Option.some.inj hplace
      exact onlyAt_trigger c.session fun other hne => Slots.get?_clear_of_ne hne
  | setDirection channel direction =>
      obtain rfl := Option.some.inj hplace
      have hdirection := onlyAt_setDirection channel direction c
      rw [perform_setDirection]
      cases hresult : setDirection channel direction c with
      | ok _ after | error _ after =>
          rw [hresult] at hdirection
          exact hdirection
  | readChannel channel => exact ⟨rfl, fun _ _ => rfl⟩

/-! ### A request looks at nothing else -/

/-- The same outcome, and the same is held in the place afterwards. -/
structure SameAt {α : Type} (place : Place)
    (r s : EStateM.Result Refusal (Controller κ π) α) : Prop where
  outcome : outcomeOf r = outcomeOf s
  held : (stateOf r).held place = (stateOf s).held place

theorem sameAt_perform (hplace : request.place? = some place)
    (h : a.held place = b.held place) :
    SameAt place (handlers.perform request a) (handlers.perform request b) := by
  cases request with
  | reset => cases hplace
  | setClock time =>
      obtain rfl := Option.some.inj hplace
      rw [perform_setClock, perform_setClock, Held.clock.inj h]
      cases Clock.set time b.clock <;> exact ⟨rfl, rfl⟩
  | readClock =>
      obtain rfl := Option.some.inj hplace
      rw [perform_readClock, perform_readClock, Held.clock.inj h]
      cases Clock.now b.clock <;> exact ⟨rfl, rfl⟩
  | setAlarm slot schedule =>
      obtain rfl := Option.some.inj hplace
      refine ⟨rfl, congrArg Held.alarm ?_⟩
      exact (Slots.get?_put_self ..).trans (Slots.get?_put_self ..).symm
  | clearAlarm slot =>
      obtain rfl := Option.some.inj hplace
      refine ⟨rfl, congrArg Held.alarm ?_⟩
      exact (Slots.get?_clear_self ..).trans (Slots.get?_clear_self ..).symm
  | setTrigger channel text =>
      obtain rfl := Option.some.inj hplace
      have hparse : a.session.parse text = b.session.parse text := rfl
      rw [perform_setTrigger, perform_setTrigger, setTrigger_eq, setTrigger_eq, hparse]
      split_ifs
      · exact ⟨rfl, h⟩
      · refine ⟨rfl, congrArg Held.trigger ?_⟩
        exact (Slots.get?_put_self ..).trans (Slots.get?_put_self ..).symm
      · exact ⟨rfl, h⟩
  | clearTrigger channel =>
      obtain rfl := Option.some.inj hplace
      refine ⟨rfl, congrArg Held.trigger ?_⟩
      exact (Slots.get?_clear_self ..).trans (Slots.get?_clear_self ..).symm
  | setDirection channel direction =>
      obtain rfl := Option.some.inj hplace
      have hstate := Held.channel.inj h
      have ha := channelState_setDirection_self channel direction a
      have hb := channelState_setDirection_self channel direction b
      have hpin : a.pin channel = b.pin channel := congrArg ChannelState.pin hstate
      rw [hstate, ← hb] at ha
      rw [perform_setDirection, perform_setDirection]
      revert ha
      rw [setDirection, setDirection, hpin]
      cases Pin.setDirection direction (b.pin channel) with
      | ok _ pin | error _ pin => exact fun ha => ⟨rfl, congrArg Held.channel ha⟩
  | readChannel channel =>
      obtain rfl := Option.some.inj hplace
      have hstate := Held.channel.inj h
      have hreading : a.reading channel = b.reading channel := by
        have hpin : a.pin channel = b.pin channel := congrArg ChannelState.pin hstate
        have hdirection : a.panel.direction channel = b.panel.direction channel :=
          congrArg ChannelState.direction hstate
        have hlevel : a.panel.level channel = b.panel.level channel :=
          congrArg ChannelState.level hstate
        rw [reading, reading, hpin, hdirection, hlevel]
      rw [perform_readChannel, perform_readChannel, hreading]
      exact ⟨rfl, h⟩

/-! ### Lines -/

variable {tag : UInt8} {body : Octets}

theorem onlyAt_handled (hdecode : Request.decode (tag :: body) = .ok request)
    (hplace : request.place? = some place) (c : Controller κ π) :
    OnlyAt place c (handled (tag :: body) c) := by
  have honly := onlyAt_perform hplace c
  rw [handled_of_ok hdecode]
  cases hperform : handlers.perform request c with
  | ok _ after | error _ after =>
      rw [hperform] at honly
      exact honly.withOutbox _

theorem sameAt_handled (hdecode : Request.decode (tag :: body) = .ok request)
    (hplace : request.place? = some place) (h : a.held place = b.held place) :
    (handled (tag :: body) a).outbox = (handled (tag :: body) b).outbox ∧
      (handled (tag :: body) a).held place = (handled (tag :: body) b).held place := by
  obtain ⟨houtcome, hheld⟩ := sameAt_perform hplace h
  rw [handled_of_ok hdecode, handled_of_ok hdecode]
  generalize handlers.perform request a = r at houtcome hheld
  generalize handlers.perform request b = s at houtcome hheld
  cases r with
  | ok text after =>
      cases s with
      | error => cases houtcome
      | ok text' after' =>
          obtain rfl := Except.ok.inj houtcome
          refine ⟨?_, ?_⟩
          · cases text <;> rfl
          · rw [held_withOutbox, held_withOutbox]
            exact hheld
  | error refusal after =>
      cases s with
      | ok => cases houtcome
      | error refusal' after' =>
          refine ⟨rfl, ?_⟩
          rw [held_withOutbox, held_withOutbox]
          exact hheld

end Requests

/-! ### A refusal changes nothing -/

theorem Alike.refl (c : Controller κ π) : Alike c c := ⟨rfl, rfl, rfl, rfl, rfl, rfl⟩

theorem alike_withOutbox {after : Controller κ π} (h : Alike c after) (outbox : Option Octets) :
    Alike c (after.withOutbox outbox) :=
  h.withOutbox c.outbox outbox

theorem alike_of_setDirection_eq_error [FirmPin π] {channel : Channel} {direction : Direction}
    {refusal : Refusal} {after : Controller κ π}
    (h : setDirection channel direction c = .error refusal after) : Alike c after := by
  rw [setDirection] at h
  cases hpin : Pin.setDirection direction (c.pin channel) with
  | ok _ pin =>
      rw [hpin] at h
      cases h
  | error fault pin =>
      rw [hpin] at h
      obtain ⟨-, rfl⟩ := EStateM.Result.error.inj h
      obtain rfl := FirmPin.refused hpin
      exact ⟨rfl, (Vector.set_getElem_self channel.isLt).symm, rfl, rfl, rfl, rfl⟩

section Soft

variable {s after : Controller SoftClock π} {request : Request}

/-- Looking changes nothing. -/
theorem alike_of_onlyReads [Pin π] (h : request.onlyReads = true) (s : Controller SoftClock π) :
    Alike s (stateOf (handlers.perform request s)) := by
  cases request with
  | readClock =>
      have hclock := SoftClock.stateOf_now s.clock
      rw [perform_readClock]
      revert hclock
      cases Clock.now s.clock with
      | ok _ clock | error _ clock => exact fun hclock => ⟨hclock.symm, rfl, rfl, rfl, rfl, rfl⟩
  | readChannel channel => exact Alike.refl s
  | _ => cases h

theorem alike_of_refused [FirmPin π] {refusal : Refusal}
    (h : handlers.perform request s = .error refusal after) : Alike s after := by
  cases request with
  | setClock time =>
      rw [perform_setClock] at h
      cases hset : Clock.set time s.clock with
      | ok _ clock =>
          rw [hset] at h
          cases h
      | error fault clock =>
          rw [hset] at h
          obtain ⟨-, rfl⟩ := EStateM.Result.error.inj h
          exact ⟨(SoftClock.eq_of_set_eq_error hset).symm, rfl, rfl, rfl, rfl, rfl⟩
  | readClock =>
      have hstate := @alike_of_onlyReads π .readClock _ rfl s
      rw [h] at hstate
      exact hstate
  | setTrigger channel text =>
      rw [perform_setTrigger, setTrigger_eq] at h
      split_ifs at h
      · cases h
        exact Alike.refl s
      · cases h
        exact ⟨rfl, rfl, rfl, rfl, rfl, rfl⟩
  | setDirection channel direction =>
      rw [perform_setDirection] at h
      cases hresult : setDirection channel direction s with
      | ok _ after =>
          rw [hresult] at h
          cases h
      | error refusal after =>
          rw [hresult] at h
          cases h
          exact alike_of_setDirection_eq_error hresult
  | setAlarm | clearAlarm | clearTrigger | readChannel | reset => cases h

/-! ### Lines and their replies -/

variable {tag : UInt8} {body : Octets}

/-- The line did to the controller what its reply says that it did. -/
structure KeptTo (tag : UInt8) (body : Octets) (s after : Controller SoftClock π)
    (reply : Octets) : Prop where
  failed : reply = failureReply tag → Alike s after
  succeeded : reply ≠ failureReply tag → ∃ request,
    Request.decode (tag :: body) = .ok request ∧
      (request.onlyReads = true → Alike s after) ∧
      ∀ place, request.place? = some place → OnlyAt place s after

theorem keptTo_handled [FirmPin π] (tag : UInt8) (body : Octets) (s : Controller SoftClock π) :
    ∃ reply, (handled (tag :: body) s).outbox = some reply ∧
      (∀ buffer, outcomeOf (handlers.exchange (tag :: body) ⟨s, buffer⟩) = .ok () ↔
        reply ≠ failureReply tag) ∧
      KeptTo tag body s (handled (tag :: body) s) reply := by
  have hverdict : Verdict tag body s
      (mapState Dispatcher.device (handlers.exchange (tag :: body) (.start s))) :=
    verdict_exchange tag body (.start s)
  have houtcome : ∀ buffer, outcomeOf (handlers.exchange (tag :: body) ⟨s, buffer⟩) =
      outcomeOf (mapState Dispatcher.device (handlers.exchange (tag :: body) (.start s))) := by
    intro buffer
    rw [outcomeOf_mapState, Dispatcher.start, handlers.exchange_forgets tag body s buffer .empty]
  simp only [houtcome, handled, ← stateOf_mapState]
  generalize mapState Dispatcher.device (handlers.exchange (tag :: body) (.start s)) = result
    at hverdict
  cases hverdict with
  | undecoded hdecode =>
      refine ⟨_, rfl, fun _ => ?_, fun _ => alike_withOutbox (Alike.refl s) _,
        fun hne => absurd rfl hne⟩
      simp [outcomeOf]
  | refused hdecode hperform =>
      refine ⟨_, rfl, fun _ => ?_, fun _ => ?_, fun hne => absurd rfl hne⟩
      · simp [outcomeOf]
      · exact alike_withOutbox (alike_of_refused hperform) _
  | @done request given after hdecode hperform =>
      have hne := successReply_ne_failureReply tag request given
      have hstate : stateOf (handlers.perform request s) = after := by rw [hperform, stateOf]
      refine ⟨_, rfl, fun _ => ⟨fun _ => hne, fun _ => rfl⟩, fun heq => absurd heq hne, fun _ => ?_⟩
      refine ⟨request, hdecode, fun hreads => ?_, fun place hplace => ?_⟩
      · exact alike_withOutbox (hstate ▸ alike_of_onlyReads hreads s) _
      · exact (hstate ▸ onlyAt_perform hplace s).withOutbox _

end Soft

/-- Lines whose requests have different places come to the same in either order. -/
theorem handled_comm [Clock κ] [Pin π] {tag tag' : UInt8} {body body' : Octets}
    {request request' : Request} {place place' : Place}
    (hdecode : Request.decode (tag :: body) = .ok request)
    (hplace : request.place? = some place)
    (hdecode' : Request.decode (tag' :: body') = .ok request')
    (hplace' : request'.place? = some place') (hne : place ≠ place') (c : Controller κ π) :
    (handled (tag' :: body') (handled (tag :: body) c)).outbox =
        (handled (tag' :: body') c).outbox ∧
      Alike (handled (tag' :: body') (handled (tag :: body) c))
        (handled (tag :: body) (handled (tag' :: body') c)) := by
  have honly := onlyAt_handled hdecode hplace c
  have honly' := onlyAt_handled hdecode' hplace' c
  have hafter := onlyAt_handled hdecode hplace (handled (tag' :: body') c)
  have hafter' := onlyAt_handled hdecode' hplace' (handled (tag :: body) c)
  obtain ⟨-, hheld⟩ := sameAt_handled hdecode hplace (honly'.held place hne)
  obtain ⟨hreply', hheld'⟩ := sameAt_handled hdecode' hplace' (honly.held place' hne.symm)
  refine ⟨hreply', alike_iff.2 ⟨?_, fun other => ?_⟩⟩
  · rw [hafter'.settings, honly.settings, hafter.settings, honly'.settings]
  · by_cases hself : other = place
    · subst hself
      rw [hafter'.held other hne, hheld]
    · by_cases hself' : other = place'
      · subst hself'
        rw [hheld', hafter.held other hself]
      · rw [hafter'.held other hself', honly.held other hself, hafter.held other hself,
          honly'.held other hself']

/-- A failure leaves the device as it is and a success changes nothing but the place of the
request, so requests with different places may come in either order. What differs then is only the
reply that came last and the text that was parsed last, which nothing later depends on. -/
theorem lines_keep_to_their_places [FirmPin π] (c : Controller SoftClock π) :
    handled [] c = c ∧
      (∀ tag body, ∃ reply, (handled (tag :: body) c).outbox = some reply ∧
        (∀ buffer, outcomeOf (handlers.exchange (tag :: body) ⟨c, buffer⟩) = .ok () ↔
          reply ≠ failureReply tag) ∧
        KeptTo tag body c (handled (tag :: body) c) reply) ∧
      ∀ tag body request place tag' body' request' place',
        Request.decode (tag :: body) = .ok request → request.place? = some place →
        Request.decode (tag' :: body') = .ok request' → request'.place? = some place' →
        place ≠ place' →
          let first := handled (tag :: body) c
          let first' := handled (tag' :: body') c
          let both := handled (tag' :: body') first
          let both' := handled (tag :: body) first'
          both.outbox = first'.outbox ∧ both'.outbox = first.outbox ∧ Alike both both' ∧
            ∀ later, observed later both = observed later both' := by
  refine ⟨rfl, fun tag body => keptTo_handled tag body c, ?_⟩
  intro tag body request place tag' body' request' place' hdecode hplace hdecode' hplace' hne
  obtain ⟨hreply', halike⟩ := handled_comm hdecode hplace hdecode' hplace' hne c
  obtain ⟨hreply, -⟩ := handled_comm hdecode' hplace' hdecode hplace hne.symm c
  exact ⟨hreply', hreply, halike, fun later => observed_eq_of_alike halike later⟩

end Device.Controller

end TimeSwitch
