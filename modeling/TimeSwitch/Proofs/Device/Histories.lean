import TimeSwitch.Proofs.Device.Answering

/-!
What can happen to a controller: lines and requests from the host, ticks, and whatever is done to
its clock, its pins and its outbox from outside. What comes of a request that reads or may be
refused is said once for each of them.
-/

namespace TimeSwitch.Device.Controller

open Sequence Wire

variable {κ π : Type}

/-! ### Requests -/

/-- Storing a text that was not too long to be parsed does not fail. -/
theorem setTrigger_eq (channel : Channel) (text : String) (c : Controller κ π) :
    setTrigger channel text c =
      if triggerLimit < text.utf8ByteSize then .error .rejected c
      else if (c.session.parse text).succeeded then
        .ok () { c with triggers := c.triggers.put channel text, session := c.session.parse text }
      else .error .rejected { c with session := c.session.parse text } := by
  rw [setTrigger]
  split
  · rfl
  · rename_i hfits
    simp only [Triggers.store?, if_pos (Nat.not_lt.1 hfits)]

section Requests

variable [Clock κ] [Pin π] (c : Controller κ π)

theorem perform_setClock (time : CivilTime) :
    handlers.perform (.setClock time) c = match Clock.set time c.clock with
      | .ok _ clock => .ok none { c with clock }
      | .error _ clock => .error .rejected { c with clock } := by
  simp only [Handlers.perform, handlers, onClock, bind, EStateM.bind]
  cases Clock.set time c.clock <;> rfl

theorem perform_readClock :
    handlers.perform .readClock c = match Clock.now c.clock with
      | .ok time clock => .ok (some time.render) { c with clock }
      | .error _ clock => .error .rejected { c with clock } := by
  simp only [Handlers.perform, handlers, onClock, bind, EStateM.bind]
  cases Clock.now c.clock <;> rfl

theorem perform_setTrigger (channel : Channel) (text : String) :
    handlers.perform (.setTrigger channel text) c = match setTrigger channel text c with
      | .ok _ c => .ok none c
      | .error refusal c => .error refusal c := by
  simp only [Handlers.perform, handlers, bind, EStateM.bind]
  cases setTrigger channel text c <;> rfl

theorem perform_setDirection (channel : Channel) (direction : Direction) :
    handlers.perform (.setDirection channel direction) c =
      match setDirection channel direction c with
        | .ok _ c => .ok none c
        | .error refusal c => .error refusal c := by
  simp only [Handlers.perform, handlers, bind, EStateM.bind]
  cases setDirection channel direction c <;> rfl

theorem perform_readChannel (channel : Channel) :
    handlers.perform (.readChannel channel) c = .ok (some [(c.reading channel).symbol]) c := rfl

/-- A line is answered, and its request carried out if it has one. -/
theorem exists_handled_eq (tag : UInt8) (body : Octets) : ∃ reply,
    handled (tag :: body) c = c.withOutbox reply ∨ ∃ request,
      handled (tag :: body) c = (stateOf (handlers.perform request c)).withOutbox reply := by
  cases hdecode : Request.decode (tag :: body) with
  | error fault => exact ⟨_, .inl (handled_of_error hdecode c)⟩
  | ok request =>
      have hhandled := handled_of_ok hdecode c
      cases hperform : handlers.perform request c with
      | ok _ after | error _ after =>
          have hstate : stateOf (handlers.perform request c) = after := by rw [hperform, stateOf]
          rw [hperform] at hhandled
          exact ⟨_, .inr ⟨request, hhandled.trans (congrArg (withOutbox _) hstate.symm)⟩⟩

end Requests

/-! ### Events -/

inductive Event (κ π : Type)
  /-- A line from the host, which begins with a tag. -/
  | line (tag : UInt8) (body : Octets)
  /-- A request that does not come in a line. -/
  | request (request : Request)
  | tick
  /-- The reply in the outbox is taken. -/
  | take
  | clock (change : κ → κ)
  | pin (channel : Channel) (change : π → π)

/-- What is seen of an event at once. -/
inductive Outcome
  | reply (octets : Option Octets)
  | answer (result : Except Refusal (Option (List Char)))
  | report (result : Except ClockFault TickReport)
  | nothing

variable [Clock κ] [Pin π]

namespace Event

/-- The controller after the event. -/
def act : Event κ π → Controller κ π → Controller κ π
  | line tag body, c => handled (tag :: body) c
  | request r, c => stateOf (handlers.perform r c)
  | tick, c => stateOf (Controller.tick c)
  | take, c => c.takeReply.2
  | clock change, c => { c with clock := change c.clock }
  | pin channel change, c => { c with pins := channel.update (change (c.pin channel)) c.pins }

/-- The outcome of the event. A line is answered in the outbox, so there is no more to see when the
reply is taken. -/
def outcome : Event κ π → Controller κ π → Outcome
  | line tag body, c => .reply (handled (tag :: body) c).outbox
  | request r, c => .answer (outcomeOf (handlers.perform r c))
  | tick, c => .report (outcomeOf (Controller.tick c))
  | take, _ | clock _, _ | pin _ _, _ => .nothing

end Event

/-- The controller after events that happen in order. -/
def run (events : List (Event κ π)) (c : Controller κ π) : Controller κ π :=
  events.foldl (fun c event => event.act c) c

/-- What is seen of events that happen in order: their outcomes, and the pins after each. -/
def observed : List (Event κ π) → Controller κ π → List (Outcome × Vector π 4)
  | [], _ => []
  | event :: events, c =>
    (event.outcome c, (event.act c).pins) :: observed events (event.act c)

end TimeSwitch.Device.Controller
