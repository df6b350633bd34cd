import TimeSwitch.Wire.Decode
import TimeSwitch.Wire.Reply

/-!
One exchange with the host: a line comes in, a handler carries its request out, a reply goes
back. A device is known here only by its handlers, which change a state of their own and may
refuse anything, replies included. All replies to it are made in the one buffer of its dispatcher.
-/

namespace TimeSwitch.Wire

/-- Why a handler did not carry a request out. -/
inductive Refusal
  /-- The device has no such handler. -/
  | missing
  | rejected
  deriving DecidableEq, Repr

/-- Something a device does, or refuses to do; either may change its state. -/
abbrev Action (σ α : Type) := EStateM Refusal σ α

/-- What a device does for each request. A handler that is left out is missing. -/
structure Handlers (σ : Type) where
  setClock : CivilTime → Action σ Unit := fun _ => throw .missing
  readClock : Action σ CivilTime := throw .missing
  setAlarm : AlarmSlot → Schedule → Action σ Unit := fun _ _ => throw .missing
  clearAlarm : AlarmSlot → Action σ Unit := fun _ => throw .missing
  setTrigger : Channel → String → Action σ Unit := fun _ _ => throw .missing
  clearTrigger : Channel → Action σ Unit := fun _ => throw .missing
  setDirection : Channel → Direction → Action σ Unit := fun _ _ => throw .missing
  readChannel : Channel → Action σ Reading := fun _ => throw .missing
  reset : Action σ Unit := throw .missing
  /-- Sends a reply to the host. -/
  send : Octets → Action σ Unit

/-- Why a line was not answered with success. -/
inductive ExchangeFault
  | decode (fault : DecodeFault)
  | refused (refusal : Refusal)
  /-- The reply could not be made or sent. -/
  | reply
  deriving DecidableEq, Repr

/-- A device and the buffer in which the replies about it are made. -/
structure Dispatcher (σ : Type) where
  device : σ
  reply : Reply
  deriving DecidableEq

namespace Dispatcher

def start (device : σ) : Dispatcher σ := ⟨device, .empty⟩

/-- The same buffer with another view of the device. -/
def map (view : σ → τ) (d : Dispatcher σ) : Dispatcher τ := ⟨view d.device, d.reply⟩

@[simp] theorem device_map (view : σ → τ) (d : Dispatcher σ) :
    (d.map view).device = view d.device := rfl

@[simp] theorem reply_map (view : σ → τ) (d : Dispatcher σ) : (d.map view).reply = d.reply := rfl

end Dispatcher

namespace Handlers

variable {σ : Type}

/-- Carries a request out and gives the text of its reply, if it has one of its own. -/
def perform (h : Handlers σ) : Request → Action σ (Option (List Char))
  | .setClock time => do h.setClock time; return none
  | .readClock => return some (← h.readClock).render
  | .setAlarm slot schedule => do h.setAlarm slot schedule; return none
  | .clearAlarm slot => do h.clearAlarm slot; return none
  | .setTrigger channel formula => do h.setTrigger channel formula; return none
  | .clearTrigger channel => do h.clearTrigger channel; return none
  | .setDirection channel direction => do h.setDirection channel direction; return none
  | .readChannel channel => return some [(← h.readChannel channel).symbol]
  | .reset => do h.reset; return some "RESET".toList

/-- Sends the reply in the buffer, which a device may refuse. -/
def sendReply (h : Handlers σ) : EStateM ExchangeFault (Dispatcher σ) Unit := fun d =>
  match h.send d.reply.octets d.device with
  | .ok _ device => .ok () { d with device }
  | .error _ device => .error .reply { d with device }

/-- Answers whether a request was carried out. -/
def sendStatus (h : Handlers σ) (tag : UInt8) (ok : Bool) :
    EStateM ExchangeFault (Dispatcher σ) Unit := fun d =>
  h.sendReply { d with reply := d.reply.status tag ok }

/-- Answers that a request was not carried out. -/
def failWith (h : Handlers σ) (tag : UInt8) (fault : ExchangeFault) :
    EStateM ExchangeFault (Dispatcher σ) Unit := do
  h.sendStatus tag false
  throw fault

/-- Sends a reply that says more than its status; if that is not possible, the request counts as
failed. -/
def sendCustom (h : Handlers σ) (tag : UInt8) (text : List Char) :
    EStateM ExchangeFault (Dispatcher σ) Unit := fun d =>
  let begun := d.reply.begin tag
  match begun.push? (Octets.ofText text) with
  | none => h.failWith tag .reply { d with reply := begun }
  | some reply => match h.sendReply { d with reply } with
    | .ok _ d => .ok () d
    | .error fault d => h.failWith tag fault d

/-- Handles one line. An empty line is refused without a reply. -/
def exchange (h : Handlers σ) (line : Octets) :
    EStateM ExchangeFault (Dispatcher σ) Unit := fun d =>
  match line with
  | [] => .error (.decode .empty) d
  | tag :: _ =>
    match Request.decode line with
    | .error fault => h.failWith tag (.decode fault) d
    | .ok request => match h.perform request d.device with
      | .error refusal device => h.failWith tag (.refused refusal) { d with device }
      | .ok none device => h.sendStatus tag true { d with device }
      | .ok (some text) device => h.sendCustom tag text { d with device }

/-! ### What the buffer held before -/

theorem sendStatus_forgets (h : Handlers σ) (tag : UInt8) (ok : Bool) (s : σ)
    (reply other : Reply) : h.sendStatus tag ok ⟨s, reply⟩ = h.sendStatus tag ok ⟨s, other⟩ := by
  simp only [sendStatus]
  rw [Reply.status_forgets reply other]

theorem failWith_forgets (h : Handlers σ) (tag : UInt8) (fault : ExchangeFault) (s : σ)
    (reply other : Reply) : h.failWith tag fault ⟨s, reply⟩ = h.failWith tag fault ⟨s, other⟩ := by
  simp only [failWith, bind, EStateM.bind]
  rw [h.sendStatus_forgets tag false s reply other]

theorem sendCustom_forgets (h : Handlers σ) (tag : UInt8) (text : List Char) (s : σ)
    (reply other : Reply) :
    h.sendCustom tag text ⟨s, reply⟩ = h.sendCustom tag text ⟨s, other⟩ := by
  simp only [sendCustom]
  rw [Reply.begin_forgets reply other]

/-- Whatever reply the buffer still holds, it does not show in the exchange about the next line. -/
theorem exchange_forgets (h : Handlers σ) (tag : UInt8) (body : Octets) (s : σ)
    (reply other : Reply) : h.exchange (tag :: body) ⟨s, reply⟩ = h.exchange (tag :: body) ⟨s, other⟩ := by
  simp only [exchange]
  cases Request.decode (tag :: body) with
  | error fault => exact h.failWith_forgets tag (.decode fault) s reply other
  | ok request =>
      dsimp only
      rcases h.perform request s with ⟨_ | text, device⟩ | ⟨refusal, device⟩
      · exact h.sendStatus_forgets tag true device reply other
      · exact h.sendCustom_forgets tag text device reply other
      · exact h.failWith_forgets tag (.refused refusal) device reply other

end Handlers

end TimeSwitch.Wire
