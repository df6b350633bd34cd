import TimeSwitch.Device.Controller
import TimeSwitch.Proofs.Wire.Replies

/-!
How the controller answers a line. Whatever comes of the line, one reply is put into the outbox,
in place of what was there; nothing else that the controller does looks at the outbox.
-/

namespace TimeSwitch.Device.Controller

open Sequence Wire

variable {κ π α β : Type}

def withOutbox (outbox : Option Octets) (c : Controller κ π) : Controller κ π := { c with outbox }

@[simp] theorem withOutbox_withOutbox (a b : Option Octets) (c : Controller κ π) :
    (c.withOutbox a).withOutbox b = c.withOutbox b := rfl

/-! ### Actions that leave the outbox alone -/

/-- The action does the same whatever is in the outbox, and does not touch it. -/
def Quiet (action : Action (Controller κ π) α) : Prop :=
  ∀ outbox c, action (c.withOutbox outbox) = match action c with
    | .ok a c => .ok a (c.withOutbox outbox)
    | .error refusal c => .error refusal (c.withOutbox outbox)

theorem quiet_iff {action : Action (Controller κ π) α} :
    Quiet action ↔ ∀ outbox, Commutes (withOutbox outbox) action action := by
  refine forall_congr' fun outbox => forall_congr' fun c => ?_
  cases action c <;> exact Iff.rfl

theorem quiet_pure (a : α) : Quiet (pure a : Action (Controller κ π) α) :=
  quiet_iff.2 fun _ => commutes_pure a

theorem quiet_bind {action : Action (Controller κ π) α} {next : α → Action (Controller κ π) β}
    (haction : Quiet action) (hnext : ∀ a, Quiet (next a)) : Quiet (action >>= next) :=
  quiet_iff.2 fun outbox =>
    commutes_bind (quiet_iff.1 haction outbox) fun a => quiet_iff.1 (hnext a) outbox

theorem quiet_modify {change : Controller κ π → Controller κ π}
    (h : ∀ outbox c, change (c.withOutbox outbox) = (change c).withOutbox outbox) :
    Quiet (modify change : Action (Controller κ π) Unit) :=
  quiet_iff.2 fun outbox => commutes_modify (h outbox)

theorem quiet_onClock (action : EStateM ClockFault κ α) :
    Quiet (onClock action : Action (Controller κ π) α) := by
  intro outbox c
  simp only [onClock, withOutbox]
  cases action c.clock <;> rfl

theorem quiet_setTrigger (channel : Channel) (text : String) :
    Quiet (setTrigger channel text : Action (Controller κ π) Unit) := by
  intro outbox c
  have hsession : (c.withOutbox outbox).session = c.session := rfl
  have htriggers : (c.withOutbox outbox).triggers = c.triggers := rfl
  simp only [setTrigger, hsession, htriggers]
  split
  · rfl
  · split
    · cases c.triggers.store? channel text <;> rfl
    · rfl

section Pins

variable [Pin π]

theorem quiet_setDirection (channel : Channel) (direction : Direction) :
    Quiet (setDirection channel direction : Action (Controller κ π) Unit) := by
  intro outbox c
  have hpin : (c.withOutbox outbox).pin channel = c.pin channel := rfl
  rw [setDirection, setDirection, hpin]
  cases Pin.setDirection direction (c.pin channel) <;> rfl

theorem restoreChannel_withOutbox (outbox : Option Octets) (c : Controller κ π)
    (channel : Channel) :
    (c.withOutbox outbox).restoreChannel channel =
      (c.restoreChannel channel).withOutbox outbox := by
  have h := quiet_setDirection channel (channel.valueIn c.settings.directions) outbox c
  have hsettings : (c.withOutbox outbox).settings = c.settings := rfl
  simp only [restoreChannel, hsettings]
  rw [h]
  cases setDirection channel (channel.valueIn c.settings.directions) c <;> rfl

theorem foldl_restoreChannel_withOutbox (outbox : Option Octets) (channels : List Channel)
    (c : Controller κ π) : channels.foldl restoreChannel (c.withOutbox outbox) =
      (channels.foldl restoreChannel c).withOutbox outbox := by
  induction channels generalizing c with
  | nil => rfl
  | cons channel channels ih =>
      rw [List.foldl_cons, restoreChannel_withOutbox, ih, List.foldl_cons]

theorem reset_withOutbox (outbox : Option Octets) (c : Controller κ π) :
    (c.withOutbox outbox).reset = c.reset.withOutbox outbox :=
  foldl_restoreChannel_withOutbox outbox Channel.all
    { c with alarms := .empty, triggers := c.settings.triggers }

variable [Clock κ]

theorem quiet_perform (request : Request) :
    Quiet ((handlers : Handlers (Controller κ π)).perform request) := by
  cases request with
  | setClock time => exact quiet_bind (quiet_onClock _) fun _ => quiet_pure _
  | readClock => exact quiet_bind (quiet_onClock _) fun _ => quiet_pure _
  | setAlarm slot schedule =>
      exact quiet_bind (quiet_modify fun _ _ => rfl) fun _ => quiet_pure _
  | clearAlarm slot => exact quiet_bind (quiet_modify fun _ _ => rfl) fun _ => quiet_pure _
  | setTrigger channel formula =>
      exact quiet_bind (quiet_setTrigger channel formula) fun _ => quiet_pure _
  | clearTrigger channel => exact quiet_bind (quiet_modify fun _ _ => rfl) fun _ => quiet_pure _
  | setDirection channel direction =>
      exact quiet_bind (quiet_setDirection channel direction) fun _ => quiet_pure _
  | readChannel channel =>
      exact quiet_bind (fun _ _ => rfl) fun _ => quiet_pure _
  | reset =>
      exact quiet_bind (quiet_modify reset_withOutbox) fun _ => quiet_pure _

/-! ### The reply to a line -/

/-- A controller whose reply has just been sent. -/
def answered (c : Controller κ π) (reply : Reply) : Dispatcher (Controller κ π) :=
  ⟨c.withOutbox (some reply.octets), reply⟩

theorem sendReply_eq (d : Dispatcher (Controller κ π)) :
    handlers.sendReply d = .ok () (d.device.answered d.reply) := by
  have hsend : (handlers : Handlers (Controller κ π)).send d.reply.octets d.device =
      .ok () (d.device.withOutbox (some d.reply.octets)) := if_pos d.reply.fits
  rw [Handlers.sendReply, hsend]
  rfl

theorem sendStatus_eq (tag : UInt8) (ok : Bool) (d : Dispatcher (Controller κ π)) :
    handlers.sendStatus tag ok d = .ok () (d.device.answered (d.reply.status tag ok)) :=
  sendReply_eq { d with reply := d.reply.status tag ok }

theorem failWith_eq (tag : UInt8) (fault : ExchangeFault) (d : Dispatcher (Controller κ π)) :
    handlers.failWith tag fault d =
      .error fault (d.device.answered (d.reply.status tag false)) := by
  simp only [Handlers.failWith, bind, EStateM.bind, sendStatus_eq]
  rfl

/-- The reply to a request, by what came of it. A text that does not fit counts as a failure. -/
def replyOf {σ : Type} (tag : UInt8) : EStateM.Result Refusal σ (Option (List Char)) → Reply
  | .error _ _ => Reply.empty.status tag false
  | .ok none _ => Reply.empty.status tag true
  | .ok (some text) _ =>
    ((Reply.empty.begin tag).push? (Octets.ofText text)).getD (Reply.empty.status tag false)

/-- The controller after a line, whether its request was carried out or not. That the buffer holds
no reply when the line comes is no restriction, by `device_exchange`. -/
def handled (line : Octets) (c : Controller κ π) : Controller κ π :=
  (stateOf (handlers.exchange line (.start c))).device

/-- It does not matter what the buffer still holds when the line comes. -/
theorem device_exchange (line : Octets) (d : Dispatcher (Controller κ π)) :
    (stateOf (handlers.exchange line d)).device = handled line d.device := by
  cases line with
  | nil => rfl
  | cons tag body =>
      rw [handled, Dispatcher.start, handlers.exchange_forgets tag body d.device .empty d.reply]

theorem handled_of_error {tag : UInt8} {body : Octets} {fault : DecodeFault}
    (h : Request.decode (tag :: body) = .error fault) (c : Controller κ π) :
    handled (tag :: body) c = c.withOutbox (some (Reply.empty.status tag false).octets) := by
  simp only [handled, Handlers.exchange, h, failWith_eq]
  rfl

theorem handled_of_ok {tag : UInt8} {body : Octets} {request : Request}
    (h : Request.decode (tag :: body) = .ok request) (c : Controller κ π) :
    handled (tag :: body) c = match handlers.perform request c with
      | .ok a after => after.withOutbox (some (replyOf tag (.ok a after)).octets)
      | .error refusal after =>
        after.withOutbox (some (replyOf tag (.error refusal after)).octets) := by
  simp only [handled, Handlers.exchange, h, Dispatcher.start]
  cases handlers.perform request c with
  | error refusal after =>
      simp only [failWith_eq]
      rfl
  | ok text after =>
      cases text with
      | none =>
          simp only [sendStatus_eq]
          rfl
      | some text =>
          simp only [Handlers.sendCustom, replyOf]
          cases (Reply.empty.begin tag).push? (Octets.ofText text) with
          | none =>
              simp only [failWith_eq]
              rfl
          | some reply =>
              simp only [sendReply_eq]
              rfl

theorem handled_withOutbox {line : Octets} (hline : line ≠ []) (outbox : Option Octets)
    (c : Controller κ π) : handled line (c.withOutbox outbox) = handled line c := by
  cases line with
  | nil => exact (hline rfl).elim
  | cons tag body =>
      cases h : Request.decode (tag :: body) with
      | error fault => rw [handled_of_error h, handled_of_error h, withOutbox_withOutbox]
      | ok request =>
          rw [handled_of_ok h, handled_of_ok h, quiet_perform request outbox c]
          rcases handlers.perform request c with ⟨_ | text, after⟩ | ⟨refusal, after⟩ <;> rfl

/-- Every message is answered, and the answer is what the outbox holds then. -/
theorem exists_answers_handled {line : Octets} (hline : IsMessage line) (c : Controller κ π) :
    ∃ reply, (handled line c).outbox = some reply ∧ Answers line reply := by
  cases line with
  | nil => exact absurd hline.nonempty (by decide)
  | cons tag body =>
      cases h : Request.decode (tag :: body) with
      | error fault =>
          rw [handled_of_error h]
          exact ⟨_, rfl, answers_status hline .empty false⟩
      | ok request =>
          rw [handled_of_ok h]
          cases hperform : handlers.perform request c with
          | error refusal after => exact ⟨_, rfl, answers_status hline .empty false⟩
          | ok text after =>
              cases text with
              | none => exact ⟨_, rfl, answers_status hline .empty true⟩
              | some text =>
                  refine ⟨_, rfl, ?_⟩
                  cases hfilled : (Reply.empty.begin tag).push? (Octets.ofText text) with
                  | none =>
                      rw [replyOf, hfilled]
                      exact answers_status hline .empty false
                  | some filled =>
                      rw [replyOf, hfilled]
                      exact answers_custom hline (isPrintable_of_perform hperform) hfilled

end Pins

end TimeSwitch.Device.Controller
