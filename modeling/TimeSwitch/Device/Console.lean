import TimeSwitch.Device.Controller
import TimeSwitch.Device.Link

/-!
The console: octets from a link are framed into lines, each line is handled by the controller
and its reply is written back with a line feed. What was read is not kept when a write fails, so
the rest of that reading is lost. `pending_poll` says that a link which closes in the end comes
to its end, on which `run` rests.
-/

namespace TimeSwitch.Device

open Wire

structure Console (κ π : Type) where
  dispatcher : Dispatcher (Controller κ π)
  framer : Framer

namespace Console

variable {κ π ε ℓ α : Type}

def start (controller : Controller κ π) : Console κ π := ⟨.start controller, .start⟩

def controller (console : Console κ π) : Controller κ π := console.dispatcher.device

/-- Does something with the link. -/
def onLink (action : EStateM ε ℓ α) : EStateM ε (Console κ π × ℓ) α := fun s =>
  match action s.2 with
  | .ok a link => .ok a (s.1, link)
  | .error e link => .error e (s.1, link)

/-- Writes a reply as a line of its own. -/
def writeReply [Link ε ℓ] (reply : Octets) : EStateM ε ℓ Unit := do
  Link.write reply
  Link.write [10]
  Link.flush

/-- Writes the reply that waits in the outbox, if there is one. -/
def deliver [Link ε ℓ] : EStateM ε (Console κ π × ℓ) Unit := fun s =>
  match s.1.controller.takeReply with
  | (none, device) => .ok () ({ s.1 with dispatcher.device := device }, s.2)
  | (some reply, device) =>
    onLink (writeReply reply) ({ s.1 with dispatcher.device := device }, s.2)

section Closing

variable [ClosingLink ε ℓ]

open ClosingLink (pending)

theorem pending_writeReply {reply : Octets} {link after : ℓ}
    (h : writeReply reply link = .ok () after) : pending after ≤ pending link := by
  simp only [writeReply, bind, EStateM.bind] at h
  split at h
  · rename_i link₁ h₁
    split at h
    · rename_i link₂ h₂
      have := ClosingLink.pending_write h₁
      have := ClosingLink.pending_write h₂
      have := ClosingLink.pending_flush h
      omega
    · cases h
  · cases h

theorem pending_onLink {action : EStateM ε ℓ α} {s after : Console κ π × ℓ} {a : α} {k : Nat}
    (hk : ∀ {after}, action s.2 = .ok a after → pending after + k ≤ pending s.2)
    (h : onLink action s = .ok a after) : pending after.2 + k ≤ pending s.2 := by
  unfold onLink at h
  split at h
  · rename_i h₁; cases h; exact hk h₁
  · cases h

theorem pending_deliver {s after : Console κ π × ℓ} (h : deliver s = .ok () after) :
    pending after.2 ≤ pending s.2 := by
  unfold deliver at h
  split at h
  · cases h; exact Nat.le_refl _
  · have := pending_onLink (k := 0) pending_writeReply h
    exact this

end Closing

section Controlled

variable [Clock κ] [Pin π]

/-- Handles a line. A failure is answered like a success, by what is in the outbox. -/
def handle (line : Octets) (console : Console κ π) : Console κ π :=
  match Controller.handlers.exchange line console.dispatcher with
  | .ok _ dispatcher | .error _ dispatcher => { console with dispatcher }

/-- Takes one octet in, and answers if it ends a line. -/
def accept [Link ε ℓ] (b : UInt8) : EStateM ε (Console κ π × ℓ) Unit := fun s =>
  match s.1.framer.feed b with
  | (some (.line line), framer) => deliver (handle line { s.1 with framer }, s.2)
  | (_, framer) => .ok () ({ s.1 with framer }, s.2)

def acceptAll [Link ε ℓ] : Octets → EStateM ε (Console κ π × ℓ) Unit
  | [] => pure ()
  | b :: rest => do accept b; acceptAll rest

/-- The octets read at a time. -/
def readLimit : Nat := 16

/-- Reads once and answers every line that is completed. The result is the number of octets
read; none means that the link has closed. -/
def poll [Link ε ℓ] : EStateM ε (Console κ π × ℓ) Nat := do
  let octets ← onLink (Link.read readLimit)
  acceptAll octets
  return octets.length

/-! ### Coming to the end -/

variable [ClosingLink ε ℓ]

open ClosingLink (pending)

theorem pending_accept {b : UInt8} {s after : Console κ π × ℓ} (h : accept b s = .ok () after) :
    pending after.2 ≤ pending s.2 := by
  unfold accept at h
  split at h
  · have := pending_deliver h
    exact this
  · cases h; exact Nat.le_refl _

theorem pending_acceptAll {octets : Octets} {s after : Console κ π × ℓ}
    (h : acceptAll octets s = .ok () after) : pending after.2 ≤ pending s.2 := by
  induction octets generalizing s with
  | nil => cases h; exact Nat.le_refl _
  | cons b rest ih =>
    simp only [acceptAll, bind, EStateM.bind] at h
    split at h
    · rename_i h₁
      exact Nat.le_trans (ih h) (pending_accept h₁)
    · cases h

/-- What a poll has read is no longer to come. -/
theorem pending_poll {n : Nat} {s after : Console κ π × ℓ} (h : poll s = .ok n after) :
    pending after.2 + n ≤ pending s.2 := by
  simp only [poll, bind, EStateM.bind] at h
  split at h
  · rename_i h₁
    split at h
    · rename_i h₂
      cases h
      have := pending_acceptAll h₂
      have := pending_onLink ClosingLink.pending_read h₁
      omega
    · cases h
  · cases h

/-- Polls until the link has closed or fails. -/
def run : EStateM ε (Console κ π × ℓ) Unit := fun s =>
  match _h : poll s with
  | .error e s => .error e s
  | .ok n after => if n = 0 then .ok () after else run after
termination_by s => pending s.2
decreasing_by have := pending_poll ‹_›; omega

end Controlled

end Console

end TimeSwitch.Device
