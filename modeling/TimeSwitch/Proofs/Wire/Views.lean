import TimeSwitch.Proofs.Sequence
import TimeSwitch.Wire.Exchange

/-!
Devices seen from elsewhere. If whatever one device does to its state, another does to a view of
that state, then the host cannot tell the two apart: an exchange with the one comes, in that view,
to an exchange with the other.
-/

namespace TimeSwitch.Wire.Handlers

open Sequence

variable {σ τ : Type}

/-- What the first device does to a state, the second does to the view of it. -/
structure SeenAs (view : σ → τ) (h : Handlers σ) (h' : Handlers τ) : Prop where
  setClock : ∀ time, Commutes view (h.setClock time) (h'.setClock time)
  readClock : Commutes view h.readClock h'.readClock
  setAlarm : ∀ slot schedule, Commutes view (h.setAlarm slot schedule) (h'.setAlarm slot schedule)
  clearAlarm : ∀ slot, Commutes view (h.clearAlarm slot) (h'.clearAlarm slot)
  setTrigger : ∀ channel text, Commutes view (h.setTrigger channel text) (h'.setTrigger channel text)
  clearTrigger : ∀ channel, Commutes view (h.clearTrigger channel) (h'.clearTrigger channel)
  setDirection : ∀ channel direction,
    Commutes view (h.setDirection channel direction) (h'.setDirection channel direction)
  readChannel : ∀ channel, Commutes view (h.readChannel channel) (h'.readChannel channel)
  reset : Commutes view h.reset h'.reset
  send : ∀ octets, Commutes view (h.send octets) (h'.send octets)

namespace SeenAs

variable {view : σ → τ} {h : Handlers σ} {h' : Handlers τ}

theorem perform (hview : SeenAs view h h') (request : Request) :
    Commutes view (h.perform request) (h'.perform request) := by
  cases request with
  | setClock time => exact commutes_bind (hview.setClock time) fun _ => commutes_pure _
  | readClock => exact commutes_bind hview.readClock fun _ => commutes_pure _
  | setAlarm slot schedule =>
      exact commutes_bind (hview.setAlarm slot schedule) fun _ => commutes_pure _
  | clearAlarm slot => exact commutes_bind (hview.clearAlarm slot) fun _ => commutes_pure _
  | setTrigger channel text =>
      exact commutes_bind (hview.setTrigger channel text) fun _ => commutes_pure _
  | clearTrigger channel =>
      exact commutes_bind (hview.clearTrigger channel) fun _ => commutes_pure _
  | setDirection channel direction =>
      exact commutes_bind (hview.setDirection channel direction) fun _ => commutes_pure _
  | readChannel channel => exact commutes_bind (hview.readChannel channel) fun _ => commutes_pure _
  | reset => exact commutes_bind hview.reset fun _ => commutes_pure _

theorem sendReply (hview : SeenAs view h h') :
    Commutes (Dispatcher.map view) h.sendReply h'.sendReply := by
  intro d
  simp only [Handlers.sendReply, Dispatcher.device_map, Dispatcher.reply_map]
  rw [hview.send d.reply.octets d.device]
  cases h.send d.reply.octets d.device <;> rfl

theorem sendStatus (hview : SeenAs view h h') (tag : UInt8) (ok : Bool) :
    Commutes (Dispatcher.map view) (h.sendStatus tag ok) (h'.sendStatus tag ok) :=
  fun d => hview.sendReply { d with reply := d.reply.status tag ok }

theorem failWith (hview : SeenAs view h h') (tag : UInt8) (fault : ExchangeFault) :
    Commutes (Dispatcher.map view) (h.failWith tag fault) (h'.failWith tag fault) :=
  commutes_bind (hview.sendStatus tag false) fun _ _ => rfl

theorem sendCustom (hview : SeenAs view h h') (tag : UInt8) (text : List Char) :
    Commutes (Dispatcher.map view) (h.sendCustom tag text) (h'.sendCustom tag text) := by
  intro d
  simp only [Handlers.sendCustom, Dispatcher.reply_map]
  cases (d.reply.begin tag).push? (Octets.ofText text) with
  | none => exact hview.failWith tag .reply { d with reply := d.reply.begin tag }
  | some reply =>
      have hsent := hview.sendReply { d with reply }
      dsimp only [Dispatcher.map] at hsent ⊢
      rw [hsent]
      cases h.sendReply { d with reply } with
      | ok _ after => rfl
      | error fault after => exact hview.failWith tag fault after

theorem exchange (hview : SeenAs view h h') (line : Octets) :
    Commutes (Dispatcher.map view) (h.exchange line) (h'.exchange line) := by
  intro d
  cases line with
  | nil => rfl
  | cons tag body =>
      simp only [Handlers.exchange, Dispatcher.device_map]
      cases Request.decode (tag :: body) with
      | error fault => exact hview.failWith tag (.decode fault) d
      | ok request =>
          dsimp only
          rw [hview.perform request d.device]
          rcases h.perform request d.device with ⟨_ | text, device⟩ | ⟨refusal, device⟩
          · exact hview.sendStatus tag true { d with device }
          · exact hview.sendCustom tag text { d with device }
          · exact hview.failWith tag (.refused refusal) { d with device }

end SeenAs

end TimeSwitch.Wire.Handlers
