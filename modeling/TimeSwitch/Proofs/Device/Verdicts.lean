import TimeSwitch.Proofs.Device.Answering
import TimeSwitch.Proofs.Wire.Courses

/-!
What the reply gives away. The controller takes every reply, so a line is answered with a failure
if nothing came of it, and with the success of its request if that was carried out; the two replies
differ, and the host knows from the reply alone which it was.
-/

namespace TimeSwitch

namespace Wire.Handlers

open Sequence

/-- On success a request is answered by what it was given. -/
theorem exists_given_of_perform {σ : Type} {h : Handlers σ}
    (hclock : ∀ s t after, h.readClock s = .ok t after → t.Exists) {request : Request}
    {s after : σ} {text : Option (List Char)} (hperform : h.perform request s = .ok text after) :
    ∃ given, request.Gives given ∧ text = request.ownText given := by
  have hview := h.seenAs_recorded.perform request (s, [])
  have hcarried := carried_perform hclock request s []
  rw [hperform] at hview
  generalize h.recorded.perform request (s, []) = result at hview hcarried
  cases hcarried with
  | refused => cases hview
  | @done given hgiven => exact ⟨given, hgiven, (EStateM.Result.ok.inj hview).1⟩

end Wire.Handlers

namespace Device

open Sequence Wire

theorem SoftClock.exists_of_now {clock after : SoftClock} {time : CivilTime}
    (h : SoftClock.now clock = .ok time after) : time.Exists := by
  rw [SoftClock.now] at h
  cases hseconds : clock.seconds with
  | none =>
      rw [hseconds] at h
      cases h
  | some seconds =>
      rw [hseconds] at h
      dsimp only at h
      cases htime : CivilTime.ofUnix seconds with
      | error defect =>
          rw [htime] at h
          cases h
      | ok calendar =>
          rw [htime] at h
          obtain ⟨rfl, -⟩ := EStateM.Result.ok.inj h
          -- the weekday is free, so the shift does not matter
          obtain ⟨hyear, hmonth, hpos, hday, hhour, hminute, hsecond⟩ :=
            CivilTime.exists_of_ofUnix htime
          exact ⟨hyear, hmonth, hpos, hday, hhour, hminute, hsecond⟩

namespace Controller

variable {π : Type} [Pin π]

/-- What can come of a line that begins with a tag. -/
inductive Verdict (tag : UInt8) (body : Octets) (c : Controller SoftClock π) :
    EStateM.Result ExchangeFault (Controller SoftClock π) Unit → Prop
  | undecoded {fault : DecodeFault} (hdecode : Request.decode (tag :: body) = .error fault) :
      Verdict tag body c (.error (.decode fault) (c.withOutbox (some (failureReply tag))))
  | refused {request : Request} {refusal : Refusal} {after : Controller SoftClock π}
      (hdecode : Request.decode (tag :: body) = .ok request)
      (hperform : handlers.perform request c = .error refusal after) :
      Verdict tag body c (.error (.refused refusal) (after.withOutbox (some (failureReply tag))))
  | done {request : Request} {given : Given} {after : Controller SoftClock π}
      (hdecode : Request.decode (tag :: body) = .ok request)
      (hperform : handlers.perform request c = .ok (request.ownText given) after) :
      Verdict tag body c (.ok () (after.withOutbox (some (successReply tag request given))))

theorem exists_given_of_perform {request : Request} {text : Option (List Char)}
    {c after : Controller SoftClock π} (hperform : handlers.perform request c = .ok text after) :
    ∃ given, request.Gives given ∧ text = request.ownText given := by
  refine Handlers.exists_given_of_perform (fun s t after hread => ?_) hperform
  change onClock SoftClock.now s = .ok t after at hread
  rw [onClock] at hread
  cases hnow : SoftClock.now s.clock with
  | error fault clock =>
      rw [hnow] at hread
      cases hread
  | ok time clock =>
      rw [hnow] at hread
      obtain ⟨rfl, -⟩ := EStateM.Result.ok.inj hread
      exact SoftClock.exists_of_now hnow

theorem verdict_exchange (tag : UInt8) (body : Octets) (d : Dispatcher (Controller SoftClock π)) :
    Verdict tag body d.device (mapState Dispatcher.device (handlers.exchange (tag :: body) d)) := by
  rw [Handlers.exchange]
  cases hdecode : Request.decode (tag :: body) with
  | error fault =>
      dsimp only
      rw [failWith_eq, mapState, answered, octets_failure]
      exact .undecoded hdecode
  | ok request =>
      dsimp only
      cases hperform : handlers.perform request d.device with
      | error refusal after =>
          dsimp only
          rw [failWith_eq, mapState, answered, octets_failure]
          exact .refused hdecode hperform
      | ok text after =>
          obtain ⟨given, hgiven, rfl⟩ := exists_given_of_perform hperform
          have hdone := Verdict.done hdecode hperform
          cases hown : request.ownText given with
          | none =>
              dsimp only
              rw [sendStatus_eq, mapState, answered, octets_success hown]
              exact hdone
          | some text =>
              dsimp only
              simp only [Handlers.sendCustom, push?_ownText hown hgiven, sendReply_eq]
              exact hdone

end Controller

end Device

end TimeSwitch
