import TimeSwitch.Proofs.Wire.Calls

/-!
The courses that an exchange can take, whatever the device does. The line says no request, or one
request is carried out or refused; then a reply is sent, and if a reply of the request's own is
refused, a failure is sent in its place.
-/

namespace TimeSwitch.Wire

open Sequence

/-- A course of an exchange about a line that begins with the tag: the calls and the result. -/
inductive Course (tag : UInt8) (line : Octets) : List Call → Except ExchangeFault Unit → Prop
  | undecoded {fault : DecodeFault} (hdecode : Request.decode line = .error fault)
      (accepted : Bool) :
      Course tag line [.reply (failureReply tag) accepted]
        (.error (if accepted then .decode fault else .reply))
  | refused {request : Request} (hdecode : Request.decode line = .ok request) (refusal : Refusal)
      (accepted : Bool) :
      Course tag line [.request request (.error refusal), .reply (failureReply tag) accepted]
        (.error (if accepted then .refused refusal else .reply))
  | answered {request : Request} (hdecode : Request.decode line = .ok request) {given : Given}
      (hgiven : request.Gives given) :
      Course tag line [.request request (.ok given), .reply (successReply tag request given) true]
        (.ok ())
  /-- The plain reply is refused. -/
  | lost {request : Request} (hdecode : Request.decode line = .ok request) {given : Given}
      (hgiven : request.Gives given) (hplain : request.ownText given = none) :
      Course tag line [.request request (.ok given), .reply (successReply tag request given) false]
        (.error .reply)
  /-- The request's own reply is refused. -/
  | replaced {request : Request} (hdecode : Request.decode line = .ok request) {given : Given}
      (hgiven : request.Gives given) {text : List Char}
      (hown : request.ownText given = some text) (accepted : Bool) :
      Course tag line
        [.request request (.ok given), .reply (successReply tag request given) false,
          .reply (failureReply tag) accepted]
        (.error .reply)

namespace Handlers

variable {σ : Type} {h : Handlers σ}

/-! ### What each step notes -/

/-- What carrying out a request comes to on a recorded device. -/
inductive Carried (request : Request) (calls : List Call) :
    EStateM.Result Refusal (σ × List Call) (Option (List Char)) → Prop
  | refused (refusal : Refusal) (after : σ) :
      Carried request calls
        (.error refusal (after, calls ++ [.request request (.error refusal)]))
  | done {given : Given} (hgiven : request.Gives given) (after : σ) :
      Carried request calls
        (.ok (request.ownText given) (after, calls ++ [.request request (.ok given)]))

theorem carried_of_carrying {α : Type} {request : Request} {give : α → Given}
    {text : α → Option (List Char)} {action : Action σ α} {s : σ} {earlier : List Call}
    (htext : ∀ a, text a = request.ownText (give a))
    (hgive : ∀ a after, action s = .ok a after → request.Gives (give a)) :
    Carried request earlier
      ((do return text (← carrying request give action) :
        Action (σ × List Call) (Option (List Char))) (s, earlier)) := by
  simp only [bind, EStateM.bind, carrying, noting]
  cases haction : action s with
  | ok a after =>
      have hdone := @Carried.done σ request earlier (give a) (hgive a after haction) after
      rw [← htext] at hdone
      exact hdone
  | error refusal after => exact .refused refusal after

theorem carried_perform (hclock : ∀ s t after, h.readClock s = .ok t after → t.Exists)
    (request : Request) (s : σ) (earlier : List Call) :
    Carried request earlier (h.recorded.perform request (s, earlier)) := by
  cases request with
  | readClock =>
      exact carried_of_carrying (fun _ => rfl) fun t after hread => ⟨t, rfl, hclock s t after hread⟩
  | readChannel => exact carried_of_carrying (fun _ => rfl) fun reading _ _ => ⟨reading, rfl⟩
  | setClock | setAlarm | clearAlarm | setTrigger | clearTrigger | setDirection | reset =>
      exact carried_of_carrying (fun _ => rfl) fun _ _ _ => rfl

/-! ### Courses -/

/-- The result has the calls of a course after those before it. -/
def Follows (tag : UInt8) (line : Octets) (earlier : List Call)
    (result : EStateM.Result ExchangeFault (Dispatcher (σ × List Call)) Unit) : Prop :=
  ∃ calls, (stateOf result).device.2 = earlier ++ calls ∧ Course tag line calls (outcomeOf result)

section

variable {tag : UInt8} {line : Octets} {earlier calls : List Call}

theorem follows_sendReply (s : σ) (reply : Reply)
    (hsent : Course tag line (calls ++ [.reply reply.octets true]) (.ok ()))
    (hlost : Course tag line (calls ++ [.reply reply.octets false]) (.error .reply)) :
    Follows tag line earlier (h.recorded.sendReply ⟨(s, earlier ++ calls), reply⟩) := by
  simp only [sendReply, recorded, noting]
  cases h.send reply.octets s with
  | ok _ after => exact ⟨_, List.append_assoc .., hsent⟩
  | error refusal after => exact ⟨_, List.append_assoc .., hlost⟩

theorem follows_failWith {fault : ExchangeFault} (s : σ) (reply : Reply)
    (hcourse : ∀ accepted, Course tag line (calls ++ [.reply (failureReply tag) accepted])
      (.error (if accepted then fault else .reply))) :
    Follows tag line earlier (h.recorded.failWith tag fault ⟨(s, earlier ++ calls), reply⟩) := by
  simp only [failWith, bind, EStateM.bind, sendStatus, sendReply, recorded, noting, octets_failure]
  cases h.send (failureReply tag) s with
  | ok _ after => exact ⟨_, List.append_assoc .., hcourse true⟩
  | error refusal after => exact ⟨_, List.append_assoc .., hcourse false⟩

/-- A failure that is sent in place of a reply does not change the result. -/
theorem follows_sendCustom {text : List Char} {filled : Reply} (s : σ) (reply : Reply)
    (hfilled : (reply.begin tag).push? (Octets.ofText text) = some filled)
    (hsent : Course tag line (calls ++ [.reply filled.octets true]) (.ok ()))
    (hreplaced : ∀ accepted, Course tag line
      (calls ++ [.reply filled.octets false] ++ [.reply (failureReply tag) accepted])
      (.error .reply)) :
    Follows tag line earlier (h.recorded.sendCustom tag text ⟨(s, earlier ++ calls), reply⟩) := by
  simp only [sendCustom, hfilled]
  simp only [sendReply, recorded, noting]
  cases h.send filled.octets s with
  | ok _ after => exact ⟨_, List.append_assoc .., hsent⟩
  | error refusal after =>
      have hcourse : ∀ accepted, Course tag line
          (calls ++ [.reply filled.octets false] ++ [.reply (failureReply tag) accepted])
          (.error (if accepted then .reply else .reply)) := by
        intro accepted
        rw [ite_self]
        exact hreplaced accepted
      have hfail := @follows_failWith σ h tag line earlier _ .reply after filled hcourse
      rw [← List.append_assoc] at hfail
      exact hfail

end

theorem follows_exchange (hclock : ∀ s t after, h.readClock s = .ok t after → t.Exists)
    (tag : UInt8) (body : Octets) (s : σ) (earlier : List Call) (reply : Reply) :
    Follows tag (tag :: body) earlier
      (h.recorded.exchange (tag :: body) ⟨(s, earlier), reply⟩) := by
  rw [exchange]
  cases hdecode : Request.decode (tag :: body) with
  | error fault =>
      have hfail := @follows_failWith σ h tag (tag :: body) earlier [] (.decode fault) s reply
        fun accepted => .undecoded hdecode accepted
      rw [List.append_nil] at hfail
      exact hfail
  | ok request =>
      have hcarried := carried_perform hclock request s earlier
      dsimp only
      -- which request it was does not matter from here on, only what came of it
      generalize h.recorded.perform request (s, earlier) = result at hcarried ⊢
      cases hcarried with
      | refused refusal after =>
          exact follows_failWith after reply fun accepted => .refused hdecode refusal accepted
      | @done given hgiven after =>
          cases htext : request.ownText given with
          | none =>
              have hplain := octets_success htext reply tag
              refine follows_sendReply after (reply.status tag true) ?_ ?_
              · rw [hplain]
                exact .answered hdecode hgiven
              · rw [hplain]
                exact .lost hdecode hgiven htext
          | some text =>
              exact follows_sendCustom after reply (push?_ownText htext hgiven reply)
                (.answered hdecode hgiven) fun accepted => .replaced hdecode hgiven htext accepted

end Handlers

end TimeSwitch.Wire
