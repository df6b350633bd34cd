import Mathlib
import TimeSwitch.Bench.Script
import TimeSwitch.Proofs.Wire.Courses

/-!
What can be relied on in every exchange: which requests reach the device, how many replies are
delivered and what they say, and what the result means. All of it is read off the few courses that
an exchange can take.
-/

namespace TimeSwitch.Wire

open Sequence

/-- The requests among the calls, each with its answer. -/
def requested (calls : List Call) : List (Request × Except Refusal Given) :=
  calls.filterMap fun
    | .request request answer => some (request, answer)
    | .reply _ _ => none

/-- The replies among the calls, each with whether it was accepted. -/
def replied (calls : List Call) : List (Octets × Bool) :=
  calls.filterMap fun
    | .request _ _ => none
    | .reply octets accepted => some (octets, accepted)

/-- The replies that were accepted. -/
def delivered (calls : List Call) : List Octets :=
  ((replied calls).filter (·.2)).map (·.1)

/-- What holds of the calls and the result of every exchange about a line with a tag. -/
structure Disciplined (tag : UInt8) (line : Octets) (calls : List Call)
    (result : Except ExchangeFault Unit) : Prop where
  undecoded : ∀ fault, Request.decode line = .error fault → requested calls = []
  decoded : ∀ request, Request.decode line = .ok request →
    ∃ answer, requested calls = [(request, answer)] ∧
      ∀ given, answer = .ok given → request.Gives given
  delivered_le : (delivered calls).length ≤ 1
  delivered_eq : (∀ reply ∈ replied calls, reply.2 = true) → (delivered calls).length = 1
  /-- A reply is made of the tag, the request and what its handler gave, and of nothing else. -/
  form : ∀ octets ∈ delivered calls, octets.length ≤ lineLimit ∧
    (octets = failureReply tag ∨ ∃ request given,
      (request, .ok given) ∈ requested calls ∧ octets = successReply tag request given)
  ok_iff : result = .ok () ↔ ∃ request given,
    (request, .ok given) ∈ requested calls ∧ successReply tag request given ∈ delivered calls
  /-- The first reply was refused. -/
  reply_iff : result = .error .reply ↔ ∃ octets more, replied calls = (octets, false) :: more
  otherwise : ∀ fault, result = .error fault → fault ≠ .reply →
    (∃ defect, Request.decode line = .error defect ∧ fault = .decode defect) ∨
      ∃ request refusal, (request, .error refusal) ∈ requested calls ∧ fault = .refused refusal

theorem length_failureReply_le (tag : UInt8) : (failureReply tag).length ≤ lineLimit :=
  show 7 ≤ 32 by decide

section Courses

variable {tag : UInt8} {line : Octets} {calls : List Call} {result : Except ExchangeFault Unit}

/-- At most one reply is delivered: the failure, or the success of a request that was carried
out. -/
theorem delivered_of_course (h : Course tag line calls result) :
    delivered calls = [] ∨ delivered calls = [failureReply tag] ∨ ∃ request given,
      request.Gives given ∧ (request, .ok given) ∈ requested calls ∧
        delivered calls = [successReply tag request given] := by
  cases h with
  | undecoded _ accepted | refused _ _ accepted | replaced _ _ _ accepted =>
      cases accepted with
      | true => exact .inr (.inl rfl)
      | false => exact .inl rfl
  | lost => exact .inl rfl
  | @answered request _ given hgiven =>
      exact .inr (.inr ⟨request, given, hgiven, List.mem_singleton_self _, rfl⟩)

/-- Every course keeps to the discipline. -/
theorem disciplined_of_course (h : Course tag line calls result) :
    Disciplined tag line calls result where
  undecoded fault hfault := by
    cases h with
    | undecoded => rfl
    | refused hdecode | answered hdecode | lost hdecode | replaced hdecode =>
        rw [hdecode] at hfault
        cases hfault
  decoded request hrequest := by
    cases h with
    | undecoded hdecode =>
        rw [hdecode] at hrequest
        cases hrequest
    | refused hdecode =>
        obtain rfl := Except.ok.inj (hdecode.symm.trans hrequest)
        exact ⟨_, rfl, nofun⟩
    | answered hdecode hgiven | lost hdecode hgiven | replaced hdecode hgiven =>
        obtain rfl := Except.ok.inj (hdecode.symm.trans hrequest)
        exact ⟨_, rfl, fun _ hok => Except.ok.inj hok ▸ hgiven⟩
  delivered_le := by
    obtain hnone | hfail | ⟨request, given, -, -, hone⟩ := delivered_of_course h
    · simp [hnone]
    · simp [hfail]
    · simp [hone]
  delivered_eq haccepted := by
    cases h with
    | undecoded _ accepted | refused _ _ accepted =>
        obtain rfl : accepted = true := haccepted _ List.mem_cons_self
        rfl
    | answered => rfl
    | lost | replaced => cases haccepted _ List.mem_cons_self
  form octets hoctets := by
    obtain hnone | hfail | ⟨request, given, hgiven, hmem, hone⟩ := delivered_of_course h
    · rw [hnone] at hoctets
      cases hoctets
    · rw [hfail, List.mem_singleton] at hoctets
      subst hoctets
      exact ⟨length_failureReply_le tag, .inl rfl⟩
    · rw [hone, List.mem_singleton] at hoctets
      subst hoctets
      exact ⟨length_successReply_le tag hgiven, .inr ⟨request, given, hmem, rfl⟩⟩
  ok_iff := by
    constructor
    · intro hok
      cases h with
      | @answered request _ given =>
          exact ⟨request, given, List.mem_singleton_self _, List.mem_singleton_self _⟩
      | undecoded | refused | lost | replaced => cases hok
    · rintro ⟨request, given, hmem, hdelivered⟩
      cases h with
      | answered => rfl
      | undecoded => cases hmem
      | refused => cases List.mem_singleton.1 hmem
      | lost => cases hdelivered
      | replaced _ _ _ accepted =>
          -- what was delivered, if anything, is the failure sent in place of the success
          cases accepted with
          | false => cases hdelivered
          | true =>
              have heq : successReply tag request given = failureReply tag :=
                List.mem_singleton.1 hdelivered
              exact absurd heq (successReply_ne_failureReply tag request given)
  reply_iff := by
    constructor
    · intro hreply
      cases h with
      | answered => cases hreply
      | lost | replaced => exact ⟨_, _, rfl⟩
      | undecoded _ accepted | refused _ _ accepted =>
          cases accepted with
          | true => cases hreply
          | false => exact ⟨_, _, rfl⟩
    · rintro ⟨octets, more, hfirst⟩
      cases h with
      | lost | replaced => rfl
      | answered => cases hfirst
      | undecoded _ accepted | refused _ _ accepted => cases hfirst; rfl
  otherwise fault hresult hne := by
    cases h with
    | answered => cases hresult
    | lost | replaced => exact absurd (Except.error.inj hresult).symm hne
    | undecoded hdecode accepted =>
        cases accepted with
        | false => exact absurd (Except.error.inj hresult).symm hne
        | true => exact .inl ⟨_, hdecode, (Except.error.inj hresult).symm⟩
    | refused _ refusal accepted =>
        cases accepted with
        | false => exact absurd (Except.error.inj hresult).symm hne
        | true =>
            exact .inr ⟨_, refusal, List.mem_singleton_self _, (Except.error.inj hresult).symm⟩

end Courses

/-! ### Any line after any others -/

namespace Handlers

variable {σ : Type}

/-- The dispatcher after lines that were dealt with in order. -/
def dealtWith (h : Handlers σ) (lines : List Octets) (d : Dispatcher σ) : Dispatcher σ :=
  lines.foldl (fun d line => stateOf (h.exchange line d)) d

theorem dealtWith_recorded (h : Handlers σ) (lines : List Octets)
    (d : Dispatcher (σ × List Call)) :
    (h.recorded.dealtWith lines d).map Prod.fst = h.dealtWith lines (d.map Prod.fst) := by
  induction lines generalizing d with
  | nil => rfl
  | cons line lines ih =>
      have hline : (stateOf (h.recorded.exchange line d)).map Prod.fst =
          stateOf (h.exchange line (d.map Prod.fst)) := by
        rw [h.seenAs_recorded.exchange line d, stateOf_mapState]
      refine (ih _).trans ?_
      rw [hline]
      rfl

/-- What is left of earlier replies makes no difference to what comes of a line. -/
theorem exchange_of_reply (h : Handlers σ) (line : Octets) (d : Dispatcher σ) (reply : Reply) :
    mapState Dispatcher.device (h.exchange line { d with reply }) =
        mapState Dispatcher.device (h.exchange line d) ∧
      (line ≠ [] → h.exchange line { d with reply } = h.exchange line d) := by
  cases line with
  | nil => exact ⟨rfl, fun hne => absurd rfl hne⟩
  | cons tag body =>
      have hsame := h.exchange_forgets tag body d.device reply d.reply
      exact ⟨congrArg (mapState Dispatcher.device) hsame, fun _ => hsame⟩

/-- Whatever the device does, whatever lines it has dealt with, and whatever the buffer of its
replies held at the start, it is asked nothing for an empty line, and what it is asked for any other
keeps to the discipline. What the buffer still holds of earlier replies makes no difference. A time
that the device gives must exist; recording changes nothing that it does. -/
theorem exchange_disciplined (h : Handlers σ)
    (hclock : ∀ s t after, h.readClock s = .ok t after → t.Exists)
    (history : List Octets) (start : Dispatcher σ) (line : Octets) :
    let before := h.recorded.dealtWith history (start.map (·, []))
    let result := h.recorded.exchange line before
    h.exchange line (h.dealtWith history start) = mapState (Dispatcher.map Prod.fst) result ∧
      (∃ calls, (stateOf result).device.2 = before.device.2 ++ calls ∧ (line = [] → calls = []) ∧
        ∀ tag body, line = tag :: body → Disciplined tag line calls (outcomeOf result)) ∧
      ∀ reply,
        mapState Dispatcher.device (h.recorded.exchange line { before with reply }) =
            mapState Dispatcher.device result ∧
          (line ≠ [] → h.recorded.exchange line { before with reply } = result) := by
  intro before result
  refine ⟨?_, ?_, h.recorded.exchange_of_reply line before⟩
  · have hbefore : before.map Prod.fst = h.dealtWith history start :=
      h.dealtWith_recorded history (start.map (·, []))
    rw [← hbefore]
    exact h.seenAs_recorded.exchange line before
  · cases line with
    | nil => exact ⟨[], (List.append_nil _).symm, fun _ => rfl, nofun⟩
    | cons tag body =>
        obtain ⟨calls, hcalls, hcourse⟩ :=
          follows_exchange hclock tag body before.device.1 before.device.2 before.reply
        refine ⟨calls, hcalls, nofun, fun tag' body' hline => ?_⟩
        obtain ⟨rfl, rfl⟩ := List.cons.inj hline
        exact disciplined_of_course hcourse

/-- The reply with the time is the second that the device is to send, and the one that it refuses;
a failure is sent in its place, and the line counts as unanswered although it was carried out. The
buffer still holds the reply to the line before. -/
theorem exchange_disciplined_refused :
    let time : CivilTime := ⟨15, 7, 1, .saturday, 18, 7, 37⟩
    let device := Bench.Script.handlers ⟨fun _ => none, time, fun _ => .on, fun n => n == 1⟩
    let start : Dispatcher Bench.Log := .start .start
    let before := device.recorded.dealtWith [[72, 48]] (start.map (·, []))
    let result := device.recorded.exchange [66] before
    let calls : List Call :=
      [.request .readClock (.ok (.time time)),
        .reply (successReply 66 .readClock (.time time)) false, .reply (failureReply 66) true]
    (∀ s t after, device.readClock s = .ok t after → t.Exists) ∧
      before.device.2 = [.request (.readChannel 0) (.ok (.reading .on)), .reply [62, 72, 49] true] ∧
      before.reply.octets = [62, 72, 49] ∧ (stateOf result).device.2 = before.device.2 ++ calls ∧
      outcomeOf result = .error .reply ∧ Disciplined 66 [66] calls (outcomeOf result) := by
  intro time device start before result calls
  have hclock : ∀ s t after, device.readClock s = .ok t after → t.Exists := by
    intro s t after h
    obtain ⟨_, _, -, hpure⟩ := step_bind_eq_ok.1 h
    obtain ⟨rfl, -⟩ := step_pure_eq_ok.1 hpure
    exact CivilTime.defect?_eq_none_iff.1 (by decide)
  have hbefore : before.device.2 =
      [.request (.readChannel 0) (.ok (.reading .on)), .reply [62, 72, 49] true] := by
    simp only [before, device, start, time]
    cbv
  have hleft : before.reply.octets = [62, 72, 49] := by
    simp only [before, device, start, time]
    cbv
  have hcalls : (stateOf result).device.2 = before.device.2 ++ calls := by
    simp only [result, before, device, start, calls, time]
    cbv
  have hresult : outcomeOf result = .error .reply := by
    simp only [result, before, device, start, time]
    cbv
  obtain ⟨-, ⟨calls', hcalls', -, hdiscipline⟩, -⟩ :=
    exchange_disciplined device hclock [[72, 48]] start [66]
  -- seen through, the two sides would be run to be compared
  obtain rfl : calls = calls' := by
    with_reducible exact List.append_cancel_left (hcalls.symm.trans hcalls')
  exact ⟨hclock, hbefore, hleft, hcalls, hresult, hdiscipline 66 [] rfl⟩

end Handlers

end TimeSwitch.Wire
