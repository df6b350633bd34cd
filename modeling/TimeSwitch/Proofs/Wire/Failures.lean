import TimeSwitch.Proofs.Wire.Discipline

/-!
What the host learns from a failure. If no reply was refused, a failure tells that the line was not
carried out: it says no request, or the request was refused. But a request with a reply of its own
is carried out before this is sent, and if it is then refused, a failure is sent in its place.
-/

namespace TimeSwitch.Wire

open Sequence

/-- No request was carried out: the line says none, or its request was refused. -/
inductive NotCarriedOut (line : Octets) (calls : List Call) : Prop
  | undecoded {fault : DecodeFault} (hdecode : Request.decode line = .error fault)
      (hrequested : requested calls = [])
  | refused {request : Request} {refusal : Refusal} (hdecode : Request.decode line = .ok request)
      (hrequested : requested calls = [(request, .error refusal)])

/-- The request was carried out, but its own reply was refused, and a failure was not. -/
inductive Misreported (tag : UInt8) (line : Octets) (calls : List Call) : Prop
  | replaced {request : Request} {given : Given} {text : List Char}
      (hdecode : Request.decode line = .ok request)
      (hrequested : requested calls = [(request, .ok given)])
      (hown : request.ownText given = some text)
      (hreplied : replied calls = [(successReply tag request given, false), (failureReply tag, true)])

section Courses

variable {tag : UInt8} {line : Octets} {calls : List Call} {result : Except ExchangeFault Unit}

theorem not_notCarriedOut {request : Request} {given : Given}
    (h : requested calls = [(request, .ok given)]) : ¬NotCarriedOut line calls := by
  rintro (⟨-, hrequested⟩ | ⟨-, hrequested⟩)
  · cases h.symm.trans hrequested
  · cases h.symm.trans hrequested

theorem mem_delivered_of_replied {octets : Octets} (h : (octets, true) ∈ replied calls) :
    octets ∈ delivered calls :=
  List.mem_map.2 ⟨_, List.mem_filter.2 ⟨h, rfl⟩, rfl⟩

/-- Whatever the device does, there are two ways in which a failure is delivered. -/
theorem failure_delivered_iff (h : Course tag line calls result) :
    failureReply tag ∈ delivered calls ↔
      NotCarriedOut line calls ∧ replied calls = [(failureReply tag, true)] ∨
        Misreported tag line calls := by
  constructor
  · intro hmem
    cases h with
    | undecoded hdecode accepted =>
        cases accepted with
        | true => exact .inl ⟨.undecoded hdecode rfl, rfl⟩
        | false => cases hmem
    | refused hdecode refusal accepted =>
        cases accepted with
        | true => exact .inl ⟨.refused hdecode rfl, rfl⟩
        | false => cases hmem
    | @answered request _ given =>
        exact absurd (List.mem_singleton.1 hmem).symm (successReply_ne_failureReply tag request given)
    | lost => cases hmem
    | replaced hdecode _ hown accepted =>
        cases accepted with
        | true => exact .inr (.replaced hdecode rfl hown rfl)
        | false => cases hmem
  · rintro (⟨-, hreplied⟩ | ⟨-, -, -, hreplied⟩)
    · exact mem_delivered_of_replied (hreplied ▸ List.mem_cons_self)
    · exact mem_delivered_of_replied (hreplied ▸ List.mem_cons_of_mem _ List.mem_cons_self)

theorem failure_delivered_iff_of_accepted (h : Course tag line calls result)
    (haccepted : ∀ reply ∈ replied calls, reply.2 = true) :
    failureReply tag ∈ delivered calls ↔ NotCarriedOut line calls := by
  constructor
  · intro hmem
    obtain ⟨hnot, -⟩ | ⟨-, -, -, hreplied⟩ := (failure_delivered_iff h).1 hmem
    · exact hnot
    · rw [hreplied] at haccepted
      cases haccepted _ List.mem_cons_self
  · intro hnot
    cases h with
    | undecoded _ accepted | refused _ _ accepted =>
        obtain rfl : accepted = true := haccepted _ List.mem_cons_self
        exact List.mem_singleton_self _
    | answered | lost | replaced => exact absurd hnot (not_notCarriedOut rfl)

end Courses

namespace Handlers

variable {σ : Type}

theorem exists_of_readClock_script {script : Bench.Script} (h : script.clock.Exists)
    (log : Bench.Log) (time : CivilTime) (after : Bench.Log)
    (hread : script.handlers.readClock log = .ok time after) : time.Exists := by
  obtain ⟨_, _, -, hpure⟩ := step_bind_eq_ok.1 hread
  obtain ⟨rfl, -⟩ := step_pure_eq_ok.1 hpure
  exact h

/-- Whatever the device does, and whatever lines it has dealt with, a failure is delivered only if
the line was not carried out, or if it was and the device refused the reply of its own that the
request has. If no reply was refused, a failure says exactly that the line was not carried out. -/
theorem failures_delivered (h : Handlers σ)
    (hclock : ∀ s t after, h.readClock s = .ok t after → t.Exists)
    (history : List Octets) (start : Dispatcher σ) (tag : UInt8) (body : Octets) :
    let before := h.recorded.dealtWith history (start.map (·, []))
    let result := h.recorded.exchange (tag :: body) before
    h.exchange (tag :: body) (h.dealtWith history start) =
        mapState (Dispatcher.map Prod.fst) result ∧
      ∃ calls, (stateOf result).device.2 = before.device.2 ++ calls ∧
        (failureReply tag ∈ delivered calls ↔
          NotCarriedOut (tag :: body) calls ∧ replied calls = [(failureReply tag, true)] ∨
            Misreported tag (tag :: body) calls) ∧
        ((∀ reply ∈ replied calls, reply.2 = true) →
          (failureReply tag ∈ delivered calls ↔ NotCarriedOut (tag :: body) calls)) := by
  intro before result
  obtain ⟨calls, hcalls, hcourse⟩ :=
    follows_exchange hclock tag body before.device.1 before.device.2 before.reply
  have hbefore : before.map Prod.fst = h.dealtWith history start :=
    h.dealtWith_recorded history (start.map (·, []))
  rw [← hbefore]
  exact ⟨h.seenAs_recorded.exchange (tag :: body) before, calls, hcalls,
    failure_delivered_iff hcourse, failure_delivered_iff_of_accepted hcourse⟩

/-- A device refuses to be reset, and the failure that it sends says so. -/
theorem failures_delivered_refused :
    let device := Bench.Script.handlers
      ⟨fun kind => if kind = .reset then some .rejected else none, .base, fun _ => .on,
        fun _ => false⟩
    let start : Dispatcher Bench.Log := .start .start
    let before := device.recorded.dealtWith [[72, 48]] (start.map (·, []))
    let result := device.recorded.exchange [73] before
    let calls : List Call := [.request .reset (.error .rejected), .reply (failureReply 73) true]
    (∀ s t after, device.readClock s = .ok t after → t.Exists) ∧
      (stateOf result).device.2 = before.device.2 ++ calls ∧ failureReply 73 ∈ delivered calls ∧
      NotCarriedOut [73] calls := by
  intro device start before result calls
  have hclock : ∀ s t after, device.readClock s = .ok t after → t.Exists :=
    exists_of_readClock_script (CivilTime.defect?_eq_none_iff.1 rfl)
  have hcalls : (stateOf result).device.2 = before.device.2 ++ calls := by
    simp only [result, before, device, start, calls]
    cbv
  obtain ⟨-, calls', hcalls', -, hiff⟩ :=
    failures_delivered device hclock [[72, 48]] start 73 []
  -- seen through, the two sides would be run to be compared
  obtain rfl : calls = calls' := by
    with_reducible exact List.append_cancel_left (hcalls.symm.trans hcalls')
  have hmem : failureReply 73 ∈ delivered calls := List.mem_singleton_self _
  exact ⟨hclock, hcalls, hmem, (hiff (List.forall_mem_singleton.2 rfl)).1 hmem⟩

/-- A device is reset, but refuses the first reply that it is to send. The host gets a failure. -/
theorem failure_delivered_of_reset_done :
    let device := Bench.Script.handlers ⟨fun _ => none, .base, fun _ => .on, fun n => n == 0⟩
    let start : Dispatcher Bench.Log := .start .start
    let result := device.recorded.exchange [73] (start.map (·, []))
    let calls := (stateOf result).device.2
    (∀ s t after, device.readClock s = .ok t after → t.Exists) ∧
      (stateOf result).device.1.requests = [.reset] ∧ failureReply 73 ∈ delivered calls ∧
      requested calls = [(.reset, .ok .nothing)] ∧ ¬NotCarriedOut [73] calls := by
  intro device start result calls
  have hcalls : calls = [.request .reset (.ok .nothing),
      .reply (successReply 73 .reset .nothing) false, .reply (failureReply 73) true] := by
    simp only [calls, result, device, start]
    cbv
  have hrequested : requested calls = [(.reset, .ok .nothing)] := by
    rw [hcalls]
    rfl
  refine ⟨exists_of_readClock_script (CivilTime.defect?_eq_none_iff.1 rfl), ?_, ?_, hrequested,
    not_notCarriedOut hrequested⟩
  · simp only [result, device, start]
    cbv
  · rw [hcalls]
    exact List.mem_singleton_self _

end Handlers

end TimeSwitch.Wire
