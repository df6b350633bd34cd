import TimeSwitch.Proofs.Calendar.Existing
import TimeSwitch.Proofs.Wire.Views

/-!
What a device is asked. A recorded device does what the device does and lists all that is asked of
it, each with what came of it: the requests it is to carry out and the replies it is to send.
-/

namespace TimeSwitch.Wire

open Sequence

/-- What a device gives when it has carried a request out. -/
inductive Given
  | nothing
  | time (time : CivilTime)
  | reading (reading : Reading)
  deriving DecidableEq

/-- Something asked of a device and what came of it. -/
inductive Call
  | request (request : Request) (answer : Except Refusal Given)
  | reply (octets : Octets) (accepted : Bool)

variable {σ α : Type}

/-- Does it and notes what came of it. -/
def noting (call : Except Refusal α → Call) (action : Action σ α) : Action (σ × List Call) α :=
  fun s => match action s.1 with
    | .ok a after => .ok a (after, s.2 ++ [call (.ok a)])
    | .error refusal after => .error refusal (after, s.2 ++ [call (.error refusal)])

/-- Carries a request out and notes it. -/
def carrying (request : Request) (give : α → Given) :
    Action σ α → Action (σ × List Call) α :=
  noting fun answer => .request request (answer.map give)

namespace Handlers

def recorded (h : Handlers σ) : Handlers (σ × List Call) where
  setClock time := carrying (.setClock time) (fun _ => .nothing) (h.setClock time)
  readClock := carrying .readClock .time h.readClock
  setAlarm slot schedule :=
    carrying (.setAlarm slot schedule) (fun _ => .nothing) (h.setAlarm slot schedule)
  clearAlarm slot := carrying (.clearAlarm slot) (fun _ => .nothing) (h.clearAlarm slot)
  setTrigger channel text :=
    carrying (.setTrigger channel text) (fun _ => .nothing) (h.setTrigger channel text)
  clearTrigger channel :=
    carrying (.clearTrigger channel) (fun _ => .nothing) (h.clearTrigger channel)
  setDirection channel direction :=
    carrying (.setDirection channel direction) (fun _ => .nothing) (h.setDirection channel direction)
  readChannel channel := carrying (.readChannel channel) .reading (h.readChannel channel)
  reset := carrying .reset (fun _ => .nothing) h.reset
  send octets := noting (fun answer => .reply octets answer.isOk) (h.send octets)

end Handlers

/-! ### Recording changes nothing -/

theorem commutes_noting (call : Except Refusal α → Call) (action : Action σ α) :
    Commutes Prod.fst (noting call action) action := by
  intro s
  rw [noting]
  cases action s.1 <;> rfl

theorem commutes_carrying (request : Request) (give : α → Given) (action : Action σ α) :
    Commutes Prod.fst (carrying request give action) action :=
  commutes_noting _ action

theorem Handlers.seenAs_recorded (h : Handlers σ) : SeenAs Prod.fst h.recorded h where
  setClock _ := commutes_carrying _ _ _
  readClock := commutes_carrying _ _ _
  setAlarm _ _ := commutes_carrying _ _ _
  clearAlarm _ := commutes_carrying _ _ _
  setTrigger _ _ := commutes_carrying _ _ _
  clearTrigger _ := commutes_carrying _ _ _
  setDirection _ _ := commutes_carrying _ _ _
  readChannel _ := commutes_carrying _ _ _
  reset := commutes_carrying .reset _ h.reset
  send octets := commutes_noting (fun answer => .reply octets answer.isOk) (h.send octets)

/-! ### Replies -/

/-- The text of its own that a request is answered with. -/
def Request.ownText : Request → Given → Option (List Char)
  | readClock, .time time => some time.render
  | readChannel _, .reading reading => some [reading.symbol]
  | reset, _ => some "RESET".toList
  | _, _ => none

def Request.successText (request : Request) (given : Given) : List Char :=
  (request.ownText given).getD " OK".toList

def successReply (tag : UInt8) (request : Request) (given : Given) : Octets :=
  62 :: tag :: Octets.ofText (request.successText given)

def failureReply (tag : UInt8) : Octets := 62 :: tag :: Octets.ofText " FAIL".toList

/-- What the request may be given: a time that exists, a reading, or nothing. -/
def Request.Gives : Request → Given → Prop
  | readClock, given => ∃ t, given = .time t ∧ t.Exists
  | readChannel _, given => ∃ reading, given = .reading reading
  | _, given => given = .nothing

section Texts

variable {request : Request} {given : Given}

/-- What is written on success, unless it is a time. -/
def successWords : List (List Char) := [['1'], ['0'], ['?'], "RESET".toList, " OK".toList]

theorem successText_cases (request : Request) (given : Given) :
    (∃ t, request = .readClock ∧ given = .time t ∧ request.successText given = t.render) ∨
      request.successText given ∈ successWords := by
  unfold Request.successText Request.ownText
  split
  · exact .inl ⟨_, rfl, rfl, rfl⟩
  · rename_i reading
    right
    cases reading <;> decide
  · right
    decide
  · right
    decide

theorem of_mem_successWords :
    ∀ text ∈ successWords, IsAscii text ∧ text.length ≤ 30 ∧ text ≠ " FAIL".toList := by
  decide

theorem isAscii_successText (request : Request) (given : Given) :
    IsAscii (request.successText given) := by
  obtain ⟨t, -, -, htime⟩ | hword := successText_cases request given
  · rw [htime]
    exact t.isAscii_render
  · exact (of_mem_successWords _ hword).1

theorem length_successText_le (hgiven : request.Gives given) :
    (request.successText given).length ≤ 30 := by
  obtain ⟨t, rfl, rfl, htime⟩ | hword := successText_cases request given
  · obtain ⟨t', heq, hexists⟩ := hgiven
    obtain rfl := Given.time.inj heq
    rw [htime, CivilTime.length_render hexists]
    decide
  · exact (of_mem_successWords _ hword).2.1

/-- A time begins with a letter, so it is not taken for a failure either. -/
theorem successText_ne (request : Request) (given : Given) :
    request.successText given ≠ " FAIL".toList := by
  obtain ⟨t, -, -, htime⟩ | hword := successText_cases request given
  · rw [htime]
    cases hday : t.weekday <;> simp [CivilTime.render, Weekday.abbreviation, hday]
  · exact (of_mem_successWords _ hword).2.2

end Texts

theorem length_successReply_le (tag : UInt8) {request : Request} {given : Given}
    (hgiven : request.Gives given) : (successReply tag request given).length ≤ lineLimit := by
  rw [successReply, List.length_cons, List.length_cons,
    Octets.length_ofText (isAscii_successText request given)]
  exact Nat.add_le_add_right (length_successText_le hgiven) 2

theorem successReply_ne_failureReply (tag : UInt8) (request : Request) (given : Given) :
    successReply tag request given ≠ failureReply tag := by
  intro h
  rw [successReply, failureReply, List.cons.injEq, List.cons.injEq] at h
  have hfail : IsAscii " FAIL".toList := by decide
  exact successText_ne request given
    ((Octets.ofText_inj (isAscii_successText request given) hfail).1 h.2.2)

theorem octets_failure (reply : Reply) (tag : UInt8) :
    (reply.status tag false).octets = failureReply tag := Reply.octets_status reply tag false

theorem octets_success {request : Request} {given : Given} (h : request.ownText given = none)
    (reply : Reply) (tag : UInt8) :
    (reply.status tag true).octets = successReply tag request given := by
  rw [Reply.octets_status, successReply, Request.successText, h]
  rfl

/-- A request's own text always fits. -/
theorem push?_ownText {tag : UInt8} {request : Request} {given : Given} {text : List Char}
    (h : request.ownText given = some text) (hgiven : request.Gives given) (reply : Reply) :
    (reply.begin tag).push? (Octets.ofText text) =
      some ⟨successReply tag request given, length_successReply_le tag hgiven⟩ := by
  have htext : request.successText given = text := by rw [Request.successText, h, Option.getD_some]
  have hlength := length_successReply_le tag hgiven
  simp only [successReply, htext] at hlength ⊢
  have hfits : (reply.begin tag).octets.length + (Octets.ofText text).length ≤ lineLimit := by
    rw [Reply.octets_begin, Nat.add_comm]
    exact hlength
  exact Reply.push?_eq_some hfits

end TimeSwitch.Wire
