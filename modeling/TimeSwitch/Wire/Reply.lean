import TimeSwitch.Wire.Request

/-!
Replies to the host. A reply begins with `>` and the letter of the request that it answers. All
replies are made in one buffer, which never holds more than a line does.
-/

namespace TimeSwitch.Wire

/-- The buffer in which replies are made, one after the other. -/
@[ext]
structure Reply where
  octets : Octets
  fits : octets.length ≤ lineLimit
  deriving DecidableEq, Repr

namespace Reply

def empty : Reply := ⟨[], Nat.zero_le lineLimit⟩

/-- Forgets what the buffer holds. -/
def clear (reply : Reply) : Reply := { reply with octets := [], fits := Nat.zero_le lineLimit }

/-- Adds octets, all or none of them. -/
def push? (reply : Reply) (more : Octets) : Option Reply :=
  if h : reply.octets.length + more.length ≤ lineLimit then
    some ⟨reply.octets ++ more, by rwa [List.length_append]⟩
  else none

/-- Adds octets if there is room for all of them. -/
def push (reply : Reply) (more : Octets) : Reply := (reply.push? more).getD reply

/-- Starts a reply to the request with that letter. -/
def begin (reply : Reply) (tag : UInt8) : Reply := reply.clear.push [62, tag]

/-- Says whether a request was carried out. -/
def status (reply : Reply) (tag : UInt8) (ok : Bool) : Reply :=
  (reply.begin tag).push (Octets.ofText (if ok then " OK".toList else " FAIL".toList))

variable {reply filled : Reply} {more : Octets}

theorem push?_eq_some (h : reply.octets.length + more.length ≤ lineLimit) :
    reply.push? more = some ⟨reply.octets ++ more, by rwa [List.length_append]⟩ := dif_pos h

theorem octets_of_push? (h : reply.push? more = some filled) :
    filled.octets = reply.octets ++ more := by
  rw [push?] at h
  split at h
  · exact Option.some.inj h ▸ rfl
  · cases h

@[simp] theorem octets_begin (reply : Reply) (tag : UInt8) :
    (reply.begin tag).octets = [62, tag] := rfl

@[simp] theorem octets_status (reply : Reply) (tag : UInt8) (ok : Bool) :
    (reply.status tag ok).octets =
      62 :: tag :: Octets.ofText (if ok then " OK".toList else " FAIL".toList) := by
  cases ok <;> rfl

/-- What was in the buffer before is gone. -/
theorem begin_forgets (reply other : Reply) (tag : UInt8) : reply.begin tag = other.begin tag :=
  Reply.ext rfl

theorem status_forgets (reply other : Reply) (tag : UInt8) (ok : Bool) :
    reply.status tag ok = other.status tag ok := by
  rw [status, status, begin_forgets reply other]

end Reply

end TimeSwitch.Wire
