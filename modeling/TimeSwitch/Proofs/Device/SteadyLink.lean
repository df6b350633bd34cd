import TimeSwitch.Device.Link

/-!
Links on which nothing fails. What such a link will deliver is cut into readings, one for each
read, and what is written to it is kept in order. A `Tape` is the plainest of them.
-/

namespace TimeSwitch.Device

class SteadyLink (ε : outParam Type) (ℓ : Type) extends Link ε ℓ where
  /-- What the reads to come deliver, one after the other. -/
  readings : ℓ → List Octets
  written : ℓ → Octets
  /-- A read that has room for its reading delivers it. -/
  read_next : ∀ {n link next later}, readings link = next :: later → next.length ≤ n →
    ∃ after, read n link = .ok next after ∧ readings after = later ∧ written after = written link
  write_takes : ∀ octets link, ∃ after, write octets link = .ok () after ∧
    readings after = readings link ∧ written after = written link ++ octets
  flush_takes : ∀ link, ∃ after, flush link = .ok () after ∧
    readings after = readings link ∧ written after = written link

/-- Readings to be delivered, and what was written. -/
structure Tape where
  readings : List Octets
  written : Octets
  deriving DecidableEq, Repr

namespace Tape

/-- The next reading; what there is no room for is left for the next read. -/
def read (n : Nat) : EStateM Empty Tape Octets := fun tape =>
  match tape.readings with
  | [] => .ok [] tape
  | next :: later =>
    if next.length ≤ n then .ok next { tape with readings := later }
    else .ok (next.take n) { tape with readings := next.drop n :: later }

def write (octets : Octets) : EStateM Empty Tape Unit := fun tape =>
  .ok () { tape with written := tape.written ++ octets }

instance : SteadyLink Empty Tape where
  read := read
  write := write
  flush := fun tape => .ok () tape
  readings := readings
  written := written
  read_next := by
    rintro n ⟨_, written⟩ next later rfl hlength
    refine ⟨⟨later, written⟩, ?_, rfl, rfl⟩
    rw [read]
    exact if_pos hlength
  write_takes _ _ := ⟨_, rfl, rfl, rfl⟩
  flush_takes _ := ⟨_, rfl, rfl, rfl⟩

end Tape

end TimeSwitch.Device
