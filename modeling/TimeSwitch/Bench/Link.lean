import TimeSwitch.Device.Link

/-!
Links on a bench. `Line` delivers given octets, then reads as closed, and may be made to fail
after a number of writes. `Transceiver` moves a few octets at a time and counts what is asked of
it.
-/

namespace TimeSwitch.Bench

open Device

/-- A write that the line did not take. -/
inductive WriteFault
  | failed
  deriving DecidableEq, Repr

structure Line where
  /-- What is still to be delivered. -/
  unread : Octets
  /-- The writes that will still be taken, if they are counted. -/
  writesLeft : Option Nat
  written : Octets
  flushes : Nat
  deriving DecidableEq, Repr

namespace Line

def delivering (octets : Octets) (writes : Option Nat) : Line := ⟨octets, writes, [], 0⟩

def read (n : Nat) : EStateM WriteFault Line Octets := fun line =>
  .ok (line.unread.take n) { line with unread := line.unread.drop n }

def write (octets : Octets) : EStateM WriteFault Line Unit := fun line =>
  match line.writesLeft with
  | some 0 => .error .failed line
  | some (n + 1) => .ok () { line with writesLeft := some n, written := line.written ++ octets }
  | none => .ok () { line with written := line.written ++ octets }

def flush : EStateM WriteFault Line Unit := fun line =>
  .ok () { line with flushes := line.flushes + 1 }

instance : ClosingLink WriteFault Line where
  read := read
  write := write
  flush := flush
  pending line := line.unread.length
  pending_read h := by
    simp only [read, EStateM.Result.ok.injEq] at h
    obtain ⟨rfl, rfl⟩ := h
    simp only [List.length_drop, List.length_take]
    omega
  pending_write h := by
    unfold write at h
    split at h <;> cases h <;> exact Nat.le_refl _
  pending_flush h := by
    cases h; exact Nat.le_refl _

end Line

/-- A transceiver that moves at most `step` octets at a time and never fails. -/
structure Transceiver where
  unread : Octets
  step : Nat
  /-- How often it was read. -/
  reads : Nat
  written : Octets
  flushes : Nat
  deriving DecidableEq, Repr

namespace Transceiver

def delivering (octets : Octets) (step : Nat) : Transceiver := ⟨octets, step, 0, [], 0⟩

instance : Device.Transceiver Empty Transceiver where
  read n := fun device => .ok (device.unread.take (min n device.step))
    { device with unread := device.unread.drop (min n device.step), reads := device.reads + 1 }
  write octets := fun device => .ok (min octets.length device.step)
    { device with written := device.written ++ octets.take device.step }
  flush := fun device => .ok () { device with flushes := device.flushes + 1 }

theorem unread_write : ∀ {octets : Octets} {serial after : Serial Transceiver},
    Serial.write octets serial = .ok () after → after.device.unread = serial.device.unread
  | [], serial, after, h => by rw [Serial.write] at h; cases h; rfl
  | b :: rest, serial, after, h => by
    rw [Serial.write] at h
    simp only [bind, EStateM.bind, Serial.onDevice, Device.Transceiver.write] at h
    split at h
    · have := unread_write h
      exact this
    · cases h; rfl
termination_by octets => octets.length
decreasing_by simp only [List.length_drop, List.length_cons] at *; omega

instance : ClosingLink Empty (Serial Transceiver) where
  pending serial := serial.device.unread.length
  pending_read {n serial octets after} h := by
    change Serial.read n serial = _ at h
    unfold Serial.read at h
    split at h
    · cases h; simp
    · simp only [Serial.onDevice, Device.Transceiver.read, EStateM.Result.ok.injEq] at h
      obtain ⟨rfl, rfl⟩ := h
      simp only [List.length_drop, List.length_take]
      omega
  pending_write h := Nat.le_of_eq (congrArg List.length (unread_write h))
  pending_flush h := by cases h; exact Nat.le_refl _

end Transceiver

end TimeSwitch.Bench
