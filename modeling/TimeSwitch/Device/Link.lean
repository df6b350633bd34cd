import TimeSwitch.Text.Octets

/-!
Serial links. A `Link` is what the console talks over; a `ClosingLink` has a bounded number of
octets still to deliver. A `Transceiver` is a plainer device that moves as many octets at a time
as it likes, and `Serial` makes a link of it.
-/

namespace TimeSwitch.Device

class Link (ε : outParam Type) (ℓ : Type) where
  /-- Reads up to so many octets; none means that the link has closed. -/
  read : Nat → EStateM ε ℓ Octets
  write : Octets → EStateM ε ℓ Unit
  flush : EStateM ε ℓ Unit

/-- A link that closes in the end: every read that delivers something leaves less to come. -/
class ClosingLink (ε : outParam Type) (ℓ : Type) extends Link ε ℓ where
  pending : ℓ → Nat
  pending_read : ∀ {n link octets after}, read n link = .ok octets after →
    pending after + octets.length ≤ pending link
  pending_write : ∀ {octets link after}, write octets link = .ok () after →
    pending after ≤ pending link
  pending_flush : ∀ {link after}, flush link = .ok () after → pending after ≤ pending link

class Transceiver (ε : outParam Type) (ρ : Type) where
  /-- Reads some of up to so many octets. -/
  read : Nat → EStateM ε ρ Octets
  /-- Takes some octets from the front and says how many. -/
  write : Octets → EStateM ε ρ Nat
  flush : EStateM ε ρ Unit

/-- A transceiver used as a link. -/
structure Serial (ρ : Type) where
  device : ρ
  deriving DecidableEq

namespace Serial

variable {ε ρ : Type} [Transceiver ε ρ]

/-- Does something with the transceiver. -/
def onDevice (action : EStateM ε ρ α) : EStateM ε (Serial ρ) α := fun serial =>
  match action serial.device with
  | .ok a device => .ok a ⟨device⟩
  | .error e device => .error e ⟨device⟩

/-- Reads once; no room, no reading. -/
def read (n : Nat) : EStateM ε (Serial ρ) Octets :=
  if n = 0 then pure [] else onDevice (Transceiver.read n)

/-- Writes until everything has been taken. A transceiver that takes nothing is not asked again. -/
def write : Octets → EStateM ε (Serial ρ) Unit
  | [] => pure ()
  | b :: rest => do
    let taken ← onDevice (Transceiver.write (b :: rest))
    if 0 < taken then write ((b :: rest).drop taken)
termination_by octets => octets.length
decreasing_by simp; omega

def flush : EStateM ε (Serial ρ) Unit := onDevice Transceiver.flush

instance : Link ε (Serial ρ) where
  read := read
  write := write
  flush := flush

end Serial

end TimeSwitch.Device
