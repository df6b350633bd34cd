import TimeSwitch.Wire.Exchange

/-!
A scripted device for trying exchanges out. It does nothing but note what it is asked, and
refuses what its script says.
-/

namespace TimeSwitch.Bench

open Wire

structure Script where
  refusal : RequestKind → Option Refusal
  clock : CivilTime
  reading : Channel → Reading
  /-- The replies that are refused, counted from zero. -/
  lost : Nat → Bool

/-- What a scripted device has seen. -/
structure Log where
  requests : List Request
  replies : List Octets
  /-- The replies offered so far, refused ones included. -/
  offered : Nat
  deriving DecidableEq

namespace Log

def start : Log := ⟨[], [], 0⟩

/-- Forgets what was noted, but not how many replies were offered. -/
def cleared (log : Log) : Log := { log with requests := [], replies := [] }

end Log

namespace Script

/-- Notes a request and does as the script says. -/
def note (script : Script) (request : Request) : Action Log Unit := fun log =>
  let log := { log with requests := log.requests ++ [request] }
  match script.refusal request.kind with
  | none => .ok () log
  | some refusal => .error refusal log

def send (lost : Nat → Bool) (octets : Octets) : Action Log Unit := fun log =>
  if lost log.offered then .error .rejected { log with offered := log.offered + 1 }
  else .ok () { log with offered := log.offered + 1, replies := log.replies ++ [octets] }

/-- A device that has all handlers. -/
def handlers (script : Script) : Handlers Log where
  setClock time := script.note (.setClock time)
  readClock := do script.note .readClock; return script.clock
  setAlarm slot schedule := script.note (.setAlarm slot schedule)
  clearAlarm slot := script.note (.clearAlarm slot)
  setTrigger channel formula := script.note (.setTrigger channel formula)
  clearTrigger channel := script.note (.clearTrigger channel)
  setDirection channel direction := script.note (.setDirection channel direction)
  readChannel channel := do script.note (.readChannel channel); return script.reading channel
  reset := script.note .reset
  send := send script.lost

/-- A device that can only reply. -/
def replyOnly : Handlers Log where
  send := send fun _ => false

end Script

end TimeSwitch.Bench
