import TimeSwitch.Device.Settings
import TimeSwitch.Toml.Document

/-!
Settings written down as a TOML document: an array `io` of channels with their directions, an
array `function` of signals with their sources and an array `trigger` of channels with their
formulas. Every array may be left out and keys of other names are passed over. An entry may be
written as a table, or as an array of its fields in order.

All values have to be readable, also those that are passed over; only what follows the last field
of an entry written as an array is not looked at.
-/

namespace TimeSwitch.Device.SettingsFile

open Toml

/-- The fields of an entry by name and by place. -/
inductive Fields
  | named (entries : Toml.Entries)
  | placed (values : List Value)

namespace Fields

def ofValue? : Value → Option Fields
  | .table _ entries => if Toml.Entries.isReadable entries then some (named entries) else none
  | .array _ values => some (placed values)
  | _ => none

/-- The field of that name, which is also known by its place. -/
def get? (fields : Fields) (name : String) (place : Nat) : Option Value :=
  match fields with
  | named entries => entries.lookup name
  | placed values => values[place]?

end Fields

/-- A number below 256. -/
def number? : Value → Option Nat
  | .integer n => if 0 ≤ n ∧ n < 256 then some n.toNat else none
  | _ => none

def text? : Value → Option String
  | .string s => some s
  | _ => none

/-- A table or an array that holds nothing. -/
def isEmpty : Value → Bool
  | .table _ entries => entries.isEmpty
  | .array _ elements => elements.isEmpty
  | _ => false

/-- One of a few names. A name may also be the only key of a table, with nothing under it. -/
def choice? (choices : List (String × α)) : Value → Option α
  | .string s => choices.lookup s
  | .table _ [(key, value)] => if isEmpty value then choices.lookup key else none
  | _ => none

def directions : List (String × Direction) := [("in", .input), ("out", .output)]

def sourceKinds : List (String × SourceKind) :=
  [("input", .input), ("alarm", .alarm), ("always", .always), ("never", .never)]

def direction? (fields : Fields) : Option DirectionEntry := do
  return {
    channel := ← number? (← fields.get? "index" 0)
    direction := ← choice? directions (← fields.get? "direction" 1) }

/-- The index of a source may be left out. -/
def source? (fields : Fields) : Option SourceEntry := do
  return {
    signal := ← number? (← fields.get? "id" 0)
    kind := ← choice? sourceKinds (← fields.get? "source" 1)
    index := ← match fields.get? "index" 2 with
      | some value => number? value
      | none => some 0 }

def trigger? (fields : Fields) : Option TriggerEntry := do
  return {
    channel := ← number? (← fields.get? "io" 0)
    formula := ← text? (← fields.get? "expression" 1) }

/-- The entries of an array, none if it is left out. -/
def list? (read? : Fields → Option α) (document : Table) (name : String) : Option (List α) :=
  match document.get? name with
  | none => some []
  | some (.array _ elements) => elements.mapM fun value => do read? (← Fields.ofValue? value)
  | some _ => none

/-- The arrays that make settings. -/
def arrayNames : List String := ["io", "function", "trigger"]

/-- The keys of other names are readable. -/
def othersReadable (document : Table) : Bool :=
  Toml.Entries.isReadable (document.entries.filter fun entry => !arrayNames.contains entry.1)

def entries? (document : Table) : Option Device.Entries := do
  if !othersReadable document then none
  return {
    directions := ← list? direction? document "io"
    sources := ← list? source? document "function"
    triggers := ← list? trigger? document "trigger" }

end SettingsFile

/-- The settings that a document describes. -/
def Settings.ofDocument (document : String) : Except SettingsFault Settings :=
  match Toml.Table.ofDocument? document.toList >>= SettingsFile.entries? with
  | some entries => ofEntries entries
  | none => .error .document

end TimeSwitch.Device
