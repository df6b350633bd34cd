/-!
TOML values and the rules by which tables grow. A table remembers how it came about, because
that decides who may add to it: a table with a header of its own is complete, one that a header
only passed through may still get its own header, and one made by a dotted key grows only by
dotted keys. An inline table never grows.

A number may be well written and still stand for nothing. Such a number does no harm in a document
until its value is asked for.
-/

namespace TimeSwitch.Toml

/-- How a table came about. -/
inductive Origin
  /-- Written between braces. -/
  | inline
  /-- Given a header of its own, or the document itself. -/
  | defined
  /-- Passed through by the header of another table. -/
  | implied
  /-- Made by a dotted key. -/
  | dotted
  deriving DecidableEq, Repr

inductive Value
  | string (s : String)
  | integer (n : Int)
  | float
  /-- A number that stands for nothing. -/
  | unreadable
  | boolean (b : Bool)
  | dateTime
  /-- An array, which grows by headers if its elements were given by headers. -/
  | array (ofTables : Bool) (elements : List Value)
  | table (origin : Origin) (entries : List (String × Value))

abbrev Entries := List (String × Value)

mutual

/-- No number in the value is unreadable. -/
def Value.isReadable : Value → Bool
  | .unreadable => false
  | .array _ elements => Value.allReadable elements
  | .table _ entries => Entries.isReadable entries
  | .string _ | .integer _ | .float | .boolean _ | .dateTime => true

def Value.allReadable : List Value → Bool
  | [] => true
  | v :: rest => v.isReadable && Value.allReadable rest

def Entries.isReadable : List (String × Value) → Bool
  | [] => true
  | (_, v) :: rest => v.isReadable && Entries.isReadable rest

end

/-- A table that is being filled. -/
structure Table where
  origin : Origin
  entries : Entries

namespace Table

/-- The whole document, or the table of a header, before anything is in it. -/
def new (origin : Origin) : Table := ⟨origin, []⟩

def get? (table : Table) (key : String) : Option Value :=
  table.entries.lookup key

/-- Puts a value at a key, in place of any other. -/
def put (table : Table) (key : String) (value : Value) : Table :=
  if table.entries.any (·.1 == key) then
    { table with entries := table.entries.map fun entry =>
        if entry.1 == key then (key, value) else entry }
  else { table with entries := table.entries ++ [(key, value)] }

def toValue (table : Table) : Value := .table table.origin table.entries

/-- Changes the table at the end of a path, where tables that are missing are made on the way.
A path may lead through the last of an array of tables. -/
def modifyAt (byKey : Bool) (change : Table → Option Table) :
    List String → Table → Option Table
  | [], table => change table
  | key :: path, table =>
    match table.get? key with
    | none => do
      let child ← modifyAt byKey change path (new (if byKey then .dotted else .implied))
      return table.put key child.toValue
    | some (.table origin entries) =>
      if origin = .inline ∨ byKey ∧ origin = .defined then none
      else do
        let child ← modifyAt byKey change path ⟨origin, entries⟩
        return table.put key child.toValue
    | some (.array true elements) =>
      match elements.getLast? with
      | some (.table origin entries) => do
        let child ← modifyAt byKey change path ⟨origin, entries⟩
        return table.put key (.array true (elements.dropLast ++ [child.toValue]))
      | _ => none
    | some _ => none

/-- Adds a value under a key that must be new. A dotted key ends in a table made by dotted
keys, a plain one in a table that was not. -/
def addHere (isDotted : Bool) (key : String) (value : Value) (table : Table) : Option Table :=
  if (table.origin == .dotted) != isDotted then none
  else match table.get? key with
    | some _ => none
    | none => some (table.put key value)

/-- Adds a value under a key, which may be dotted. -/
def add (table : Table) (path : List String) (key : String) (value : Value) : Option Table :=
  table.modifyAt (!path.isEmpty) (addHere (!path.isEmpty) key value) path

/-- Opens a table under a header: a new one, or one that headers have passed through. -/
def openTable (fill : Table → Option Table) (key : String) (table : Table) : Option Table :=
  match table.get? key with
  | none => do return table.put key (← fill (new .defined)).toValue
  | some (.table .implied entries) => do
    return table.put key (← fill ⟨.defined, entries⟩).toValue
  | some _ => none

/-- Adds a table to an array of tables under a header. -/
def appendTable (fill : Table → Option Table) (key : String) (table : Table) : Option Table := do
  let element ← fill (new .defined)
  match table.get? key with
  | none => return table.put key (.array true [element.toValue])
  | some (.array true elements) =>
    return table.put key (.array true (elements ++ [element.toValue]))
  | some _ => none

end Table

end TimeSwitch.Toml
