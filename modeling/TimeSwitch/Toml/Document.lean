import TimeSwitch.Toml.Statement

/-!
A TOML document as one table. The statements under a header fill the table of that header; those
before the first header fill the document itself.
-/

namespace TimeSwitch.Toml

/-- A header with the keys and values under it. -/
structure Section where
  header : Header
  assignments : List (KeyPath × Value)

namespace Section

/-- The assignments in front of the first header, and the sections that follow. -/
def collect : List Statement → List (KeyPath × Value) × List Section
  | [] => ([], [])
  | .assign key value :: rest =>
    let (assignments, sections) := collect rest
    ((key, value) :: assignments, sections)
  | .header header :: rest =>
    let (assignments, sections) := collect rest
    ([], ⟨header, assignments⟩ :: sections)

/-- Adds assignments to a table in order. -/
def fill (assignments : List (KeyPath × Value)) (table : Table) : Option Table :=
  assignments.foldlM (fun table (key, value) => table.add key.path key.key value) table

/-- Adds a section to the document. -/
def addTo (document : Table) (s : Section) : Option Table :=
  let key := s.header.key
  let place := if s.header.inArray then Table.appendTable else Table.openTable
  document.modifyAt false (place (fill s.assignments) key.key) key.path

end Section

/-- The table that a document describes, if it is well formed. -/
def Table.ofDocument? (document : List Char) : Option Table := do
  let (assignments, sections) := Section.collect (← Statement.all? document)
  sections.foldlM Section.addTo (← Section.fill assignments (new .defined))

end TimeSwitch.Toml
