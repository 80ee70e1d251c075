import BuildSync.Toml.Line

/-!
How the lines of a document make one table. A header begins a section, whose pairs fill a table of
its own.
-/

namespace BuildSync.Toml

abbrev Pairs := List (Path × Item)

structure Section where
  path : Path
  element : Bool
  pairs : Pairs

def Section.ofLines : List Line → Pairs × List Section
  | [] => ([], [])
  | .pair path value :: rest =>
    let (pairs, sections) := ofLines rest
    ((path, value) :: pairs, sections)
  | .table path :: rest =>
    let (pairs, sections) := ofLines rest
    ([], ⟨path, false, pairs⟩ :: sections)
  | .element path :: rest =>
    let (pairs, sections) := ofLines rest
    ([], ⟨path, true, pairs⟩ :: sections)

def Entries.fill (entries : Entries) (pairs : Pairs) : Option Entries :=
  pairs.foldlM (fun entries pair => entries.addAt pair.1 pair.2) entries

def Section.item (s : Section) (found : Option Item) : Option Item :=
  match s.element, found with
  | false, none => (Entries.fill [] s.pairs).map (.table .header)
  | false, some (.table .implied entries) => (Entries.fill entries s.pairs).map (.table .header)
  | true, none => (Entries.fill [] s.pairs).map fun element => .tables [element]
  | true, some (.tables elements) =>
    (Entries.fill [] s.pairs).map fun element => .tables (elements ++ [element])
  | _, some _ => none

def Entries.addSection (entries : Entries) (s : Section) : Option Entries :=
  entries.change false
    (fun _ table => (s.item (table.lookup s.path.key)).map (Entries.put table s.path.key))
    s.path.above .header

def Entries.ofText? (text : String) : Option Entries := do
  let (pairs, sections) := Section.ofLines (← Line.ofText? text)
  sections.foldlM Entries.addSection (← Entries.fill [] pairs)

end BuildSync.Toml
