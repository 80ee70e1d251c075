import BuildSync.Toml.Number
import BuildSync.Toml.Text

/-!
What stands on the lines of a document: keys with their values, and headers of tables.
-/

namespace BuildSync.Toml

inductive Line where
  | pair (path : Path) (value : Item)
  | table (path : Path)
  | element (path : Path)

def depthLimit : Nat := 80

def blank : Scan Unit := do discard (Scan.span isBlank)

def isBare (c : Char) : Bool :=
  c.isAlphanum || c == '-' || c == '_'

def simpleKey : Scan String := do
  if ← Scan.starts "\"" then basic
  else if ← Scan.starts "'" then literal
  else return String.ofList (← Scan.spanOne isBare)

def keys : Nat → List String → Scan (List String)
  | 0, _ => failure
  | fuel + 1, before => do
    blank
    let key ← simpleKey
    blank
    if ← Scan.skip "." then keys fuel (key :: before) else return key :: before

def path : Scan Path := do
  match ← keys (depthLimit - 1) [] with
  | [] => failure
  | key :: above => return ⟨above.reverse, key⟩

def comment : Scan Unit := do
  Scan.expect "#"
  discard (Scan.span isPlain)

def ending : Scan Unit := do
  unless ← Scan.done do lineBreak

def lineEnd : Scan Unit := do
  blank
  if ← Scan.starts "#" then comment
  ending

def gap : Nat → Scan Unit
  | 0 => failure
  | fuel + 1 => do
    blank
    if ← Scan.starts "#" then
      comment
      lineBreak
      gap fuel
    else if ← Scan.next fun c => c == '\n' || c == '\r' then
      lineBreak
      gap fuel

namespace Entries

def add (entries : Entries) (key : String) (value : Item) : Option Entries :=
  if (entries.lookup key).isSome then none else some (entries ++ [(key, value)])

def put (entries : Entries) (key : String) (value : Item) : Entries :=
  if (entries.lookup key).isSome then entries.map fun e => if e.1 == key then (key, value) else e
  else entries ++ [(key, value)]

def change (dotted : Bool) (update : Origin → Entries → Option Entries) :
    List String → Origin → Entries → Option Entries
  | [], origin, entries => update origin entries
  | key :: rest, _, entries =>
    match entries.lookup key with
    | none =>
      let origin : Origin := if dotted then .dotted else .implied
      (change dotted update rest origin []).map fun inner => entries ++ [(key, .table origin inner)]
    | some (.table origin inner) =>
      -- An inline table is closed, and a dotted key may not reach into a table with a header.
      if origin = .braces ∨ (dotted ∧ origin = .header) then none
      else (change dotted update rest origin inner).map fun inner => entries.put key (.table origin inner)
    | some (.tables elements) =>
      match elements.getLast? with
      | none => none
      | some last =>
        (change dotted update rest .header last).map fun last =>
          entries.put key (.tables (elements.dropLast ++ [last]))
    | some _ => none

def addAt (entries : Entries) (path : Path) (value : Item) : Option Entries :=
  entries.change true (fun origin table =>
    if path.above ≠ [] ∧ origin ≠ .dotted then none else table.add path.key value)
    path.above .header

end Entries

mutual

/-- A value in front of which no blank stands. The first number counts steps, the second one how
deep values may be nested. -/
def value : Nat → Nat → Scan Item
  | 0, _ => failure
  | fuel + 1, depth => do
    if ← Scan.next fun c => c == '"' || c == '\'' then .text <$> text
    else if ← Scan.skip "true" then return .other
    else if ← Scan.skip "false" then return .other
    else if ← Scan.skip "[" then
      if depth ≤ 1 then failure
      .array <$> items fuel (depth - 1)
    else if ← Scan.skip "\x7b" then
      if depth ≤ 1 then failure
      blank
      if ← Scan.skip "\x7d" then return .table .braces []
      .table .braces <$> members fuel (depth - 1) []
    else number

def items : Nat → Nat → Scan (List Item)
  | 0, _ => failure
  | fuel + 1, depth => do
    gap (fuel + 1)
    if ← Scan.skip "]" then return []
    let v ← value fuel depth
    gap (fuel + 1)
    if ← Scan.skip "," then return v :: (← items fuel depth)
    Scan.expect "]"
    return [v]

def members : Nat → Nat → Entries → Scan Entries
  | 0, _, _ => failure
  | fuel + 1, depth, before => do
    let p ← path
    Scan.expect "="
    blank
    let v ← value fuel depth
    blank
    let entries ← before.addAt p v
    if ← Scan.skip "," then members fuel depth entries
    else
      Scan.expect "\x7d"
      return entries

end

def Line.read (fuel : Nat) : Scan Line := do
  if ← Scan.skip "[[" then
    let p ← path
    Scan.expect "]]"
    lineEnd
    return .element p
  else if ← Scan.skip "[" then
    let p ← path
    Scan.expect "]"
    lineEnd
    return .table p
  else
    let p ← path
    Scan.expect "="
    blank
    let v ← value fuel depthLimit
    lineEnd
    return .pair p v

def Line.readAll (fuel : Nat) : Nat → Scan (List Line)
  | 0 => failure
  | count + 1 => do
    blank
    if ← Scan.done then return []
    else if ← Scan.starts "#" then
      comment
      ending
      readAll fuel count
    else if ← Scan.next fun c => c == '\n' || c == '\r' then
      lineBreak
      readAll fuel count
    else
      let line ← Line.read fuel
      return line :: (← readAll fuel count)

def Line.ofText? (text : String) : Option (List Line) :=
  let fuel := text.length + 2
  let cs :=
    match text.toList with
    | c :: rest => if c.toNat = 0xFEFF then rest else c :: rest
    | [] => []
  ((readAll fuel fuel).run cs).map Prod.fst

end BuildSync.Toml
