import BuildSync.Manifest
import BuildSync.Toml.Document

namespace BuildSync.Toml

def Item.text? : Item → Option String
  | text value => some value
  | _ => none

def Item.count? : Item → Option UInt32
  | integer n => if 0 ≤ n ∧ n < UInt32.size then some (UInt32.ofNat n.toNat) else none
  | _ => none

def Item.items? : Item → Option (List Item)
  | array items => some items
  | tables elements => some (elements.map (table .header))
  | _ => none

def Item.parts? : Item → Option (Manifest.Parts Item)
  | table _ entries => some (.named entries)
  | item => item.items?.map (.inOrder · true)

def Item.given (item : Item) : Option (Option Item) := some (some item)

instance : Manifest.Readable Option Item := ⟨Item.text?, Item.count?, Item.items?, Item.parts?, Item.given⟩

def manifest? (text : String) : Option Manifest :=
  (Entries.ofText? text).bind fun entries => Manifest.ofValue (Item.table .header entries)

end BuildSync.Toml
