namespace BuildSync.Toml

inductive Origin where
  | braces
  | header
  | implied
  | dotted
  deriving DecidableEq, Repr

inductive Item where
  | text (value : String)
  | integer (value : Int)
  | other
  | array (items : List Item)
  | table (origin : Origin) (entries : List (String × Item))
  | tables (elements : List (List (String × Item)))

abbrev Entries := List (String × Item)

structure Path where
  above : List String
  key : String
  deriving DecidableEq, Repr

def isBlank (c : Char) : Bool := c == ' ' || c == '\t'

def isPlain (c : Char) : Bool := c == '\t' || (0x20 ≤ c.toNat && c.toNat ≠ 0x7F)

end BuildSync.Toml
