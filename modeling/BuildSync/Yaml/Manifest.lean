import BuildSync.Manifest
import BuildSync.Text.Digits
import BuildSync.Yaml.Node.OfTokens

namespace BuildSync.Yaml

/-- A node among those that aliases may name. Aliases are followed where a value is read, so that
one in an ignored place does not matter. -/
structure Value where
  anchored : List (Nat × Node)
  node : Node

abbrev Following := StateT Nat Option

namespace Value

def target (v : Value) : Following Node := do
  match v.node with
  | .aliasOf anchor =>
    match ← get with
    | 0 => failure
    | left + 1 =>
      set left
      Node.find? v.anchored anchor
  | node => return node

def text (v : Value) : Following String := do
  match ← v.target with
  | .scalar _ _ _ text => return text
  | _ => failure

def items (v : Value) : Following (List Value) := do
  match ← v.target with
  | .sequence _ items => return items.map (⟨v.anchored, ·⟩)
  | .scalar _ _ .plain "" => return []
  | _ => failure

def parts (v : Value) : Following (Manifest.Parts Value) := do
  match ← v.target with
  | .mapping _ entries =>
    return .named (← entries.mapM fun (key, value) =>
      return (← text ⟨v.anchored, key⟩, ⟨v.anchored, value⟩))
  | .scalar _ _ .plain "" => return .named []
  | _ => failure

end Value

def nullTag : String := "tag:yaml.org,2002:null"

def integerTag : String := "tag:yaml.org,2002:int"

def isNull (text : String) : Bool :=
  text == "null" || text == "Null" || text == "NULL" || text == "~"

def Value.given (v : Value) : Following (Option Value) := do
  let node ← v.target
  match node with
  | .scalar _ none .plain text =>
    return if text == "" || isNull text then none else some ⟨v.anchored, node⟩
  | .scalar _ (some tag) .plain text =>
    if tag ≠ nullTag then return some ⟨v.anchored, node⟩
    if isNull text then return none else failure
  | _ => return some ⟨v.anchored, node⟩

def based? (mark : List Char) (base : Nat) (digits : List Char) : Option Nat :=
  if mark.isPrefixOf digits then numeral? base (digits.drop mark.length) else none

def number? (text : List Char) : Option Nat :=
  let digits := if text.head? = some '+' then text.tail else text
  let decimal :=
    if digits.head? = some '0' ∧ digits.length > 1 then none else numeral? 10 digits
  based? ['0', 'x'] 16 digits <|> based? ['0', 'o'] 8 digits <|> based? ['0', 'b'] 2 digits <|> decimal

def Value.count (v : Value) : Following UInt32 := do
  match ← v.target with
  | .scalar _ tag style text =>
    if style ≠ .plain ∧ (style ≠ .literal ∨ tag ≠ some integerTag) then failure
    let n ← number? text.toList
    if n < UInt32.size then return UInt32.ofNat n else failure
  | _ => failure

instance : Manifest.Readable Following Value :=
  ⟨Value.text, Value.count, Value.items, Value.parts, Value.given⟩

def manifest? (text : String) : Option Manifest := do
  match ← Node.ofText? text with
  | none => return ⟨[], []⟩
  | some node =>
    let reading : Following Manifest := Manifest.ofValue (Value.mk node.anchored node)
    reading.run' (100 * node.size)

end BuildSync.Yaml
