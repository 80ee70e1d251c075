import BuildSync.Yaml.Token

namespace BuildSync.Yaml

inductive Node where
  | aliasOf (anchor : Nat)
  | scalar (anchor : Option Nat) (tag : Option String) (style : Style) (text : String)
  | sequence (anchor : Option Nat) (items : List Node)
  | mapping (anchor : Option Nat) (entries : List (Node × Node))

namespace Node

def anchor? : Node → Option Nat
  | aliasOf _ => none
  | scalar anchor .. => anchor
  | sequence anchor _ => anchor
  | mapping anchor _ => anchor

mutual

def anchored (node : Node) : List (Nat × Node) :=
  let below :=
    match node with
    | sequence _ items => anchoredItems items
    | mapping _ entries => anchoredEntries entries
    | _ => []
  match node.anchor? with
  | some anchor => (anchor, node) :: below
  | none => below

def anchoredItems : List Node → List (Nat × Node)
  | [] => []
  | item :: rest => item.anchored ++ anchoredItems rest

def anchoredEntries : List (Node × Node) → List (Nat × Node)
  | [] => []
  | (key, value) :: rest => key.anchored ++ value.anchored ++ anchoredEntries rest

end

mutual

def size : Node → Nat
  | sequence _ items => 2 + sizeItems items
  | mapping _ entries => 2 + sizeEntries entries
  | _ => 1

def sizeItems : List Node → Nat
  | [] => 0
  | item :: rest => item.size + sizeItems rest

def sizeEntries : List (Node × Node) → Nat
  | [] => 0
  | (key, value) :: rest => key.size + value.size + sizeEntries rest

end

def find? (anchored : List (Nat × Node)) (anchor : Nat) : Option Node :=
  anchored.reverse.lookup anchor

end Node

end BuildSync.Yaml
