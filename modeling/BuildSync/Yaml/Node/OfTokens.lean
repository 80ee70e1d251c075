import BuildSync.Yaml.Node
import BuildSync.Yaml.Token.Layout

/-!
How tokens make nodes. What is missing between two tokens is an empty plain scalar.
-/

namespace BuildSync.Yaml

structure Input where
  tokens : List Token
  anchors : List (String × Nat)
  handles : List (String × String)

abbrev Reading := StateT Input Option

namespace Reading

def peek? : Reading (Option Token) := do return (← get).tokens.head?

def advance : Reading Unit := modify fun i => { i with tokens := i.tokens.tail }

def next (accept : Token → Bool) : Reading Bool := do
  return (← peek?).any accept

def skip (token : Token) : Reading Bool := do
  if ← next (· == token) then
    advance
    return true
  else return false

def expect (token : Token) : Reading Unit := do
  if !(← skip token) then failure

def ends (tokens : List Token) : Reading Bool := do
  return (← peek?).all tokens.contains

def define (name : String) : Reading Nat := do
  let i ← get
  let number := i.anchors.length
  set { i with anchors := (name, number) :: i.anchors.filter (·.1 ≠ name) }
  return number

def resolve (name : TagName) : Reading String := do
  if name.handle = "" then return name.suffix
  let lead ← (← get).handles.lookup name.handle
  return lead ++ name.suffix

def anchor? : Reading (Option Nat) := do
  match ← peek? with
  | some (.anchor name) =>
    advance
    some <$> define name
  | _ => return none

def tag? : Reading (Option TagName) := do
  match ← peek? with
  | some (.tag name) =>
    advance
    return some name
  | _ => return none

def properties : Reading (Option Nat × Option String) := do
  let before ← anchor?
  let tag ← tag?
  let anchor ← if before.isNone && tag.isSome then anchor? else pure before
  return (anchor, ← tag.mapM resolve)

def emptyScalar : Node := .scalar none none .plain ""

mutual

def node (isBlock indentless : Bool) : Nat → Reading Node
  | 0 => failure
  | fuel + 1 => do
    match ← peek? with
    | some (.aliasOf name) =>
      advance
      let number ← (← get).anchors.lookup name
      return .aliasOf number
    | _ =>
      let (anchor, tag) ← properties
      match ← peek? with
      | some .entry =>
        if indentless then return .sequence anchor (← indentlessEntries fuel)
        else bare anchor tag
      | some (.scalar style text) =>
        advance
        return .scalar anchor tag style text
      | some .openBracket =>
        advance
        return .sequence anchor (← flowItems true fuel)
      | some .openBrace =>
        advance
        return .mapping anchor (← flowEntries true fuel)
      | some .sequenceStart =>
        if !isBlock then bare anchor tag
        else
          advance
          return .sequence anchor (← blockEntries fuel)
      | some .mappingStart =>
        if !isBlock then bare anchor tag
        else
          advance
          return .mapping anchor (← blockPairs fuel)
      | _ => bare anchor tag

def bare (anchor : Option Nat) (tag : Option String) : Reading Node := do
  if anchor.isNone && tag.isNone then failure
  return .scalar anchor tag .plain ""

def nodeUnless (ending : List Token) (isBlock indentless : Bool) : Nat → Reading Node
  | 0 => failure
  | fuel + 1 => do
    if ← ends ending then return emptyScalar else node isBlock indentless fuel

def blockEntries : Nat → Reading (List Node)
  | 0 => failure
  | fuel + 1 => do
    if ← skip .entry then
      let item ← nodeUnless [.entry, .blockEnd] true false fuel
      return item :: (← blockEntries fuel)
    expect .blockEnd
    return []

def indentlessEntries : Nat → Reading (List Node)
  | 0 => failure
  | fuel + 1 => do
    if ← skip .entry then
      let item ← nodeUnless [.entry, .key, .value, .blockEnd] true false fuel
      return item :: (← indentlessEntries fuel)
    return []

def blockPairs : Nat → Reading (List (Node × Node))
  | 0 => failure
  | fuel + 1 => do
    if ← skip .key then
      let key ← nodeUnless [.key, .value, .blockEnd] true true fuel
      let value ←
        if ← skip .value then nodeUnless [.key, .value, .blockEnd] true true fuel
        else pure emptyScalar
      return (key, value) :: (← blockPairs fuel)
    expect .blockEnd
    return []

def flowItems (first : Bool) : Nat → Reading (List Node)
  | 0 => failure
  | fuel + 1 => do
    if ← skip .closeBracket then return []
    if !first then expect .comma
    if ← skip .closeBracket then return []
    let item ←
      if ← skip .key then (fun pair => .mapping none [pair]) <$> flowPair fuel
      else node false false fuel
    return item :: (← flowItems false fuel)

def flowPair : Nat → Reading (Node × Node)
  | 0 => failure
  | fuel + 1 => do
    let key ←
      if ← ends [.value, .comma, .closeBracket] then
        advance
        pure emptyScalar
      else node false false fuel
    let value ←
      if ← skip .value then nodeUnless [.comma, .closeBracket] false false fuel
      else pure emptyScalar
    return (key, value)

def flowEntries (first : Bool) : Nat → Reading (List (Node × Node))
  | 0 => failure
  | fuel + 1 => do
    if ← skip .closeBrace then return []
    if !first then expect .comma
    if ← skip .closeBrace then return []
    let entry ←
      if ← skip .key then
        let key ← nodeUnless [.value, .comma, .closeBrace] false false fuel
        let value ←
          if ← skip .value then nodeUnless [.comma, .closeBrace] false false fuel
          else pure emptyScalar
        pure (key, value)
      else (·, emptyScalar) <$> node false false fuel
    return entry :: (← flowEntries false fuel)

end

def directives (versioned : Bool) : Nat → Reading Bool
  | 0 => failure
  | fuel + 1 => do
    match ← peek? with
    | some (.version major minor) =>
      if versioned || major ≠ 1 || (minor ≠ 1 && minor ≠ 2) then failure
      advance
      discard (directives true fuel)
      return true
    | some (.handle name meaning) =>
      if ((← get).handles.lookup name).isSome then failure
      modify fun i => { i with handles := i.handles ++ [(name, meaning)] }
      advance
      discard (directives versioned fuel)
      return true
    | _ => return false

def defaultHandles : Reading Unit :=
  modify fun i => { i with handles := i.handles ++ [("!", "!"), ("!!", "tag:yaml.org,2002:")] }

def documentEnd : Nat → Reading Unit
  | 0 => failure
  | fuel + 1 => do
    if ← skip .documentEnd then documentEnd fuel
    else if (← peek?).isSome then failure

def document (fuel : Nat) : Reading (Option Node) := do
  if (← peek?).isNone then return none
  let directed ← directives false fuel
  defaultHandles
  if directed || (← next (· == .documentStart)) then
    expect .documentStart
    let content ← nodeUnless [.documentStart, .documentEnd] true false fuel
    documentEnd fuel
    return some content
  let content ← node true false fuel
  documentEnd fuel
  return some content

end Reading

def Node.ofText? (text : String) : Option (Option Node) := do
  let tokens ← Token.ofText? text
  let (node, _) ← (Reading.document (4 * tokens.length + 4)).run ⟨tokens, [], []⟩
  return node

end BuildSync.Yaml
