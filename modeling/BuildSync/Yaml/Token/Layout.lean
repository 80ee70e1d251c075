import BuildSync.Yaml.Scalar
import BuildSync.Yaml.Token.Tag

/-!
How a text is cut into tokens. Outside of brackets, indentation opens and closes collections; and
only the colon behind a key tells that it is one, so places where a key may have begun are kept in
mind.
-/

namespace BuildSync.Yaml

structure Candidate where
  number : Nat
  required : Bool
  byte : Nat
  line : Nat
  column : Nat

/-- The state of the cutting. `indent` is the column of the innermost collection and `outer` those
around it; `candidates` has one place for every open bracket and one for the block around them;
`tokens` holds the latest first. -/
structure Layout where
  cursor : Cursor
  depth : Nat
  indent : Int
  outer : List Int
  keyAllowed : Bool
  candidates : List (Option Candidate)
  tokens : List Token

abbrev Cutting := StateT Layout Option

namespace Layout

def start (text : String) : Layout := ⟨.ofText text, 0, -1, [], true, [none], []⟩

def flow (l : Layout) : Bool := 0 < l.depth

def close (l : Layout) (column : Int) : List Int → Layout
  | [] => l
  | outer :: rest =>
    if column < l.indent then
      close { l with indent := outer, outer := rest, tokens := .blockEnd :: l.tokens } column rest
    else l

end Layout

namespace Cutting

def emit (token : Token) : Cutting Unit :=
  modify fun l => { l with tokens := token :: l.tokens }

def insert (number : Nat) (token : Token) : Cutting Unit :=
  modify fun l =>
    { l with tokens := l.tokens.insertIdx (l.tokens.length - number) token }

def skip (count : Nat) : Cutting Unit :=
  modify fun l => { l with cursor := l.cursor.skip count }

def allowKey (allowed : Bool) : Cutting Unit :=
  modify fun l => { l with keyAllowed := allowed }

def indent (column : Nat) (number : Option Nat) (token : Token) : Cutting Unit := do
  let l ← get
  if !l.flow ∧ l.indent < column then
    set { l with outer := l.indent :: l.outer, indent := column }
    match number with
    | some number => insert number token
    | none => emit token

def outdent (column : Int) : Cutting Unit :=
  modify fun l => if l.flow then l else l.close column l.outer

def dropCandidate : Cutting Unit := do
  let l ← get
  match l.candidates with
  | [] => failure
  | candidate :: rest =>
    if candidate.any (·.required) then failure
    set { l with candidates := none :: rest }

def saveCandidate : Cutting Unit := do
  let l ← get
  if l.keyAllowed then
    dropCandidate
    let c := l.cursor
    let required := !l.flow && l.indent == c.column
    modify fun m =>
      { m with candidates := some ⟨l.tokens.length, required, c.byte, c.line, c.column⟩ :: l.candidates.tail }

def dropStale : Cutting Unit := do
  let l ← get
  let stale (k : Candidate) : Bool := k.line < l.cursor.line || k.byte + 1024 < l.cursor.byte
  if l.candidates.any (Option.any fun k => stale k && k.required) then failure
  set { l with candidates := l.candidates.map (Option.filter (!stale ·)) }

def skipGap : Nat → Cutting Unit
  | 0 => failure
  | fuel + 1 => do
    let l ← get
    let c := l.cursor
    let c := if c.column = 0 ∧ c.starts "\uFEFF" then c.skip 1 else c
    let c := c.skipWhile fun b => b = ' ' || (b = '\t' && (l.flow || !l.keyAllowed))
    let c := c.skipComment
    match c.break? with
    | none => set { l with cursor := c }
    | some (_, c) =>
      set { l with cursor := c, keyAllowed := l.keyAllowed || !l.flow }
      skipGap fuel

def marked {α : Type} (read : Cursor → Option (α × Cursor)) (token : α → Token) : Cutting Unit := do
  let l ← get
  let (value, c) ← read (l.cursor.skip 1)
  set { l with cursor := c }
  emit (token value)

def documentToken (token : Cutting Unit) : Cutting Unit := do
  outdent (-1)
  dropCandidate
  allowKey false
  token

def openFlow (token : Token) : Cutting Unit := do
  saveCandidate
  modify fun l => { l with candidates := none :: l.candidates, depth := l.depth + 1 }
  allowKey true
  skip 1
  emit token

def closeFlow (token : Token) : Cutting Unit := do
  dropCandidate
  modify fun l =>
    if l.flow then { l with candidates := l.candidates.tail, depth := l.depth - 1 } else l
  allowKey false
  skip 1
  emit token

def comma : Cutting Unit := do
  dropCandidate
  allowKey true
  skip 1
  emit .comma

def blockMark (opening : Token) : Cutting Unit := do
  let l ← get
  if !l.flow then
    if !l.keyAllowed then failure
    indent l.cursor.column none opening

def entry : Cutting Unit := do
  blockMark .sequenceStart
  dropCandidate
  allowKey true
  skip 1
  emit .entry

def key : Cutting Unit := do
  blockMark .mappingStart
  dropCandidate
  allowKey (!(← get).flow)
  skip 1
  emit .key

def value : Cutting Unit := do
  let l ← get
  match l.candidates with
  | some k :: rest =>
    -- Both are put in where the key begins, so the one that comes later stands in front.
    insert k.number .key
    indent k.column (some k.number) .mappingStart
    modify fun m => { m with candidates := none :: rest }
    allowKey false
  | _ =>
    blockMark .mappingStart
    allowKey (!l.flow)
  skip 1
  emit .value

def name (token : String → Token) : Cutting Unit := do
  saveCandidate
  allowKey false
  marked anchorName? token

def tag : Cutting Unit := do
  saveCandidate
  allowKey false
  let l ← get
  let (name, c) ← tag? l.flow l.cursor
  set { l with cursor := c }
  emit (.tag name)

def blockScalar (literal : Bool) : Cutting Unit := do
  dropCandidate
  allowKey true
  let l ← get
  marked (block literal l.indent) fun text =>
    .scalar (if literal then .literal else .folded) (String.ofList text)

def quotedScalar (double : Bool) : Cutting Unit := do
  saveCandidate
  allowKey false
  let l ← get
  marked (quoted double (l.cursor.rest.length + 1)) fun text =>
    .scalar (if double then .doubleQuoted else .singleQuoted) (String.ofList text)

def plainScalar : Cutting Unit := do
  saveCandidate
  allowKey false
  let l ← get
  let p ← plain l.flow (l.indent + 1) (l.cursor.rest.length + 1) .empty l.cursor
  set { l with cursor := p.cursor, keyAllowed := p.broken }
  emit (.scalar .plain (String.ofList p.text))

def beginsPlain (flow : Bool) (first : Char) (rest : List Char) : Bool :=
  if first = '-' then !rest.head?.any isBlank
  else if first = '?' ∨ first = ':' then !flow && !atGap rest
  else !isBlank first && !",[]\x7b\x7d#&*!|>'\"%@\x60".toList.contains first

def next : Cutting Bool := do
  skipGap ((← get).cursor.rest.length + 1)
  dropStale
  outdent (← get).cursor.column
  let l ← get
  let c := l.cursor
  match c.rest with
  | [] =>
    documentToken (pure ())
    return false
  | first :: rest =>
    if c.column = 0 ∧ first = '%' then documentToken (do
      let (token, c) ← directive? (c.skip 1)
      modify fun l => { l with cursor := c }
      emit token)
    else if c.atDocumentMark then documentToken (do
      skip 3
      emit (if first = '-' then .documentStart else .documentEnd))
    else if first = '[' then openFlow .openBracket
    else if first = '\x7b' then openFlow .openBrace
    else if first = ']' then closeFlow .closeBracket
    else if first = '\x7d' then closeFlow .closeBrace
    else if first = ',' then comma
    else if first = '-' ∧ atGap rest then entry
    else if first = '?' ∧ (l.flow ∨ atGap rest) then key
    else if first = ':' ∧ (l.flow ∨ atGap rest) then value
    else if first = '*' then name .aliasOf
    else if first = '&' then name .anchor
    else if first = '!' then tag
    else if first = '|' ∧ !l.flow then blockScalar true
    else if first = '>' ∧ !l.flow then blockScalar false
    else if first = '\'' then quotedScalar false
    else if first = '"' then quotedScalar true
    else if beginsPlain l.flow first rest then plainScalar
    else failure
    return true

def all : Nat → Cutting Unit
  | 0 => failure
  | fuel + 1 => do
    if ← next then all fuel

end Cutting

def Token.ofText? (text : String) : Option (List Token) :=
  if text.toList.all isAllowed then
    ((Cutting.all (text.length + 2)).run (.start text)).map fun (_, l) => l.tokens.reverse
  else none

end BuildSync.Yaml
