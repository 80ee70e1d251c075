import BuildSync.Expr
import BuildSync.Expr.Reading

namespace BuildSync

inductive Level where
  | disjunction
  | conjunction
  | negation
  | comparison
  | bitOr
  | bitXor
  | bitAnd
  | shift
  | sum
  | product
  | sign
  | access
  deriving DecidableEq, Repr

namespace Level

def tighter : Level → Level
  | disjunction => conjunction
  | conjunction => negation
  | negation => comparison
  | comparison => bitOr
  | bitOr => bitXor
  | bitXor => bitAnd
  | bitAnd => shift
  | shift => sum
  | sum => product
  | product => sign
  | sign => access
  | access => access

def symbols : Level → List String
  | comparison => ["==", "!=", "<", ">", "<=", ">="]
  | bitOr => ["|"]
  | bitXor => ["^"]
  | bitAnd => ["&"]
  | shift => ["<<", ">>"]
  | sum => ["+", "-"]
  | product => ["*", "/", "//", "%"]
  | _ => []

def words : Level → List String
  | disjunction => ["or"]
  | conjunction => ["and"]
  | comparison => ["in", "not in"]
  | _ => []

def operator? (level : Level) (t : Token) (next : Option Token) : Option String :=
  if t.kind == .operator && t.text ∈ level.symbols then some t.text
  else if t.kind == .ident && t.text ∈ level.words then some t.text
  else if t.isKeyword "not" && next.any (·.isKeyword "in") && "not in" ∈ level.words then
    some "not in"
  else none

end Level

def reserved : List String :=
  ["and", "break", "continue", "def", "elif", "else", "for", "if", "in", "lambda", "not", "or",
    "pass", "return"]

namespace Reading

def opening (b : Bracket) (t : Token) : Bool := t.kind == .opening b

def closing (b : Bracket) (t : Token) : Bool := t.kind == .closing b

def symbol (text : String) (t : Token) : Bool := t.isOperator text

def isName (t : Token) : Bool := t.kind == .ident && t.text ∉ reserved

def operator? (level : Level) : Reading (Option String) := do
  let (first, second) ← ahead
  match first.bind (level.operator? · second) with
  | none => return none
  | some op =>
    let _ ← token
    if op = "not in" then
      let _ ← token
    return some op

def sequence (item : Reading (Label × Expr)) (close : Bracket) : Nat → Reading Sequence
  | 0 => exhausted
  | fuel + 1 => do
    let comments ← comments
    if (← token? (closing close)).isSome then return ⟨[], comments⟩
    let (label, value) ← item
    let before ← suffix?
    if (← token? (symbol ",")).isSome then
      let suffix ← suffixAfter? before
      let others ← sequence item close fuel
      return ⟨⟨comments, label, value, suffix⟩ :: others.items, others.trailing⟩
    else
      let trailing ← Reading.comments
      expect (closing close)
      return ⟨[⟨comments, label, value, before⟩], trailing⟩

def tupleRest (item : Reading Expr) : Nat → Reading (List Expr)
  | 0 => exhausted
  | fuel + 1 => do
    expect (symbol ",")
    if (← token? (closing .round)).isSome then return []
    let value ← item
    if (← token? (closing .round)).isSome then return [value]
    return value :: (← tupleRest item fuel)

def argumentLabel : Reading Label := do
  let (first, second) ← ahead
  if first.any (·.kind == .ident) && second.any (·.isOperator "=") then
    let name ← token
    expect (symbol "=")
    return .name name.text
  else return .bare

mutual

def expr : Nat → Level → Reading Expr
  | 0, _ => exhausted
  | fuel + 1, .negation => do
    if (← token? (·.isKeyword "not")).isSome then
      return .unary "not" (← expr fuel .negation)
    else expr fuel .comparison
  | fuel + 1, .sign => do
    match ← token? (fun t => t.kind == .operator && t.text ∈ ["-", "+", "~"]) with
    | some t => return .unary t.text (← expr fuel .sign)
    | none => expr fuel .access
  | fuel + 1, .access => do
    let base ← operand fuel
    accesses fuel base
  | fuel + 1, level => do
    let lhs ← expr fuel level.tighter
    operations fuel level lhs

def operations : Nat → Level → Expr → Reading Expr
  | 0, _, _ => exhausted
  | fuel + 1, level, lhs => do
    match ← operator? level with
    | none => return lhs
    | some op =>
      let rhs ← expr fuel level.tighter
      -- All operators group to the left: what was read so far is the left side of the next one.
      operations fuel level (.binary op lhs rhs)

def accesses : Nat → Expr → Reading Expr
  | 0, _ => exhausted
  | fuel + 1, base => do
    if (← token? (opening .round)).isSome then
      let args ← sequence (argument fuel) .round fuel
      accesses fuel (.call base args)
    else if (← token? (opening .square)).isSome then
      let index ← expr fuel .disjunction
      expect (closing .square)
      accesses fuel (.index base index)
    else if (← token? (symbol ".")).isSome then
      let name ← token
      if isName name then accesses fuel (.dot base name.text) else unsupported
    else return base

def operand : Nat → Reading Expr
  | 0 => exhausted
  | fuel + 1 => do
    let t ← token
    match t.kind with
    | .ident => if isName t then return .ident t.text else unsupported
    | .number => return .number t.text
    | .string value =>
      if (← ahead).1.any Token.isString then unsupported
      else return .string value (some t.text)
    | .opening .square => return .list (← sequence (element fuel) .square fuel)
    | .opening .curly => return .dict (← sequence (entry fuel) .curly fuel)
    | .opening .round => parenthesized fuel
    | _ => unsupported

def parenthesized : Nat → Reading Expr
  | 0 => exhausted
  | fuel + 1 => do
    if (← token? (closing .round)).isSome then return .tuple []
    let first ← expr fuel .disjunction
    if (← token? (closing .round)).isSome then return .paren first
    let others ← tupleRest (expr fuel .disjunction) fuel
    return .tuple (first :: others)

def element : Nat → Reading (Label × Expr)
  | 0 => exhausted
  | fuel + 1 => do
    let value ← expr fuel .disjunction
    return (.bare, value)

def entry : Nat → Reading (Label × Expr)
  | 0 => exhausted
  | fuel + 1 => do
    let key ← expr fuel .disjunction
    expect (symbol ":")
    let value ← expr fuel .disjunction
    return (.key key, value)

def argument : Nat → Reading (Label × Expr)
  | 0 => exhausted
  | fuel + 1 => do
    let label ← argumentLabel
    let value ← expr fuel .disjunction
    return (label, value)

end

end Reading

namespace Expr

/-- Enough for every reading of so many tokens: between two tokens a reading passes each level
once and a few steps more. -/
def fuel (tokens : List Token) : Nat := 20 * (tokens.length + 1)

def ofTokens? (tokens : List Token) : Option Expr :=
  match Reading.expr (fuel tokens) .disjunction ⟨0, tokens⟩ with
  | .done e ⟨_, []⟩ => some e
  | _ => none

end Expr

def Call.ofTokens? (tokens : List Token) : Option Call :=
  match Expr.ofTokens? tokens with
  | some (.call callee args) => if callee.dottedName?.isSome then some ⟨callee, args⟩ else none
  | _ => none

end BuildSync
