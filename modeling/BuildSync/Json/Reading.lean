import BuildSync.Json
import BuildSync.Text.Scan

namespace BuildSync.Json

def isSpace (c : Char) : Bool := c == ' ' || c == '\t' || c == '\n' || c == '\r'

def space : Scan Unit := do discard (Scan.span isSpace)

def escape (c : Char) : Option Char :=
  if c = '"' ∨ c = '\\' ∨ c = '/' then some c
  else if c = 'b' then some '\x08'
  else if c = 'f' then some '\x0c'
  else if c = 'n' then some '\n'
  else if c = 'r' then some '\r'
  else if c = 't' then some '\t'
  else none

def stringBody : List Char → Option (List Nat × List Char)
  | [] => none
  | '"' :: rest => some ([], rest)
  | '\\' :: 'u' :: a :: b :: c :: d :: rest =>
    match numeral? 16 [a, b, c, d], stringBody rest with
    | some n, some (units, rest) => some (n :: units, rest)
    | _, _ => none
  | '\\' :: c :: rest =>
    match escape c, stringBody rest with
    | some c, some (units, rest) => some (c.toNat :: units, rest)
    | _, _ => none
  | c :: rest =>
    if c.toNat < 0x20 ∨ c = '\\' then none
    else (stringBody rest).map fun (units, rest) => (c.toNat :: units, rest)

def string : Scan (Option String) := do
  Scan.expect "\""
  let units ← stringBody
  return (joined units).map String.ofList

def fraction : Scan (List Char) := do
  if ← Scan.skip "." then return '.' :: (← Scan.spanOne (isDigit 10)) else return []

def exponent : Scan (List Char) := do
  if ← Scan.next fun c => c == 'e' || c == 'E' then
    let mark ← Scan.char
    let sign ← if ← Scan.next fun c => c == '+' || c == '-' then pure [← Scan.char] else pure []
    return mark :: sign ++ (← Scan.spanOne (isDigit 10))
  else return []

def number : Scan (List Char) := do
  let sign ← if ← Scan.skip "-" then pure ['-'] else pure []
  let whole ← Scan.spanOne (isDigit 10)
  if whole.head? = some '0' ∧ whole.length > 1 then failure
  return sign ++ whole ++ (← fraction) ++ (← exponent)

mutual

def bareValue : Nat → Scan Value
  | 0 => failure
  | fuel + 1 => do
    if ← Scan.skip "null" then return .null
    else if ← Scan.skip "true" then return .bool true
    else if ← Scan.skip "false" then return .bool false
    else if ← Scan.next (· == '"') then return .string (← string)
    else if ← Scan.skip "[" then
      space
      if ← Scan.skip "]" then return .array [] else return .array (← items fuel)
    else if ← Scan.skip "\x7b" then
      space
      if ← Scan.skip "\x7d" then return .object [] else return .object (← members fuel)
    else return .number (← number)

def value : Nat → Scan Value
  | 0 => failure
  | fuel + 1 => do
    space
    let v ← bareValue fuel
    space
    return v

def items : Nat → Scan (List Value)
  | 0 => failure
  | fuel + 1 => do
    let v ← value fuel
    if ← Scan.skip "," then return v :: (← items fuel)
    Scan.expect "]"
    return [v]

def members : Nat → Scan (List (Option String × Value))
  | 0 => failure
  | fuel + 1 => do
    space
    let key ← string
    space
    Scan.expect ":"
    let v ← value fuel
    if ← Scan.skip "," then return (key, v) :: (← members fuel)
    Scan.expect "\x7d"
    return [(key, v)]

end

def Value.ofText? (text : String) : Option Value :=
  match value (3 * text.length + 3) text.toList with
  | some (v, []) => some v
  | _ => none

end BuildSync.Json
