import BuildSync.Text.Digits
import BuildSync.Yaml.Cursor
import BuildSync.Yaml.Token

/-!
Names: of anchors, of tags, and what directives say about tags and about the version.
-/

namespace BuildSync.Yaml

def word? (c : Cursor) : Option (String × Cursor) :=
  match c.rest.takeWhile isWord with
  | [] => none
  | name => some (String.ofList name, c.skip name.length)

def anchorName? (c : Cursor) : Option (String × Cursor) :=
  match word? c with
  | none => none
  | some (name, c) =>
    if atGap c.rest ∨ c.rest.head?.any ("?:,]\x7d%@\x60".toList.contains ·) then some (name, c) else none

def octets? (first : Nat) : Option Nat :=
  if first < 0x80 then some 1
  else if 0xC0 ≤ first ∧ first < 0xE0 then some 2
  else if 0xE0 ≤ first ∧ first < 0xF0 then some 3
  else if 0xF0 ≤ first ∧ first < 0xF8 then some 4
  else none

def octet? : List Char → Option Nat
  | '%' :: a :: b :: _ => numeral? 16 [a, b]
  | _ => none

def moreOctets : Nat → Cursor → Option (List Char × Cursor)
  | 0, c => some ([], c)
  | count + 1, c => do
    let n ← octet? c.rest
    if n < 0x80 ∨ 0xC0 ≤ n then none
    let (cs, c) ← moreOctets count (c.skip 3)
    return (Char.ofNat n :: cs, c)

def escapedOctets (c : Cursor) : Option (List Char × Cursor) := do
  let n ← octet? c.rest
  let count ← octets? n
  let (cs, c) ← moreOctets (count - 1) (c.skip 3)
  return (Char.ofNat n :: cs, c)

def isTagChar (verbatim : Bool) (c : Char) : Bool :=
  isWord c || ";/?:@&=+$.!~*'()".toList.contains c || (verbatim && (c == ',' || c == '[' || c == ']'))

def tagText (verbatim : Bool) : Nat → Cursor → Option (List Char × Cursor)
  | 0, _ => none
  | fuel + 1, c =>
    match c.rest with
    | [] => some ([], c)
    | '%' :: _ => do
      let (cs, c) ← escapedOctets c
      let (more, c) ← tagText verbatim fuel c
      return (cs ++ more, c)
    | a :: _ =>
      if isTagChar verbatim a then
        (tagText verbatim fuel (c.skip 1)).map fun (cs, c) => (a :: cs, c)
      else some ([], c)

def tagText1 (verbatim : Bool) (c : Cursor) : Option (List Char × Cursor) :=
  match tagText verbatim (c.rest.length + 1) c with
  | some ([], _) => none
  | result => result

def tagMeaning (cs : List Char) : String :=
  String.ofList (cs.takeWhile (· ≠ '\x00'))

def tagHandle (c : Cursor) : List Char × Bool × Cursor :=
  let name := (c.rest.drop 1).takeWhile isWord
  let c := c.skip (name.length + 1)
  if c.starts "!" then ('!' :: name ++ ['!'], true, c.skip 1) else ('!' :: name, false, c)

def tagName? (c : Cursor) : Option (TagName × Cursor) :=
  if c.starts "!<" then do
    let (cs, c) ← tagText1 true (c.skip 2)
    if !c.starts ">" then none
    return (⟨"", tagMeaning cs⟩, c.skip 1)
  else
    match tagHandle c with
    | (handle, true, c) => do
      let (cs, c) ← tagText1 false c
      return (⟨String.ofList handle, tagMeaning cs⟩, c)
    | (handle, false, c) => do
      let (cs, c) ← tagText false (c.rest.length + 1) c
      let suffix := tagMeaning (handle.drop 1 ++ cs)
      return (if suffix = "" then ⟨"", "!"⟩ else ⟨"!", suffix⟩, c)

def tag? (flow : Bool) (c : Cursor) : Option (TagName × Cursor) := do
  let (name, c) ← tagName? c
  if atGap c.rest ∨ (flow ∧ c.starts ",") then return (name, c) else none

def versionNumber? (c : Cursor) : Option (Nat × Cursor) := do
  let digits := c.rest.takeWhile (isDigit 10)
  if digits.length > 9 then none
  return (← numeral? 10 digits, c.skip digits.length)

def version? (c : Cursor) : Option (Token × Cursor) := do
  let (major, c) ← versionNumber? c.skipBlanks
  if !c.starts "." then none
  let (minor, c) ← versionNumber? (c.skip 1)
  return (.version major minor, c)

def handle? (c : Cursor) : Option (Token × Cursor) := do
  let c := c.skipBlanks
  if !c.starts "!" then none
  let (handle, closed, c) := tagHandle c
  if !closed && handle.length > 1 then none
  if !c.rest.head?.any isBlank then none
  let (meaning, c) ← tagText1 true c.skipBlanks
  if !atGap c.rest then none
  return (.handle (String.ofList handle) (tagMeaning meaning), c)

def directive? (c : Cursor) : Option (Token × Cursor) := do
  let (name, c) ← word? c
  if !atGap c.rest then none
  let (token, c) ←
    if name = "YAML" then version? c
    else if name = "TAG" then handle? c
    else none
  return (token, ← c.lineEnd?)

end BuildSync.Yaml
