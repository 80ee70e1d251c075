/-!
A place in a text with its line and column, and the blanks and line breaks around words.
-/

namespace BuildSync.Yaml

def isBlank (c : Char) : Bool := c == ' ' || c == '\t'

def isBreak (c : Char) : Bool :=
  c == '\n' || c == '\r' || c == '\x85' || c == '\u2028' || c == '\u2029'

def isWord (c : Char) : Bool := c.isAlphanum || c == '_' || c == '-'

def isAllowed (c : Char) : Bool :=
  let n := c.toNat
  n == 0x09 || n == 0x0A || n == 0x0D || (0x20 ≤ n && n ≤ 0x7E) || n == 0x85 ||
    (0xA0 ≤ n && n ≤ 0xD7FF) || (0xE000 ≤ n && n ≤ 0xFFFD) || 0x10000 ≤ n

def atGap : List Char → Bool
  | [] => true
  | c :: _ => isBlank c || isBreak c

structure Cursor where
  rest : List Char
  byte : Nat
  line : Nat
  column : Nat

namespace Cursor

def ofText (text : String) : Cursor := ⟨text.toList, 0, 0, 0⟩

def starts (c : Cursor) (word : String) : Bool := word.toList.isPrefixOf c.rest

def skip (c : Cursor) (count : Nat) : Cursor :=
  let passed := String.ofList (c.rest.take count)
  ⟨c.rest.drop count, c.byte + passed.utf8ByteSize, c.line, c.column + count⟩

def skipWhile (c : Cursor) (accept : Char → Bool) : Cursor :=
  c.skip (c.rest.takeWhile accept).length

def skipBlanks (c : Cursor) : Cursor := c.skipWhile isBlank

def skipComment (c : Cursor) : Cursor :=
  if c.starts "#" then c.skipWhile (!isBreak ·) else c

def break? (c : Cursor) : Option (List Char × Cursor) :=
  match c.rest with
  | [] => none
  | '\r' :: '\n' :: rest => some (['\n'], ⟨rest, c.byte + 2, c.line + 1, 0⟩)
  | b :: rest =>
    if isBreak b then
      some (if b.toNat < 0x2028 then ['\n'] else [b], ⟨rest, c.byte + b.utf8Size, c.line + 1, 0⟩)
    else none

def lineEnd? (c : Cursor) : Option Cursor :=
  let c := c.skipBlanks.skipComment
  if c.rest = [] then some c else c.break?.map Prod.snd

def atDocumentMark (c : Cursor) : Bool :=
  c.column == 0 && (c.starts "---" || c.starts "...") && atGap (c.rest.drop 3)

end Cursor

structure Gap where
  blanks : List Char
  first : List Char
  more : List Char
  broken : Bool

namespace Gap

def empty : Gap := ⟨[], [], [], false⟩

def joined : Gap := ⟨[], [], [], true⟩

def folded (g : Gap) : List Char :=
  if !g.broken then g.blanks
  else if g.first = ['\n'] then (if g.more = [] then [' '] else g.more)
  else g.first ++ g.more

def read (margin : Int) : Nat → Gap → Cursor → Option (Gap × Cursor)
  | 0, _, _ => none
  | fuel + 1, g, c =>
    match c.rest with
    | [] => some (g, c)
    | b :: _ =>
      if isBlank b then
        if !g.broken then read margin fuel { g with blanks := g.blanks ++ [b] } (c.skip 1)
        else if b = '\t' ∧ (c.column : Int) < margin then none
        else read margin fuel g (c.skip 1)
      else
        match c.break? with
        | none => some (g, c)
        | some (b, c) =>
          if g.broken then read margin fuel { g with more := g.more ++ b } c
          else read margin fuel ⟨[], b, [], true⟩ c

end Gap

end BuildSync.Yaml
