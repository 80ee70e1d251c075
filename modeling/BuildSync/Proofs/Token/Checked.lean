import BuildSync.Proofs.Text.Checked
import BuildSync.Token.Lexer

/-!
The tokens of a source text, read by byte offsets: the text behind an offset is a slice of the
source, and a column is the distance from the offset where the line begins. A loop that does not
move on inside the source counts as a fault, too.
-/

namespace BuildSync

structure Cut where
  kind : Token.Kind
  text : String
  start : Nat
  stop : Nat
  line : Nat
  column : Nat
  deriving DecidableEq

def Cut.ofToken (t : Token) : Cut :=
  ⟨t.kind, t.text, t.start.byte, t.start.byte + utf8Length t.text.toList, t.start.line, t.start.column⟩

structure Head where
  byte : Nat
  line : Nat
  lineStart : Nat

namespace Head

def start : Head := ⟨0, 1, 0⟩

def step (head : Head) (c : Char) : Head :=
  if c = '\n' then ⟨head.byte + c.utf8Size, head.line + 1, head.byte + c.utf8Size⟩
  else ⟨head.byte + c.utf8Size, head.line, head.lineStart⟩

def column (head : Head) (offset : Nat) : Checked SyntaxError Nat :=
  .minus offset head.lineStart

def reject {α : Type} (head : Head) (fault : SyntaxFault) : Checked SyntaxError α := do
  let column ← head.column head.byte
  .error (.at ⟨head.byte, head.line, column⟩ fault)

abbrev Pending : Type := List (Bracket × Position)

def turn (head : Head) (pending : Pending) : Token.Kind → Checked SyntaxError Pending
  | .opening b => do
    let column ← head.column head.byte
    return (b, ⟨head.byte, head.line, column⟩) :: pending
  | .closing b =>
    match pending with
    | [] => head.reject (.unexpectedClosing b)
    | (expected, _) :: outer =>
      if b = expected then return outer else head.reject (.mismatchedClosing b expected)
  | _ => return pending

variable (source : List Char)

def slice (start stop : Nat) : Checked SyntaxError (List Char) :=
  .ofOption (slice? source start stop)

def rest (head : Head) : Checked SyntaxError (List Char) :=
  .ofOption ((split? source head.byte).map Prod.snd)

def peek (head : Head) : Checked SyntaxError (Option Char) := do
  let rest ← head.rest source
  return rest.head?

def startsWith (head : Head) (text : List Char) : Checked SyntaxError Bool := do
  let rest ← head.rest source
  return text.isPrefixOf rest

def advance (head : Head) : Checked SyntaxError Head := do
  match ← head.peek source with
  | none => return head
  | some c => return head.step c

def advances (head : Head) : Nat → Checked SyntaxError Head
  | 0 => return head
  | n + 1 => do
    let next ← head.advance source
    next.advances n

def cut (kind : Token.Kind) (start stop line column : Nat) : Checked SyntaxError Cut := do
  let text ← slice source start stop
  return ⟨kind, String.ofList text, start, stop, line, column⟩

def push (head : Head) (kind : Token.Kind) (start stop : Nat) : Checked SyntaxError Cut := do
  let column ← head.column start
  cut source kind start stop head.line column

def skip (accept : Char → Char → Bool) (last : Char) (head : Head) : Checked SyntaxError Head := do
  match ← head.peek source with
  | none => return head
  | some c =>
    if accept last c then
      let next ← head.advance source
      if _ : head.byte < next.byte ∧ next.byte ≤ utf8Length source then skip accept c next
      else .fault
    else return head
termination_by utf8Length source - head.byte
decreasing_by omega

def comment (head : Head) : Checked SyntaxError (Cut × Head) := do
  let behind ← head.skip source (fun _ c => c ≠ '\n') '\x00'
  let line ← slice source head.byte behind.byte
  let cut ← behind.push source .comment head.byte (head.byte + utf8Length (trimEnd line))
  return (cut, behind)

def numeral (last c : Char) : Bool :=
  Lexeme.isWordChar c || c == '.' || ((c == '+' || c == '-') && (last == 'e' || last == 'E'))

def number (head : Head) : Checked SyntaxError (Cut × Head) := do
  let behind ← head.skip source numeral '\x00'
  let cut ← behind.push source .number head.byte behind.byte
  return (cut, behind)

def escape (style : Literal.Style) (unterminated : SyntaxError) (head : Head) :
    Checked SyntaxError (List Char × Head) := do
  match ← head.peek source with
  | none => .error unterminated
  | some c =>
    let next ← head.advance source
    if style.raw then return (['\\', c], next)
    else if c = 'x' then
      let rest ← next.rest source
      match rest.take 2 with
      | [a, b] =>
        match Literal.hexPair a b with
        | some v =>
          let behind ← next.advances source 2
          return ([v], behind)
        | none => next.reject .invalidEscape
      | _ => next.reject .invalidEscape
    else return (Literal.escape c, next)

def unit (style : Literal.Style) (unterminated : SyntaxError) (head : Head) :
    Checked SyntaxError (Option (List Char) × Head) := do
  match ← head.peek source with
  | none => .error unterminated
  | some c =>
    if c = '\n' ∧ style.triple = false then .error unterminated
    else if c = style.quote then
      if style.triple then
        if ← head.startsWith source style.delimiter then
          let behind ← head.advances source 3
          return (none, behind)
        else
          let next ← head.advance source
          return (some [c], next)
      else
        let behind ← head.advance source
        return (none, behind)
    else if c = '\\' then
      let next ← head.advance source
      let (value, behind) ← next.escape source style unterminated
      return (some value, behind)
    else
      let next ← head.advance source
      return (some [c], next)

def body (style : Literal.Style) (unterminated : SyntaxError) (head : Head) :
    Checked SyntaxError (List Char × Head) := do
  match ← head.unit source style unterminated with
  | (none, behind) => return ([], behind)
  | (some value, next) =>
    if _ : head.byte < next.byte ∧ next.byte ≤ utf8Length source then
      let (more, behind) ← body style unterminated next
      return (value ++ more, behind)
    else .fault
termination_by utf8Length source - head.byte
decreasing_by omega

def quoted (style : Literal.Style) (place : Position) (head : Head) : Checked SyntaxError (Cut × Head) := do
  let opened ← head.advances source style.delimiter.length
  let (value, behind) ← opened.body source style (.at place .unterminatedString)
  let cut ← cut source (.string (String.ofList value)) place.byte behind.byte place.line place.column
  return (cut, behind)

def string (start : Nat) (raw : Bool) (head : Head) : Checked SyntaxError (Cut × Head) := do
  let column ← head.column start
  match ← head.peek source with
  | none => .error (.at ⟨start, head.line, column⟩ .unterminatedString)
  | some quote =>
    let triple ← head.startsWith source [quote, quote, quote]
    head.quoted source ⟨quote, triple, raw⟩ ⟨start, head.line, column⟩

def word (head : Head) : Checked SyntaxError (Cut × Head) := do
  let behind ← head.skip source (fun _ c => Lexeme.isWordChar c) '\x00'
  let word ← slice source head.byte behind.byte
  let next ← behind.peek source
  match Lexeme.stringMark word, next.any Lexeme.isQuote with
  | some raw, true => behind.string source head.byte raw
  | _, _ =>
    let cut ← behind.push source .ident head.byte behind.byte
    return (cut, behind)

def symbol? (rest : List Char) : Option (Token.Kind × List Char) :=
  match rest.head?.bind Lexeme.bracket? with
  | some kind => some (kind, rest.take 1)
  | none => (Lexeme.operators.find? (·.isPrefixOf rest)).map fun op => (.operator, op)

def symbol (pending : Pending) (head : Head) : Checked SyntaxError (Cut × Head × Pending) := do
  let rest ← head.rest source
  match symbol? rest with
  | none => head.reject (.unexpectedCharacter (rest.headD '\x00'))
  | some (kind, text) =>
    let pending ← head.turn pending kind
    let behind ← head.advances source text.length
    let cut ← behind.push source kind head.byte behind.byte
    return (cut, behind, pending)

def join (head : Head) : Checked SyntaxError Head := do
  let next ← head.advance source
  let c ← next.peek source
  let feed ← if c = some '\r' then next.advance source else pure next
  feed.advance source

def lexeme (pending : Pending) (c : Char) (head : Head) :
    Checked SyntaxError (Option Cut × Head × Pending) := do
  let rest ← head.rest source
  if Lexeme.isSpace c then
    let next ← head.advance source
    return (none, next, pending)
  else if c = '\\' ∧ (['\\', '\n'].isPrefixOf rest ∨ ['\\', '\r', '\n'].isPrefixOf rest) then
    let next ← head.join source
    return (none, next, pending)
  else if c = '\n' then
    if pending.isEmpty then
      let cut ← head.push source .newline head.byte (head.byte + 1)
      let next ← head.advance source
      return (some cut, next, pending)
    else
      let next ← head.advance source
      return (none, next, pending)
  else if c = '#' then
    let (cut, next) ← head.comment source
    return (some cut, next, pending)
  else if Lexeme.isQuote c then
    let (cut, next) ← head.string source head.byte false
    return (some cut, next, pending)
  else if Lexeme.isWordStart c then
    let (cut, next) ← head.word source
    return (some cut, next, pending)
  else if Lexeme.isDigit c ∨ (c = '.' ∧ (rest.drop 1).head?.any Lexeme.isDigit) then
    let (cut, next) ← head.number source
    return (some cut, next, pending)
  else
    let (cut, next, pending) ← head.symbol source pending
    return (some cut, next, pending)

def finish (pending : Pending) (head : Head) : Checked SyntaxError Cut :=
  match pending with
  | [] => head.push source .endOfText (utf8Length source) (utf8Length source)
  | (b, place) :: _ => .error (.at place (.unclosed b))

def run (pending : Pending) (head : Head) : Checked SyntaxError (List Cut) := do
  match ← head.peek source with
  | none =>
    let cut ← head.finish source pending
    return [cut]
  | some c =>
    let (cut, next, pending) ← head.lexeme source pending c
    if _ : head.byte < next.byte ∧ next.byte ≤ utf8Length source then
      let cuts ← run pending next
      return cut.toList ++ cuts
    else .fault
termination_by utf8Length source - head.byte
decreasing_by omega

end Head

end BuildSync
