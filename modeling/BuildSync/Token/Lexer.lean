import BuildSync.SyntaxError
import BuildSync.Text.Blank
import BuildSync.Token.Literal

namespace BuildSync

/-- What stands next in a text. `kind` is absent for white space and joined lines; `after` is
white space behind a comment, which is read with it but is not part of it. -/
structure Lexeme where
  kind : Option Token.Kind
  text : List Char
  after : List Char := []
  deriving DecidableEq, Repr

def Lexeme.length (x : Lexeme) : Nat := x.text.length + x.after.length

structure Lexeme.Failure where
  skipped : List Char
  fault : SyntaxFault
  deriving DecidableEq, Repr

namespace Lexeme

def isDigit (c : Char) : Bool := '0' ≤ c && c ≤ '9'

def isLetter (c : Char) : Bool := ('a' ≤ c && c ≤ 'z') || ('A' ≤ c && c ≤ 'Z')

def isWordStart (c : Char) : Bool := isLetter c || c == '_'

def isWordChar (c : Char) : Bool := isLetter c || isDigit c || c == '_'

def isSpace (c : Char) : Bool := c == ' ' || c == '\t' || c == '\r' || c == '\x0c'

def isQuote (c : Char) : Bool := c == '"' || c == '\''

def operators : List (List Char) :=
  ["**=", "//=", "<<=", ">>=", "==", "!=", "<=", ">=", "//", "**", "<<", ">>", "+=", "-=", "*=",
    "/=", "%=", "&=", "|=", "^=", "->", "+", "-", "*", "/", "%", "<", ">", "=", ",", ".", ":", ";",
    "|", "&", "^", "~"].map String.toList

def bracket? (c : Char) : Option Token.Kind :=
  if c = '(' then some (.opening .round)
  else if c = '[' then some (.opening .square)
  else if c = '\x7b' then some (.opening .curly)
  else if c = ')' then some (.closing .round)
  else if c = ']' then some (.closing .square)
  else if c = '\x7d' then some (.closing .curly)
  else none

def stringMark (word : List Char) : Option Bool :=
  if word.map Char.toLower ∈ [['r'], ['r', 'b'], ['b', 'r']] then some true
  else if word.map Char.toLower = ['b'] then some false
  else none

def numberTail (last : Char) : List Char → List Char
  | [] => []
  | c :: rest =>
    if isWordChar c || c == '.' || ((c == '+' || c == '-') && (last == 'e' || last == 'E')) then
      c :: numberTail c rest
    else []

def literal (mark : List Char) (quote : Char) (rest : List Char) (raw : Bool) :
    Except Failure Lexeme :=
  let style : Literal.Style := ⟨quote, [quote, quote].isPrefixOf rest, raw⟩
  let opening := mark ++ style.delimiter
  match Literal.body style (if style.triple then rest.drop 2 else rest) with
  | .closed text value => .ok ⟨some (.string (String.ofList value)), opening ++ text, []⟩
  | .unterminated => .error ⟨[], .unterminatedString⟩
  | .badEscape text => .error ⟨opening ++ text, .invalidEscape⟩

def comment (line : List Char) : Lexeme :=
  ⟨some .comment, trimEnd line, blankTail line⟩

def read (c : Char) (rest : List Char) : Except Failure Lexeme :=
  if isSpace c then .ok ⟨none, [c], []⟩
  else if c = '\\' ∧ ['\n'].isPrefixOf rest then .ok ⟨none, [c, '\n'], []⟩
  else if c = '\\' ∧ ['\r', '\n'].isPrefixOf rest then .ok ⟨none, [c, '\r', '\n'], []⟩
  else if c = '\n' then .ok ⟨some .newline, [c], []⟩
  else if c = '#' then .ok (comment (c :: rest.takeWhile (· ≠ '\n')))
  else if isQuote c then literal [] c rest false
  else if isWordStart c then
    let word := c :: rest.takeWhile isWordChar
    -- Only a quote directly behind the word makes it the mark of a string.
    match stringMark word, rest.dropWhile isWordChar with
    | some raw, quote :: behind =>
      if isQuote quote then literal word quote behind raw else .ok ⟨some .ident, word, []⟩
    | _, _ => .ok ⟨some .ident, word, []⟩
  else if isDigit c ∨ (c = '.' ∧ rest.head?.any isDigit) then
    .ok ⟨some .number, c :: numberTail c rest, []⟩
  else
    match bracket? c with
    | some kind => .ok ⟨some kind, [c], []⟩
    | none =>
      match operators.find? (·.isPrefixOf (c :: rest)) with
      | some op => .ok ⟨some .operator, op, []⟩
      | none => .error ⟨[], .unexpectedCharacter c⟩

end Lexeme

structure Progress where
  place : Position
  gap : List Char
  pending : List (Bracket × Position)
  deriving DecidableEq, Repr

namespace Progress

def start : Progress := ⟨.start, [], []⟩

def nest (p : Progress) : Token.Kind → Except SyntaxFault (List (Bracket × Position))
  | .opening b => .ok ((b, p.place) :: p.pending)
  | .closing b =>
    match p.pending with
    | [] => .error (.unexpectedClosing b)
    | (expected, _) :: outer =>
      if b = expected then .ok outer else .error (.mismatchedClosing b expected)
  | _ => .ok p.pending

def token? (p : Progress) (x : Lexeme) : Option Token.Kind :=
  match x.kind with
  | some .newline => if p.pending.isEmpty then some .newline else none
  | kind => kind

def token (p : Progress) (kind : Token.Kind) (text : List Char) : Token :=
  ⟨String.ofList p.gap, kind, String.ofList text, p.place⟩

def past (p : Progress) (x : Lexeme) : Except SyntaxError (Option Token × Progress) :=
  let place := p.place.past (x.text ++ x.after)
  match p.token? x with
  | none => .ok (none, { p with place, gap := p.gap ++ x.text ++ x.after })
  | some kind =>
    match p.nest kind with
    | .error fault => .error (.at p.place fault)
    | .ok pending => .ok (some (p.token kind x.text), ⟨place, x.after, pending⟩)

def finish (p : Progress) : Except SyntaxError Token :=
  match p.pending with
  | [] => .ok (p.token .endOfText [])
  | (b, place) :: _ => .error (.at place (.unclosed b))

end Progress

namespace Token

def scan (p : Progress) : List Char → Except SyntaxError (List Token)
  | [] =>
    match p.finish with
    | .error e => .error e
    | .ok t => .ok [t]
  | c :: rest =>
    match Lexeme.read c rest with
    | .error failure => .error (.at (p.place.past failure.skipped) failure.fault)
    | .ok x =>
      match p.past x with
      | .error e => .error e
      | .ok (t, p) =>
        match scan p (rest.drop (x.length - 1)) with
        | .error e => .error e
        | .ok ts => .ok (t.toList ++ ts)
termination_by cs => cs.length
decreasing_by simp only [List.length_drop, List.length_cons]; omega

def ofSource (source : String) : Except SyntaxError (List Token) :=
  scan .start source.toList

end Token

end BuildSync
