namespace BuildSync

inductive Bracket where
  | round
  | square
  | curly
  deriving DecidableEq, Repr

def Bracket.opening : Bracket → Char
  | round => '('
  | square => '['
  | curly => '{'

def Bracket.closing : Bracket → Char
  | round => ')'
  | square => ']'
  | curly => '}'

structure Position where
  byte : Nat
  line : Nat
  column : Nat
  deriving DecidableEq, Repr

def Position.start : Position := ⟨0, 1, 0⟩

def Position.step (p : Position) (c : Char) : Position :=
  if c = '\n' then ⟨p.byte + c.utf8Size, p.line + 1, 0⟩
  else ⟨p.byte + c.utf8Size, p.line, p.column + c.utf8Size⟩

def Position.past (p : Position) (cs : List Char) : Position :=
  cs.foldl Position.step p

theorem Position.past_append (p : Position) (cs ds : List Char) :
    p.past (cs ++ ds) = (p.past cs).past ds := by
  simp [Position.past]

inductive Token.Kind where
  | ident
  | number
  | string (value : String)
  | operator
  | opening (bracket : Bracket)
  | closing (bracket : Bracket)
  | comment
  | newline
  | endOfText
  deriving DecidableEq, Repr

/-- A token together with the `gap` before it: the text since the previous token, which belongs
to none. The gaps and texts of all tokens, in order, are the source. -/
structure Token where
  gap : String
  kind : Token.Kind
  text : String
  start : Position
  deriving DecidableEq, Repr

namespace Token

def isOperator (t : Token) (op : String) : Bool :=
  t.kind == .operator && t.text == op

def isKeyword (t : Token) (word : String) : Bool :=
  t.kind == .ident && t.text == word

def isComment (t : Token) : Bool :=
  t.kind == .comment

def isString (t : Token) : Bool :=
  match t.kind with
  | .string _ => true
  | _ => false

def endsLine (t : Token) : Bool :=
  t.kind == .newline || t.kind == .endOfText

def endLine (t : Token) : Nat :=
  t.start.line + t.text.toList.dropLast.count '\n'

def source : List Token → String
  | [] => ""
  | t :: ts => ts.foldl (fun text u => text ++ u.gap ++ u.text) t.text

end Token

end BuildSync
