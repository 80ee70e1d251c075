import BuildSync.Expr.Parser
import BuildSync.Statement
import BuildSync.Token.Lexer

namespace BuildSync

namespace Token

def isCode (t : Token) : Bool := !t.endsLine

def opensBlock (line : List Token) : Bool :=
  match line.reverse with
  | [] => false
  | [t] => t.isOperator ":"
  | t :: before :: _ => if t.isComment then before.isOperator ":" else t.isOperator ":"

def isFiller (t : Token) : Bool := t.kind == .newline || t.isComment

mutual

def indented (held : List Token) : List Token → List Token
  | [] => []
  | t :: rest =>
    if t.isFiller then indented (held ++ [t]) rest
    else if t.kind = .endOfText ∨ t.start.column = 0 then []
    else held ++ t :: indentedLine rest
termination_by structural tokens => tokens

def indentedLine : List Token → List Token
  | [] => []
  | t :: rest =>
    if t.kind = .newline then indented [t] rest
    else if t.kind = .endOfText then []
    else t :: indentedLine rest
termination_by structural tokens => tokens

end

def extent (first : Token) (rest : List Token) : List Token :=
  let line := rest.takeWhile isCode
  if opensBlock (first :: line) then line ++ indented [] (rest.drop line.length) else line

end Token

namespace Statement

def standalone (comments : List String) : List Statement :=
  if comments.isEmpty then [] else [.comment comments]

def splitSuffix (line : List Token) : List Token × Option String :=
  match line.getLast? with
  | some t => if t.isComment then (line.dropLast, some t.text) else (line, none)
  | none => (line, none)

def ofExtent (comments : List String) (tokens : List Token) : Statement :=
  let (line, suffix) := splitSuffix tokens
  -- A line that opens a block is never a rule, whatever stands on it.
  match if Token.opensBlock (tokens.takeWhile Token.isCode) then none else Call.ofTokens? line with
  | some call => .rule ⟨comments, call, suffix⟩
  | none => .verbatim comments (Token.source tokens)

/-- The statements of a token list. `comments` are the comment lines just above, and `newline`
says whether the token before was the end of a line: a blank line parts comments from what
follows. -/
def ofTokensAfter (comments : List String) (newline : Bool) : List Token → List Statement
  | [] => standalone comments
  | t :: rest =>
    match t.kind with
    | .endOfText => standalone comments
    | .newline =>
      if newline then standalone comments ++ ofTokensAfter [] true rest
      else ofTokensAfter comments true rest
    | .comment => ofTokensAfter (comments ++ [t.text]) false rest
    | _ =>
      let extent := Token.extent t rest
      ofExtent comments (t :: extent) :: ofTokensAfter [] false (rest.drop extent.length)
termination_by tokens => tokens.length
decreasing_by all_goals simp only [List.length_drop, List.length_cons]; omega

def ofTokens (tokens : List Token) : List Statement := ofTokensAfter [] false tokens

def ofSource (source : String) : Except SyntaxError (List Statement) :=
  (Token.ofSource source).map ofTokens

end Statement

end BuildSync
