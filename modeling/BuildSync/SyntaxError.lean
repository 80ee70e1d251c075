import BuildSync.Text.Escaped
import BuildSync.Text.Utf8
import BuildSync.Token

namespace BuildSync

inductive SyntaxFault where
  | notText (fault : Utf8.Fault)
  | unexpectedCharacter (c : Char)
  | unterminatedString
  | invalidEscape
  | unexpectedClosing (found : Bracket)
  | mismatchedClosing (found expected : Bracket)
  | unclosed (bracket : Bracket)
  deriving DecidableEq, Repr

def SyntaxFault.message : SyntaxFault → String
  | notText fault => "invalid UTF-8: " ++ fault.message
  | unexpectedCharacter c => "unexpected character " ++ escaped '\'' c.toString
  | unterminatedString => "unterminated string"
  | invalidEscape => "invalid \\x escape"
  | unexpectedClosing found => "unexpected '" ++ found.closing.toString ++ "'"
  | mismatchedClosing found expected =>
    "unexpected '" ++ found.closing.toString ++ "', expected '" ++ expected.closing.toString ++ "'"
  | unclosed bracket => "unclosed '" ++ bracket.opening.toString ++ "'"

structure SyntaxError where
  line : Nat
  column : Nat
  fault : SyntaxFault
  deriving DecidableEq, Repr

def SyntaxError.at (p : Position) (fault : SyntaxFault) : SyntaxError :=
  ⟨p.line, p.column + 1, fault⟩

structure ParseError where
  path : String
  error : SyntaxError
  deriving DecidableEq, Repr

def ParseError.message (e : ParseError) : String :=
  "Failed to parse " ++ e.path ++ ":" ++ toString e.error.line ++ ":" ++ toString e.error.column ++
    ": " ++ e.error.fault.message

end BuildSync
