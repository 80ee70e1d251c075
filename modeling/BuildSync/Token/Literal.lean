import BuildSync.Text.Digits
import BuildSync.Token

/-!
String literals: how their text is read up to the closing quotes, and what value it stands for.
-/

namespace BuildSync.Literal

structure Style where
  quote : Char
  triple : Bool
  raw : Bool
  deriving DecidableEq, Repr

def Style.delimiter (style : Style) : List Char :=
  if style.triple then [style.quote, style.quote, style.quote] else [style.quote]

/-- The reading of a literal from behind its opening quotes. `text` is what was read: with the
closing quotes when there are any, up to the digits of a malformed `\x` escape otherwise. -/
inductive Body where
  | closed (text value : List Char)
  | unterminated
  | badEscape (text : List Char)
  deriving DecidableEq, Repr

def Body.after (text value : List Char) : Body → Body
  | closed t v => closed (text ++ t) (value ++ v)
  | unterminated => unterminated
  | badEscape t => badEscape (text ++ t)

/-- The value of the two characters behind `\x`. They are read as a hexadecimal number, which
may have a plus sign. -/
def hexPair (a b : Char) : Option Char :=
  match hexDigit a, hexDigit b with
  | some high, some low => some (Char.ofNat (16 * high + low))
  | none, some low => if a = '+' then some (Char.ofNat low) else none
  | _, none => none

def escape (c : Char) : List Char :=
  if c = 'n' then ['\n']
  else if c = 't' then ['\t']
  else if c = 'r' then ['\r']
  else if c = '0' then [Char.ofNat 0]
  else if c = '\\' ∨ c = '\'' ∨ c = '"' then [c]
  else if c = '\n' then []
  else ['\\', c]

def body (style : Style) : List Char → Body
  | [] => .unterminated
  | '\\' :: rest =>
    match rest with
    | [] => .unterminated
    | c :: rest =>
      if style.raw then (body style rest).after ['\\', c] ['\\', c]
      else if c = 'x' then
        match rest with
        | a :: b :: rest =>
          match hexPair a b with
          | some v => (body style rest).after ['\\', c, a, b] [v]
          | none => .badEscape ['\\', c]
        | _ => .badEscape ['\\', c]
      else (body style rest).after ['\\', c] (escape c)
  | c :: rest =>
    if c = '\n' ∧ style.triple = false then .unterminated
    else if c = style.quote then
      if style.triple then
        match rest with
        | a :: b :: _ =>
          if a = style.quote ∧ b = style.quote then .closed [c, a, b] []
          else (body style rest).after [c] [c]
        | _ => (body style rest).after [c] [c]
      else .closed [c] []
    else (body style rest).after [c] [c]

end BuildSync.Literal
