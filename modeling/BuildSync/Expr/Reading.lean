import BuildSync.Token

/-!
Steps that read expressions from tokens. Comments may stand only where a step looks for them: any
other step fails in front of one, so that none is lost.
-/

namespace BuildSync

structure Cursor where
  line : Nat
  rest : List Token

/-- What comes of a step: a value and the cursor behind it, tokens that make no expression, or
no answer because the step was given too little fuel. -/
inductive Outcome (α : Type) where
  | done (value : α) (cursor : Cursor)
  | unsupported
  | exhausted

def Reading (α : Type) : Type := Cursor → Outcome α

namespace Reading

def pure {α : Type} (value : α) : Reading α := fun c => .done value c

def bind {α β : Type} (r : Reading α) (f : α → Reading β) : Reading β := fun c =>
  match r c with
  | .done value c => f value c
  | .unsupported => .unsupported
  | .exhausted => .exhausted

instance : Monad Reading where
  pure := pure
  bind := bind

def unsupported {α : Type} : Reading α := fun _ => .unsupported

def exhausted {α : Type} : Reading α := fun _ => .exhausted

def ahead : Reading (Option Token × Option Token) := fun c =>
  match c.rest.dropWhile Token.isComment with
  | [] => .done (none, none) c
  | t :: rest => .done (some t, rest.find? (!·.isComment)) c

def token : Reading Token := fun c =>
  match c.rest with
  | [] => .unsupported
  | t :: rest => if t.isComment then .unsupported else .done t ⟨t.endLine, rest⟩

def token? (accept : Token → Bool) : Reading (Option Token) := do
  if (← ahead).1.any accept then some <$> token else return none

def expect (accept : Token → Bool) : Reading Unit := do
  if accept (← token) then return () else unsupported

def comments : Reading (List String) := fun c =>
  .done ((c.rest.takeWhile Token.isComment).map Token.text)
    ⟨c.line, c.rest.dropWhile Token.isComment⟩

def suffix? : Reading (Option String) := fun c =>
  match c.rest with
  | [] => .done none c
  | t :: rest =>
    if t.isComment && t.start.line == c.line then .done (some t.text) ⟨c.line, rest⟩
    else .done none c

def suffixAfter? : Option String → Reading (Option String)
  | some text => pure (some text)
  | none => suffix?

end Reading

end BuildSync
