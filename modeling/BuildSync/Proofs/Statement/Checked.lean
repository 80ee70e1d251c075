import BuildSync.Proofs.Token.Checked
import BuildSync.Statement.OfTokens

/-!
The statements of a source text, found by indices into its tokens: every token is looked up by its
index, and the text of a statement is a slice of the source.
-/

namespace BuildSync

def Cut.token (cut : Cut) : Token := ⟨"", cut.kind, cut.text, ⟨cut.start, cut.line, cut.column⟩⟩

namespace Splitter

def call? (line : List Token) : Checked SyntaxError (Option Call) :=
  match Reading.expr (Expr.fuel line) .disjunction ⟨0, line⟩ with
  | .exhausted => .fault
  | .unsupported => .done none
  | .done e c =>
    if c.rest <:+ line then
      match e, c.rest with
      | .call callee args, [] => .done (if callee.dottedName?.isSome then some ⟨callee, args⟩ else none)
      | _, _ => .done none
    else .fault

variable (source : List Char) (cuts : List Cut)

def seek (accept : Token → Bool) (i : Nat) : Checked SyntaxError Nat := do
  let cut ← .item cuts i
  if accept cut.token then return i
  else if _ : i < cuts.length then seek accept (i + 1)
  else .fault
termination_by cuts.length - i

def block (stop last : Nat) : Checked SyntaxError (Nat × Nat) := do
  let next ← seek cuts (!·.isFiller) stop
  let body ← .item cuts next
  if body.kind = .endOfText ∨ body.column = 0 then return (stop, last)
  else
    let further ← seek cuts Token.endsLine next
    let last ← .minus further 1
    if _ : stop < further ∧ further < cuts.length then block further last
    else .fault
termination_by cuts.length - stop
decreasing_by omega

def text (first last : Nat) : Checked SyntaxError String := do
  let opening ← .item cuts first
  let closing ← .item cuts last
  let text ← Head.slice source opening.start closing.stop
  return String.ofList text

def suffix (first last : Nat) : Checked SyntaxError (List Cut × Option String) := do
  let closing ← .item cuts last
  if closing.token.isComment then
    let line ← .range cuts first last
    return (line, some closing.text)
  else
    let line ← .range cuts first (last + 1)
    return (line, none)

def opens (first last : Nat) : Checked SyntaxError Bool := do
  let closing ← .item cuts last
  let header ← if closing.token.isComment ∧ first < last then .minus last 1 else pure last
  let colon ← .item cuts header
  return colon.token.isOperator ":"

def statement (comments : List String) (first : Nat) : Checked SyntaxError (Statement × Nat) := do
  let stop ← seek cuts Token.endsLine first
  let last ← .minus stop 1
  if ← opens cuts first last then
    let (stop, last) ← block cuts stop last
    let text ← text source cuts first last
    return (.verbatim comments text, stop)
  else
    let text ← text source cuts first last
    let (line, suffix) ← suffix cuts first last
    match ← call? (line.map Cut.token) with
    | some call => return (.rule ⟨comments, call, suffix⟩, stop)
    | none => return (.verbatim comments text, stop)

def blank (i : Nat) : Checked SyntaxError Bool := do
  if 0 < i then
    let before ← .minus i 1
    let cut ← .item cuts before
    return cut.kind == .newline
  else return false

def split (comments : List String) (i : Nat) : Checked SyntaxError (List Statement) := do
  let cut ← .item cuts i
  match cut.kind with
  | .endOfText => return Statement.standalone comments
  | .newline =>
    if _ : i < cuts.length then
      if ← blank cuts i then
        let statements ← split [] (i + 1)
        return Statement.standalone comments ++ statements
      else split comments (i + 1)
    else .fault
  | .comment =>
    if _ : i < cuts.length then split (comments ++ [cut.text]) (i + 1)
    else .fault
  | _ =>
    let (statement, next) ← statement source cuts comments i
    if _ : i < next ∧ next < cuts.length then
      let statements ← split [] next
      return statement :: statements
    else .fault
termination_by cuts.length - i
decreasing_by all_goals omega

end Splitter

namespace Statement

def ofSourceChecked (source : String) : Checked SyntaxError (List Statement) := do
  let cuts ← Head.start.run source.toList []
  Splitter.split source.toList cuts [] 0

end Statement

end BuildSync
