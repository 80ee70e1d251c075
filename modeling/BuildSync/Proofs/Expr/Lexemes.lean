import BuildSync.Expr.Printer
import BuildSync.Proofs.Expr.Grammar

namespace BuildSync

namespace Lexeme

def margin (level : Nat) : List Lexeme := List.replicate (4 * level) space

def remarkLines (level : Nat) (lines : List String) : List Lexeme :=
  lines.flatMap fun line => margin level ++ [of .comment line, feed]

def suffix : Option String → List Lexeme
  | some comment => [space, space, of .comment comment]
  | none => []

def joint (op : String) : List Lexeme :=
  if op = "not in" then [of .ident "not", space, of .ident "in"]
  else if op ∈ ["or", "and", "in"] then [of .ident op]
  else [of .operator op]

def prefixed (op : String) : List Lexeme :=
  if op = "not" then [of .ident op, space] else [of .operator op]

def comma : Lexeme := of .operator ","

end Lexeme

open Lexeme

mutual

def Expr.lexemes (level : Nat) (spread : Bool) : Expr → List Lexeme
  | .ident name => [of .ident name]
  | .number text => [of .number text]
  | .string value spelling => [of (.string value) (spelling.getD (quoted value))]
  | .list elements =>
    opening .square :: elements.lexemes level
      (elements.hasComments || (spread && decide (elements.items.length > 1))) spread ++
        [closing .square]
  | .dict entries =>
    opening .curly :: entries.lexemes level
      (entries.hasComments || (spread && !entries.items.isEmpty)) spread ++ [closing .curly]
  | .tuple items =>
    opening .round :: Expr.allLexemes level items ++ (if items.length = 1 then [comma] else []) ++
      [closing .round]
  | .paren inner => opening .round :: inner.lexemes level false ++ [closing .round]
  | .call callee args =>
    callee.lexemes level false ++ opening .round :: args.lexemes level args.hasComments false ++
      [closing .round]
  | .dot base name => base.lexemes level false ++ [of .operator ".", of .ident name]
  | .index base index =>
    base.lexemes level false ++ opening .square :: index.lexemes level false ++ [closing .square]
  | .unary op operand => prefixed op ++ operand.lexemes level false
  | .binary op lhs rhs =>
    lhs.lexemes level spread ++ space :: joint op ++ space :: rhs.lexemes level spread
termination_by structural e => e

def Sequence.lexemes (level : Nat) (lines spread : Bool) : Sequence → List Lexeme
  | ⟨items, trailing⟩ =>
    if lines then
      feed :: Item.lexemeLines (level + 1) spread items ++ remarkLines (level + 1) trailing ++
        margin level
    else Item.lexemesInline level items
termination_by structural s => s

def Item.lexemeLines (level : Nat) (spread : Bool) : List Item → List Lexeme
  | [] => []
  | ⟨comments, label, value, suffix⟩ :: items =>
    remarkLines level comments ++ margin level ++ label.lexemes level ++ value.lexemes level spread ++
      comma :: Lexeme.suffix suffix ++ feed :: Item.lexemeLines level spread items
termination_by structural items => items

def Item.lexemesInline (level : Nat) : List Item → List Lexeme
  | [] => []
  | ⟨_, label, value, _⟩ :: items =>
    label.lexemes level ++ value.lexemes level false ++ (if items.isEmpty then [] else [comma, space]) ++
      Item.lexemesInline level items
termination_by structural items => items

def Label.lexemes (level : Nat) : Label → List Lexeme
  | .bare => []
  | .name name => [of .ident name, space, of .operator "=", space]
  | .key key => key.lexemes level false ++ [of .operator ":", space]
termination_by structural l => l

def Expr.allLexemes (level : Nat) : List Expr → List Lexeme
  | [] => []
  | e :: es =>
    e.lexemes level false ++ (if es.isEmpty then [] else [comma, space]) ++ Expr.allLexemes level es
termination_by structural es => es

end

namespace Lexeme

theorem spelling_margin (level : Nat) : spelling (margin level) = (indent level).toList := by
  induction level with
  | zero => rfl
  | succ level ih =>
    rw [margin, Nat.mul_succ, Nat.add_comm, List.replicate_add, spelling_append, indent,
      String.toList_append, ← ih]
    rfl

theorem spelling_remarkLines (level : Nat) (lines : List String) :
    spelling (remarkLines level lines) = (commentLines level lines).toList := by
  induction lines with
  | nil => rfl
  | cons line lines ih =>
    simp only [remarkLines, List.flatMap_cons, spelling_append, spelling_margin] at ih ⊢
    simp [ih, commentLines]

theorem spelling_suffix (s : Option String) : spelling (suffix s) = (suffixText s).toList := by
  cases s with
  | none => rfl
  | some c => simp [suffix, suffixText]

theorem spelling_joint (op : String) : spelling (joint op) = op.toList := by
  unfold joint
  split_ifs with h
  · rw [h]; rfl
  · simp
  · simp

theorem spelling_prefixed (op : String) :
    spelling (prefixed op) = (op ++ (if op = "not" then " " else "")).toList := by
  unfold prefixed
  split_ifs with h <;> simp

end Lexeme

def Expr.Agrees (e : Expr) : Prop :=
  ∀ level spread, spelling (e.lexemes level spread) = (e.print level spread).toList

namespace Item

theorem spelling_label {i : Item} (h : i.All Expr.Agrees) (level : Nat) :
    spelling (i.label.lexemes level) = (i.label.print level).toList := by
  cases hl : i.label with
  | bare => rfl
  | name name => simp [Label.lexemes, Label.print]
  | key key => simp [Label.lexemes, Label.print, h.2 key hl level false]

theorem spelling_lines {items : List Item} (h : ∀ i ∈ items, i.All Expr.Agrees) (level : Nat)
    (spread : Bool) :
    spelling (lexemeLines level spread items) = (printLines level spread items).toList := by
  induction items with
  | nil => rfl
  | cons i items ih =>
    obtain ⟨hi, his⟩ := List.forall_mem_cons.mp h
    have hlabel := spelling_label hi level
    have hvalue := hi.1 level spread
    obtain ⟨comments, label, value, suffix⟩ := i
    simp only [lexemeLines, printLines, spelling_append, spelling_cons, spelling_remarkLines,
      spelling_margin, spelling_suffix, hlabel, hvalue, ih his, String.toList_append]
    simp [comma]

theorem spelling_inline {items : List Item} (h : ∀ i ∈ items, i.All Expr.Agrees) (level : Nat) :
    spelling (lexemesInline level items) = (printInline level items).toList := by
  induction items with
  | nil => rfl
  | cons i items ih =>
    obtain ⟨hi, his⟩ := List.forall_mem_cons.mp h
    have hlabel := spelling_label hi level
    have hvalue := hi.1 level false
    obtain ⟨comments, label, value, suffix⟩ := i
    simp only [lexemesInline, printInline, spelling_append, hlabel, hvalue, ih his, String.toList_append]
    cases items <;> simp [comma]

end Item

theorem Sequence.spelling_lexemes {s : Sequence} (h : ∀ i ∈ s.items, i.All Expr.Agrees) (level : Nat)
    (lines spread : Bool) :
    spelling (s.lexemes level lines spread) = (s.print level lines spread).toList := by
  obtain ⟨items, trailing⟩ := s
  cases lines with
  | true =>
    simp only [lexemes, print, if_true, spelling_append, spelling_cons, spelling_remarkLines,
      spelling_margin, Item.spelling_lines h, String.toList_append]
    simp
  | false => simp only [lexemes, print, Bool.false_eq_true, if_false, Item.spelling_inline h]

namespace Expr

theorem spelling_allLexemes {es : List Expr} (h : ∀ e ∈ es, e.Agrees) (level : Nat) :
    spelling (allLexemes level es) = (printAll level es).toList := by
  induction es with
  | nil => rfl
  | cons e es ih =>
    obtain ⟨he, hes⟩ := List.forall_mem_cons.mp h
    simp only [allLexemes, printAll, spelling_append, he level false, ih hes, String.toList_append]
    cases es <;> simp [comma]

theorem spelling_lexemes {strict : Bool} {e : Expr} (h : e.Fits strict) (level : Nat) (spread : Bool) :
    spelling (e.lexemes level spread) = (e.print level spread).toList := by
  induction h generalizing level spread with
  | ident => simp [lexemes, print]
  | number => simp [lexemes, print]
  | fresh => simp [lexemes, print]
  | string => simp [lexemes, print]
  | list hs _ ih =>
    have := Sequence.spelling_lexemes (hs.all (by decide) fun i hi => ih i hi) level
    simp [lexemes, print, this, Bracket.opening, Bracket.closing]
  | dict hs _ _ ihk ih =>
    have := Sequence.spelling_lexemes (fun i hi => ⟨ih i hi, ihk i hi⟩) level
    simp [lexemes, print, this, Bracket.opening, Bracket.closing]
  | @tuple items _ ih =>
    have := spelling_allLexemes ih level
    simp only [lexemes, print, spelling_append, spelling_cons, this, String.toList_append]
    split_ifs <;> simp [comma, Bracket.opening, Bracket.closing]
  | paren _ ih => simp [lexemes, print, ih, Bracket.opening, Bracket.closing]
  | call _ _ hs _ ihc ih =>
    have := Sequence.spelling_lexemes (hs.all (by decide) fun i hi => ih i hi) level
    simp [lexemes, print, this, ihc, Bracket.opening, Bracket.closing]
  | dot _ _ _ _ _ ih => simp [lexemes, print, ih]
  | index _ _ _ ihb ihi => simp [lexemes, print, ihb, ihi, Bracket.opening, Bracket.closing]
  | negation _ _ ih =>
    simp only [lexemes, print, spelling_append, spelling_prefixed, ih, String.toList_append]
  | sign _ _ _ ih =>
    simp only [lexemes, print, spelling_append, spelling_prefixed, ih, String.toList_append]
  | binary _ _ _ _ _ ihl ihr =>
    simp only [lexemes, print, spelling_append, spelling_cons, spelling_joint, ihl, ihr,
      String.toList_append]
    simp

end Expr

end BuildSync
