import BuildSync.Expr
import BuildSync.Text.Quoted

namespace BuildSync

def indent : Nat → String
  | 0 => ""
  | level + 1 => "    " ++ indent level

def commentLines (level : Nat) : List String → String
  | [] => ""
  | line :: lines => indent level ++ line ++ "\n" ++ commentLines level lines

def suffixText : Option String → String
  | some comment => "  " ++ comment
  | none => ""

def Expr.spreads : Expr → Bool
  | .list elements => decide (elements.items.length > 1) || elements.hasComments
  | .dict entries => !entries.items.isEmpty
  | .binary _ lhs rhs => lhs.spreads || rhs.spreads
  | _ => false

mutual

def Expr.print (level : Nat) (spread : Bool) : Expr → String
  | .ident name => name
  | .number text => text
  | .string value spelling =>
    match spelling with
    | some spelling => spelling
    | none => quoted value
  | .list elements =>
    "[" ++ elements.print level
      (elements.hasComments || (spread && decide (elements.items.length > 1))) spread ++ "]"
  | .dict entries =>
    "\x7b" ++ entries.print level
      (entries.hasComments || (spread && !entries.items.isEmpty)) spread ++ "\x7d"
  | .tuple items =>
    "(" ++ Expr.printAll level items ++ (if items.length = 1 then "," else "") ++ ")"
  | .paren inner => "(" ++ inner.print level false ++ ")"
  | .call callee args =>
    callee.print level false ++ "(" ++ args.print level args.hasComments false ++ ")"
  | .dot base name => base.print level false ++ "." ++ name
  | .index base index => base.print level false ++ "[" ++ index.print level false ++ "]"
  | .unary op operand => op ++ (if op = "not" then " " else "") ++ operand.print level false
  | .binary op lhs rhs => lhs.print level spread ++ " " ++ op ++ " " ++ rhs.print level spread
termination_by structural e => e

def Sequence.print (level : Nat) (lines spread : Bool) : Sequence → String
  | ⟨items, trailing⟩ =>
    if lines then
      "\n" ++ Item.printLines (level + 1) spread items ++ commentLines (level + 1) trailing ++
        indent level
    else Item.printInline level items
termination_by structural s => s

def Item.printLines (level : Nat) (spread : Bool) : List Item → String
  | [] => ""
  | ⟨comments, label, value, suffix⟩ :: items =>
    commentLines level comments ++ indent level ++ label.print level ++ value.print level spread ++
      "," ++ suffixText suffix ++ "\n" ++ Item.printLines level spread items
termination_by structural items => items

def Item.printInline (level : Nat) : List Item → String
  | [] => ""
  | ⟨_, label, value, _⟩ :: items =>
    label.print level ++ value.print level false ++ (if items.isEmpty then "" else ", ") ++
      Item.printInline level items
termination_by structural items => items

def Label.print (level : Nat) : Label → String
  | .bare => ""
  | .name name => name ++ " = "
  | .key key => key.print level false ++ ": "
termination_by structural l => l

def Expr.printAll (level : Nat) : List Expr → String
  | [] => ""
  | e :: es => e.print level false ++ (if es.isEmpty then "" else ", ") ++ Expr.printAll level es
termination_by structural es => es

end

end BuildSync
