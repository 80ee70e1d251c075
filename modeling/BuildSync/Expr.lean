namespace BuildSync

mutual

inductive Expr where
  | ident (name : String)
  | number (text : String)
  /-- `spelling` is the literal as it was read; a string that was not read has none. -/
  | string (value : String) (spelling : Option String)
  | list (elements : Sequence)
  | dict (entries : Sequence)
  | tuple (items : List Expr)
  | paren (inner : Expr)
  | call (callee : Expr) (args : Sequence)
  | dot (base : Expr) (name : String)
  | index (base index : Expr)
  | unary (op : String) (operand : Expr)
  | binary (op : String) (lhs rhs : Expr)

inductive Label where
  | bare
  | name (name : String)
  | key (key : Expr)

structure Item where
  comments : List String
  label : Label
  value : Expr
  suffix : Option String

structure Sequence where
  items : List Item
  trailing : List String

end

structure Call where
  callee : Expr
  args : Sequence

instance : Inhabited Expr := ⟨.ident ""⟩

namespace Item

def hasComments (item : Item) : Bool :=
  !item.comments.isEmpty || item.suffix.isSome

def keyword (name : String) (value : Expr) : Item := ⟨[], .name name, value, none⟩

def element (value : Expr) : Item := ⟨[], .bare, value, none⟩

def name? (item : Item) : Option String :=
  match item.label with
  | .name name => some name
  | _ => none

end Item

namespace Sequence

def empty : Sequence := ⟨[], []⟩

def hasComments (s : Sequence) : Bool :=
  !s.trailing.isEmpty || s.items.any Item.hasComments

end Sequence

namespace Expr

def text (value : String) : Expr := .string value none

def textList (values : List String) : Expr :=
  .list ⟨values.map fun v => .element (text v), []⟩

def text? : Expr → Option String
  | .string value _ => some value
  | _ => none

def textList? : Expr → Option (List String)
  | .list elements => elements.items.mapM fun item => item.value.text?
  | _ => none

def dottedName? : Expr → Option String
  | .ident name => some name
  | .dot base name => base.dottedName?.map (· ++ "." ++ name)
  | _ => none

theorem textList?_textList (values : List String) : (textList values).textList? = some values := by
  induction values with
  | nil => rfl
  | cons v vs ih =>
    simp only [textList, textList?, List.map_cons, List.mapM_cons] at ih ⊢
    rw [ih]
    rfl

end Expr

/-! Two trees are alike when they differ at most in how strings are spelled. -/

mutual

def Expr.alike : Expr → Expr → Bool
  | .ident a, .ident b => a == b
  | .number a, .number b => a == b
  | .string a _, .string b _ => a == b
  | .list a, .list b => a.alike b
  | .dict a, .dict b => a.alike b
  | .tuple a, .tuple b => Expr.allAlike a b
  | .paren a, .paren b => a.alike b
  | .call f a, .call g b => f.alike g && a.alike b
  | .dot a m, .dot b n => a.alike b && m == n
  | .index a i, .index b j => a.alike b && i.alike j
  | .unary o a, .unary p b => o == p && a.alike b
  | .binary o a c, .binary p b d => o == p && a.alike b && c.alike d
  | _, _ => false
termination_by structural e => e

def Label.alike : Label → Label → Bool
  | .bare, .bare => true
  | .name m, .name n => m == n
  | .key a, .key b => a.alike b
  | _, _ => false
termination_by structural l => l

def Item.alike : Item → Item → Bool
  | ⟨c, l, v, s⟩, ⟨d, m, w, t⟩ => c == d && l.alike m && v.alike w && s == t
termination_by structural i => i

def Sequence.alike : Sequence → Sequence → Bool
  | ⟨a, t⟩, ⟨b, u⟩ => Item.allAlike a b && t == u
termination_by structural s => s

def Item.allAlike : List Item → List Item → Bool
  | [], [] => true
  | a :: as, b :: bs => a.alike b && Item.allAlike as bs
  | _, _ => false
termination_by structural is => is

def Expr.allAlike : List Expr → List Expr → Bool
  | [], [] => true
  | a :: as, b :: bs => a.alike b && Expr.allAlike as bs
  | _, _ => false
termination_by structural es => es

end

def Call.alike (a b : Call) : Bool :=
  a.callee.alike b.callee && a.args.alike b.args

end BuildSync
