import BuildSync.Document

/-!
Documents can be compared, so that what is parsed from a given text can be evaluated.
-/

namespace BuildSync

mutual

def Expr.same : Expr → Expr → Bool
  | .ident a, .ident b => a == b
  | .number a, .number b => a == b
  | .string a s, .string b t => a == b && s == t
  | .list a, .list b => a.same b
  | .dict a, .dict b => a.same b
  | .tuple a, .tuple b => Expr.allSame a b
  | .paren a, .paren b => a.same b
  | .call f a, .call g b => f.same g && a.same b
  | .dot a m, .dot b n => a.same b && m == n
  | .index a i, .index b j => a.same b && i.same j
  | .unary o a, .unary p b => o == p && a.same b
  | .binary o a c, .binary p b d => o == p && a.same b && c.same d
  | _, _ => false
termination_by structural e => e

def Label.same : Label → Label → Bool
  | .bare, .bare => true
  | .name m, .name n => m == n
  | .key a, .key b => a.same b
  | _, _ => false
termination_by structural l => l

def Item.same : Item → Item → Bool
  | ⟨c, l, v, s⟩, ⟨d, m, w, t⟩ => c == d && l.same m && v.same w && s == t
termination_by structural i => i

def Sequence.same : Sequence → Sequence → Bool
  | ⟨a, t⟩, ⟨b, u⟩ => Item.allSame a b && t == u
termination_by structural s => s

def Item.allSame : List Item → List Item → Bool
  | [], [] => true
  | a :: as, b :: bs => a.same b && Item.allSame as bs
  | _, _ => false
termination_by structural is => is

def Expr.allSame : List Expr → List Expr → Bool
  | [], [] => true
  | a :: as, b :: bs => a.same b && Expr.allSame as bs
  | _, _ => false
termination_by structural es => es

end

mutual

theorem Expr.same_iff {a b : Expr} : a.same b = true ↔ a = b := by
  cases a with
  | ident => cases b <;> simp [Expr.same]
  | number => cases b <;> simp [Expr.same]
  | string => cases b <;> simp [Expr.same]
  | list s => cases b <;> simp [Expr.same, s.same_iff]
  | dict s => cases b <;> simp [Expr.same, s.same_iff]
  | tuple es => cases b <;> simp [Expr.same, Expr.allSame_iff es]
  | paren e => cases b <;> simp [Expr.same, e.same_iff]
  | call f s => cases b <;> simp [Expr.same, f.same_iff, s.same_iff]
  | dot e => cases b <;> simp [Expr.same, e.same_iff]
  | index e i => cases b <;> simp [Expr.same, e.same_iff, i.same_iff]
  | unary _ e => cases b <;> simp [Expr.same, e.same_iff]
  | binary _ e f => cases b <;> simp [Expr.same, e.same_iff, f.same_iff, and_assoc]
termination_by structural a

theorem Label.same_iff {l m : Label} : l.same m = true ↔ l = m := by
  cases l with
  | bare => cases m <;> simp [Label.same]
  | name => cases m <;> simp [Label.same]
  | key e => cases m <;> simp [Label.same, e.same_iff]
termination_by structural l

theorem Item.same_iff {i j : Item} : i.same j = true ↔ i = j := by
  cases i with
  | mk _ l v => cases j; simp [Item.same, l.same_iff, v.same_iff, and_assoc]
termination_by structural i

theorem Sequence.same_iff {s t : Sequence} : s.same t = true ↔ s = t := by
  cases s with
  | mk items => cases t; simp [Sequence.same, Item.allSame_iff items]
termination_by structural s

theorem Item.allSame_iff (is : List Item) {js : List Item} : Item.allSame is js = true ↔ is = js := by
  cases is with
  | nil => cases js <;> simp [Item.allSame]
  | cons i is => cases js <;> simp [Item.allSame, i.same_iff, Item.allSame_iff is]
termination_by structural is

theorem Expr.allSame_iff (as : List Expr) {bs : List Expr} : Expr.allSame as bs = true ↔ as = bs := by
  cases as with
  | nil => cases bs <;> simp [Expr.allSame]
  | cons a as => cases bs <;> simp [Expr.allSame, a.same_iff, Expr.allSame_iff as]
termination_by structural as

end

instance : DecidableEq Expr := fun _ _ => decidable_of_iff _ Expr.same_iff

instance : DecidableEq Sequence := fun _ _ => decidable_of_iff _ Sequence.same_iff

deriving instance DecidableEq for Call, Rule, Statement, Document

end BuildSync
