import BuildSync.Expr.Parser
import BuildSync.Rule
import Mathlib.Data.List.Forall2
import Mathlib.Data.Option.Basic

/-!
Two tokens, or two trees, resemble each other when they differ at most in their string literals. `S v s w z` says which
literals may stand for each other: one with the value `v` and the spelling `s`, and one with `w` and `z`.
-/

namespace BuildSync

variable {S : String → String → String → String → Prop}

inductive Token.Resembles (S : String → String → String → String → Prop) (t u : Token) : Prop
  | string {v w : String} (ht : t.kind = .string v) (hu : u.kind = .string w) (h : S v t.text w u.text)
  | same (hkind : t.kind = u.kind) (htext : t.text = u.text) (hstring : t.isString = false)

theorem Token.Resembles.text_eq {t u : Token} (h : t.Resembles S u) (hstring : t.isString = false) :
    t.kind = u.kind ∧ t.text = u.text := by
  cases h with
  | string ht => simp [Token.isString, ht] at hstring
  | same hkind htext => exact ⟨hkind, htext⟩

variable (S)

mutual

def Expr.Resembles : Expr → Expr → Prop
  | .ident a, .ident b => a = b
  | .number a, .number b => a = b
  | .string v (some s), .string w (some z) => S v s w z
  | .list a, .list b => a.Resembles b
  | .dict a, .dict b => a.Resembles b
  | .tuple a, .tuple b => Expr.AllResemble a b
  | .paren a, .paren b => a.Resembles b
  | .call f a, .call g b => f.Resembles g ∧ a.Resembles b
  | .dot a m, .dot b n => a.Resembles b ∧ m = n
  | .index a i, .index b j => a.Resembles b ∧ i.Resembles j
  | .unary o a, .unary p b => o = p ∧ a.Resembles b
  | .binary o a c, .binary p b d => o = p ∧ a.Resembles b ∧ c.Resembles d
  | _, _ => False
termination_by structural e => e

def Label.Resembles : Label → Label → Prop
  | .bare, .bare => True
  | .name m, .name n => m = n
  | .key a, .key b => a.Resembles b
  | _, _ => False
termination_by structural l => l

def Item.Resembles : Item → Item → Prop
  | ⟨c, l, v, s⟩, ⟨d, m, w, t⟩ => c = d ∧ l.Resembles m ∧ v.Resembles w ∧ s = t
termination_by structural i => i

def Sequence.Resembles : Sequence → Sequence → Prop
  | ⟨a, t⟩, ⟨b, u⟩ => Item.AllResemble a b ∧ t = u
termination_by structural s => s

def Item.AllResemble : List Item → List Item → Prop
  | [], [] => True
  | a :: as, b :: bs => a.Resembles b ∧ Item.AllResemble as bs
  | _, _ => False
termination_by structural is => is

def Expr.AllResemble : List Expr → List Expr → Prop
  | [], [] => True
  | a :: as, b :: bs => a.Resembles b ∧ Expr.AllResemble as bs
  | _, _ => False
termination_by structural es => es

end

def Call.Resembles (a b : Call) : Prop := a.callee.Resembles S b.callee ∧ a.args.Resembles S b.args

variable {S}

/-! With the same literals the trees are the same. -/

def SameLiteral (v s w z : String) : Prop := v = w ∧ s = z

mutual

theorem Expr.eq_of_resembles {a b : Expr} (h : a.Resembles SameLiteral b) : a = b := by
  cases a with
  | ident =>
    cases b with
    | ident => exact congrArg Expr.ident h
    | _ => exact h.elim
  | number =>
    cases b with
    | number => exact congrArg Expr.number h
    | _ => exact h.elim
  | string v s =>
    cases b with
    | string w z =>
      cases s with
      | none => exact h.elim
      | some s =>
        cases z with
        | none => exact h.elim
        | some z => exact congr (congrArg Expr.string h.1) (congrArg some h.2)
    | _ => cases s <;> exact h.elim
  | list s =>
    cases b with
    | list t => exact congrArg Expr.list (Sequence.eq_of_resembles h)
    | _ => exact h.elim
  | dict s =>
    cases b with
    | dict t => exact congrArg Expr.dict (Sequence.eq_of_resembles h)
    | _ => exact h.elim
  | tuple es =>
    cases b with
    | tuple fs => exact congrArg Expr.tuple (Expr.eq_of_allResemble h)
    | _ => exact h.elim
  | paren e =>
    cases b with
    | paren f => exact congrArg Expr.paren (Expr.eq_of_resembles h)
    | _ => exact h.elim
  | call f s =>
    cases b with
    | call g t => exact congr (congrArg Expr.call (Expr.eq_of_resembles h.1)) (Sequence.eq_of_resembles h.2)
    | _ => exact h.elim
  | dot e =>
    cases b with
    | dot f => exact congr (congrArg Expr.dot (Expr.eq_of_resembles h.1)) h.2
    | _ => exact h.elim
  | index e i =>
    cases b with
    | index f j => exact congr (congrArg Expr.index (Expr.eq_of_resembles h.1)) (Expr.eq_of_resembles h.2)
    | _ => exact h.elim
  | unary _ e =>
    cases b with
    | unary _ f => exact congr (congrArg Expr.unary h.1) (Expr.eq_of_resembles h.2)
    | _ => exact h.elim
  | binary _ e f =>
    cases b with
    | binary _ e' f' =>
      exact congr (congr (congrArg Expr.binary h.1) (Expr.eq_of_resembles h.2.1)) (Expr.eq_of_resembles h.2.2)
    | _ => exact h.elim
termination_by structural a

theorem Label.eq_of_resembles {l m : Label} (h : l.Resembles SameLiteral m) : l = m := by
  cases l with
  | bare =>
    cases m with
    | bare => rfl
    | _ => exact h.elim
  | name =>
    cases m with
    | name => exact congrArg Label.name h
    | _ => exact h.elim
  | key e =>
    cases m with
    | key f => exact congrArg Label.key (Expr.eq_of_resembles h)
    | _ => exact h.elim
termination_by structural l

theorem Item.eq_of_resembles {i j : Item} (h : i.Resembles SameLiteral j) : i = j := by
  cases i with
  | mk c l v s =>
    obtain ⟨d, m, w, t⟩ := j
    obtain ⟨hcomments, hlabel, hvalue, hsuffix⟩ := h
    rw [hcomments, Label.eq_of_resembles hlabel, Expr.eq_of_resembles hvalue, hsuffix]
termination_by structural i

theorem Sequence.eq_of_resembles {s t : Sequence} (h : s.Resembles SameLiteral t) : s = t := by
  cases s with
  | mk is =>
    obtain ⟨js, _⟩ := t
    exact congr (congrArg Sequence.mk (Item.eq_of_allResemble h.1)) h.2
termination_by structural s

theorem Item.eq_of_allResemble {is js : List Item} (h : Item.AllResemble SameLiteral is js) : is = js := by
  cases is with
  | nil =>
    cases js with
    | nil => rfl
    | cons => exact h.elim
  | cons i is =>
    cases js with
    | nil => exact h.elim
    | cons j js => exact congr (congrArg List.cons (Item.eq_of_resembles h.1)) (Item.eq_of_allResemble h.2)
termination_by structural is

theorem Expr.eq_of_allResemble {es fs : List Expr} (h : Expr.AllResemble SameLiteral es fs) : es = fs := by
  cases es with
  | nil =>
    cases fs with
    | nil => rfl
    | cons => exact h.elim
  | cons e es =>
    cases fs with
    | nil => exact h.elim
    | cons f fs => exact congr (congrArg List.cons (Expr.eq_of_resembles h.1)) (Expr.eq_of_allResemble h.2)
termination_by structural es

end

theorem Call.eq_of_resembles {a b : Call} (h : a.Resembles SameLiteral b) : a = b := by
  obtain ⟨callee, args⟩ := a
  obtain ⟨callee', args'⟩ := b
  have hcallee : callee = callee' := Expr.eq_of_resembles h.1
  have hargs : args = args' := Sequence.eq_of_resembles h.2
  rw [hcallee, hargs]

/-! What does not look at literals is the same on both sides. -/

theorem Expr.dottedName?_of_resembles {a b : Expr} (h : a.Resembles S b) : a.dottedName? = b.dottedName? := by
  cases a with
  | ident =>
    cases b with
    | ident => exact congrArg some h
    | _ => exact h.elim
  | dot base name =>
    cases b with
    | dot base' name' => rw [dottedName?, dottedName?, dottedName?_of_resembles h.1, h.2]
    | _ => exact h.elim
  | string v s =>
    cases b with
    | string => rfl
    | _ => cases s <;> exact h.elim
  | _ =>
    cases b with
    | ident | dot | string => exact h.elim
    | _ => rfl
termination_by structural a

theorem Expr.literals_of_resembles {a b : Expr} (h : a.Resembles S b) :
    (∃ v s w z, a = .string v (some s) ∧ b = .string w (some z) ∧ S v s w z) ∨ a.text? = none ∧ b.text? = none := by
  cases a with
  | string v s =>
    cases b with
    | string w z =>
      cases s with
      | none => exact h.elim
      | some s =>
        cases z with
        | none => exact h.elim
        | some z => exact .inl ⟨v, s, w, z, rfl, rfl, h⟩
    | _ => cases s <;> exact h.elim
  | _ =>
    cases b with
    | string => exact h.elim
    | _ => exact .inr ⟨rfl, rfl⟩

theorem Item.forall₂_of_allResemble {is js : List Item} (h : Item.AllResemble S is js) :
    List.Forall₂ (Item.Resembles S) is js := by
  induction is generalizing js with
  | nil =>
    cases js with
    | nil => exact .nil
    | cons => exact h.elim
  | cons i is ih =>
    cases js with
    | nil => exact h.elim
    | cons j js => exact .cons h.1 (ih h.2)

theorem Item.name?_of_resembles {i j : Item} (h : i.Resembles S j) : i.name? = j.name? := by
  obtain ⟨c, l, v, s⟩ := i
  obtain ⟨d, m, w, t⟩ := j
  obtain ⟨-, hlabel, -, -⟩ := h
  cases l <;> cases m
  case name.name => exact congrArg some hlabel
  case bare.bare => rfl
  case key.key => rfl
  all_goals exact hlabel.elim

theorem Item.value_of_resembles {i j : Item} (h : i.Resembles S j) : i.value.Resembles S j.value := by
  obtain ⟨c, l, v, s⟩ := i
  obtain ⟨d, m, w, t⟩ := j
  exact h.2.2.1

namespace Rule

variable {r r' : Rule}

theorem forall₂_args (h : r.call.Resembles S r'.call) : List.Forall₂ (Item.Resembles S) r.args r'.args := by
  have hargs := h.2
  rw [args, args]
  generalize r.call.args = s at hargs
  generalize r'.call.args = t at hargs
  obtain ⟨is, _⟩ := s
  obtain ⟨js, _⟩ := t
  exact Item.forall₂_of_allResemble hargs.1

theorem kind_of_resembles (h : r.call.Resembles S r'.call) : r.kind = r'.kind := by
  rw [kind, kind, Expr.dottedName?_of_resembles h.1]

theorem attrNames_of_resembles (h : r.call.Resembles S r'.call) : r.attrNames = r'.attrNames := by
  have hargs := forall₂_args h
  rw [attrNames, attrNames]
  generalize r.args = is at hargs
  generalize r'.args = js at hargs
  induction hargs with
  | nil => rfl
  | cons hij _ ih => rw [List.filterMap_cons, List.filterMap_cons, Item.name?_of_resembles hij, ih]

theorem attr?_of_resembles (h : r.call.Resembles S r'.call) (key : String) :
    Option.Rel (Expr.Resembles S) (r.attr? key) (r'.attr? key) := by
  have hargs := forall₂_args h
  rw [attr?, attr?]
  generalize r.args = is at hargs
  generalize r'.args = js at hargs
  induction hargs with
  | nil => exact .none
  | cons hij _ ih =>
    rw [List.find?_cons, List.find?_cons, Item.name?_of_resembles hij]
    split
    · exact .some (Item.value_of_resembles hij)
    · exact ih

end Rule

end BuildSync
