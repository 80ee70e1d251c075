import BuildSync.Expr.Parser
import BuildSync.Proofs.Token.Spelling

namespace BuildSync

namespace Level

def rank : Level → Nat
  | disjunction => 0
  | conjunction => 1
  | negation => 2
  | comparison => 3
  | bitOr => 4
  | bitXor => 5
  | bitAnd => 6
  | shift => 7
  | sum => 8
  | product => 9
  | sign => 10
  | access => 11

theorem rank_tighter {level : Level} (h : level ≠ access) : level.tighter.rank = level.rank + 1 := by
  cases level <;> first | rfl | exact absurd rfl h

theorem rank_le (level : Level) : level.rank ≤ 11 := by
  cases level <;> decide

theorem rank_inj {a b : Level} (h : a.rank = b.rank) : a = b := by
  cases a <;> cases b <;> first | rfl | exact absurd h (by decide)

def operators (level : Level) : List String := level.symbols ++ level.words

def binary : List Level :=
  [disjunction, conjunction, comparison, bitOr, bitXor, bitAnd, shift, sum, product]

def ofOperator (op : String) : Level := (binary.find? fun level => op ∈ level.operators).getD access

theorem ofOperator_eq {level : Level} {op : String} (h : op ∈ level.operators) :
    ofOperator op = level := by
  have hall : ∀ op ∈ level.operators, ofOperator op = level := by
    cases level <;> decide +kernel
  exact hall op h

theorem mem_binary {level : Level} {op : String} (h : op ∈ level.operators) : level ∈ binary := by
  cases level <;> first | decide | exact absurd h List.not_mem_nil

end Level

namespace Expr

def level : Expr → Level
  | .unary op _ => if op = "not" then .negation else .sign
  | .binary op _ _ => .ofOperator op
  | _ => .access

def isNumber : Expr → Bool
  | .number _ => true
  | _ => false

def signs : List String := ["-", "+", "~"]

end Expr

def Label.Suits : Bracket → Label → Prop
  | .square, .bare => True
  | .curly, .key _ => True
  | .round, .bare => True
  | .round, .name n => identifier n = true
  | _, _ => False

structure Sequence.Framed (b : Bracket) (s : Sequence) : Prop where
  labels : ∀ i ∈ s.items, i.label.Suits b
  comments : ∀ i ∈ s.items, ∀ c ∈ i.comments, Remark c
  suffixes : ∀ i ∈ s.items, ∀ c ∈ i.suffix, Remark c
  trailing : ∀ c ∈ s.trailing, Remark c

theorem Sequence.Framed.no_key {b : Bracket} {s : Sequence} (h : s.Framed b) (hb : b ≠ .curly)
    {i : Item} (hi : i ∈ s.items) (k : Expr) : i.label ≠ .key k := by
  intro hk
  have := h.labels i hi
  rw [hk] at this
  cases b <;> first | exact hb rfl | exact this

/-- The expressions that the grammar makes, each operand bound as tightly as its place asks. With
`strict` they are read back as they are: strings are spelled, and no dot stands behind a number, of
which it would be a part. -/
inductive Expr.Fits (strict : Bool) : Expr → Prop
  | ident {name : String} (hi : identifier name = true) (hr : name ∉ reserved) : Fits strict (.ident name)
  | number {text : String} (h : Token.Spells .number text) : Fits strict (.number text)
  | fresh (hf : strict = false) (value : String) : Fits strict (.string value none)
  | string {value spelling : String} (h : Token.Spells (.string value) spelling) :
    Fits strict (.string value (some spelling))
  | list {s : Sequence} (hs : s.Framed .square) (hv : ∀ i ∈ s.items, Fits strict i.value) : Fits strict (.list s)
  | dict {s : Sequence} (hs : s.Framed .curly) (hk : ∀ i ∈ s.items, ∀ k, i.label = .key k → Fits strict k)
    (hv : ∀ i ∈ s.items, Fits strict i.value) : Fits strict (.dict s)
  | tuple {items : List Expr} (h : ∀ e ∈ items, Fits strict e) : Fits strict (.tuple items)
  | paren {inner : Expr} (h : Fits strict inner) : Fits strict (.paren inner)
  | call {callee : Expr} {s : Sequence} (hc : Fits strict callee) (hl : callee.level = .access)
    (hs : s.Framed .round) (hv : ∀ i ∈ s.items, Fits strict i.value) : Fits strict (.call callee s)
  | dot {base : Expr} {name : String} (hb : Fits strict base) (hl : base.level = .access)
    (hn : strict = true → base.isNumber = false) (hi : identifier name = true)
    (hr : name ∉ reserved) : Fits strict (.dot base name)
  | index {base index : Expr} (hb : Fits strict base) (hl : base.level = .access) (hi : Fits strict index) :
    Fits strict (.index base index)
  | negation {operand : Expr} (h : Fits strict operand) (hl : Level.negation.rank ≤ operand.level.rank) :
    Fits strict (.unary "not" operand)
  | sign {op : String} {operand : Expr} (ho : op ∈ signs) (h : Fits strict operand)
    (hl : Level.sign.rank ≤ operand.level.rank) : Fits strict (.unary op operand)
  | binary {op : String} {lhs rhs : Expr} {level : Level} (ho : op ∈ level.operators)
    (hl : Fits strict lhs) (hll : level.rank ≤ lhs.level.rank)
    (hr : Fits strict rhs) (hrl : level.rank < rhs.level.rank) : Fits strict (.binary op lhs rhs)

def Item.All (P : Expr → Prop) (i : Item) : Prop := P i.value ∧ ∀ k, i.label = .key k → P k

theorem Sequence.Framed.all {b : Bracket} {s : Sequence} {P : Expr → Prop} (h : s.Framed b)
    (hb : b ≠ .curly) (hv : ∀ i ∈ s.items, P i.value) : ∀ i ∈ s.items, i.All P :=
  fun i hi => ⟨hv i hi, fun k hk => absurd hk (h.no_key hb hi k)⟩

theorem Level.ne_access_of_mem {level : Level} {op : String} (h : op ∈ level.operators) :
    level ≠ .access := by
  rintro rfl
  cases h

end BuildSync
