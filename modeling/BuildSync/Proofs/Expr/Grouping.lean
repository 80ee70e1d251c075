import BuildSync.Proofs.Expr.Grammar
import Mathlib.Data.List.Induction

/-!
How a chain of operands with operators between them is grouped: by how tightly the operators bind,
and to the left among equals. Each chain has a tree that is grouped so and reads back as the chain.
-/

namespace BuildSync.Expr

def precedence : List (List String) :=
  [["or"], ["and"], ["==", "!=", "<", ">", "<=", ">=", "in", "not in"], ["|"], ["^"], ["&"],
    ["<<", ">>"], ["+", "-"], ["*", "/", "//", "%"]]

def binaryOperators : List String := precedence.flatten

def tightness (op : String) : Nat := precedence.findIdx (op ∈ ·)

def top? : Expr → Option String
  | .binary op _ _ => some op
  | _ => none

/-- The operands of a tree with the operators between them, from left to right: the first operand,
and each other one behind its operator. -/
def inorder : Expr → Expr × List (String × Expr)
  | .binary op lhs rhs => (lhs.inorder.1, lhs.inorder.2 ++ (op, rhs.inorder.1) :: rhs.inorder.2)
  | e => (e, [])

/-- On the left of each operator stand operators that bind at least as tightly, and on its right
such as bind more tightly. -/
inductive Grouped : Expr → Prop
  | operand {e : Expr} (h : e.top? = none) : Grouped e
  | binary {op : String} {lhs rhs : Expr} (hl : Grouped lhs) (hr : Grouped rhs)
    (hleft : ∀ o ∈ lhs.top?, tightness op ≤ tightness o)
    (hright : ∀ o ∈ rhs.top?, tightness op < tightness o) : Grouped (.binary op lhs rhs)

variable {e a : Expr} {op : String}

theorem inorder_operand (h : e.top? = none) : e.inorder = (e, []) := by
  cases e <;> first | rfl | cases h

def push (op : String) (a : Expr) : Expr → Expr
  | .binary o lhs rhs =>
    if tightness op ≤ tightness o then .binary op (.binary o lhs rhs) a
    else .binary o lhs (push op a rhs)
  | e => .binary op e a

theorem push_operand (h : e.top? = none) : push op a e = .binary op e a := by
  cases e <;> first | rfl | cases h

theorem top?_push (e : Expr) : ∀ o ∈ (push op a e).top?, o = op ∨ o ∈ e.top? := by
  cases e with
  | binary o lhs rhs =>
    rw [push]
    split_ifs
    · rintro _ ⟨⟩
      exact .inl rfl
    · rintro _ ⟨⟩
      exact .inr rfl
  | _ =>
    rintro _ ⟨⟩
    exact .inl rfl

theorem grouped_push (ha : a.top? = none) (h : e.Grouped) : (push op a e).Grouped := by
  have hnone : ∀ o ∈ a.top?, tightness op < tightness o := by
    rw [ha]
    nofun
  induction h with
  | @operand e he =>
    rw [push_operand he]
    exact .binary (.operand he) (.operand ha) (by rw [he]; nofun) hnone
  | @binary o lhs rhs hl hr hleft hright _ ih =>
    rw [push]
    split_ifs with hop
    · refine .binary (.binary hl hr hleft hright) (.operand ha) ?_ hnone
      rintro _ ⟨⟩
      exact hop
    · refine .binary hl ih hleft fun p hp => ?_
      rcases top?_push rhs p hp with rfl | hp
      · exact Nat.not_le.mp hop
      · exact hright p hp

theorem inorder_push (ha : a.top? = none) (h : e.Grouped) :
    (push op a e).inorder = (e.inorder.1, e.inorder.2 ++ [(op, a)]) := by
  induction h with
  | operand he => rw [push_operand he, inorder, inorder_operand he, inorder_operand ha]
  | @binary o lhs rhs _ _ _ _ _ ih =>
    rw [push]
    split_ifs
    · rw [inorder, inorder_operand ha]
    · rw [inorder, ih, inorder]
      simp

theorem exists_grouped (first : Expr) (rest : List (String × Expr)) (hfirst : first.top? = none)
    (hrest : ∀ x ∈ rest, x.2.top? = none) : ∃ e : Expr, e.Grouped ∧ e.inorder = (first, rest) := by
  induction rest using List.reverseRecOn with
  | nil => exact ⟨first, .operand hfirst, inorder_operand hfirst⟩
  | append_singleton rest x ih =>
    obtain ⟨hrest, hx⟩ := List.forall_mem_append.mp hrest
    obtain ⟨e, he, hread⟩ := ih hrest
    have hx := List.forall_mem_singleton.mp hx
    exact ⟨push x.1 x.2 e, grouped_push hx he, by rw [inorder_push hx he, hread]⟩

example : push "-" (.ident "d") (push "*" (.ident "c") (push "-" (.ident "b") (.ident "a"))) =
    .binary "-" (.binary "-" (.ident "a") (.binary "*" (.ident "b") (.ident "c"))) (.ident "d") := rfl

theorem rank_ofOperator (h : op ∈ binaryOperators) :
    op ∈ (Level.ofOperator op).operators ∧
      (Level.ofOperator op).rank = if tightness op < 2 then tightness op else tightness op + 1 := by
  have hall : ∀ op ∈ binaryOperators, op ∈ (Level.ofOperator op).operators ∧
      (Level.ofOperator op).rank = if tightness op < 2 then tightness op else tightness op + 1 := by
    decide +kernel
  exact hall op h

theorem tightness_le_iff {o : String} (h : op ∈ binaryOperators) (ho : o ∈ binaryOperators) :
    tightness op ≤ tightness o ↔ (Level.ofOperator op).rank ≤ (Level.ofOperator o).rank := by
  rw [(rank_ofOperator h).2, (rank_ofOperator ho).2]
  split_ifs <;> omega

end BuildSync.Expr
