namespace BuildSync

structure Texts where
  old : Array String
  new : Array String

inductive Edit.Tag where
  | keep
  | delete
  | insert
  deriving DecidableEq, Repr

structure Edit where
  tag : Edit.Tag
  old : Nat
  new : Nat
  length : Nat
  deriving DecidableEq, Repr

namespace Edit

def oldLength (e : Edit) : Nat := if e.tag = .insert then 0 else e.length

def newLength (e : Edit) : Nat := if e.tag = .delete then 0 else e.length

def oldEnd (e : Edit) : Nat := e.old + e.oldLength

def newEnd (e : Edit) : Nat := e.new + e.newLength

def isEmpty (e : Edit) : Bool := e.length == 0

end Edit

namespace Texts

def same (t : Texts) (i j : Nat) : Bool :=
  match t.old[i]?, t.new[j]? with
  | some a, some b => a == b
  | _, _ => false

def sameFrom (t : Texts) (i j : Nat) : Nat → Nat
  | 0 => 0
  | most + 1 => if t.same i j then t.sameFrom (i + 1) (j + 1) most + 1 else 0

def sameBefore (t : Texts) (i j : Nat) : Nat → Nat
  | 0 => 0
  | most + 1 =>
    if 0 < i ∧ 0 < j ∧ t.same (i - 1) (j - 1) then t.sameBefore (i - 1) (j - 1) most + 1 else 0

theorem sameFrom_le (t : Texts) (i j most : Nat) : t.sameFrom i j most ≤ most := by
  induction most generalizing i j with
  | zero => simp [sameFrom]
  | succ most ih =>
    rw [sameFrom]
    have := ih (i + 1) (j + 1)
    split <;> omega

theorem sameBefore_le (t : Texts) (i j most : Nat) : t.sameBefore i j most ≤ most := by
  induction most generalizing i j with
  | zero => simp [sameBefore]
  | succ most ih =>
    rw [sameBefore]
    have := ih (i - 1) (j - 1)
    split <;> omega

end Texts

end BuildSync
