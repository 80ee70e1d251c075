import BuildSync.Proofs.Expr.Reread
import Mathlib.Data.List.Forall2

namespace BuildSync

mutual

theorem Expr.alike_refl (e : Expr) : e.alike e = true := by
  cases e with
  | ident => simp [Expr.alike]
  | number => simp [Expr.alike]
  | string => simp [Expr.alike]
  | list s => simp [Expr.alike, s.alike_refl]
  | dict s => simp [Expr.alike, s.alike_refl]
  | tuple es => simp [Expr.alike, Expr.allAlike_refl es]
  | paren e => simp [Expr.alike, e.alike_refl]
  | call f s => simp [Expr.alike, f.alike_refl, s.alike_refl]
  | dot b => simp [Expr.alike, b.alike_refl]
  | index b i => simp [Expr.alike, b.alike_refl, i.alike_refl]
  | unary _ e => simp [Expr.alike, e.alike_refl]
  | binary _ a b => simp [Expr.alike, a.alike_refl, b.alike_refl]
termination_by structural e

theorem Label.alike_refl (l : Label) : l.alike l = true := by
  cases l with
  | bare => simp [Label.alike]
  | name => simp [Label.alike]
  | key e => simp [Label.alike, e.alike_refl]
termination_by structural l

theorem Item.alike_refl (i : Item) : i.alike i = true := by
  cases i with
  | mk _ l v => simp [Item.alike, l.alike_refl, v.alike_refl]
termination_by structural i

theorem Sequence.alike_refl (s : Sequence) : s.alike s = true := by
  cases s with
  | mk items => simp [Sequence.alike, Item.allAlike_refl items]
termination_by structural s

theorem Item.allAlike_refl (is : List Item) : Item.allAlike is is = true := by
  cases is with
  | nil => simp [Item.allAlike]
  | cons i is => simp [Item.allAlike, i.alike_refl, Item.allAlike_refl is]
termination_by structural is

theorem Expr.allAlike_refl (es : List Expr) : Expr.allAlike es es = true := by
  cases es with
  | nil => simp [Expr.allAlike]
  | cons e es => simp [Expr.allAlike, e.alike_refl, Expr.allAlike_refl es]
termination_by structural es

end

namespace Item

variable {i j : Item} {is js : List Item}

theorem alike_iff : i.alike j = true ↔ i.comments = j.comments ∧ i.label.alike j.label = true ∧
    i.value.alike j.value = true ∧ i.suffix = j.suffix := by
  cases i
  cases j
  simp [alike, and_assoc]

theorem allAlike_iff : allAlike is js = true ↔ List.Forall₂ (fun i j => i.alike j = true) is js := by
  induction is generalizing js with
  | nil => cases js <;> simp [allAlike]
  | cons i is ih => cases js <;> simp [allAlike, ih]

theorem name?_of_alike (h : i.alike j = true) : i.name? = j.name? := by
  obtain ⟨-, hlabel, -, -⟩ := alike_iff.mp h
  rw [name?, name?]
  generalize i.label = l at hlabel
  generalize j.label = m at hlabel
  cases l <;> cases m <;> simp_all [Label.alike]

end Item

theorem Sequence.alike_iff {s t : Sequence} : s.alike t = true ↔
    List.Forall₂ (fun i j => i.alike j = true) s.items t.items ∧ s.trailing = t.trailing := by
  cases s
  cases t
  simp [alike, Item.allAlike_iff]

namespace Expr

variable {a b : Expr}

theorem text?_of_alike (h : a.alike b = true) : a.text? = b.text? := by
  rw [alike.eq_def] at h
  split at h
  case h_3 => exact congrArg some (eq_of_beq h)
  case h_13 => exact absurd h Bool.false_ne_true
  all_goals rfl

theorem mapM_text?_of_alike {is js : List Item} (h : List.Forall₂ (fun i j => i.alike j = true) is js) :
    is.mapM (fun i => i.value.text?) = js.mapM fun i => i.value.text? := by
  induction h with
  | nil => rfl
  | cons hij _ ih =>
    obtain ⟨-, -, hvalue, -⟩ := Item.alike_iff.mp hij
    rw [List.mapM_cons, List.mapM_cons, text?_of_alike hvalue, ih]

theorem textList?_of_alike (h : a.alike b = true) : a.textList? = b.textList? := by
  rw [alike.eq_def] at h
  split at h
  case h_4 => exact mapM_text?_of_alike (Sequence.alike_iff.mp h).1
  case h_13 => exact absurd h Bool.false_ne_true
  all_goals rfl

theorem dottedName?_of_alike (h : a.alike b = true) : a.dottedName? = b.dottedName? := by
  fun_induction dottedName? a generalizing b with
  | case1 name =>
    cases b with
    | ident => exact congrArg some (eq_of_beq h)
    | _ => exact absurd h Bool.false_ne_true
  | case2 base name ih =>
    cases b with
    | dot base' name' =>
      rw [alike, Bool.and_eq_true] at h
      rw [dottedName?, ih h.1, eq_of_beq h.2]
    | _ => exact absurd h Bool.false_ne_true
  | case3 a hident hdot =>
    rw [alike.eq_def] at h
    split at h
    case h_1 name _ => exact absurd rfl (hident name)
    case h_9 base name _ _ => exact absurd rfl (hdot base name)
    case h_13 => exact absurd h Bool.false_ne_true
    all_goals rfl

end Expr
end BuildSync
