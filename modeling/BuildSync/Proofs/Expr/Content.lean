import BuildSync.Proofs.Expr.Reread
import BuildSync.Proofs.Token.Content

namespace BuildSync

namespace Content

def opening (b : Bracket) : Content := ⟨[], [b.opening]⟩

def closing (b : Bracket) : Content := ⟨[], [b.closing]⟩

def within (b : Bracket) (inner : Content) : Content := opening b ++ inner ++ closing b

def operator (op : String) : Content := if op = "not in" then ofCode "not" ++ ofCode "in" else ofCode op

end Content

mutual

def Expr.content : Expr → Content
  | .ident name => .ofCode name
  | .number text => .ofCode text
  | .string value spelling => .ofCode (spelling.getD (quoted value))
  | .list elements => .within .square elements.content
  | .dict entries => .within .curly entries.content
  | .tuple items => .within .round (Expr.contentAll items)
  | .paren inner => .within .round inner.content
  | .call callee args => callee.content ++ .within .round args.content
  | .dot base name => base.content ++ .ofCode "." ++ .ofCode name
  | .index base index => base.content ++ .within .square index.content
  | .unary op operand => .ofCode op ++ operand.content
  | .binary op lhs rhs => lhs.content ++ .operator op ++ rhs.content
termination_by structural e => e

def Label.content : Label → Content
  | .bare => .empty
  | .name name => .ofCode name ++ .ofCode "="
  | .key key => key.content ++ .ofCode ":"
termination_by structural l => l

def Sequence.content : Sequence → Content
  | ⟨items, trailing⟩ => Item.contentAll items ++ .ofComments trailing
termination_by structural s => s

def Item.contentAll : List Item → Content
  | [] => .empty
  | ⟨comments, label, value, suffix⟩ :: items =>
    .ofComments comments ++ label.content ++ value.content ++ .ofComments suffix.toList ++
      .comma items.isEmpty ++ Item.contentAll items
termination_by structural items => items

def Expr.contentAll : List Expr → Content
  | [] => .empty
  | e :: es => e.content ++ .comma es.isEmpty ++ Expr.contentAll es
termination_by structural es => es

end

theorem Expr.content_attach (base : Expr) (name : String) :
    (base.attach name).content = (Expr.dot base name).content := by
  cases base with
  | number text => simp only [attach, content, Content.ofCode_append]
  | _ => rfl

def Expr.Retained (e : Expr) : Prop := e.reread.content = e.content

theorem Label.content_reread {i : Item} (h : i.All Expr.Retained) :
    i.label.reread.content = i.label.content := by
  cases hl : i.label with
  | bare => rfl
  | name name => rfl
  | key key =>
    have hkey : key.reread.content = key.content := h.2 key hl
    simp only [reread, content, hkey]

theorem Item.contentAll_reread {items : List Item} (h : ∀ i ∈ items, i.All Expr.Retained) :
    contentAll (items.map reread) = contentAll items := by
  induction items with
  | nil => rfl
  | cons i items ih =>
    obtain ⟨hi, his⟩ := List.forall_mem_cons.mp h
    have hlabel := Label.content_reread hi
    have hvalue : i.value.reread.content = i.value.content := hi.1
    obtain ⟨comments, label, value, suffix⟩ := i
    simp only [List.map_cons, reread, contentAll, hlabel, hvalue, ih his, List.isEmpty_map]

theorem Sequence.content_reread {s : Sequence} (h : ∀ i ∈ s.items, i.All Expr.Retained) :
    s.reread.content = s.content := by
  obtain ⟨items, trailing⟩ := s
  simp only [reread, content, Item.rereadAll_eq_map, Item.contentAll_reread h]

namespace Expr

theorem contentAll_reread {es : List Expr} (h : ∀ e ∈ es, e.Retained) :
    contentAll (es.map reread) = contentAll es := by
  induction es with
  | nil => rfl
  | cons e es ih =>
    obtain ⟨he, hes⟩ := List.forall_mem_cons.mp h
    have he : e.reread.content = e.content := he
    simp only [List.map_cons, contentAll, he, ih hes, List.isEmpty_map]

theorem content_reread {strict : Bool} {e : Expr} (h : e.Fits strict) : e.reread.content = e.content := by
  induction h with
  | ident => rfl
  | number => rfl
  | fresh => rfl
  | string => rfl
  | list hs _ ih =>
    have := Sequence.content_reread (hs.all (by decide) fun i hi => ih i hi)
    simp only [reread, content, this]
  | dict _ _ _ ihk ih =>
    have := Sequence.content_reread (fun i hi => ⟨ih i hi, ihk i hi⟩)
    simp only [reread, content, this]
  | tuple _ ih => simp only [reread, content, rereadAll_eq_map, contentAll_reread ih]
  | paren _ ih => simp only [reread, content, ih]
  | call _ _ hs _ ihc ih =>
    have := Sequence.content_reread (hs.all (by decide) fun i hi => ih i hi)
    simp only [reread, content, ihc, this]
  | dot _ _ _ _ _ ih => rw [reread, content_attach, content, content, ih]
  | index _ _ _ ihb ihi => simp only [reread, content, ihb, ihi]
  | negation _ _ ih => simp only [reread, content, ih]
  | sign _ _ _ ih => simp only [reread, content, ih]
  | binary _ _ _ _ _ ihl ihr => simp only [reread, content, ihl, ihr]

end Expr
end BuildSync
