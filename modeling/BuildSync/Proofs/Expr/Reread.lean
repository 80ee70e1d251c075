import BuildSync.Expr.Printer
import BuildSync.Proofs.Expr.Joined

namespace BuildSync

namespace Expr

/-- A dot and a name behind an expression as they are read where no blank parts them: a number
takes them in. -/
def attach (base : Expr) (name : String) : Expr :=
  match base with
  | .number text => .number (text ++ "." ++ name)
  | base => .dot base name

end Expr

mutual

def Expr.reread : Expr → Expr
  | .ident name => .ident name
  | .number text => .number text
  | .string value spelling => .string value (some (spelling.getD (quoted value)))
  | .list elements => .list elements.reread
  | .dict entries => .dict entries.reread
  | .tuple items => .tuple (Expr.rereadAll items)
  | .paren inner => .paren inner.reread
  | .call callee args => .call callee.reread args.reread
  | .dot base name => base.reread.attach name
  | .index base index => .index base.reread index.reread
  | .unary op operand => .unary op operand.reread
  | .binary op lhs rhs => .binary op lhs.reread rhs.reread
termination_by structural e => e

def Label.reread : Label → Label
  | .bare => .bare
  | .name name => .name name
  | .key key => .key key.reread
termination_by structural l => l

def Item.reread : Item → Item
  | ⟨comments, label, value, suffix⟩ => ⟨comments, label.reread, value.reread, suffix⟩
termination_by structural i => i

def Sequence.reread : Sequence → Sequence
  | ⟨items, trailing⟩ => ⟨Item.rereadAll items, trailing⟩
termination_by structural s => s

def Item.rereadAll : List Item → List Item
  | [] => []
  | item :: items => item.reread :: Item.rereadAll items
termination_by structural items => items

def Expr.rereadAll : List Expr → List Expr
  | [] => []
  | e :: es => e.reread :: Expr.rereadAll es
termination_by structural es => es

end

mutual

def Expr.dotsNumber : Expr → Bool
  | .ident _ => false
  | .number _ => false
  | .string _ _ => false
  | .list elements => elements.dotsNumber
  | .dict entries => entries.dotsNumber
  | .tuple items => Expr.anyDotsNumber items
  | .paren inner => inner.dotsNumber
  | .call callee args => callee.dotsNumber || args.dotsNumber
  | .dot base _ => base.isNumber || base.dotsNumber
  | .index base index => base.dotsNumber || index.dotsNumber
  | .unary _ operand => operand.dotsNumber
  | .binary _ lhs rhs => lhs.dotsNumber || rhs.dotsNumber
termination_by structural e => e

def Label.dotsNumber : Label → Bool
  | .bare => false
  | .name _ => false
  | .key key => key.dotsNumber
termination_by structural l => l

def Item.dotsNumber : Item → Bool
  | ⟨_, label, value, _⟩ => label.dotsNumber || value.dotsNumber
termination_by structural i => i

def Sequence.dotsNumber : Sequence → Bool
  | ⟨items, _⟩ => Item.anyDotsNumber items
termination_by structural s => s

def Item.anyDotsNumber : List Item → Bool
  | [] => false
  | item :: items => item.dotsNumber || Item.anyDotsNumber items
termination_by structural items => items

def Expr.anyDotsNumber : List Expr → Bool
  | [] => false
  | e :: es => e.dotsNumber || Expr.anyDotsNumber es
termination_by structural es => es

end

namespace Item

theorem rereadAll_eq_map (items : List Item) : rereadAll items = items.map reread := by
  induction items with
  | nil => rfl
  | cons item items ih => rw [rereadAll, ih, List.map_cons]

@[simp] theorem comments_reread (i : Item) : i.reread.comments = i.comments := by
  cases i; rfl

@[simp] theorem suffix_reread (i : Item) : i.reread.suffix = i.suffix := by
  cases i; rfl

@[simp] theorem label_reread (i : Item) : i.reread.label = i.label.reread := by
  cases i; rfl

@[simp] theorem value_reread (i : Item) : i.reread.value = i.value.reread := by
  cases i; rfl

@[simp] theorem hasComments_reread (i : Item) : i.reread.hasComments = i.hasComments := by
  simp [hasComments]

end Item

namespace Sequence

@[simp] theorem items_reread (s : Sequence) : s.reread.items = s.items.map Item.reread := by
  cases s
  exact Item.rereadAll_eq_map _

@[simp] theorem trailing_reread (s : Sequence) : s.reread.trailing = s.trailing := by
  cases s; rfl

@[simp] theorem hasComments_reread (s : Sequence) : s.reread.hasComments = s.hasComments := by
  simp [hasComments, Function.comp_def]

end Sequence

namespace Expr

theorem rereadAll_eq_map (es : List Expr) : rereadAll es = es.map reread := by
  induction es with
  | nil => rfl
  | cons e es ih => rw [rereadAll, ih, List.map_cons]

@[simp] theorem level_attach (base : Expr) (name : String) : (base.attach name).level = .access := by
  cases base <;> rfl

theorem attach_dot {base : Expr} (h : base.isNumber = false) (name : String) :
    base.attach name = .dot base name := by
  cases base <;> first | rfl | cases h

@[simp] theorem level_reread (e : Expr) : e.reread.level = e.level := by
  cases e <;> first | rfl | exact level_attach _ _

end Expr

namespace Label

theorem Suits.reread {b : Bracket} {l : Label} (h : l.Suits b) : l.reread.Suits b := by
  cases b <;> cases l <;> exact h

end Label

theorem Sequence.Framed.reread {b : Bracket} {s : Sequence} (h : s.Framed b) : s.reread.Framed b where
  labels i hi := by
    rw [items_reread] at hi
    obtain ⟨j, hj, rfl⟩ := List.mem_map.mp hi
    rw [Item.label_reread]
    exact (h.labels j hj).reread
  comments i hi := by
    rw [items_reread] at hi
    obtain ⟨j, hj, rfl⟩ := List.mem_map.mp hi
    rw [Item.comments_reread]
    exact h.comments j hj
  suffixes i hi := by
    rw [items_reread] at hi
    obtain ⟨j, hj, rfl⟩ := List.mem_map.mp hi
    rw [Item.suffix_reread]
    exact h.suffixes j hj
  trailing := by
    rw [trailing_reread]
    exact h.trailing

namespace Expr

theorem forall_items_reread {P Q : Expr → Prop} {s : Sequence} (hP : ∀ e, P e → Q e.reread)
    (h : ∀ i ∈ s.items, P i.value) : ∀ i ∈ s.reread.items, Q i.value := by
  intro i hi
  rw [Sequence.items_reread] at hi
  obtain ⟨j, hj, rfl⟩ := List.mem_map.mp hi
  rw [Item.value_reread]
  exact hP _ (h j hj)

theorem fits_attach {base : Expr} {name : String} (hb : base.Fits true) (hl : base.level = .access)
    (hi : identifier name = true) (hr : name ∉ reserved) : (base.attach name).Fits true := by
  cases hn : base.isNumber with
  | false =>
    rw [attach_dot hn]
    exact .dot hb hl (fun _ => hn) hi hr
  | true =>
    cases base with
    | number text =>
      cases hb with
      | number h => exact .number (h.number_dot hi)
    | _ => cases hn

theorem fits_reread {strict : Bool} {e : Expr} (h : e.Fits strict) : e.reread.Fits true := by
  induction h with
  | ident hi hr => exact .ident hi hr
  | number h => exact .number h
  | fresh _ value => exact .string (.of_quoted value)
  | string h => exact .string h
  | list hs _ ih => exact .list hs.reread (forall_items_reread (fun _ h => h) ih)
  | @dict s hs _ _ ihk ih =>
    refine .dict hs.reread (fun i hi k hk => ?_) (forall_items_reread (fun _ h => h) ih)
    rw [Sequence.items_reread] at hi
    obtain ⟨j, hj, rfl⟩ := List.mem_map.mp hi
    rw [Item.label_reread] at hk
    cases hl : j.label with
    | key key =>
      rw [hl] at hk
      cases hk
      exact ihk j hj key hl
    | _ =>
      rw [hl] at hk
      cases hk
  | tuple _ ih =>
    rw [reread, rereadAll_eq_map]
    exact .tuple (List.forall_mem_map.mpr ih)
  | paren _ ih => exact .paren ih
  | call _ hl hs _ ihc ih =>
    exact .call ihc ((level_reread _).trans hl) hs.reread (forall_items_reread (fun _ h => h) ih)
  | dot _ hl _ hi hr ih => exact fits_attach ih ((level_reread _).trans hl) hi hr
  | index _ hl _ ihb ihi => exact .index ihb ((level_reread _).trans hl) ihi
  | negation _ hl ih => exact .negation ih (by rwa [level_reread])
  | sign ho _ hl ih => exact .sign ho ih (by rwa [level_reread])
  | binary ho _ hll _ hrl ihl ihr =>
    exact .binary ho ihl (by rwa [level_reread]) ihr (by rwa [level_reread])

theorem print_attach (level : Nat) (spread : Bool) (base : Expr) (name : String) :
    (base.attach name).print level spread = base.print level false ++ "." ++ name := by
  cases base <;> simp [attach, print]

def Kept (e : Expr) : Prop := ∀ level spread, e.reread.print level spread = e.print level spread

end Expr

namespace Item

theorem print_label_reread {i : Item} (h : i.All Expr.Kept) (level : Nat) :
    i.label.reread.print level = i.label.print level := by
  cases hl : i.label with
  | bare => rfl
  | name name => rfl
  | key key => simp only [Label.reread, Label.print, h.2 key hl level false]

theorem printLines_reread {items : List Item} (h : ∀ i ∈ items, i.All Expr.Kept) (level : Nat)
    (spread : Bool) : printLines level spread (items.map reread) = printLines level spread items := by
  induction items with
  | nil => rfl
  | cons i items ih =>
    obtain ⟨hi, his⟩ := List.forall_mem_cons.mp h
    have hlabel := print_label_reread hi level
    have hvalue := hi.1 level spread
    obtain ⟨comments, label, value, suffix⟩ := i
    simp only [List.map_cons, reread, printLines, hlabel, hvalue, ih his]

theorem printInline_reread {items : List Item} (h : ∀ i ∈ items, i.All Expr.Kept) (level : Nat) :
    printInline level (items.map reread) = printInline level items := by
  induction items with
  | nil => rfl
  | cons i items ih =>
    obtain ⟨hi, his⟩ := List.forall_mem_cons.mp h
    have hlabel := print_label_reread hi level
    have hvalue := hi.1 level false
    obtain ⟨comments, label, value, suffix⟩ := i
    simp only [List.map_cons, reread, printInline, hlabel, hvalue, ih his, List.isEmpty_map]

end Item

theorem Sequence.print_reread {s : Sequence} (h : ∀ i ∈ s.items, i.All Expr.Kept) (level : Nat)
    (lines spread : Bool) : s.reread.print level lines spread = s.print level lines spread := by
  obtain ⟨items, trailing⟩ := s
  simp only [reread, print, Item.rereadAll_eq_map, Item.printLines_reread h, Item.printInline_reread h]

namespace Expr

theorem printAll_reread {es : List Expr} (h : ∀ e ∈ es, e.Kept) (level : Nat) :
    printAll level (es.map reread) = printAll level es := by
  induction es with
  | nil => rfl
  | cons e es ih =>
    obtain ⟨he, hes⟩ := List.forall_mem_cons.mp h
    simp only [List.map_cons, printAll, he level false, ih hes, List.isEmpty_map]

theorem print_reread {strict : Bool} {e : Expr} (h : e.Fits strict) (level : Nat) (spread : Bool) :
    e.reread.print level spread = e.print level spread := by
  induction h generalizing level spread with
  | ident => rfl
  | number => rfl
  | fresh => rfl
  | string => rfl
  | list hs _ ih =>
    have := Sequence.print_reread (hs.all (by decide) fun i hi => ih i hi) level
    simp [reread, print, this]
  | dict hs _ _ ihk ih =>
    have := Sequence.print_reread (fun i hi => ⟨ih i hi, ihk i hi⟩) level
    simp [reread, print, this]
  | tuple _ ih => simp [reread, print, rereadAll_eq_map, printAll_reread ih]
  | paren _ ih => simp [reread, print, ih]
  | call _ _ hs _ ihc ih =>
    have := Sequence.print_reread (hs.all (by decide) fun i hi => ih i hi) level
    simp [reread, print, this, ihc]
  | dot _ _ _ _ _ ih => rw [reread, print_attach, ih, print]
  | index _ _ _ ihb ihi => simp [reread, print, ihb, ihi]
  | negation _ _ ih => simp [reread, print, ih]
  | sign _ _ _ ih => simp [reread, print, ih]
  | binary _ _ _ _ _ ihl ihr => simp [reread, print, ihl, ihr]

theorem spreads_reread (e : Expr) : e.reread.spreads = e.spreads := by
  fun_induction spreads e with
  | case1 elements => simp [reread, spreads]
  | case2 entries => simp [reread, spreads]
  | case3 op lhs rhs ihl ihr => rw [reread, spreads, ihl, ihr]
  | case4 e hlist hdict hbinary =>
    cases e with
    | list s => exact absurd rfl (hlist s)
    | dict s => exact absurd rfl (hdict s)
    | binary op lhs rhs => exact absurd rfl (hbinary op lhs rhs)
    | dot base name =>
      rw [reread]
      cases base.reread <;> rfl
    | _ => rfl

theorem text?_reread (e : Expr) : e.reread.text? = e.text? := by
  cases e with
  | dot base name =>
    rw [reread]
    cases base.reread <;> rfl
  | _ => rfl

theorem textList?_reread (e : Expr) : e.reread.textList? = e.textList? := by
  cases e with
  | dot base name =>
    rw [reread]
    cases base.reread <;> rfl
  | list s =>
    have hitem : (fun i : Item => i.value.text?) ∘ Item.reread = fun i => i.value.text? :=
      funext fun i => by simp [text?_reread]
    rw [reread, textList?, Sequence.items_reread, List.mapM_map, hitem, textList?]
  | _ => rfl

theorem dottedName?_attach (base : Expr) (name : String) :
    (base.attach name).dottedName? = base.dottedName?.map (· ++ "." ++ name) := by
  cases base <;> rfl

theorem dottedName?_reread (e : Expr) : e.reread.dottedName? = e.dottedName? := by
  fun_induction dottedName? e with
  | case1 name => rfl
  | case2 base name ih => rw [reread, dottedName?_attach, ih]
  | case3 e hident hdot =>
    cases e with
    | ident name => exact absurd rfl (hident name)
    | dot base name => exact absurd rfl (hdot base name)
    | _ => rfl

/-- Reading back changes the tree just where a dot stands behind a number. -/
def Marked (e : Expr) : Prop := e.reread.alike e = !e.dotsNumber

end Expr

namespace Item

theorem alike_label_reread {i : Item} (h : i.All Expr.Marked) :
    i.label.reread.alike i.label = !i.label.dotsNumber := by
  cases hl : i.label with
  | bare => rfl
  | name name => simp [Label.reread, Label.alike, Label.dotsNumber]
  | key key =>
    have hkey : key.reread.alike key = !key.dotsNumber := h.2 key hl
    simpa only [Label.reread, Label.alike, Label.dotsNumber] using hkey

theorem allAlike_reread {items : List Item} (h : ∀ i ∈ items, i.All Expr.Marked) :
    allAlike (items.map reread) items = !anyDotsNumber items := by
  induction items with
  | nil => rfl
  | cons i items ih =>
    obtain ⟨hi, his⟩ := List.forall_mem_cons.mp h
    have hlabel := alike_label_reread hi
    have hvalue : i.value.reread.alike i.value = _ := hi.1
    obtain ⟨comments, label, value, suffix⟩ := i
    simp only [List.map_cons, reread, allAlike, alike, anyDotsNumber, dotsNumber, hlabel, hvalue, ih his]
    simp

end Item

theorem Sequence.alike_reread {s : Sequence} (h : ∀ i ∈ s.items, i.All Expr.Marked) :
    s.reread.alike s = !s.dotsNumber := by
  obtain ⟨items, trailing⟩ := s
  simp only [reread, alike, dotsNumber, Item.rereadAll_eq_map, Item.allAlike_reread h]
  simp

namespace Expr

theorem allAlike_reread {es : List Expr} (h : ∀ e ∈ es, e.Marked) :
    allAlike (es.map reread) es = !anyDotsNumber es := by
  induction es with
  | nil => rfl
  | cons e es ih =>
    obtain ⟨he, hes⟩ := List.forall_mem_cons.mp h
    have he : e.reread.alike e = _ := he
    simp only [List.map_cons, allAlike, anyDotsNumber, he, ih hes]
    simp

theorem isNumber_reread (e : Expr) (h : e.reread.isNumber = true) :
    (e.isNumber || e.dotsNumber) = true := by
  fun_induction dottedName? e with
  | case1 name => cases h
  | case2 base name ih =>
    cases hb : base.reread.isNumber with
    | true => simpa [isNumber, dotsNumber] using ih hb
    | false =>
      rw [reread, attach_dot hb] at h
      cases h
  | case3 e hident hdot =>
    cases e with
    | number text => rfl
    | dot base name => exact absurd rfl (hdot base name)
    | _ => cases h

theorem alike_dot_number {base : Expr} {name text : String} (h : base.reread = .number text) :
    (dot base name).reread.alike (dot base name) = !(dot base name).dotsNumber := by
  have := isNumber_reread base (by rw [h]; rfl)
  simp only [reread, h, attach, dotsNumber, this, alike, Bool.not_true]

theorem alike_reread {strict : Bool} {e : Expr} (h : e.Fits strict) : e.reread.alike e = !e.dotsNumber := by
  induction h with
  | ident => simp [reread, alike, dotsNumber]
  | number => simp [reread, alike, dotsNumber]
  | fresh => simp [reread, alike, dotsNumber]
  | string => simp [reread, alike, dotsNumber]
  | list hs _ ih =>
    simpa only [reread, alike, dotsNumber] using
      Sequence.alike_reread (hs.all (by decide) fun i hi => ih i hi)
  | dict hs _ _ ihk ih =>
    simpa only [reread, alike, dotsNumber] using Sequence.alike_reread (fun i hi => ⟨ih i hi, ihk i hi⟩)
  | tuple _ ih =>
    simpa only [reread, alike, dotsNumber, rereadAll_eq_map] using allAlike_reread ih
  | paren _ ih => simpa only [reread, alike, dotsNumber] using ih
  | call _ _ hs _ ihc ih =>
    have := Sequence.alike_reread (hs.all (by decide) fun i hi => ih i hi)
    simp [reread, alike, dotsNumber, this, ihc]
  | @dot base name _ _ _ _ _ ih =>
    cases hn : base.reread.isNumber with
    | true =>
      cases hr : base.reread with
      | number text => exact alike_dot_number hr
      | _ => rw [hr] at hn; cases hn
    | false =>
      have hb : base.isNumber = false := by
        cases base <;> first | rfl | cases hn
      simp only [reread, attach_dot hn, alike, dotsNumber, ih, hb, Bool.false_or, beq_self_eq_true,
        Bool.and_true]
  | index _ _ _ ihb ihi => simp [reread, alike, dotsNumber, ihb, ihi]
  | negation _ _ ih => simp [reread, alike, dotsNumber, ih]
  | sign _ _ _ ih => simp [reread, alike, dotsNumber, ih]
  | binary _ _ _ _ _ ihl ihr => simp [reread, alike, dotsNumber, ihl, ihr]

end Expr
end BuildSync
