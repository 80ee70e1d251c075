import BuildSync.Proofs.Statement.Reread
import BuildSync.Rule.Shape
import Mathlib.Data.String.Basic

namespace String

theorem splitOnAux_dot (l : List Char) {r : List Char} (h : '.' ∉ r) :
    splitOnAux (ofList (l ++ r)) "." 0 ⟨utf8Len l⟩ 0 [] = [ofList (l ++ r)] := by
  induction r generalizing l with
  | nil =>
    rw [splitOnAux, if_pos ((atEnd_of_valid l []).mpr rfl)]
    simpa [-ofList_append] using extract_of_valid [] l []
  | cons c r ih =>
    have hc : c ≠ '.' := fun hc => h (hc ▸ List.mem_cons_self)
    have hend : ¬Pos.Raw.atEnd (ofList (l ++ c :: r)) ⟨utf8Len l⟩ = true := fun hend =>
      List.cons_ne_nil c r ((atEnd_of_valid l (c :: r)).mp hend)
    have hget : Pos.Raw.get (ofList (l ++ c :: r)) ⟨utf8Len l⟩ = c := get_of_valid l (c :: r)
    have hdot : Pos.Raw.get "." 0 = '.' := by decide
    have hzero : Pos.Raw.unoffsetBy ⟨utf8Len l⟩ 0 = ⟨utf8Len l⟩ := rfl
    rw [splitOnAux, if_neg hend, hget, hdot, if_neg (by simpa using hc), hzero, next_of_valid]
    simpa [-ofList_append] using ih (l ++ [c]) fun hr => h (List.mem_cons_of_mem c hr)

theorem splitOn_dot {s : String} (h : '.' ∉ s.toList) : s.splitOn "." = [s] := by
  rw [splitOn, if_neg (by decide)]
  simpa using splitOnAux_dot [] h

end String

namespace BuildSync

namespace Item

theorem reread_eq_self {i : Item} (hl : i.label.reread = i.label) (hv : i.value.reread = i.value) :
    i.reread = i := by
  cases i
  simp only [reread] at hl hv ⊢
  rw [hl, hv]

end Item

theorem Sequence.reread_eq_self {s : Sequence} (h : ∀ i ∈ s.items, i.All fun e => e.reread = e) :
    s.reread = s := by
  have hitems : s.items.map Item.reread = s.items := by
    refine (List.map_congr_left fun i hi => ?_).trans (List.map_id _)
    refine Item.reread_eq_self ?_ (h i hi).1
    cases hl : i.label with
    | key k => exact congrArg Label.key ((h i hi).2 k hl)
    | _ => rfl
  cases s
  rw [Sequence.reread, Item.rereadAll_eq_map]
  exact congrArg (Sequence.mk · _) hitems

namespace Expr

theorem reread_eq_self {e : Expr} (h : e.Fits true) : e.reread = e := by
  induction h with
  | ident => rfl
  | number => rfl
  | fresh hf => cases hf
  | string => rfl
  | list hs _ ih => exact congrArg list (Sequence.reread_eq_self (hs.all (by decide) ih))
  | dict _ _ _ ihk ih => exact congrArg dict (Sequence.reread_eq_self fun i hi => ⟨ih i hi, ihk i hi⟩)
  | tuple _ ih =>
    rw [reread, rereadAll_eq_map]
    exact congrArg tuple ((List.map_congr_left ih).trans (List.map_id _))
  | paren _ ih => exact congrArg paren ih
  | call _ _ hs _ ihc ih => exact congrArg₂ call ihc (Sequence.reread_eq_self (hs.all (by decide) ih))
  | dot _ _ hn _ _ ih => rw [reread, ih, attach_dot (hn rfl)]
  | index _ _ _ ihb ihi => exact congrArg₂ index ihb ihi
  | negation _ _ ih => exact congrArg (unary _) ih
  | sign _ _ _ ih => exact congrArg (unary _) ih
  | binary _ _ _ _ _ ihl ihr => exact congrArg₂ (binary _) ihl ihr

theorem reread_reread {strict : Bool} {e : Expr} (h : e.Fits strict) : e.reread.reread = e.reread :=
  reread_eq_self (fits_reread h)

theorem fits_text (value : String) : (text value).Fits false := .fresh rfl value

theorem fits_textList (values : List String) : (textList values).Fits false := by
  refine .list ⟨?_, ?_, ?_, nofun⟩ ?_ <;> intro i hi <;> obtain ⟨v, -, rfl⟩ := List.mem_map.mp hi
  · trivial
  · exact nofun
  · exact nofun
  · exact fits_text v

end Expr

namespace Rule

variable {r s : Rule} {key key' : String} {value : Expr}

def expr (r : Rule) : Expr := .call r.call.callee r.call.args

theorem reread_eq_of_expr {r : Rule} (h : r.expr.Fits false) : r.reread.reread = r.reread := by
  have := Expr.reread_reread h
  simp only [expr, Expr.reread, Expr.call.injEq] at this
  simp only [reread, this.1, this.2]

theorem name?_reread (i : Item) : i.reread.name? = i.name? := by
  rw [Item.name?, Item.name?, Item.label_reread]
  cases i.label <;> rfl

theorem find?_reread (key : String) (items : List Item) :
    (items.map Item.reread).find? (·.name? == some key) = (items.find? (·.name? == some key)).map Item.reread := by
  rw [List.find?_map]
  congr 2
  funext i
  exact congrArg (· == some key) (name?_reread i)

theorem attr?_reread (r : Rule) (key : String) : r.reread.attr? key = (r.attr? key).map Expr.reread := by
  rw [attr?, attr?, args_reread, find?_reread, Option.map_map, Option.map_map]
  congr 1
  funext i
  exact i.value_reread

theorem name_reread (r : Rule) : r.reread.name? = r.name? := by
  rw [name?, name?, attr?_reread, Option.bind_map]
  congr 1
  funext e
  exact Expr.text?_reread e

@[simp] theorem key_reread (r : Rule) : r.reread.key = r.key := by
  rw [key, key, name_reread]

theorem getTexts_reread (r : Rule) (key : String) : r.reread.getTexts key = r.getTexts key := by
  have herror (expected : Shape) : r.reread.shapeError key expected = r.shapeError key expected := by
    simp [shapeError]
  rw [getTexts, getTexts, attr?_reread, herror]
  cases r.attr? key with
  | none => rfl
  | some e => simp only [Option.map_some, Expr.textList?_reread]

theorem getTexts_congr (h : r.attr? key = s.attr? key) {values : List String}
    (hs : s.getTexts key = .ok values) : r.getTexts key = .ok values := by
  rw [getTexts] at hs ⊢
  rw [h]
  cases he : s.attr? key with
  | none => simpa [he] using hs
  | some e =>
    rw [he] at hs
    simp only at hs ⊢
    cases hv : e.textList? with
    | none =>
      rw [hv] at hs
      cases hs
    | some vs =>
      rw [hv] at hs
      exact hs

theorem getTexts_setTexts (r : Rule) (key : String) (values : List String) :
    (r.setTexts key values).getTexts key = .ok values := by
  rw [getTexts, setTexts, set, attr?_setAttr]
  simp only [AttrValue.toExpr, Expr.textList?_textList]

theorem setItem_reread (key : String) (value : Expr) (items : List Item) :
    (setItem key value items).map Item.reread = setItem key value.reread (items.map Item.reread) := by
  induction items with
  | nil => rfl
  | cons i items ih =>
    rw [List.map_cons, setItem, setItem, name?_reread]
    split_ifs
    · cases i
      rfl
    · rw [List.map_cons, ih]

theorem reread_setAttr (r : Rule) (key : String) (value : Expr) :
    (r.setAttr key value).reread = r.reread.setAttr key value.reread := by
  have hargs : (r.setAttr key value).call.args.reread =
      ⟨setItem key value.reread (r.args.map Item.reread), r.call.args.trailing⟩ := by
    rw [← setItem_reread]
    exact congrArg (Sequence.mk · _) (Item.rereadAll_eq_map _)
  rw [reread, hargs]
  simp [reread, setAttr, args]

theorem setItem_eq_self {items : List Item}
    (h : (items.find? (·.name? == some key)).map (·.value) = some value) : setItem key value items = items := by
  induction items with
  | nil => cases h
  | cons i items ih =>
    rw [setItem]
    by_cases hi : i.name? = some key
    · rw [List.find?_cons_of_pos (by simpa using hi)] at h
      cases h
      rw [if_pos hi]
      cases i
      rfl
    · rw [List.find?_cons_of_neg (by simpa using hi)] at h
      rw [if_neg hi, ih h]

theorem setAttr_eq_self (h : r.attr? key = some value) : r.setAttr key value = r := by
  have hitems : setItem key value r.call.args.items = r.call.args.items := setItem_eq_self h
  obtain ⟨comments, ⟨callee, args⟩, suffix⟩ := r
  cases args
  simp only [setAttr, args] at hitems ⊢
  rw [hitems]

theorem setItem_setItem (key : String) (value value' : Expr) (items : List Item) :
    setItem key value (setItem key value' items) = setItem key value items := by
  induction items with
  | nil => simp [setItem, Item.keyword, Item.name?]
  | cons i items ih =>
    by_cases hi : i.name? = some key
    · have hi' : ({ i with value := value' } : Item).name? = some key := hi
      rw [setItem, setItem, if_pos hi, if_pos hi, setItem, if_pos hi']
    · rw [setItem, setItem, if_neg hi, if_neg hi, setItem, if_neg hi, ih]

theorem setAttr_setAttr (r : Rule) (key : String) (value value' : Expr) :
    (r.setAttr key value').setAttr key value = r.setAttr key value := by
  simp only [setAttr, args, setItem_setItem]

theorem find?_setItem_ne (hne : key' ≠ key) (value : Expr) (items : List Item) :
    (setItem key value items).find? (·.name? == some key') = items.find? (·.name? == some key') := by
  induction items with
  | nil => simp [setItem, Item.keyword, Item.name?, hne.symm]
  | cons i items ih =>
    rw [setItem]
    split_ifs with hi
    · have hi' : ({ i with value := value } : Item).name? = some key := hi
      simp [hi, hi', hne.symm]
    · rw [List.find?_cons, List.find?_cons, ih]

theorem attr?_setAttr_ne (hne : key' ≠ key) (r : Rule) (value : Expr) :
    (r.setAttr key value).attr? key' = r.attr? key' :=
  congrArg (Option.map _) (find?_setItem_ne hne value r.args)

theorem forall_setItem {P : Item → Prop} {items : List Item} (h : ∀ i ∈ items, P i)
    (hnew : P (.keyword key value)) (hset : ∀ i ∈ items, P { i with value }) :
    ∀ i ∈ setItem key value items, P i := by
  induction items with
  | nil => exact List.forall_mem_singleton.mpr hnew
  | cons i items ih =>
    rw [List.forall_mem_cons] at h hset
    rw [setItem]
    split_ifs
    · exact List.forall_mem_cons.mpr ⟨hset.1, h.2⟩
    · exact List.forall_mem_cons.mpr ⟨h.1, ih h.2 hset.2⟩

theorem fits_setAttr (h : r.expr.Fits false) (hk : identifier key = true) (hv : value.Fits false) :
    (r.setAttr key value).expr.Fits false := by
  unfold expr at h ⊢
  cases h with
  | call hc hl hs hfits =>
    refine .call hc hl ⟨?_, ?_, ?_, hs.trailing⟩ ?_
    · exact forall_setItem hs.labels hk fun i hi => hs.labels i hi
    · exact forall_setItem hs.comments nofun fun i hi => hs.comments i hi
    · exact forall_setItem hs.suffixes nofun fun i hi => hs.suffixes i hi
    · exact forall_setItem hfits hv fun _ _ => hv

variable {kind : String}

theorem new_eq (h : '.' ∉ kind.toList) : Rule.new kind = ⟨[], ⟨.ident kind, .empty⟩, none⟩ := by
  rw [new, String.splitOn_dot h]
  rfl

theorem fits_new (h : '.' ∉ kind.toList) (hi : identifier kind = true)
    (hr : kind ∉ reserved) : (Statement.rule (.new kind)).Fits false := by
  rw [new_eq h]
  exact .rule nofun (.call (.ident hi hr) rfl ⟨nofun, nofun, nofun, nofun⟩ nofun) rfl nofun

theorem kind_new (h : '.' ∉ kind.toList) : (Rule.new kind).kind = kind := by
  rw [new_eq h]
  rfl

theorem setText_eq (r : Rule) (key value : String) : r.setText key value = r.setAttr key (.text value) := rfl

theorem setTexts_eq (r : Rule) (key : String) (values : List String) :
    r.setTexts key values = r.setAttr key (.textList values) := rfl

end Rule

theorem Statement.fits_setAttr {r : Rule} {key : String} {value : Expr} (h : (rule r).Fits false)
    (hk : identifier key = true) (hv : value.Fits false) : (rule (r.setAttr key value)).Fits false := by
  cases h with
  | rule hc hcall hname hs => exact .rule hc (Rule.fits_setAttr hcall hk hv) hname hs

end BuildSync
