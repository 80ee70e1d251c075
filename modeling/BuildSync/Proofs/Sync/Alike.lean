import BuildSync.Proofs.Expr.Alike
import BuildSync.Proofs.Sync.Related

namespace BuildSync

namespace Rule

variable {r s : Rule}

theorem alike_iff : r.alike s = true ↔ r.comments = s.comments ∧ r.call.callee.alike s.call.callee = true ∧
    r.call.args.alike s.call.args = true ∧ r.suffix = s.suffix := by
  simp [alike, Call.alike, and_assoc]

theorem alike_refl (r : Rule) : r.alike r = true :=
  alike_iff.mpr ⟨rfl, Expr.alike_refl _, Sequence.alike_refl _, rfl⟩

theorem args_of_alike (h : r.alike s = true) : List.Forall₂ (fun i j => i.alike j = true) r.args s.args :=
  (Sequence.alike_iff.mp (alike_iff.mp h).2.2.1).1

theorem kind_of_alike (h : r.alike s = true) : r.kind = s.kind := by
  rw [kind, kind, Expr.dottedName?_of_alike (alike_iff.mp h).2.1]

theorem find?_alike {is js : List Item} (h : List.Forall₂ (fun i j => i.alike j = true) is js) (key : String) :
    Option.Rel (fun a b => a.alike b = true) ((is.find? (·.name? == some key)).map (·.value))
      ((js.find? (·.name? == some key)).map (·.value)) := by
  induction h with
  | nil => exact .none
  | @cons i j is js hij _ ih =>
    rw [List.find?_cons, List.find?_cons, Item.name?_of_alike hij]
    cases j.name? == some key with
    | true => exact .some (Item.alike_iff.mp hij).2.2.1
    | false => exact ih

theorem attr?_of_alike (h : r.alike s = true) (key : String) :
    Option.Rel (fun a b => a.alike b = true) (r.attr? key) (s.attr? key) :=
  find?_alike (args_of_alike h) key

theorem name?_of_alike (h : r.alike s = true) : r.name? = s.name? := by
  have hattr := attr?_of_alike h "name"
  rw [name?, name?]
  generalize r.attr? "name" = a at hattr
  generalize s.attr? "name" = b at hattr
  cases hattr with
  | none => rfl
  | some hab => exact Expr.text?_of_alike hab

theorem getTexts_of_alike (h : r.alike s = true) (key : String) : r.getTexts key = s.getTexts key := by
  have herror (expected : Shape) : r.shapeError key expected = s.shapeError key expected := by
    rw [shapeError, shapeError, Rule.key, Rule.key, kind_of_alike h, name?_of_alike h]
  have hattr := attr?_of_alike h key
  rw [getTexts, getTexts, herror]
  generalize r.attr? key = a at hattr
  generalize s.attr? key = b at hattr
  cases hattr with
  | none => rfl
  | some hab => simp only [Expr.textList?_of_alike hab]

theorem setItem_alike {is js : List Item} (h : List.Forall₂ (fun i j => i.alike j = true) is js) (key : String)
    (value : Expr) : List.Forall₂ (fun i j => i.alike j = true) (setItem key value is) (setItem key value js) := by
  induction h with
  | nil => exact .cons (Item.alike_refl _) .nil
  | @cons i j is js hij his ih =>
    obtain ⟨hcomments, hlabel, -, hsuffix⟩ := Item.alike_iff.mp hij
    rw [setItem, setItem, Item.name?_of_alike hij]
    split_ifs
    · exact .cons (Item.alike_iff.mpr ⟨hcomments, hlabel, Expr.alike_refl value, hsuffix⟩) his
    · exact .cons hij ih

theorem setAttr_alike (h : r.alike s = true) (key : String) (value : Expr) :
    (r.setAttr key value).alike (s.setAttr key value) = true := by
  obtain ⟨hcomments, hcallee, hargs, hsuffix⟩ := alike_iff.mp h
  have hitems := setItem_alike (args_of_alike h) key value
  exact alike_iff.mpr ⟨hcomments, hcallee, Sequence.alike_iff.mpr ⟨hitems, (Sequence.alike_iff.mp hargs).2⟩, hsuffix⟩

theorem indistinct_alike : Indistinct fun r s => r.alike s = true where
  new _ := alike_refl _
  kind := kind_of_alike
  name := name?_of_alike
  getTexts := getTexts_of_alike
  set h key value := setAttr_alike h key value.toExpr

end Rule

namespace Statement

theorem alike_iff {a b : Statement} : a.alike b = true ↔ Related (fun r s => r.alike s = true) a b := by
  constructor
  · intro h
    cases a <;> cases b <;> first | exact absurd h Bool.false_ne_true | skip
    case rule.rule => exact .rule h
    case comment.comment =>
      rw [eq_of_beq h]
      exact .other rfl
    case verbatim.verbatim =>
      rw [alike, Bool.and_eq_true] at h
      rw [eq_of_beq h.1, eq_of_beq h.2]
      exact .other rfl
  · intro h
    cases h with
    | rule h => exact h
    | other h => cases a <;> simp_all [alike, rule?]

theorem allAlike_iff {ss ts : List Statement} :
    allAlike ss ts = true ↔ List.Forall₂ (Related fun r s => r.alike s = true) ss ts := by
  induction ss generalizing ts with
  | nil => cases ts <;> simp [allAlike]
  | cons a ss ih => cases ts <;> simp [allAlike, alike_iff, ih]

end Statement

namespace Document

variable {d d' : Document}

theorem alike_iff : d.alike d' = true ↔ d.Related (fun r s => r.alike s = true) d' := Statement.allAlike_iff

/-- How the strings of a document are spelled makes no difference to what is done to it. -/
theorem sync_alike (h : d.alike d' = true) :
    (∀ ps, Agree (fun a b => a.1 = b.1 ∧ a.2.alike b.2 = true) (d.addRpms ps) (d'.addRpms ps)) ∧
      (∀ name ps files, (d.addBundle name ps files).1 = (d'.addBundle name ps files).1 ∧
        (d.addBundle name ps files).2.alike (d'.addBundle name ps files).2 = true) ∧
      ∀ kind name,
        List.Forall₂ (fun r s => r.alike s = true) (d.removeRules kind name).1 (d'.removeRules kind name).1 ∧
          (d.removeRules kind name).2.alike (d'.removeRules kind name).2 = true := by
  simp only [alike_iff] at h ⊢
  refine ⟨?_, ?_, ?_⟩
  · exact related_addRpms Rule.indistinct_alike h
  · exact related_addBundle Rule.indistinct_alike h
  · exact related_removeRules Rule.indistinct_alike h

def spelled (name url : String) : Document :=
  ⟨"BUILD", .build,
    [.rule ⟨["# b"], ⟨.ident "rpm", ⟨[.keyword "name" (.string "b" (some name)),
      .keyword "urls" (.list ⟨[.element (.string "u" (some url))], []⟩)], []⟩⟩, none⟩]⟩

theorem sync_alike_spelled :
    (spelled "'b'" "r'u'").alike (spelled "\"b\"" "\"u\"") = true ∧
      ∀ ps, Agree (fun a b => a.1 = b.1 ∧ a.2.alike b.2 = true) ((spelled "'b'" "r'u'").addRpms ps)
        ((spelled "\"b\"" "\"u\"").addRpms ps) := by
  have h : (spelled "'b'" "r'u'").alike (spelled "\"b\"" "\"u\"") = true := by decide
  exact ⟨h, (sync_alike h).1⟩

end Document
end BuildSync
