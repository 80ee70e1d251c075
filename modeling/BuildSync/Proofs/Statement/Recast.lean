import BuildSync.Proofs.Statement.Grammar
import BuildSync.Proofs.Token.Recast

/-!
The statements of a text with a carriage return in front of each line feed: as many of the same sorts, and rules that
differ at most in the values of string literals which span lines.
-/

namespace BuildSync

open Reading

namespace Token

variable {t u : Token} {ts us : List Token}

theorem Recast.mirrors (h : t.Recast u) : Mirrors Respelled 0 0 t u :=
  ⟨h.looks, congrArg (· + 0) h.line.symm, congrArg (· + 0) h.endLine_eq.symm⟩

theorem Recast.kind_iff (h : t.Recast u) {kind : Kind} (hkind : ∀ value, kind ≠ .string value) :
    u.kind = kind ↔ t.kind = kind := by
  cases h.looks with
  | string ht hu =>
    rw [ht, hu]
    exact ⟨fun h => absurd h.symm (hkind _), fun h => absurd h.symm (hkind _)⟩
  | same hk => rw [hk]

theorem Recast.newline_iff (h : t.Recast u) : u.kind = .newline ↔ t.kind = .newline := h.kind_iff nofun

theorem Recast.end_iff (h : t.Recast u) : u.kind = .endOfText ↔ t.kind = .endOfText := h.kind_iff nofun

theorem Recast.comment_iff (h : t.Recast u) : u.kind = .comment ↔ t.kind = .comment := h.kind_iff nofun

theorem Recast.isFiller_eq (h : t.Recast u) : u.isFiller = t.isFiller := by
  have hcomment : t.isComment = u.isComment := dull_isComment _ _ _ h.looks
  rw [isFiller, isFiller, hcomment, Bool.eq_iff_iff]
  simp [h.newline_iff]

theorem indented_recast (h : List.Forall₂ Recast ts us) :
    (∀ held held', List.Forall₂ Recast held held' → List.Forall₂ Recast (indented held ts) (indented held' us)) ∧
      List.Forall₂ Recast (indentedLine ts) (indentedLine us) := by
  induction h with
  | nil => exact ⟨fun _ _ _ => .nil, .nil⟩
  | @cons t u ts us htu _ ih =>
    obtain ⟨ihBlock, ihLine⟩ := ih
    constructor
    · intro held held' hheld
      rw [indented, indented, htu.isFiller_eq]
      by_cases hfiller : t.isFiller = true
      · rw [if_pos hfiller, if_pos hfiller]
        exact ihBlock _ _ (List.rel_append hheld (.cons htu .nil))
      · have hcolumn := htu.column fun hnewline => hfiller (isFiller_of_newline hnewline)
        rw [if_neg hfiller, if_neg hfiller]
        simp only [htu.end_iff, hcolumn]
        split_ifs
        · exact .nil
        · exact List.rel_append hheld (.cons htu ihLine)
    · rw [indentedLine, indentedLine]
      simp only [htu.newline_iff, htu.end_iff]
      split_ifs
      · exact ihBlock _ _ (.cons htu .nil)
      · exact .nil
      · exact .cons htu ihLine

theorem extent_recast (htu : t.Recast u) (h : List.Forall₂ Recast ts us) :
    List.Forall₂ Recast (extent t ts) (extent u us) := by
  have hline : List.Forall₂ Recast (ts.takeWhile isCode) (us.takeWhile isCode) :=
    takeWhile_forall₂ (fun t u htu => Statement.dull_isCode _ t u htu.looks) h
  have hopens := opensBlock_resembles ((List.Forall₂.cons htu hline).imp fun _ _ h => h.looks)
  unfold extent
  dsimp only
  rw [hopens]
  split_ifs
  · refine List.rel_append hline ((indented_recast ?_).1 [] [] .nil)
    rw [hline.length_eq]
    exact List.forall₂_drop _ h
  · exact hline

end Token

inductive Rule.NameKept (r r' : Rule) : Prop
  | none (h : r.name? = none) (h' : r'.name? = none)
  | some {name spelling name' : String} (h : r.attr? "name" = some (.string name (some spelling)))
    (h' : r'.name? = some name') (hkept : Literal.Kept spelling.toList name.toList name'.toList)

structure Rule.Recast (r r' : Rule) : Prop where
  kind : r'.kind = r.kind
  name : r.NameKept r'
  attrNames : r'.attrNames = r.attrNames
  comments : r'.comments = r.comments
  suffix : r'.suffix = r.suffix

inductive Statement.Recast : Statement → Statement → Prop
  | comment (lines : List String) : Recast (.comment lines) (.comment lines)
  | rule {r r' : Rule} (h : r.Recast r') : Recast (.rule r) (.rule r')
  | verbatim (comments : List String) (text text' : String) :
    Recast (.verbatim comments text) (.verbatim comments text')

theorem Rule.nameKept_of_resembles {r r' : Rule} (h : r.call.Resembles Token.Respelled r'.call) : r.NameKept r' := by
  have hattr := attr?_of_resembles h "name"
  generalize hname : r.attr? "name" = x at hattr
  generalize hname' : r'.attr? "name" = y at hattr
  cases hattr with
  | none => exact .none (by simp [name?, hname]) (by simp [name?, hname'])
  | some h =>
    rcases Expr.literals_of_resembles h with ⟨v, s, w, z, rfl, rfl, -, hkept⟩ | ⟨htext, htext'⟩
    · exact .some hname (by rw [name?, hname']; rfl) hkept
    · exact .none (by simpa [name?, hname] using htext) (by simpa [name?, hname'] using htext')

namespace Statement

open Token

variable {t u : Token} {ts us : List Token}

theorem standalone_recast (comments : List String) :
    List.Forall₂ Recast (standalone comments) (standalone comments) := by
  unfold standalone
  split_ifs
  · exact .nil
  · exact .cons (.comment _) .nil

theorem ofExtent_recast (comments : List String) (h : List.Forall₂ Token.Recast ts us) :
    Recast (ofExtent comments ts) (ofExtent comments us) := by
  have hmirrors := h.imp fun _ _ htu => htu.mirrors
  have hcalls := call?_mirrors hmirrors
  rw [ofExtent_eq, ofExtent_eq, (splitSuffix_mirrors hmirrors).2]
  generalize call? ts = x at hcalls ⊢
  generalize call? us = y at hcalls ⊢
  cases hcalls with
  | none => exact .verbatim _ _ _
  | @some call call' hcall =>
    exact .rule ⟨(Rule.kind_of_resembles hcall).symm, Rule.nameKept_of_resembles hcall,
      (Rule.attrNames_of_resembles hcall).symm, rfl, rfl⟩

theorem ofTokensAfter_recast (comments : List String) (newline : Bool) (h : List.Forall₂ Token.Recast ts us) :
    List.Forall₂ Recast (ofTokensAfter comments newline ts) (ofTokensAfter comments newline us) := by
  induction hn : ts.length using Nat.strong_induction_on generalizing ts us comments newline with
  | _ n ih =>
    subst hn
    cases h with
    | nil =>
      rw [ofTokensAfter]
      exact standalone_recast comments
    | @cons t u ts us htu h =>
      by_cases hend : t.kind = .endOfText
      · rw [ofTokensAfter_end hend, ofTokensAfter_end (htu.end_iff.mpr hend)]
        exact standalone_recast comments
      by_cases hnewline : t.kind = .newline
      · rw [ofTokensAfter_newline hnewline, ofTokensAfter_newline (htu.newline_iff.mpr hnewline)]
        split_ifs
        · exact List.rel_append (standalone_recast comments) (ih ts.length (by simp) _ _ h rfl)
        · exact ih ts.length (by simp) _ _ h rfl
      by_cases hcomment : t.kind = .comment
      · have htext : t.text = u.text := (htu.looks.text_eq (by simp [isString, hcomment])).2
        rw [ofTokensAfter_comment hcomment, ofTokensAfter_comment (htu.comment_iff.mpr hcomment), htext]
        exact ih ts.length (by simp) _ _ h rfl
      · have hfiller := isFiller_eq_false hnewline hcomment
        have hend' : u.kind ≠ .endOfText := mt htu.end_iff.mp hend
        have hextent := extent_recast htu h
        rw [ofTokensAfter_code hfiller hend, ofTokensAfter_code (htu.isFiller_eq ▸ hfiller) hend']
        refine .cons (ofExtent_recast comments (.cons htu hextent)) (ih _ ?_ _ _ ?_ rfl)
        · rw [List.length_drop, List.length_cons]
          omega
        · rw [← hextent.length_eq]
          exact List.forall₂_drop _ h

end Statement

end BuildSync
