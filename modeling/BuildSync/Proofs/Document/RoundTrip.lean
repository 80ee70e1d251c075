import BuildSync.Proofs.Document.Equality
import BuildSync.Proofs.Statement.Sound
import BuildSync.Proofs.Text.Utf8
import Mathlib.Data.List.Basic

namespace BuildSync

namespace Document

variable {path : String} {flavor : Flavor} {bytes : List UInt8} {d : Document}

theorem parse_encode (path : String) (flavor : Flavor) (source : String) :
    parse path flavor (Utf8.encode source) = ofSource path flavor source := by
  rw [parse, Utf8.decode_encode]

theorem ofSource_of_parse (h : parse path flavor bytes = .ok d) :
    ∃ source, Utf8.decode bytes = .ok source ∧ Statement.ofSource source = .ok d.statements := by
  unfold parse at h
  split at h
  · rename_i source hsource
    unfold ofSource at h
    split at h
    · rename_i statements hstatements
      cases h
      exact ⟨source, hsource, hstatements⟩
    · cases h
  · cases h

theorem fits_of_parse (h : parse path flavor bytes = .ok d) : ∀ s ∈ d.statements, s.Fits false := by
  obtain ⟨source, -, hsource⟩ := ofSource_of_parse h
  exact Statement.fits_ofSource hsource

theorem parse_elsewhere (h : parse path flavor bytes = .ok d) (path' : String) (flavor' : Flavor) :
    parse path' flavor' bytes = .ok { d with path := path', flavor := flavor' } := by
  obtain ⟨source, hdecode, hsource⟩ := ofSource_of_parse h
  simp only [parse, hdecode, ofSource, hsource]

theorem parse_text {strict : Bool} (h : ∀ s ∈ d.statements, s.Fits strict) (path : String)
    (flavor : Flavor) : parse path flavor (Utf8.encode d.text) =
      .ok ⟨path, flavor, d.statements.map Statement.reread⟩ := by
  rw [parse_encode, ofSource, text, Statement.ofSource_reread h]

theorem any_dotsNumber (d : Document) :
    d.statements.any Statement.dotsNumber = d.allRules.any Rule.dotsNumber := by
  rw [allRules, List.any_filterMap]
  congr 1
  funext s
  cases s <;> rfl

/-- The text of a parsed file is parsed again, and its own text is the same. -/
theorem text_parse_text (h : parse path flavor bytes = .ok d) :
    ∃ d', parse path flavor (Utf8.encode d.text) = .ok d' ∧ d'.text = d.text :=
  ⟨_, parse_text (fits_of_parse h) path flavor, Statement.printAll_reread (fits_of_parse h)⟩

theorem text_parse_text_comment :
    parse "BUILD" .build (Utf8.encode "f( x,\n# c\n)") =
        .ok ⟨"BUILD", .build, [.rule ⟨[], ⟨.ident "f", ⟨[.element (.ident "x")], ["# c"]⟩⟩, none⟩]⟩ ∧
      ∃ d', parse "BUILD" .build (Utf8.encode "f(\n    x,\n    # c\n)\n") = .ok d' ∧
        d'.text = "f(\n    x,\n    # c\n)\n" := by
  have h : parse "BUILD" .build (Utf8.encode "f( x,\n# c\n)") =
      .ok ⟨"BUILD", .build, [.rule ⟨[], ⟨.ident "f", ⟨[.element (.ident "x")], ["# c"]⟩⟩, none⟩]⟩ := by
    decide +kernel
  have htext : (⟨"BUILD", .build, [.rule ⟨[], ⟨.ident "f", ⟨[.element (.ident "x")], ["# c"]⟩⟩, none⟩]⟩ :
      Document).text = "f(\n    x,\n    # c\n)\n" := by decide +kernel
  refine ⟨h, ?_⟩
  rw [← htext]
  exact text_parse_text h

/-- Parsing the text of a parsed file gives the same tree just where no dot stands behind a
number: without the blank between them the number takes it in. -/
theorem alike_parse_text_iff (h : parse path flavor bytes = .ok d) :
    ∃ d', parse path flavor (Utf8.encode d.text) = .ok d' ∧
      (d'.alike d = true ↔ ∀ r ∈ d.allRules, r.dotsNumber = false) := by
  refine ⟨_, parse_text (fits_of_parse h) path flavor, ?_⟩
  rw [alike, Statement.allAlike_reread (fits_of_parse h), any_dotsNumber]
  simp

def numberDotted : Document :=
  ⟨"BUILD", .build, [.rule ⟨[], ⟨.ident "f", ⟨[.keyword "a" (.dot (.number "1") "foo")], []⟩⟩, none⟩]⟩

theorem parse_numberDotted : parse "BUILD" .build (Utf8.encode "f(a = 1 .foo)\n") = .ok numberDotted := by
  decide +kernel

theorem alike_parse_text_iff_numberDotted :
    parse "BUILD" .build (Utf8.encode "f(a = 1 .foo)\n") = .ok numberDotted ∧
      ∃ d', parse "BUILD" .build (Utf8.encode numberDotted.text) = .ok d' ∧
        (d'.alike numberDotted = true ↔ ∀ r ∈ numberDotted.allRules, r.dotsNumber = false) :=
  ⟨parse_numberDotted, alike_parse_text_iff parse_numberDotted⟩

theorem numberDotted_not_alike :
    ∃ d d', parse "BUILD" .build (Utf8.encode "f(a = 1 .foo)\n") = .ok d ∧
      parse "BUILD" .build (Utf8.encode d.text) = .ok d' ∧ d'.alike d = false := by
  refine ⟨_, ⟨"BUILD", .build, [.rule ⟨[], ⟨.ident "f", ⟨[.keyword "a" (.number "1.foo")], []⟩⟩, none⟩]⟩,
    parse_numberDotted, ?_, by decide +kernel⟩
  decide +kernel

end Document

/-- The statements that a tree can be made of by hand. -/
inductive Statement.Printable : Statement → Prop
  | comment {lines : List String} (hne : lines ≠ []) (h : ∀ line ∈ lines, Remark line) :
    Printable (.comment lines)
  | rule {r : Rule} (hc : ∀ line ∈ r.comments, Remark line)
    (hcall : (Expr.call r.call.callee r.call.args).Fits false) (hn : r.dotsNumber = false)
    (hname : r.call.callee.dottedName?.isSome = true) (hs : ∀ c ∈ r.suffix, Remark c) :
    Printable (.rule r)

namespace Statement

theorem Printable.fits {s : Statement} (h : s.Printable) : s.Fits false := by
  cases h with
  | comment hne h => exact .comment hne h
  | rule hc hcall _ hname hs => exact .rule hc hcall hname hs

theorem Printable.dotsNumber {s : Statement} (h : s.Printable) : s.dotsNumber = false := by
  cases h with
  | comment => rfl
  | rule _ _ hn => exact hn

end Statement

namespace Document

/-- A tree that can be printed is what its text is parsed as, up to the spelling of strings. -/
theorem parse_text_printable {d : Document} (h : ∀ s ∈ d.statements, s.Printable) :
    ∃ d', parse d.path d.flavor (Utf8.encode d.text) = .ok d' ∧ d'.alike d = true := by
  have hfits : ∀ s ∈ d.statements, s.Fits false := fun s hs => (h s hs).fits
  refine ⟨_, parse_text hfits d.path d.flavor, ?_⟩
  rw [alike, Statement.allAlike_reread hfits, Bool.not_eq_true', List.any_eq_false]
  exact fun s hs => by simp [(h s hs).dotsNumber]

def handmade : Document :=
  ⟨"BUILD", .build, [.comment ["# Files"],
    .rule ⟨[], ⟨.ident "filegroup", ⟨[.keyword "name" (.text "a\"b")], []⟩⟩, some "# kept"⟩]⟩

theorem parse_text_printable_handmade : (∀ s ∈ handmade.statements, s.Printable) ∧
    ∃ d', parse "BUILD" .build (Utf8.encode handmade.text) = .ok d' ∧ d'.alike handmade = true := by
  have hremark {text : String} (h : Remark text) : ∀ line ∈ [text], Remark line :=
    List.forall_mem_singleton.mpr h
  have h : ∀ s ∈ handmade.statements, s.Printable := by
    refine List.forall_mem_cons.mpr ⟨.comment (by decide) (hremark ⟨by decide, by decide, by decide⟩),
      List.forall_mem_singleton.mpr (.rule (List.forall_mem_nil _) ?_ (by decide +kernel) rfl ?_)⟩
    · refine .call (.ident (by decide) (by decide)) rfl ⟨?_, ?_, ?_, List.forall_mem_nil _⟩ ?_ <;>
        refine List.forall_mem_singleton.mpr ?_
      · exact (by decide : identifier "name" = true)
      · exact List.forall_mem_nil _
      · rintro _ ⟨⟩
      · exact .fresh rfl _
    · rintro c hc
      cases hc
      exact ⟨by decide, by decide, by decide⟩
  exact ⟨h, parse_text_printable h⟩

end Document
end BuildSync
