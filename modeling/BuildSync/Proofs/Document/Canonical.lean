import BuildSync.Proofs.Document.RoundTrip
import BuildSync.Proofs.Statement.Lines

/-!
A file without comments that holds nothing but rules has one text, however it is laid out.
-/

namespace BuildSync

namespace Token

theorem spelled_of_ofSource {source : String} {ts : List Token} (h : ofSource source = .ok ts) :
    ∀ t ∈ ts, t.Spelled := by
  obtain ⟨xs, -, hjoined, hnest, rfl⟩ := lexemes_of_scan h
  exact Progress.Remains.spelled ⟨rfl, hjoined, hnest⟩

end Token

namespace Document

variable {path : String} {flavor : Flavor} {doc : Document}

/-- Where the lines of two sources have the same tokens, but for commas behind the last of some items, their
texts are the same. Blanks, line breaks in brackets, joined lines and blank lines are no part of the tokens
of a line. -/
theorem text_parse_relaid {source source' : String} {ts us : List Token}
    (h : parse path flavor (Utf8.encode source) = .ok doc)
    (hrules : ∀ s ∈ doc.statements, s.rule?.isSome = true) (hts : Token.ofSource source = .ok ts)
    (hbare : ∀ t ∈ ts, t.isComment = false) (hus : Token.ofSource source' = .ok us)
    (hlines : List.Forall₂ (Token.Relaid .start) (Token.lines ts) (Token.lines us)) :
    ∃ doc', parse path flavor (Utf8.encode source') = .ok doc' ∧ doc'.text = doc.text := by
  obtain ⟨decoded, hdecode, hsource⟩ := ofSource_of_parse h
  rw [Utf8.decode_encode] at hdecode
  cases hdecode
  have hstatements : Statement.ofTokens ts = doc.statements := by
    rw [Statement.ofSource, hts] at hsource
    exact Except.ok.inj hsource
  rw [← hstatements] at hrules
  have hwords : ∀ t ∈ ts, t.isKeyword "not in" = false := fun t ht => (Token.spelled_of_ofSource hts t ht).notIn
  have hsame := Statement.ofTokens_relaid hbare hwords hlines hrules
  refine ⟨⟨path, flavor, Statement.ofTokens us⟩, ?_, ?_⟩
  · rw [parse_encode, ofSource, Statement.ofSource, hus]
    rfl
  · rw [text, hsame, hstatements, text]

def tight : List Token :=
  [⟨"", .ident, "f", ⟨0, 1, 0⟩⟩, ⟨"", .opening .round, "(", ⟨1, 1, 1⟩⟩, ⟨"", .opening .square, "[", ⟨2, 1, 2⟩⟩,
    ⟨"", .ident, "x", ⟨3, 1, 3⟩⟩, ⟨"", .closing .square, "]", ⟨4, 1, 4⟩⟩, ⟨"", .closing .round, ")", ⟨5, 1, 5⟩⟩,
    ⟨"", .endOfText, "", ⟨6, 1, 6⟩⟩]

def loose : List Token :=
  [⟨"", .newline, "\n", ⟨0, 1, 0⟩⟩, ⟨"", .ident, "f", ⟨1, 2, 0⟩⟩, ⟨" ", .opening .round, "(", ⟨3, 2, 2⟩⟩,
    ⟨"\\\n", .opening .square, "[", ⟨6, 3, 0⟩⟩, ⟨"", .ident, "x", ⟨7, 3, 1⟩⟩, ⟨"", .operator, ",", ⟨8, 3, 2⟩⟩,
    ⟨"\n", .closing .square, "]", ⟨10, 4, 0⟩⟩, ⟨"", .operator, ",", ⟨11, 4, 1⟩⟩,
    ⟨"", .closing .round, ")", ⟨12, 4, 2⟩⟩, ⟨"", .newline, "\n", ⟨13, 4, 3⟩⟩, ⟨"", .endOfText, "", ⟨14, 5, 0⟩⟩]

theorem lines_loose : List.Forall₂ (Token.Relaid .start) (Token.lines tight) (Token.lines loose) := by
  have htight : Token.lines tight = [tight.take 6] := by decide +kernel
  have hloose : Token.lines loose = [(loose.drop 1).take 8] := by decide +kernel
  have hlist : (⟨true, [.elements, .arguments]⟩ : Setting).Spares ⟨"", .closing .square, "]", ⟨4, 1, 4⟩⟩ :=
    (Setting.spares_iff rfl _ _).mpr rfl
  have hargs : (⟨true, [.arguments]⟩ : Setting).Spares ⟨"", .closing .round, ")", ⟨5, 1, 5⟩⟩ :=
    (Setting.spares_iff rfl _ _).mpr rfl
  rw [htight, hloose]
  exact .cons (.cons ⟨rfl, rfl⟩ (.cons ⟨rfl, rfl⟩ (.cons ⟨rfl, rfl⟩ (.cons ⟨rfl, rfl⟩
    (.added hlist rfl ⟨rfl, rfl⟩ (.added hargs rfl ⟨rfl, rfl⟩ .nil)))))) .nil

theorem text_parse_relaid_loose :
    parse "BUILD" .build (Utf8.encode "f([x])") = .ok ⟨"BUILD", .build, [.rule ⟨[], ⟨.ident "f",
        ⟨[.element (.list ⟨[.element (.ident "x")], []⟩)], []⟩⟩, none⟩]⟩ ∧
      Token.ofSource "f([x])" = .ok tight ∧ Token.ofSource "\nf (\\\n[x,\n],)\n" = .ok loose ∧
      List.Forall₂ (Token.Relaid .start) (Token.lines tight) (Token.lines loose) ∧
      ∃ doc', parse "BUILD" .build (Utf8.encode "\nf (\\\n[x,\n],)\n") = .ok doc' ∧
        doc'.text = "f([x])\n" := by
  have h : parse "BUILD" .build (Utf8.encode "f([x])") = .ok ⟨"BUILD", .build, [.rule ⟨[], ⟨.ident "f",
      ⟨[.element (.list ⟨[.element (.ident "x")], []⟩)], []⟩⟩, none⟩]⟩ := by
    decide +kernel
  have htight : Token.ofSource "f([x])" = .ok tight := by decide +kernel
  have hloose : Token.ofSource "\nf (\\\n[x,\n],)\n" = .ok loose := by decide +kernel
  have htext : (⟨"BUILD", .build, [.rule ⟨[], ⟨.ident "f",
      ⟨[.element (.list ⟨[.element (.ident "x")], []⟩)], []⟩⟩, none⟩]⟩ : Document).text = "f([x])\n" := by decide +kernel
  refine ⟨h, htight, hloose, lines_loose, ?_⟩
  rw [← htext]
  exact text_parse_relaid h (List.forall_mem_singleton.mpr rfl) htight (by decide) hloose lines_loose

end Document
end BuildSync
