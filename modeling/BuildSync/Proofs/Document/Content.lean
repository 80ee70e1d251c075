import BuildSync.Proofs.Document.RoundTrip
import BuildSync.Proofs.Statement.Content

namespace BuildSync

namespace Document

variable {path : String} {flavor : Flavor} {bytes : List UInt8} {d : Document}

/-- The text of a parsed file has the comments of the file, and otherwise spells what the file
does, up to the ends of lines and the commas in front of closing brackets. -/
theorem tokens_text_parse (h : parse path flavor bytes = .ok d) :
    ∃ source ts us, Utf8.decode bytes = .ok source ∧ Token.ofSource source = .ok ts ∧
      Token.ofSource d.text = .ok us ∧ Token.comments us = Token.comments ts ∧
      Token.code us = Token.code ts := by
  have hfits := fits_of_parse h
  obtain ⟨source, hdecode, hsource⟩ := ofSource_of_parse h
  obtain ⟨ts, hts, hcontent⟩ := Statement.content_ofSource hsource
  obtain ⟨us, hus, hcontent'⟩ := Statement.content_ofSource (Statement.ofSource_reread hfits)
  have hsame : Token.content us = Token.content ts := by
    rw [hcontent', hcontent, Statement.contentAll_reread hfits]
  exact ⟨source, ts, us, hdecode, hts, hus, congrArg Content.comments hsame, congrArg Content.code hsame⟩

theorem tokens_text_parse_suffix :
    parse "BUILD" .build (Utf8.encode "f(x # a\n  , (y,)\n) # b\n") =
        .ok ⟨"BUILD", .build, [.rule ⟨[], ⟨.ident "f",
          ⟨[⟨[], .bare, .ident "x", some "# a"⟩, .element (.tuple [.ident "y"])], []⟩⟩, some "# b"⟩]⟩ ∧
      ∃ source ts us, Utf8.decode (Utf8.encode "f(x # a\n  , (y,)\n) # b\n") = .ok source ∧
        Token.ofSource source = .ok ts ∧
        Token.ofSource "f(\n    x,  # a\n    (y,),\n)  # b\n" = .ok us ∧
        Token.comments us = Token.comments ts ∧ Token.code us = Token.code ts := by
  have h : parse "BUILD" .build (Utf8.encode "f(x # a\n  , (y,)\n) # b\n") =
      .ok ⟨"BUILD", .build, [.rule ⟨[], ⟨.ident "f",
        ⟨[⟨[], .bare, .ident "x", some "# a"⟩, .element (.tuple [.ident "y"])], []⟩⟩, some "# b"⟩]⟩ := by
    decide +kernel
  have htext : (⟨"BUILD", .build, [.rule ⟨[], ⟨.ident "f",
      ⟨[⟨[], .bare, .ident "x", some "# a"⟩, .element (.tuple [.ident "y"])], []⟩⟩, some "# b"⟩]⟩ :
      Document).text = "f(\n    x,  # a\n    (y,),\n)  # b\n" := by decide +kernel
  refine ⟨h, ?_⟩
  rw [← htext]
  exact tokens_text_parse h

end Document
end BuildSync
