import BuildSync.Proofs.Document.RoundTrip
import BuildSync.Proofs.Statement.Recast

/-!
Files in which each line ends in a carriage return and a line feed mean what they mean without the carriage returns,
but for string literals that span lines.
-/

namespace BuildSync

theorem Token.ofSource_returned {source : String} (h : '\r' ∉ source.toList) :
    Alike (ofSource source) (ofSource (String.ofList (returned source.toList))) := by
  rw [ofSource, ofSource, String.toList_ofList]
  exact scan_returned h ⟨rfl, rfl, rfl⟩

namespace Document

variable {path : String} {flavor : Flavor} {bytes : List UInt8} {d : Document} {source : String}

theorem tokens_of_parse (h : parse path flavor bytes = .ok d) :
    ∃ source ts, Utf8.decode bytes = .ok source ∧ Token.ofSource source = .ok ts ∧
      d.statements = Statement.ofTokens ts := by
  obtain ⟨source, hdecode, hsource⟩ := ofSource_of_parse h
  obtain ⟨ts, hts, hstatements⟩ := Statement.tokens_of_source hsource
  exact ⟨source, ts, hdecode, hts, hstatements⟩

theorem parse_of_tokens {ts : List Token} (hdecode : Utf8.decode bytes = .ok source)
    (hts : Token.ofSource source = .ok ts) (path : String) (flavor : Flavor) :
    parse path flavor bytes = .ok ⟨path, flavor, Statement.ofTokens ts⟩ := by
  simp only [parse, hdecode, ofSource, Statement.ofSource, hts, Except.map]

/-- A file without carriage returns and the same file with one in front of each line feed. If it can be parsed with
them then also without, and the statements correspond. It can be parsed with them if it can be without, where every
literal that spans lines is in triple quotes. -/
theorem parse_returned (path : String) (flavor : Flavor) (hbytes : 13 ∉ bytes) :
    (∀ d', parse path flavor (Utf8.returned bytes) = .ok d' →
      ∃ d, parse path flavor bytes = .ok d ∧ List.Forall₂ Statement.Recast d.statements d'.statements) ∧
    ∀ source ts, Utf8.decode bytes = .ok source → Token.ofSource source = .ok ts → (∀ t ∈ ts, ¬ t.Splits) →
      ∃ d', parse path flavor (Utf8.returned bytes) = .ok d' := by
  constructor
  · intro d' h
    obtain ⟨source', us, hdecode', hus, hd'⟩ := tokens_of_parse h
    obtain ⟨source, hdecode, hreturn, rfl⟩ := (Utf8.decode_returned_iff hbytes).mp hdecode'
    have halike := Token.ofSource_returned hreturn
    rw [hus] at halike
    generalize hts : Token.ofSource source = r at halike
    cases halike with
    | ok h =>
      refine ⟨_, parse_of_tokens hdecode hts path flavor, ?_⟩
      rw [hd']
      exact Statement.ofTokensAfter_recast [] false h
  · intro source ts hdecode hts hwhole
    have hreturn : '\r' ∉ source.toList := by
      rw [← Utf8.encode_of_decode hdecode, Utf8.encode_eq_bytes] at hbytes
      exact Utf8.notMem_of_bytes hbytes
    have hdecode' := (Utf8.decode_returned_iff hbytes).mpr ⟨source, hdecode, hreturn, rfl⟩
    have halike := Token.ofSource_returned hreturn
    rw [hts] at halike
    generalize hus : Token.ofSource (String.ofList (returned source.toList)) = r at halike
    cases halike with
    | ok => exact ⟨_, parse_of_tokens hdecode' hus path flavor⟩
    | error h =>
      obtain ⟨t, ht, hsplits⟩ := h ts rfl
      exact absurd hsplits (hwhole t ht)

def tripledTokens : List Token := [⟨"", .ident, "f", .start⟩, ⟨"", .opening .round, "(", ⟨1, 1, 1⟩⟩,
  ⟨"", .ident, "name", ⟨2, 1, 2⟩⟩, ⟨" ", .operator, "=", ⟨7, 1, 7⟩⟩,
  ⟨" ", .string "a\nb", "'''a\nb'''", ⟨9, 1, 9⟩⟩, ⟨"", .closing .round, ")", ⟨18, 2, 4⟩⟩,
  ⟨"", .newline, "\n", ⟨19, 2, 5⟩⟩, ⟨"", .endOfText, "", ⟨20, 3, 0⟩⟩]

theorem parse_returned_tripled : 13 ∉ Utf8.encode "f(name = '''a\nb''')\n" ∧ ∃ d d',
    parse "BUILD" .build (Utf8.encode "f(name = '''a\nb''')\n") = .ok d ∧
      parse "BUILD" .build (Utf8.returned (Utf8.encode "f(name = '''a\nb''')\n")) = .ok d' ∧
        List.Forall₂ Statement.Recast d.statements d'.statements := by
  have hbytes : 13 ∉ Utf8.encode "f(name = '''a\nb''')\n" := by decide +kernel
  have hts : Token.ofSource "f(name = '''a\nb''')\n" = .ok tripledTokens := by decide +kernel
  have hwhole : ∀ t ∈ tripledTokens, ¬ t.Splits := by decide +kernel
  obtain ⟨hback, hforth⟩ := parse_returned "BUILD" .build hbytes
  obtain ⟨d', hd'⟩ := hforth _ _ (Utf8.decode_encode _) hts hwhole
  obtain ⟨d, hd, hstatements⟩ := hback d' hd'
  exact ⟨hbytes, d, d', hd, hd', hstatements⟩

def named (name spelling : String) : Document := ⟨"BUILD", .build,
  [.rule ⟨[], ⟨.ident "f", ⟨[.keyword "name" (.string name (some spelling))], []⟩⟩, none⟩]⟩

/-- In triple quotes carriage returns are part of the value, also of a name. -/
theorem returned_name_changed : 13 ∉ Utf8.encode "f(name = '''a\nb''')\n" ∧ ∃ d d',
    parse "BUILD" .build (Utf8.encode "f(name = '''a\nb''')\n") = .ok d ∧
      parse "BUILD" .build (Utf8.returned (Utf8.encode "f(name = '''a\nb''')\n")) = .ok d' ∧
        d.allRules.map Rule.name? = [some "a\nb"] ∧ d'.allRules.map Rule.name? = [some "a\r\nb"] := by
  have hbytes : Utf8.returned (Utf8.encode "f(name = '''a\nb''')\n") =
      Utf8.encode "f(name = '''a\r\nb''')\r\n" := by decide +kernel
  refine ⟨by decide +kernel, named "a\nb" "'''a\nb'''", named "a\r\nb" "'''a\r\nb'''", ?_, ?_, rfl, rfl⟩
  · decide +kernel
  · rw [hbytes, parse_encode]
    decide +kernel

end Document

end BuildSync
