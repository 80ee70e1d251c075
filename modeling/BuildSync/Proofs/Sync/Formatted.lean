import BuildSync.Proofs.Sync.History
import BuildSync.Proofs.Sync.Related

namespace BuildSync

theorem Rule.indistinct_reread : Rule.Indistinct fun r s => r.reread = s.reread where
  new kind := rfl
  kind {r s} h := by rw [← kind_reread r, h, kind_reread]
  name {r s} h := by rw [← name_reread r, h, name_reread]
  getTexts {r s} h key := by rw [← getTexts_reread r, h, getTexts_reread]
  set {r s} h key value := by rw [Rule.set, Rule.set, reread_setAttr, reread_setAttr, h]

namespace Statement

theorem related_reread {s : Statement} (h : s.Fits false) :
    Related (fun r s => r.reread = s.reread) s s.reread := by
  cases h with
  | comment => exact .other rfl
  | rule _ hcall =>
    apply Related.rule
    exact (Rule.reread_eq_of_expr hcall).symm
  | verbatim => exact .other rfl

theorem map_reread_of_related {ss ts : List Statement}
    (h : List.Forall₂ (Related fun r s => r.reread = s.reread) ss ts) : ss.map reread = ts.map reread := by
  induction h with
  | nil => rfl
  | cons hst _ ih =>
    rw [List.map_cons, List.map_cons, ih]
    cases hst with
    | rule hrs => rw [reread, reread, hrs]
    | other => rfl

end Statement

namespace Document

variable {path : String} {flavor : Flavor} {bytes : List UInt8} {d d' : Document} {kind : String}

theorem related_of_map_reread (hd : ∀ s ∈ d.statements, s.Fits false)
    (hd' : d'.statements = d.statements.map Statement.reread) :
    d.Related (fun r s => r.reread = s.reread) d' := by
  rw [Related, hd']
  apply List.forall₂_map_right_iff.mpr
  apply List.forall₂_same.mpr
  intro s hs
  exact Statement.related_reread (hd s hs)

theorem text_eq_of_related (hd : ∀ s ∈ d.statements, s.Fits false) (hd' : ∀ s ∈ d'.statements, s.Fits false)
    (h : d.Related (fun r s => r.reread = s.reread) d') : d.text = d'.text := by
  rw [text, text, ← Statement.printAll_reread hd, ← Statement.printAll_reread hd',
    Statement.map_reread_of_related h]

/-- A file may be formatted before it is synchronized: it ends up with the same text. -/
theorem sync_parse_text (h : parse path flavor bytes = .ok d) :
    ∃ d', parse path flavor (Utf8.encode d.text) = .ok d' ∧
      (∀ ps, Agree (fun a b => a.1 = b.1 ∧ a.2.text = b.2.text) (d.addRpms ps) (d'.addRpms ps)) ∧
      ∀ name ps files, (d.addBundle name ps files).1 = (d'.addBundle name ps files).1 ∧
        (d.addBundle name ps files).2.text = (d'.addBundle name ps files).2.text := by
  have hd := fits_of_parse h
  have hparse := parse_text hd path flavor
  generalize hd₂ : (⟨path, flavor, d.statements.map Statement.reread⟩ : Document) = d' at hparse
  have hd' := fits_of_parse hparse
  have hrelated : d.Related (fun r s => r.reread = s.reread) d' := related_of_map_reread hd (by rw [← hd₂])
  refine ⟨d', hparse, ?_, ?_⟩
  · intro ps
    obtain ⟨e, hx, hy⟩ | ⟨x, y, hx, hy, hreport, hxy⟩ := (related_addRpms Rule.indistinct_reread hrelated ps).eq_or
    · rw [hx, hy]
      exact .error e
    · rw [hx, hy]
      apply Agree.ok
      refine ⟨hreport, text_eq_of_related ?_ ?_ hxy⟩
      · exact Syncs.fits hd (.rpms hx)
      · exact Syncs.fits hd' (.rpms hy)
  · intro name ps files
    obtain ⟨hreport, hxy⟩ := related_addBundle Rule.indistinct_reread hrelated name ps files
    refine ⟨hreport, text_eq_of_related ?_ ?_ hxy⟩
    · exact Syncs.fits hd (.bundle name ps files)
    · exact Syncs.fits hd' (.bundle name ps files)

def untidy : Document :=
  ⟨"WORKSPACE", .workspace,
    [.rule ⟨["# b"], ⟨.ident "rpm", ⟨[.keyword "name" (.string "b" (some "'b'"))], []⟩⟩, none⟩,
      .verbatim [] "x=1"]⟩

theorem sync_parse_text_untidy :
    parse "WORKSPACE" .workspace (Utf8.encode "# b\nrpm( name='b',)\n\n\nx=1") = .ok untidy ∧
      ∃ d', parse "WORKSPACE" .workspace (Utf8.encode "# b\nrpm(name = 'b')\n\nx=1\n") = .ok d' ∧
        (∀ ps, Agree (fun a b => a.1 = b.1 ∧ a.2.text = b.2.text) (untidy.addRpms ps) (d'.addRpms ps)) ∧
        ∀ name ps files, (untidy.addBundle name ps files).1 = (d'.addBundle name ps files).1 ∧
          (untidy.addBundle name ps files).2.text = (d'.addBundle name ps files).2.text := by
  have h : parse "WORKSPACE" .workspace (Utf8.encode "# b\nrpm( name='b',)\n\n\nx=1") = .ok untidy := by
    decide +kernel
  have htext : untidy.text = "# b\nrpm(name = 'b')\n\nx=1\n" := by decide +kernel
  refine ⟨h, ?_⟩
  rw [← htext]
  exact sync_parse_text h

end Document
end BuildSync
