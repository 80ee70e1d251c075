import BuildSync.Proofs.Patch.Hunks
import Mathlib.Data.List.Basic
import Mathlib.Tactic.SplitIfs

namespace BuildSync

open Patch

namespace Patch

variable {t : Texts} {m : Mark}

theorem toList_line {mark : String} (hmark : mark.toList = [m.char]) (text : String) :
    (line mark text).toList = (Line.spelling ⟨m, text⟩).flatten := by
  rw [line, Line.spelling]
  split_ifs <;> simp [hmark, noEnd]

theorem toList_lines {mark : String} (hmark : mark.toList = [m.char]) (texts : List String) :
    (lines mark texts).toList = ((texts.map (Line.mk m)).flatMap Line.spelling).flatten := by
  induction texts with
  | nil => rfl
  | cons text texts ih =>
    rw [lines, List.foldr_cons, ← lines, String.toList_append, toList_line hmark, ih]
    simp

theorem toList_block (t : Texts) (b : Block) :
    (block t b).toList = ((b.lines t).flatMap Line.spelling).flatten := by
  rw [block, Block.lines]
  split_ifs
  · exact toList_lines rfl _
  · rw [String.toList_append, toList_lines (m := .removed) rfl, toList_lines (m := .added) rfl]
    simp

theorem toList_blocks (t : Texts) (bs : List Block) : (bs.foldr (fun b rest => block t b ++ rest) "").toList =
    ((bs.flatMap (Block.lines t)).flatMap Line.spelling).flatten := by
  induction bs with
  | nil => rfl
  | cons b bs ih =>
    rw [List.foldr_cons, String.toList_append, toList_block, ih]
    simp

theorem header_passage {h : Hunk} {first last : Block} (hfirst : h.head? = some first)
    (hlast : h.getLast? = some last) : (h.passage t).header = h.header := by
  rw [Hunk.passage_eq hfirst hlast]
  obtain ⟨rest, rfl⟩ := List.head?_eq_some_iff.mp hfirst
  simp only [Hunk.header, hlast, Passage.header, Range.text]

theorem toList_hunk {h : Hunk} (hne : h ≠ []) : (hunk t h).toList = (h.passage t).spelling.flatten := by
  have hfirst := List.head?_eq_some_head hne
  have hlast := List.getLast?_eq_some_getLast hne
  have hlines : (h.passage t).lines = h.flatMap (Block.lines t) := by rw [Hunk.passage_eq hfirst hlast]
  rw [hunk, String.toList_append, toList_blocks, Passage.spelling, List.flatten_cons, header_passage hfirst hlast,
    hlines]

theorem toList_hunks {hs : List Hunk} (hne : ∀ h ∈ hs, h ≠ []) :
    (hs.foldr (fun h rest => hunk t h ++ rest) "").toList =
      ((hs.map (Hunk.passage t)).flatMap Passage.spelling).flatten := by
  induction hs with
  | nil => rfl
  | cons h hs ih =>
    obtain ⟨hh, hhs⟩ := List.forall_mem_cons.mp hne
    rw [List.foldr_cons, String.toList_append, toList_hunk hh, ih hhs]
    simp

end Patch

namespace Texts

variable {t : Texts} {sole : Option Edit.Tag} {x : Passage}

def passages (t : Texts) : List Passage := t.hunks.map (Hunk.passage t)

theorem leads_blocks (h : ∀ e ∈ t.script, ∀ tag ∈ sole, e.tag = .keep ∨ e.tag = tag) :
    Block.Leads t (sole.isSome = true) ⟨0, 0⟩ (Block.ofScript (t.compact t.script)) t.ends := by
  have hscript := Region.leads_script t.whole h
  have hends : t.whole.stop = t.ends := by ext <;> exact Nat.zero_add _
  rw [hends] at hscript
  exact Block.leads_ofScript (leads_compact hscript) le_rfl le_rfl

theorem patches_passages (h : ∀ e ∈ t.script, ∀ tag ∈ sole, e.tag = .keep ∨ e.tag = tag) :
    Patches (Passage.Headed t.ends (sole.isSome = true)) ⟨0, 0⟩ t.old.toList t.passages t.new.toList :=
  Hunk.patches_ofBlocks (leads_blocks h) (Block.alternates_ofScript _)

theorem exists_mem_marks {e : Edit} (he : e ∈ t.script) (hk : e.tag ≠ .keep) :
    ∃ x ∈ t.passages, e.tag.mark ∈ x.marks := by
  have hnone : ∀ e ∈ t.script, ∀ tag ∈ (none : Option Edit.Tag), e.tag = .keep ∨ e.tag = tag := fun _ _ => nofun
  obtain ⟨e', he', htag, -⟩ := Edit.mem_sorts.mp (t.mem_sorts_compact (Edit.mem_sorts.mpr ⟨e, he, rfl, hk⟩))
  have hpos : 0 < e'.length := Edit.pos_of_leads (leads_compact (Region.leads_script t.whole hnone)) he'
  obtain ⟨b, hb, hm⟩ := Block.exists_mem_changes_ofScript he' (htag ▸ hk) hpos
  have hkept := (Block.mem_changes.mp hm).1
  obtain ⟨r, hlies⟩ := Block.exists_lies_of_mem (leads_blocks hnone) hb
  obtain ⟨h, hh, hbh⟩ := Hunk.exists_mem_ofBlocks hb hkept
  refine ⟨h.passage t, List.mem_map_of_mem hh, ?_⟩
  have hne := List.ne_nil_of_mem hbh
  rw [Passage.marks, Hunk.passage_eq (List.head?_eq_some_head hne) (List.getLast?_eq_some_getLast hne),
    List.map_flatMap]
  apply List.mem_flatMap.mpr
  refine ⟨b, hbh, ?_⟩
  rwa [hlies.marks, Block.marks, hkept, if_neg Bool.false_ne_true, ← htag]

theorem exists_tag_of_oneSided (h : OneSided t.passages) : ∃ tag, ∀ e ∈ t.script, e.tag = .keep ∨ e.tag = tag := by
  have hmark {e : Edit} (he : e ∈ t.script) (hk : e.tag ≠ .keep) (hnot : ∀ x ∈ t.passages, e.tag.mark ∉ x.marks) :
      False := by
    obtain ⟨x, hx, hm⟩ := exists_mem_marks he hk
    exact hnot x hx hm
  rcases h with h | h
  · refine ⟨.insert, fun e he => ?_⟩
    cases htag : e.tag with
    | keep => exact .inl rfl
    | insert => exact .inr rfl
    | delete => exact (hmark he (by rw [htag]; nofun) (by rwa [htag])).elim
  · refine ⟨.delete, fun e he => ?_⟩
    cases htag : e.tag with
    | keep => exact .inl rfl
    | delete => exact .inr rfl
    | insert => exact (hmark he (by rw [htag]; nofun) (by rwa [htag])).elim

theorem patches (t : Texts) :
    Patches (Passage.Headed t.ends (OneSided t.passages)) ⟨0, 0⟩ t.old.toList t.passages t.new.toList := by
  by_cases hsided : OneSided t.passages
  · obtain ⟨tag, htag⟩ := exists_tag_of_oneSided hsided
    have hsome : OneSided t.passages ↔ (some tag).isSome = true := iff_of_true hsided rfl
    rw [propext hsome]
    apply patches_passages
    rintro e he _ ⟨⟩
    exact htag e he
  · have hnone : OneSided t.passages ↔ (none : Option Edit.Tag).isSome = true := iff_of_false hsided Bool.false_ne_true
    rw [propext hnone]
    exact patches_passages fun _ _ => nofun

theorem lines_ne_nil (hx : x ∈ t.passages) : x.lines ≠ [] := by
  obtain ⟨p, hp⟩ := t.patches.exists_fits hx
  exact hp.lines

theorem ne_nil_of_mem_hunks {h : Hunk} (hh : h ∈ t.hunks) : h ≠ [] := by
  rintro rfl
  exact lines_ne_nil (List.mem_map_of_mem hh) rfl

theorem text_mem {l : Line} (hx : x ∈ t.passages) (hl : l ∈ x.lines) :
    l.text ∈ t.old.toList ∨ l.text ∈ t.new.toList := by
  obtain ⟨h, hh, rfl⟩ := List.mem_map.mp hx
  have hne := ne_nil_of_mem_hunks hh
  rw [Hunk.passage_eq (List.head?_eq_some_head hne) (List.getLast?_eq_some_getLast hne)] at hl
  obtain ⟨b, -, hl⟩ := List.mem_flatMap.mp hl
  exact Block.text_mem_of_mem_lines hl

end Texts

namespace Patch

variable {old new a b : String}

theorem unified_eq_spelling (h : old ≠ new) (a b : String) :
    unified old new a b = .ofList (Diff.spelling ⟨a, b, (textsOf old new).passages⟩).flatten := by
  apply String.toList_injective
  rw [unified_eq_append h, String.toList_append, toList_hunks fun _ => Texts.ne_nil_of_mem_hunks, ← Texts.passages]
  simp [Diff.spelling]

theorem ended_or_unbroken_of_mem_linesOf {text line : String} (h : Returns text.toList) (hline : line ∈ linesOf text) :
    Ended line.toList ∨ Unbroken line.toList := by
  obtain ⟨cs, hcs, rfl⟩ := List.mem_map.mp hline
  rw [String.toList_ofList]
  exact ended_or_unbroken h hcs

/-- A diff reads as hunks that lead from the old text to the new one. -/
theorem unified_patches (hold : Returns old.toList) (hnew : Returns new.toList) (ha : Unbroken a.toList)
    (hb : Unbroken b.toList) :
    (unified old new a b = "" ↔ old = new) ∧ (old ≠ new → ∃ xs, xs ≠ [] ∧
      Diff.read? (unified old new a b) = some ⟨a, b, xs⟩ ∧
      Patches (Passage.Headed ⟨(linesOf old).length, (linesOf new).length⟩ (OneSided xs)) ⟨0, 0⟩ (linesOf old) xs
        (linesOf new)) := by
  refine ⟨unified_eq_empty_iff, fun hne => ⟨(textsOf old new).passages, ?_, ?_, ?_⟩⟩
  · exact fun hnil => hunks_textsOf_ne_nil hne (List.map_eq_nil_iff.mp hnil)
  · rw [unified_eq_spelling hne]
    refine Diff.read?_spelling ha hb (fun x hx => Texts.lines_ne_nil hx) (fun x hx l hl => ?_)
    rcases Texts.text_mem hx hl with htext | htext
    · exact ended_or_unbroken_of_mem_linesOf hold htext
    · exact ended_or_unbroken_of_mem_linesOf hnew htext
  · exact (textsOf old new).patches

theorem returns_of_not_mem {cs : List Char} (h : '\r' ∉ cs) : Returns cs :=
  fun _ hi => absurd (List.mem_of_getElem? hi) h

theorem unified_patches_unended :
    Returns "a\nb".toList ∧ Returns "a\nb\r\nc\n".toList ∧ Unbroken "BUILD".toList ∧ "a\nb" ≠ "a\nb\r\nc\n" ∧
      ∃ xs, xs ≠ [] ∧
        Diff.read? "--- BUILD\n+++ BUILD\n@@ -1,2 +1,3 @@\n a\n-b\n\\ No newline at end of file\n+b\r\n+c\n" =
          some ⟨"BUILD", "BUILD", xs⟩ ∧
        Patches (Passage.Headed ⟨2, 3⟩ (OneSided xs)) ⟨0, 0⟩ ["a\n", "b"] xs ["a\n", "b\r\n", "c\n"] := by
  have hold : Returns "a\nb".toList := returns_of_not_mem (by decide)
  have hnew : Returns "a\nb\r\nc\n".toList := by
    intro i hi
    rcases i with _ | _ | _ | _ | _ | _ | _ | i <;> first | decide | cases hi
  have hlabel : Unbroken "BUILD".toList := ⟨by decide, by decide⟩
  have hne : "a\nb" ≠ "a\nb\r\nc\n" := by decide
  have hdiff : unified "a\nb" "a\nb\r\nc\n" "BUILD" "BUILD" =
      "--- BUILD\n+++ BUILD\n@@ -1,2 +1,3 @@\n a\n-b\n\\ No newline at end of file\n+b\r\n+c\n" := by decide +kernel
  have holdLines : linesOf "a\nb" = ["a\n", "b"] := by decide +kernel
  have hnewLines : linesOf "a\nb\r\nc\n" = ["a\n", "b\r\n", "c\n"] := by decide +kernel
  have hpatches := (unified_patches hold hnew hlabel hlabel).2 hne
  rw [hdiff, holdLines, hnewLines] at hpatches
  exact ⟨hold, hnew, hlabel, hne, hpatches⟩

/-- A line that is deleted and one that is inserted elsewhere may change places in the script. Neither
is told where it stands in the other text then, and the header goes by what they know. -/
theorem unified_miscounted :
    Returns "a\nb\n".toList ∧ Returns "b\nb\n".toList ∧ Unbroken "a".toList ∧ Unbroken "b".toList ∧
      unified "a\nb\n" "b\nb\n" "a" "b" = "--- a\n+++ b\n@@ -1 +2 @@\n-a\n b\n+b\n" ∧
      ∃ x, Diff.read? (unified "a\nb\n" "b\nb\n" "a" "b") = some ⟨"a", "b", [x]⟩ ∧
        x.old.length = 1 ∧ (oldTexts x.lines).length = 2 ∧ x.new.length = 1 ∧ (newTexts x.lines).length = 2 := by
  have hdiff : unified "a\nb\n" "b\nb\n" "a" "b" = "--- a\n+++ b\n@@ -1 +2 @@\n-a\n b\n+b\n" := by decide +kernel
  have hread : Diff.read? "--- a\n+++ b\n@@ -1 +2 @@\n-a\n b\n+b\n" =
      some ⟨"a", "b", [⟨⟨0, 1⟩, ⟨1, 1⟩, [⟨.removed, "a\n"⟩, ⟨.kept, "b\n"⟩, ⟨.added, "b\n"⟩]⟩]⟩ := by decide +kernel
  refine ⟨returns_of_not_mem (by decide), returns_of_not_mem (by decide), ⟨by decide, by decide⟩,
    ⟨by decide, by decide⟩, hdiff, _, hdiff ▸ hread, rfl, rfl, rfl, rfl⟩

end Patch

end BuildSync
