import BuildSync.Document.File
import BuildSync.Proofs.FileTree.Atomic
import BuildSync.Proofs.FileTree.Frame
import BuildSync.Proofs.Patch.Changes
import BuildSync.Proofs.Text.Utf8

/-!
What a preview of a document says about saving it.
-/

namespace BuildSync.Document

open FileTree

variable {doc : Document} {tree tree' : FileTree} {path diff : String} {bytes : List UInt8} {process : Process}

theorem preview_of_find (h : tree.find path = .ok (.file bytes)) {source : String}
    (hdecode : Utf8.decode bytes = .ok source) (doc : Document) : ∃ diff, doc.preview tree path = .ok diff ∧
      (Utf8.encode doc.text = bytes ↔ diff = "") ∧ (diff ≠ "" → ∃ rest, diff.toList = '-' :: rest) := by
  have hsame : Utf8.encode doc.text = bytes ↔ source = doc.text := by
    constructor
    · intro hbytes
      rw [← hbytes, Utf8.decode_encode] at hdecode
      exact (Except.ok.inj hdecode).symm
    · intro hsource
      rw [← hsource, Utf8.encode_of_decode hdecode]
  have hpreview : doc.preview tree path =
      .ok (Patch.unified source doc.text ("a/" ++ path) ("b/" ++ path)) := by
    rw [preview, FileTree.readText, FileTree.read_eq_ok.mpr h]
    simp only [hdecode]
  refine ⟨_, hpreview, hsame.trans Patch.unified_eq_empty_iff.symm, fun hdiff => ?_⟩
  exact Patch.unified_of_ne (fun heq => hdiff (Patch.unified_eq_empty_iff.mpr heq)) _ _

theorem text_of_preview {entry : Entry} (hpreview : doc.preview tree path = .ok diff)
    (hfind : tree.find path = .ok entry) : ∃ bytes source, entry = .file bytes ∧ Utf8.decode bytes = .ok source := by
  rw [preview, readText, FileTree.read, hfind] at hpreview
  cases entry with
  | directory => cases hpreview
  | file bytes =>
    cases hdecode : Utf8.decode bytes with
    | ok source => exact ⟨bytes, source, rfl, hdecode⟩
    | error fault =>
      simp only [hdecode] at hpreview
      cases hpreview

theorem find_of_save (h : doc.save tree process path = (tree', .ok ())) :
    tree'.find path = .ok (.file (Utf8.encode doc.text)) := by
  obtain ⟨made, name, above, place, -, hreaches, hwritten⟩ := written_of_write h
  rw [(hwritten.sameDirectories.reaches hreaches).find_eq_ok, hwritten.entries, if_pos rfl]

/-- Saving changes nothing just where the preview is empty, the file is there already, and nothing stands
where the scratch file goes. -/
theorem save_unchanged_iff (hpreview : doc.preview tree path = .ok diff)
    (hsave : doc.save tree process path = (tree', .ok ())) :
    (∀ q, tree'.lookup? q = tree.lookup? q) ↔
      diff = "" ∧ (∃ entry, tree.find path = .ok entry) ∧
        ∀ entry, tree.find (Path.scratch path process.number) ≠ .ok entry := by
  have hthere : (∀ q, tree'.lookup? q = tree.lookup? q) → ∃ entry, tree.find path = .ok entry := by
    exact fun hsame => ⟨_, (find_congr hsame).mp (find_of_save hsave)⟩
  by_cases hfound : ∃ entry, tree.find path = .ok entry
  · obtain ⟨entry, hfind⟩ := hfound
    obtain ⟨bytes, source, rfl, hdecode⟩ := text_of_preview hpreview hfind
    obtain ⟨diff', hpreview', hempty, -⟩ := preview_of_find hfind hdecode doc
    cases hpreview.symm.trans hpreview'
    obtain ⟨name, above, place, hreaches, hentry⟩ := reaches_of_find hfind
    have hwritten := hreaches.written_of_write hsave
    have hscratch : (∀ entry, tree.find (Path.scratch path process.number) ≠ .ok entry) ↔
        tree.lookup? (Path.scratchName name process.number :: place) = none := by
      simp only [ne_eq, (hreaches.scratch process.number).find_eq_ok, ← Option.eq_none_iff_forall_ne_some]
    have hne : Path.scratchName name process.number :: place ≠ name :: place := fun heq =>
      Path.scratchName_ne name process.number (List.cons.inj heq).1
    rw [hscratch, ← hempty]
    constructor
    · intro hsame
      have htarget := hsame (name :: place)
      have hcleared := hsame (Path.scratchName name process.number :: place)
      rw [hwritten.entries, if_pos rfl, hentry] at htarget
      rw [hwritten.entries, if_neg hne, if_pos rfl] at hcleared
      exact ⟨by simpa using htarget, ⟨_, hfind⟩, hcleared.symm⟩
    · rintro ⟨htext, -, hnone⟩ q
      rw [hwritten.entries]
      split_ifs with hq hq
      · rw [hq, hentry, htext]
      · rw [hq, hnone]
      · rfl
  · exact iff_of_false (fun hsame => hfound (hthere hsame)) fun h => hfound h.2.1

def kept : Document := ⟨"BUILD", .build, [.comment ["# Tools."],
  .rule ⟨["# Kept."], ⟨.ident "rpmtree", ⟨[.keyword "name" (.text "b")], []⟩⟩, some "# Here."⟩]⟩

def keptTree : FileTree := ⟨[(["BUILD"], .file (Utf8.encode kept.text))]⟩

theorem save_unchanged_iff_kept :
    kept.preview keptTree "BUILD" = .ok "" ∧ kept.save keptTree 1 "BUILD" = (keptTree, .ok ()) ∧
    (∃ entry, keptTree.find "BUILD" = .ok entry) ∧
    ∀ entry, keptTree.find (Path.scratch "BUILD" (Process.number 1)) ≠ .ok entry := by
  have hfind : keptTree.find "BUILD" = .ok (.file (Utf8.encode kept.text)) := by decide +kernel
  have hsave : kept.save keptTree 1 "BUILD" = (keptTree, .ok ()) := by decide +kernel
  obtain ⟨diff, hpreview, hempty, -⟩ := preview_of_find hfind (Utf8.decode_encode kept.text) kept
  cases hempty.mp rfl
  exact ⟨hpreview, hsave, ((save_unchanged_iff hpreview hsave).mp fun _ => rfl).2⟩

def unwritten : FileTree := ⟨[(["BUILD"], .file [])]⟩

/-- A missing file counts as an empty one in the preview, but saving creates it. -/
theorem preview_missing_creates :
    (Document.empty "BUILD" .build).preview .empty "BUILD" = .ok "" ∧
    (Document.empty "BUILD" .build).save .empty 1 "BUILD" = (unwritten, .ok ()) ∧
    unwritten.lookup? ["BUILD"] ≠ FileTree.empty.lookup? ["BUILD"] := by
  decide +kernel

end BuildSync.Document
