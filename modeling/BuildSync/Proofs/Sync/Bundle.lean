import BuildSync.Proofs.Sync.Replace
import BuildSync.Sync.Bundle

namespace BuildSync

namespace Rule

variable {r s : Rule} {name : String} {ps : List Package} {files : List String}

def bundleFiles (files : List String) : List String := files.mergeSort fun a b => !decide (b < a)

theorem bundle_eq (r : Rule) (name : String) (ps : List Package) (files : List String) :
    r.bundle name ps files = ((r.setAttr "name" (.text name)).setAttr "rpms"
      (.textList (ps.map (·.reference)))).setAttr "files" (.textList (bundleFiles files)) := rfl

theorem attr?_bundle (r : Rule) (name : String) (ps : List Package) (files : List String) :
    (r.bundle name ps files).attr? "name" = some (.text name) ∧
      (r.bundle name ps files).attr? "rpms" = some (.textList (ps.map (·.reference))) ∧
      (r.bundle name ps files).attr? "files" = some (.textList (bundleFiles files)) := by
  rw [bundle_eq]
  refine ⟨?_, ?_, attr?_setAttr _ _ _⟩
  · rw [attr?_setAttr_ne (by decide), attr?_setAttr_ne (by decide), attr?_setAttr]
  · rw [attr?_setAttr_ne (by decide), attr?_setAttr]

theorem key_bundle (r : Rule) (name : String) (ps : List Package) (files : List String) :
    (r.bundle name ps files).key = name := by
  rw [key, name?, (attr?_bundle r name ps files).1]
  rfl

theorem fits_bundle (h : (Statement.rule r).Fits false) (name : String) (ps : List Package)
    (files : List String) : (Statement.rule (r.bundle name ps files)).Fits false := by
  rw [bundle_eq]
  have hname := Statement.fits_setAttr h (by decide : identifier "name" = true) (Expr.fits_text name)
  have hrpms := Statement.fits_setAttr hname (by decide : identifier "rpms" = true)
    (Expr.fits_textList (ps.map (·.reference)))
  exact Statement.fits_setAttr hrpms (by decide) (Expr.fits_textList _)

theorem bundle_again (h : s.reread = (r.bundle name ps files).reread) :
    (s.bundle name ps files).reread = (r.bundle name ps files).reread := by
  obtain ⟨hname, hrpms, hfiles⟩ := attr?_bundle r name ps files
  rw [bundle_eq s, reread_setAttr, reread_setAttr, reread_setAttr, h]
  generalize r.bundle name ps files = b at *
  have hname' : b.reread.setAttr "name" (Expr.text name).reread = b.reread :=
    setAttr_eq_self (by rw [attr?_reread, hname, Option.map_some])
  have hrpms' : b.reread.setAttr "rpms" (Expr.textList (ps.map (·.reference))).reread = b.reread :=
    setAttr_eq_self (by rw [attr?_reread, hrpms, Option.map_some])
  rw [hname', hrpms']
  exact setAttr_eq_self (by rw [attr?_reread, hfiles, Option.map_some])

end Rule

namespace Document

variable {d : Document}

def bundles (d : Document) (name : String) (ps : List Package) (files : List String) : Register :=
  (d.register bundleKind).insert name
    ((((d.register bundleKind).find? name).getD (.new bundleKind)).bundle name ps files)

theorem addBundle_eq (d : Document) (name : String) (ps : List Package) (files : List String) :
    (d.addBundle name ps files).2 = d.replaceRules bundleKind (d.bundles name ps files) := rfl

theorem files_bundles (hd : ∀ s ∈ d.statements, s.Fits false) (name : String) (ps : List Package)
    (files : List String) : Files bundleKind (d.bundles name ps files) := by
  have hregister := files_register hd bundleKind
  obtain ⟨hkind, hfits⟩ := hregister.found (by decide) (by decide) (by decide) name
  exact hregister.insert (Rule.key_bundle _ _ _ _) hkind (Rule.fits_bundle hfits _ _ _)

theorem addBundle_again (hd : ∀ s ∈ d.statements, s.Fits false) (name : String) (ps : List Package)
    (files : List String) (path : String) (flavor : Flavor) :
    ∃ d₂, parse path flavor (Utf8.encode (d.addBundle name ps files).2.text) = .ok d₂ ∧
      (d₂.addBundle name ps files).2.text = (d.addBundle name ps files).2.text ∧
      (d₂.addBundle name ps files).1.created = 0 := by
  have hfiles := files_bundles hd name ps files
  obtain ⟨d₂, hparse, hd₂, hregister, htext⟩ := parse_replaceRules hd hfiles path flavor
  have hfiles₂ := files_bundles hd₂ name ps files
  have hfind : (d.bundles name ps files).find? name =
      some ((((d.register bundleKind).find? name).getD (.new bundleKind)).bundle name ps files) := by
    rw [bundles, Register.find?_insert, if_pos rfl]
  generalize ((d.register bundleKind).find? name).getD (.new bundleKind) = r at hfind
  have hfind₂ : (d₂.register bundleKind).find? name = some (r.bundle name ps files).reread := by
    rw [hregister, Register.find?_mapRules, hfind, Option.map_some]
  have hsame : (d₂.bundles name ps files).mapRules Rule.reread =
      (d.bundles name ps files).mapRules Rule.reread := by
    refine (Register.sorted_mapRules _ hfiles₂.sorted).ext (Register.sorted_mapRules _ hfiles.sorted) fun key => ?_
    rw [Register.find?_mapRules, bundles, Register.find?_insert, hfind₂]
    split_ifs with hkey
    · rw [hkey, Register.find?_mapRules, hfind, Option.map_some, Option.map_some, Option.getD_some,
        Rule.bundle_again (hfiles.reread_reread hfind)]
    · rw [hregister, Register.find?_mapRules]
      cases hr : (d.bundles name ps files).find? key with
      | none => rfl
      | some s => exact congrArg some (hfiles.reread_reread hr)
  refine ⟨d₂, hparse, htext _ hsame hfiles₂.fits, ?_⟩
  rw [addBundle]
  simp only [hfind₂, Option.isNone_some, Bool.false_eq_true, if_false]

end Document
end BuildSync
