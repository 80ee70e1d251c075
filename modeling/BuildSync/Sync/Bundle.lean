import BuildSync.Sync

namespace BuildSync

def bundleKind : String := "rpmtree"

def Rule.bundle (r : Rule) (name : String) (packages : List Package) (files : List String) : Rule :=
  ((r.setText "name" name).setTexts "rpms" (packages.map (·.reference))).setTexts "files"
    (files.mergeSort fun a b => !decide (b < a))

def Document.addBundle (doc : Document) (name : String) (packages : List Package)
    (files : List String) : Report × Document :=
  let register := doc.register bundleKind
  let found := register.find? name
  let register := register.insert name ((found.getD (.new bundleKind)).bundle name packages files)
  let report : Report := ⟨if found.isNone then 1 else 0, if found.isSome then 1 else 0, register.length⟩
  (report, doc.replaceRules bundleKind register)

end BuildSync
