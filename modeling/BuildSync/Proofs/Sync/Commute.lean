import BuildSync.Proofs.Sync.Append

namespace BuildSync

namespace Register

variable {reg : Register} {key key' : String}

theorem insert_comm (hs : reg.Sorted) (hne : key ≠ key') (r s : Rule) :
    insert key' s (insert key r reg) = insert key r (insert key' s reg) := by
  have hleft := sorted_insert (sorted_insert hs key r) key' s
  have hright := sorted_insert (sorted_insert hs key' s) key r
  apply hleft.ext hright
  intro k
  simp only [find?_insert]
  by_cases hk : k = key
  · rw [if_neg (hk ▸ hne), if_pos hk, if_pos hk]
  · rw [if_neg hk, if_neg hk]

theorem insert_insert (hs : reg.Sorted) (key : String) (r s : Rule) :
    insert key s (insert key r reg) = insert key s reg := by
  apply (sorted_insert (sorted_insert hs key r) key s).ext (sorted_insert hs key s)
  intro k
  simp only [find?_insert]
  split_ifs <;> rfl

end Register

namespace Rule

variable {name : String} {ps qs : List Package} {files files' : List String}

theorem bundle_eq_assign (r : Rule) (name : String) (ps : List Package) (files : List String) :
    r.bundle name ps files = r.assign [("name", .text name), ("rpms", .textList (ps.map (·.reference))),
      ("files", .textList (bundleFiles files))] := by
  rw [bundle_eq]
  conv_lhs => rw [← assign_nil r, setAttr_assign, setAttr_assign, setAttr_assign]
  rfl

theorem bundle_bundle (r : Rule) : (r.bundle name ps files).bundle name qs files' = r.bundle name qs files' := by
  rw [bundle_eq_assign, bundle_eq_assign, bundle_eq_assign]
  refine (assign_assign ?_ r).trans rfl
  exact (by decide : (["name", "rpms", "files"] : List String).Nodup)

theorem kind_bundle (r : Rule) : (r.bundle name ps files).kind = r.kind := rfl

end Rule

namespace Document

variable {d : Document} {m n : String} {ps qs : List Package} {fs gs : List String}

theorem sorted_bundles (d : Document) (n : String) (ps : List Package) (fs : List String) :
    (d.bundles n ps fs).Sorted :=
  Register.sorted_insert (Register.sorted_ofRules _) _ _

theorem keyed_bundles (d : Document) (n : String) (ps : List Package) (fs : List String) :
    (d.bundles n ps fs).Keyed :=
  Register.keyed_insert (Register.keyed_ofRules _) (Rule.key_bundle _ _ _ _)

theorem kind_bundles (d : Document) (n : String) (ps : List Package) (fs : List String) :
    ∀ e ∈ d.bundles n ps fs, e.2.kind = bundleKind := by
  intro e he
  have hfind := (sorted_bundles d n ps fs).find?_of_mem he
  rw [find?_bundles] at hfind
  by_cases hkey : e.1 = n
  · rw [if_pos hkey] at hfind
    rw [← Option.some.inj hfind, Rule.kind_bundle]
    cases hr : d.lastRule? bundleKind n with
    | none => exact Rule.kind_new (by decide)
    | some r => exact kind_of_lastRule? (by decide) hr
  · rw [if_neg hkey] at hfind
    exact kind_of_lastRule? (by decide) hfind

theorem addBundle_addBundle (d : Document) (m n : String) (ps qs : List Package) (fs gs : List String) :
    ((d.addBundle m ps fs).2.addBundle n qs gs).2 = d.replaceRules bundleKind
      ((d.bundles m ps fs).insert n
        ((((d.bundles m ps fs).find? n).getD (.new bundleKind)).bundle n qs gs)) := by
  have hkind := kind_bundles d m ps fs
  have hfound : (d.replaceRules bundleKind (d.bundles m ps fs)).register bundleKind = d.bundles m ps fs :=
    register_replaceRules (sorted_bundles d m ps fs) (keyed_bundles d m ps fs) hkind
  have hsecond : (d.replaceRules bundleKind (d.bundles m ps fs)).bundles n qs gs =
      (d.bundles m ps fs).insert n ((((d.bundles m ps fs).find? n).getD (.new bundleKind)).bundle n qs gs) :=
    congrArg (fun reg : Register => reg.insert n (((reg.find? n).getD (.new bundleKind)).bundle n qs gs)) hfound
  rw [addBundle_eq, addBundle_eq, hsecond, replaceRules_replaceRules hkind]

theorem addBundle_comm (hne : m ≠ n) (ps qs : List Package) (fs gs : List String) :
    ((d.addBundle m ps fs).2.addBundle n qs gs).2 = ((d.addBundle n qs gs).2.addBundle m ps fs).2 := by
  have hn : (d.bundles m ps fs).find? n = (d.register bundleKind).find? n := by
    rw [bundles, Register.find?_insert, if_neg hne.symm]
  have hm : (d.bundles n qs gs).find? m = (d.register bundleKind).find? m := by
    rw [bundles, Register.find?_insert, if_neg hne]
  have hs : (d.register bundleKind).Sorted := Register.sorted_ofRules _
  rw [addBundle_addBundle, addBundle_addBundle, hn, hm, bundles, bundles, Register.insert_comm hs hne]

theorem addBundle_same (n : String) (ps qs : List Package) (fs gs : List String) :
    ((d.addBundle n ps fs).2.addBundle n qs gs).2 = (d.addBundle n qs gs).2 := by
  have hfind : (d.bundles n ps fs).find? n =
      some ((((d.register bundleKind).find? n).getD (.new bundleKind)).bundle n ps fs) := by
    rw [bundles, Register.find?_insert, if_pos rfl]
  have hs : (d.register bundleKind).Sorted := Register.sorted_ofRules _
  rw [addBundle_addBundle, hfind, Option.getD_some, Rule.bundle_bundle, bundles, Register.insert_insert hs,
    addBundle_eq, bundles]

end Document
end BuildSync
