import BuildSync.Proofs.Sync.Bundle
import BuildSync.Proofs.Sync.Fetch

namespace BuildSync

namespace Document

variable {d : Document} {kind : String} {reg : Register} {r : Rule}

theorem rule_mem_replaceRules (hs : reg.Sorted) (hk : reg.Keyed) (hr : r.kind = kind) :
    .rule r ∈ (d.replaceRules kind reg).statements ↔ reg.find? r.key = some r := by
  have hother : Statement.rule r ∉ d.others kind := by
    intro h
    have := isRuleOf_others d kind _ h
    rw [Statement.isRuleOf_rule, hr] at this
    simp at this
  rw [← Statement.upToLastCode_append_trailingComments (d.others kind), List.mem_append, not_or] at hother
  rw [statements_replaceRules, List.mem_append, List.mem_append]
  constructor
  · rintro ((h | h) | h)
    · exact absurd h hother.1
    · obtain ⟨s, hmem, hsr⟩ := List.mem_map.mp h
      cases hsr
      obtain ⟨e, he, rfl⟩ := List.mem_map.mp hmem
      have hkey := hk e he
      rw [hkey]
      exact hs.find?_of_mem he
    · exact absurd h hother.2
  · intro h
    exact .inl (.inr (List.mem_map.mpr ⟨r, List.mem_map.mpr ⟨_, Register.mem_of_find? h, rfl⟩, rfl⟩))

theorem keyed_rpms {ps : List Package} {t : RpmTally}
    (h : RpmTally.addAll ⟨d.register rpmKind, [], 0, 0⟩ ps = .ok t) : t.register.Keyed := by
  intro e he
  have hfind := (RpmTally.sorted_addAll h (Register.sorted_ofRules _)).find?_of_mem he
  rw [find?_rpms h] at hfind
  split_ifs at hfind with hkey
  rw [← Option.some.inj hfind, key_rpm hkey]

theorem find?_bundles (d : Document) (name : String) (ps : List Package) (files : List String)
    (key : String) : (d.bundles name ps files).find? key =
      if key = name then some (((d.lastRule? bundleKind name).getD (.new bundleKind)).bundle name ps files)
      else d.lastRule? bundleKind key := by
  rw [bundles, Register.find?_insert, find?_register (by decide), find?_register (by decide)]

/-- A rule that no package or bundle is filed with stays just where it is the last one under its
key. Rules that have no string for a name share a key. -/
theorem unmentioned_mem_iff (d : Document) :
    (∀ ps report d', d.addRpms ps = .ok (report, d') → ∀ r : Rule, r.kind = rpmKind →
      r.key ∉ ps.map Package.identity →
        (.rule r ∈ d'.statements ↔ d.lastRule? rpmKind r.key = some r)) ∧
    ∀ name ps files (r : Rule), r.kind = bundleKind → r.key ≠ name →
      (.rule r ∈ (d.addBundle name ps files).2.statements ↔ d.lastRule? bundleKind r.key = some r) := by
  constructor
  · intro ps report d' h r hkind hkey
    obtain ⟨t, ht, rfl⟩ := addRpms_eq_ok h
    rw [rule_mem_replaceRules (RpmTally.sorted_addAll ht (Register.sorted_ofRules _)) (keyed_rpms ht) hkind,
      RpmTally.find?_addAll ht, if_neg hkey, find?_register (by decide)]
  · intro name ps files r hkind hkey
    have hsorted : (d.bundles name ps files).Sorted :=
      Register.sorted_insert (Register.sorted_ofRules _) _ _
    have hkeyed : (d.bundles name ps files).Keyed :=
      Register.keyed_insert (Register.keyed_ofRules _) (Rule.key_bundle _ _ _ _)
    rw [addBundle_eq, rule_mem_replaceRules hsorted hkeyed hkind, find?_bundles, if_neg hkey]

def prefixed (kind name : String) : Rule :=
  ⟨[], ⟨.ident kind,
    ⟨[.keyword "name" (.binary "+" (.ident "A") (.string name (some (quoted name))))], []⟩⟩, none⟩

def twoPrefixed : Document :=
  ⟨"WORKSPACE", .workspace, [.rule (prefixed "rpm" "x"), .rule (prefixed "rpm" "y")]⟩

def onePrefixed : Document := ⟨"WORKSPACE", .workspace, [.rule (prefixed "rpm" "y")]⟩

theorem addRpms_twoPrefixed : twoPrefixed.addRpms [] = .ok (⟨0, 0, 1⟩, onePrefixed) := rfl

theorem unmentioned_mem_iff_prefixed :
    (twoPrefixed.addRpms [] = .ok (⟨0, 0, 1⟩, onePrefixed) ∧ (prefixed "rpm" "y").kind = rpmKind ∧
      (prefixed "rpm" "y").key ∉ ([] : List Package).map Package.identity ∧
      (.rule (prefixed "rpm" "y") ∈ onePrefixed.statements ↔
        twoPrefixed.lastRule? rpmKind (prefixed "rpm" "y").key = some (prefixed "rpm" "y"))) ∧
    (prefixed "rpmtree" "y").kind = bundleKind ∧ (prefixed "rpmtree" "y").key ≠ "tree" ∧
      (.rule (prefixed "rpmtree" "y") ∈ (twoPrefixed.addBundle "tree" [] []).2.statements ↔
        twoPrefixed.lastRule? bundleKind (prefixed "rpmtree" "y").key = some (prefixed "rpmtree" "y")) := by
  have hkey : (prefixed "rpmtree" "y").key ≠ "tree" := by decide
  refine ⟨⟨addRpms_twoPrefixed, rfl, nofun, ?_⟩, rfl, hkey, ?_⟩
  · exact (unmentioned_mem_iff twoPrefixed).1 [] _ _ addRpms_twoPrefixed _ rfl nofun
  · exact (unmentioned_mem_iff twoPrefixed).2 "tree" [] [] _ rfl hkey

/-- Of two rules without a string for a name the first one is lost, though neither is mentioned and
no rule has its name. -/
theorem prefixed_not_kept : ∃ d report d', 
    parse "WORKSPACE" .workspace (Utf8.encode "rpm(name = A + \"x\")\nrpm(name = A + \"y\")\n") = .ok d ∧
      d.addRpms [] = .ok (report, d') ∧ .rule (prefixed "rpm" "x") ∈ d.statements ∧
      (prefixed "rpm" "x").kind = rpmKind ∧ (prefixed "rpm" "x").name? = none ∧
      .rule (prefixed "rpm" "x") ∉ d'.statements := by
  refine ⟨twoPrefixed, _, onePrefixed, ?_, addRpms_twoPrefixed, List.mem_cons_self, rfl, rfl, ?_⟩
  · decide +kernel
  · rw [onePrefixed, List.mem_singleton]
    simp [prefixed, Item.keyword]

end Document
end BuildSync
