import BuildSync.Proofs.Sync.Commute

namespace BuildSync

namespace Rule

variable {files : List String}

theorem perm_bundleFiles (files : List String) : (bundleFiles files).Perm files :=
  List.mergeSort_perm _ _

theorem pairwise_bundleFiles (files : List String) :
    (bundleFiles files).Pairwise fun a b => ¬Utf8.encode b < Utf8.encode a := by
  have htrans (a b c : String) (hab : (!decide (b < a)) = true) (hbc : (!decide (c < b)) = true) :
      (!decide (c < a)) = true := by
    simp only [Bool.not_eq_true', decide_eq_false_iff_not, not_lt] at *
    exact hab.trans hbc
  have htotal (a b : String) : (!decide (b < a) || !decide (a < b)) = true := by
    simp only [Bool.or_eq_true, Bool.not_eq_true', decide_eq_false_iff_not, not_lt]
    exact le_total a b
  refine (List.pairwise_mergeSort htrans htotal files).imp fun h => ?_
  rw [Utf8.encode_lt_encode]
  simpa using h

end Rule

namespace Document

variable {d : Document} {name key : String} {ps : List Package} {files : List String}

def bundled (d : Document) (name : String) (ps : List Package) (files : List String) (key : String) : Rule :=
  let r := (d.lastRule? bundleKind key).getD (.new bundleKind)
  if key = name then
    r.assign [("name", .text name), ("rpms", .textList (ps.map fun p => "@" ++ p.name ++ "//rpm")),
      ("files", .textList files)]
  else r

theorem bundled_self (d : Document) (name : String) (ps : List Package) (files : List String) :
    d.bundled name ps (Rule.bundleFiles files) name =
      ((d.lastRule? bundleKind name).getD (.new bundleKind)).bundle name ps files := by
  rw [bundled, if_pos rfl, Rule.bundle_eq_assign]
  rfl

theorem bundled_of_ne (h : key ≠ name) :
    d.bundled name ps files key = (d.lastRule? bundleKind key).getD (.new bundleKind) :=
  if_neg h

theorem find?_bundles_eq (d : Document) (name : String) (ps : List Package) (files : List String)
    (key : String) : (d.bundles name ps files).find? key =
      if key ∈ (d.rules bundleKind).map Rule.key ∨ key = name then
        some (d.bundled name ps (Rule.bundleFiles files) key)
      else none := by
  rw [find?_bundles]
  by_cases hkey : key = name
  · subst hkey
    rw [if_pos rfl, if_pos (.inr rfl), bundled_self]
  have hsome : (d.lastRule? bundleKind key).isSome = true ↔ key ∈ (d.rules bundleKind).map Rule.key := isSome_lastRule?
  rw [if_neg hkey, bundled_of_ne hkey]
  cases hr : d.lastRule? bundleKind key with
  | some r =>
    rw [hr] at hsome
    rw [if_pos (.inl (hsome.mp rfl)), Option.getD_some]
  | none =>
    rw [hr] at hsome
    have hd : key ∉ (d.rules bundleKind).map Rule.key := fun hd => Bool.false_ne_true (hsome.mpr hd)
    rw [if_neg (not_or.mpr ⟨hd, hkey⟩)]

theorem mem_keys_bundles : key ∈ (d.bundles name ps files).map Prod.fst ↔
    key ∈ (d.rules bundleKind).map Rule.key ∨ key = name := by
  rw [Register.mem_keys, find?_bundles_eq]
  split_ifs with hkey
  · exact iff_of_true rfl hkey
  · exact iff_of_false Bool.false_ne_true hkey

theorem eq_bundled_of_mem {e : String × Rule} (he : e ∈ d.bundles name ps files) :
    e.2 = d.bundled name ps (Rule.bundleFiles files) e.1 := by
  have hfind := (sorted_bundles d name ps files).find?_of_mem he
  rw [find?_bundles_eq] at hfind
  split_ifs at hfind
  exact (Option.some.inj hfind).symm

theorem rules_bundles (d : Document) (name : String) (ps : List Package) (files : List String) :
    (d.bundles name ps files).rules =
      ((d.bundles name ps files).map Prod.fst).map (d.bundled name ps (Rule.bundleFiles files)) := by
  rw [Register.rules, List.map_map]
  exact List.map_congr_left fun e he => eq_bundled_of_mem he

/-- Where the bundles of a file stand once one of them is written, in which order, and what they
are made of. -/
theorem addBundle_eq_bundled (d : Document) (name : String) (ps : List Package) (files : List String) :
    ∃ (before after : List Statement) (keys sorted : List String),
      d.others bundleKind = before ++ after ∧ (∀ s ∈ before.getLast?, s.isComment = false) ∧
      (∀ s ∈ after, s.isComment = true) ∧
      (d.addBundle name ps files).2 =
        { d with statements := before ++ keys.map (fun key => .rule (d.bundled name ps sorted key)) ++ after } ∧
      keys.Pairwise (fun a b => Utf8.encode a < Utf8.encode b) ∧
      (∀ key, key ∈ keys ↔ key ∈ (d.rules bundleKind).map Rule.key ∨ key = name) ∧
      (∀ key ∈ keys, (d.bundled name ps sorted key).key = key ∧
        (d.bundled name ps sorted key).kind = bundleKind) ∧
      sorted.Perm files ∧ sorted.Pairwise fun a b => ¬Utf8.encode b < Utf8.encode a := by
  refine ⟨_, _, (d.bundles name ps files).map Prod.fst, Rule.bundleFiles files,
    (Statement.upToLastCode_append_trailingComments _).symm, Statement.coded_upToLastCode _,
    Statement.isComment_trailingComments _, ?_, ?_, fun _ => mem_keys_bundles, ?_,
    Rule.perm_bundleFiles _, Rule.pairwise_bundleFiles _⟩
  · have hstatements := statements_replaceRules d bundleKind (d.bundles name ps files)
    rw [rules_bundles, List.map_map] at hstatements
    rw [addBundle_eq, replaceRules_eq, hstatements]
    rfl
  · rw [List.pairwise_map]
    exact (sorted_bundles d name ps files).imp fun h => Utf8.encode_lt_encode.mpr h
  · rw [List.forall_mem_map]
    intro e he
    rw [← eq_bundled_of_mem he]
    exact ⟨keyed_bundles d name ps files e he, kind_bundles d name ps files e he⟩

end Document
end BuildSync
