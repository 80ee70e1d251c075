import BuildSync.Proofs.Sync.Bundle
import BuildSync.Proofs.Sync.Fetch

namespace BuildSync

namespace Rule

variable {r : Rule}

theorem key_eq_iff {name : String} (hname : name ≠ "") : r.key = name ↔ r.name? = some name := by
  rw [key]
  cases r.name? with
  | none => simp [hname.symm]
  | some n => simp

theorem writtenUrls_reread (r : Rule) : r.reread.writtenUrls = r.writtenUrls := by
  rw [writtenUrls, writtenUrls, attr?_reread, Option.bind_map]
  congr 2
  funext e
  exact Expr.textList?_reread e

theorem writtenUrls_fetching (h : r.writtenUrls ≠ []) (key : String) (ps : List Package) :
    (r.fetching key ps).writtenUrls = r.writtenUrls := by
  have hempty : r.writtenUrls.isEmpty = false := by simpa using h
  rw [fetching]
  split
  · rfl
  · rw [writtenUrls_assign, hempty]
    rfl

end Rule

namespace Document

variable {d d' d'' : Document} {kind kind' key : String} {reg : Register} {ps : List Package} {report : Report}

theorem rules_replaceRules (hk : kind ≠ "") (hreg : ∀ e ∈ reg, e.2.kind = kind) :
    (d.replaceRules kind reg).rules kind = reg.rules := by
  rw [rules_eq hk]
  refine (removeRules_append kind (statements_replaceRules d kind reg) ?_ (Register.forall_rules hreg)).1
  rw [Statement.upToLastCode_append_trailingComments]
  exact isRuleOf_others d kind

theorem filter_others (hne : kind' ≠ kind) (d : Document) :
    ((d.others kind).filterMap Statement.rule?).filter (·.kind == kind') =
      d.allRules.filter (·.kind == kind') := by
  rw [others, allRules]
  induction d.statements with
  | nil => rfl
  | cons s ss ih =>
    cases s with
    | rule r =>
      by_cases hr : r.kind = kind
      · rw [List.filter_cons_of_neg (by simp [Statement.isRuleOf_rule, hr]), ih]
        simp [Statement.rule?, hr, hne.symm]
      · rw [List.filter_cons_of_pos (by simp [Statement.isRuleOf_rule, hr])]
        simp only [List.filterMap_cons, Statement.rule?, List.filter_cons, ih]
    | comment lines => exact ih
    | verbatim comments text => exact ih

theorem rules_replaceRules_ne (hk : kind' ≠ "") (hne : kind' ≠ kind) (hreg : ∀ e ∈ reg, e.2.kind = kind) :
    (d.replaceRules kind reg).rules kind' = d.rules kind' := by
  have hrules : ((reg.rules.map Statement.rule).filterMap Statement.rule?).filter (·.kind == kind') = [] := by
    have hsome : Statement.rule? ∘ Statement.rule = some := rfl
    rw [List.filterMap_map, hsome, List.filterMap_some, List.filter_eq_nil_iff]
    intro r hr
    have hkind := Register.forall_rules (P := fun r => r.kind = kind) hreg r hr
    simpa [hkind] using hne.symm
  have hempty : kind'.isEmpty = false := by simpa using hk
  simp only [rules, hempty, Bool.false_or]
  rw [← filter_others hne d, allRules, statements_replaceRules, List.filterMap_append, List.filterMap_append,
    List.filter_append, List.filter_append, hrules, List.append_nil, ← List.filter_append, ← List.filterMap_append,
    Statement.upToLastCode_append_trailingComments]

theorem lastRule?_replaceRules (hk : kind ≠ "") (hreg : Files kind reg) (key : String) :
    (d.replaceRules kind reg).lastRule? kind key = reg.find? key := by
  rw [lastRule?, rules_replaceRules hk hreg.kind, ← Register.find?_ofRules,
    Register.ofRules_rules hreg.sorted hreg.keyed]

def reread (d : Document) : Document := { d with statements := d.statements.map Statement.reread }

theorem rules_reread (d : Document) (kind : String) : d.reread.rules kind = (d.rules kind).map Rule.reread := by
  have hall : d.reread.allRules = d.allRules.map Rule.reread := by
    rw [allRules, allRules, reread, List.filterMap_map, List.map_filterMap]
    congr 1
    funext s
    cases s <;> rfl
  rw [rules, rules, hall, List.filter_map]
  congr 2
  funext r
  simp

theorem lastRule?_reread (d : Document) (kind key : String) :
    d.reread.lastRule? kind key = (d.lastRule? kind key).map Rule.reread := by
  rw [lastRule?, lastRule?, rules_reread, List.filter_map, List.getLast?_map]
  congr 3
  funext r
  exact congrArg (· == key) r.key_reread

/-- Each key still has a rule, and the locations that its last rule had stay as they are. -/
def Keeps (d d' : Document) : Prop := ∀ key r, d.lastRule? rpmKind key = some r →
  ∃ r', d'.lastRule? rpmKind key = some r' ∧ (r.writtenUrls ≠ [] → r'.writtenUrls = r.writtenUrls)

theorem Keeps.refl (d : Document) : d.Keeps d := fun _ r h => ⟨r, h, fun _ => rfl⟩

theorem Keeps.trans (h : d.Keeps d') (h' : d'.Keeps d'') : d.Keeps d'' := by
  intro key r hr
  obtain ⟨r', hr', hurls⟩ := h key r hr
  obtain ⟨r'', hr'', hurls'⟩ := h' key r' hr'
  refine ⟨r'', hr'', fun hne => ?_⟩
  rw [hurls' (by rwa [hurls hne]), hurls hne]

theorem keeps_reread (d : Document) : d.Keeps d.reread := by
  intro key r hr
  refine ⟨r.reread, ?_, fun _ => r.writtenUrls_reread⟩
  rw [lastRule?_reread, hr, Option.map_some]

def lastNamed? (d : Document) (kind name : String) : Option Rule :=
  ((d.rules kind).filter (·.name? == some name)).getLast?

theorem lastNamed?_eq {name : String} (hname : name ≠ "") (d : Document) (kind : String) :
    d.lastNamed? kind name = d.lastRule? kind name := by
  rw [lastNamed?, lastRule?]
  congr 2
  funext r
  rw [Bool.eq_iff_iff, beq_iff_eq, beq_iff_eq, Rule.key_eq_iff hname]

theorem Keeps.named (h : d.Keeps d') {name : String} (hname : name ≠ "")
    (hr : ∃ r ∈ d.rules rpmKind, r.name? = some name) : ∃ r ∈ d'.rules rpmKind, r.name? = some name := by
  obtain ⟨r, hmem, hr⟩ := hr
  have hkey : name ∈ (d.rules rpmKind).map Rule.key :=
    List.mem_map.mpr ⟨r, hmem, (Rule.key_eq_iff hname).mpr hr⟩
  obtain ⟨last, hlast⟩ := Option.isSome_iff_exists.mp (isSome_lastRule?.mpr hkey)
  obtain ⟨r', hr', -⟩ := h name last hlast
  exact ⟨r', (List.mem_filter.mp (List.mem_of_getLast? hr')).1, (Rule.key_eq_iff hname).mp (key_of_lastRule? hr')⟩

theorem Keeps.urls (h : d.Keeps d') {name : String} (hname : name ≠ "") {r : Rule}
    (hr : d.lastNamed? rpmKind name = some r) (hurls : r.writtenUrls ≠ []) :
    ∃ r', d'.lastNamed? rpmKind name = some r' ∧ r'.writtenUrls = r.writtenUrls := by
  rw [lastNamed?_eq hname] at hr ⊢
  obtain ⟨r', hr', hsame⟩ := h name r hr
  exact ⟨r', hr', hsame hurls⟩

def Ascends (d : Document) : Prop :=
  (d.rules rpmKind).Pairwise fun r s => Utf8.encode r.key < Utf8.encode s.key

theorem Ascends.reread (h : d.Ascends) : d.reread.Ascends := by
  rw [Ascends, rules_reread, List.pairwise_map]
  exact h.imp fun hlt => by rwa [Rule.key_reread, Rule.key_reread]

theorem Ascends.nodup (h : d.Ascends) : ((d.rules rpmKind).filterMap Rule.name?).Nodup := by
  refine List.Pairwise.filterMap _ (fun r s hlt n hn m hm => ?_) h
  have hr : r.key = n := by rw [Rule.key, hn, Option.getD_some]
  have hs : s.key = m := by rw [Rule.key, hm, Option.getD_some]
  rw [hr, hs] at hlt
  exact (Utf8.encode_lt_encode.mp hlt).ne

inductive Syncs (d : Document) : String → Document → Prop
  | rpms {d' : Document} {ps : List Package} {report : Report} (h : d.addRpms ps = .ok (report, d')) :
    Syncs d rpmKind d'
  | bundle (name : String) (ps : List Package) (files : List String) :
    Syncs d bundleKind (d.addBundle name ps files).2

namespace Syncs

variable (hd : ∀ s ∈ d.statements, s.Fits false) (h : d.Syncs kind d')

include hd h

theorem fits : ∀ s ∈ d'.statements, s.Fits false := by
  cases h with
  | rpms h =>
    obtain ⟨t, ht, rfl⟩ := addRpms_eq_ok h
    exact fits_replaceRules hd (files_rpms hd ht).fits
  | bundle name ps files => exact fits_replaceRules hd (files_bundles hd name ps files).fits

theorem keeps : d.Keeps d' := by
  intro key r hr
  cases h with
  | rpms h =>
    obtain ⟨t, ht, rfl⟩ := addRpms_eq_ok h
    have hkey : key ∈ (d.rules rpmKind).map Rule.key := isSome_lastRule?.mp (by rw [hr]; rfl)
    rw [lastRule?_replaceRules (by decide) (files_rpms hd ht), find?_rpms ht, if_pos (.inl hkey)]
    refine ⟨_, rfl, fun hne => ?_⟩
    rw [rpm, hr, Option.getD_some, Rule.writtenUrls_fetching hne]
  | bundle name ps files =>
    refine ⟨r, ?_, fun _ => rfl⟩
    have hkind := (files_bundles hd name ps files).kind
    rw [addBundle_eq, lastRule?, rules_replaceRules_ne (by decide) (by decide) hkind]
    exact hr

theorem ascends (hkind : kind = rpmKind) : d'.Ascends := by
  cases h with
  | rpms h =>
    obtain ⟨t, ht, rfl⟩ := addRpms_eq_ok h
    have hfiles := files_rpms hd ht
    rw [Ascends, rules_replaceRules (by decide) hfiles.kind, Register.rules, List.pairwise_map]
    refine hfiles.sorted.imp_of_mem fun ha hb hlt => ?_
    rw [hfiles.keyed _ ha, hfiles.keyed _ hb]
    exact Utf8.encode_lt_encode.mpr hlt
  | bundle => exact absurd hkind (by decide)

end Syncs

end Document
end BuildSync
