import BuildSync.Proofs.Document.RoundTrip
import BuildSync.Proofs.Rule.Attributes
import BuildSync.Proofs.Sync.Register

namespace BuildSync

namespace Statement

variable {xs cs : List Statement}

def Coded (xs : List Statement) : Prop := ∀ s ∈ xs.getLast?, s.isComment = false

theorem coded_concat {s : Statement} (hs : s.isComment = false) : Coded (xs ++ [s]) := by
  intro t ht
  rw [List.getLast?_concat] at ht
  cases ht
  exact hs

theorem dropWhile_reverse (hx : Coded xs) : xs.reverse.dropWhile isComment = xs.reverse ∧
    xs.reverse.takeWhile isComment = [] := by
  cases hxs : xs.reverse with
  | nil => exact ⟨rfl, rfl⟩
  | cons s ss =>
    have hs : s.isComment = false := hx s (by rw [List.getLast?_eq_head?_reverse, hxs]; rfl)
    simp [hs]

theorem upToLastCode_append (hx : Coded xs) (hc : ∀ s ∈ cs, s.isComment = true) :
    upToLastCode (xs ++ cs) = xs ∧ trailingComments (xs ++ cs) = cs := by
  have hc' : ∀ s ∈ cs.reverse, s.isComment = true := fun s hs => hc s (List.mem_reverse.mp hs)
  obtain ⟨hdrop, htake⟩ := dropWhile_reverse hx
  constructor
  · rw [upToLastCode, List.reverse_append, List.dropWhile_append_of_pos hc', hdrop, List.reverse_reverse]
  · rw [trailingComments, List.reverse_append, List.takeWhile_append_of_pos hc', htake, List.append_nil,
      List.reverse_reverse]

theorem coded_upToLastCode (ss : List Statement) : Coded (upToLastCode ss) := by
  intro s hs
  rw [upToLastCode, List.getLast?_reverse] at hs
  have := List.head?_dropWhile_not isComment ss.reverse
  rw [Option.mem_def.mp hs] at this
  simpa using this

theorem isComment_trailingComments (ss : List Statement) :
    ∀ s ∈ trailingComments ss, s.isComment = true := by
  intro s hs
  exact List.all_eq_true.mp List.all_takeWhile s (List.mem_reverse.mp hs)

@[simp] theorem isComment_reread (s : Statement) : s.reread.isComment = s.isComment := by
  cases s <;> rfl

theorem coded_reread (hx : Coded xs) : Coded (xs.map reread) := by
  intro s hs
  rw [List.getLast?_map] at hs
  obtain ⟨t, ht, rfl⟩ := Option.map_eq_some_iff.mp hs
  rw [isComment_reread]
  exact hx t ht

@[simp] theorem isRuleOf_reread (kind : String) (s : Statement) :
    s.reread.isRuleOf kind none = s.isRuleOf kind none := by
  cases s <;> simp [reread, isRuleOf, rule?, Rule.isOf]

theorem isRuleOf_rule (kind : String) (r : Rule) : (rule r).isRuleOf kind none = (r.kind == kind) := by
  simp [isRuleOf, rule?, Rule.isOf]

theorem reread_reread {s : Statement} (h : s.Fits false) : s.reread.reread = s.reread := by
  cases h with
  | rule _ hcall => exact congrArg rule (Rule.reread_eq_of_expr hcall)
  | _ => rfl

theorem map_reread_reread (h : ∀ s ∈ xs, s.Fits false) :
    (xs.map reread).map reread = xs.map reread := by
  rw [List.map_map]
  exact List.map_congr_left fun s hs => reread_reread (h s hs)

end Statement

namespace Document

open Statement

def others (d : Document) (kind : String) : List Statement :=
  d.statements.filter (!·.isRuleOf kind none)

theorem foldl_appendRule (rules : List Rule) {d : Document} {xs cs : List Statement}
    (hd : d.statements = xs ++ cs) (hx : Coded xs) (hc : ∀ s ∈ cs, s.isComment = true) :
    (rules.foldl appendRule d).statements = xs ++ rules.map rule ++ cs := by
  induction rules generalizing d xs with
  | nil => simpa using hd
  | cons r rules ih =>
    obtain ⟨hup, htrailing⟩ := upToLastCode_append hx hc
    have hnext : (d.appendRule r).statements = (xs ++ [rule r]) ++ cs := by
      rw [appendRule, append, Statement.append, hd, hup, htrailing]
      simp
    rw [List.foldl_cons, ih hnext (coded_concat rfl)]
    simp

theorem statements_replaceRules (d : Document) (kind : String) (reg : Register) :
    (d.replaceRules kind reg).statements =
      upToLastCode (d.others kind) ++ reg.rules.map rule ++ trailingComments (d.others kind) :=
  foldl_appendRule reg.rules (upToLastCode_append_trailingComments _).symm (coded_upToLastCode _)
    (isComment_trailingComments _)

variable {d : Document} {kind : String} {reg : Register}

theorem removeRules_append (kind : String) {xs cs : List Statement} {rules : List Rule}
    (hd : d.statements = xs ++ rules.map rule ++ cs) (hx : ∀ s ∈ xs ++ cs, s.isRuleOf kind none = false)
    (hr : ∀ r ∈ rules, r.kind = kind) :
    (d.removeRules kind none).1 = rules ∧ d.others kind = xs ++ cs := by
  have hnone {ss : List Statement} (h : ∀ s ∈ ss, s.isRuleOf kind none = false) :
      (ss.filterMap Statement.rule?).filter (·.isOf kind none) = [] ∧ ss.filter (!·.isRuleOf kind none) = ss := by
    refine ⟨List.filter_eq_nil_iff.mpr fun r hr => ?_, List.filter_eq_self.mpr fun s hs => by simp [h s hs]⟩
    obtain ⟨s, hs, hsr⟩ := List.mem_filterMap.mp hr
    have := h s hs
    rw [isRuleOf, hsr] at this
    simpa using this
  have hrules : ((rules.map rule).filterMap Statement.rule?).filter (·.isOf kind none) = rules ∧
      (rules.map rule).filter (!·.isRuleOf kind none) = [] := by
    constructor
    · rw [List.filterMap_map]
      have : (Statement.rule? ∘ rule) = some := rfl
      rw [this, List.filterMap_some]
      exact List.filter_eq_self.mpr fun r h => by simp [Rule.isOf, hr r h]
    · refine List.filter_eq_nil_iff.mpr fun s hs => ?_
      obtain ⟨r, h, rfl⟩ := List.mem_map.mp hs
      simp [isRuleOf_rule, hr r h]
  obtain ⟨hxs, hcs⟩ := List.forall_mem_append.mp hx
  constructor
  · rw [removeRules, allRules, hd, List.filterMap_append, List.filterMap_append, List.filter_append,
      List.filter_append, (hnone hxs).1, (hnone hcs).1, hrules.1]
    simp
  · rw [others, hd, List.filter_append, List.filter_append, (hnone hxs).2, (hnone hcs).2, hrules.2]
    simp

theorem isRuleOf_others (d : Document) (kind : String) :
    ∀ s ∈ d.others kind, s.isRuleOf kind none = false := by
  intro s hs
  simpa using (List.mem_filter.mp hs).2

structure Files (kind : String) (reg : Register) : Prop where
  sorted : reg.Sorted
  keyed : reg.Keyed
  kind : ∀ e ∈ reg, e.2.kind = kind
  fits : ∀ e ∈ reg, (rule e.2).Fits false

theorem files_register (hd : ∀ s ∈ d.statements, s.Fits false) (kind : String) :
    Files kind (d.register kind) where
  sorted := Register.sorted_ofRules _
  keyed := Register.keyed_ofRules _
  kind := Register.forall_ofRules (P := fun r => r.kind = kind) fun r hr => by
    have := (List.mem_filter.mp hr).2
    simp only [Rule.isOf, Option.isNone_none, Bool.true_or, Bool.and_true, beq_iff_eq] at this
    exact this
  fits := Register.forall_ofRules (P := fun r => (rule r).Fits false) fun r hr => by
    obtain ⟨s, hs, hrule⟩ := List.mem_filterMap.mp (List.mem_filter.mp hr).1
    cases s <;> cases hrule
    exact hd _ hs

theorem Files.insert {key : String} {r : Rule} (h : Files kind reg) (hkey : r.key = key)
    (hkind : r.kind = kind) (hfits : (rule r).Fits false) : Files kind (reg.insert key r) where
  sorted := Register.sorted_insert h.sorted key r
  keyed := Register.keyed_insert h.keyed hkey
  kind := Register.forall_insert h.kind hkind
  fits := Register.forall_insert h.fits hfits

theorem Files.found (h : Files kind reg) (hdot : '.' ∉ kind.toList) (hi : identifier kind = true)
    (hr : kind ∉ reserved) (key : String) : ((reg.find? key).getD (.new kind)).kind = kind ∧
      (rule ((reg.find? key).getD (.new kind))).Fits false := by
  cases hf : reg.find? key with
  | none => exact ⟨Rule.kind_new hdot, Rule.fits_new hdot hi hr⟩
  | some r => exact ⟨h.kind _ (Register.mem_of_find? hf), h.fits _ (Register.mem_of_find? hf)⟩

theorem Files.reread_reread {key : String} {r : Rule} (h : Files kind reg) (hr : reg.find? key = some r) :
    r.reread.reread = r.reread := by
  cases h.fits _ (Register.mem_of_find? hr) with
  | rule _ hcall => exact Rule.reread_eq_of_expr hcall

theorem fits_replaceRules (hd : ∀ s ∈ d.statements, s.Fits false) (hr : ∀ e ∈ reg, (rule e.2).Fits false) :
    ∀ s ∈ (d.replaceRules kind reg).statements, s.Fits false := by
  have hothers : ∀ s ∈ d.others kind, s.Fits false := fun s hs => hd s (List.mem_filter.mp hs).1
  rw [← upToLastCode_append_trailingComments (d.others kind), List.forall_mem_append] at hothers
  rw [statements_replaceRules]
  simp only [List.forall_mem_append, List.forall_mem_map]
  exact ⟨⟨hothers.1, Register.forall_rules hr⟩, hothers.2⟩

theorem statements_replaceRules_append {xs cs : List Statement} (hd : d.others kind = xs ++ cs)
    (hx : Coded xs) (hc : ∀ s ∈ cs, s.isComment = true) (reg : Register) :
    (d.replaceRules kind reg).statements = xs ++ reg.rules.map rule ++ cs := by
  obtain ⟨hup, htrailing⟩ := upToLastCode_append hx hc
  rw [statements_replaceRules, hd, hup, htrailing]

theorem text_replaceRules_congr {d' : Document} {reg' : Register}
    (hfits : ∀ s ∈ (d.replaceRules kind reg).statements, s.Fits false)
    (hfits' : ∀ s ∈ (d'.replaceRules kind reg').statements, s.Fits false)
    (h : (d'.replaceRules kind reg').statements.map reread = (d.replaceRules kind reg).statements.map reread) :
    (d'.replaceRules kind reg').text = (d.replaceRules kind reg).text := by
  rw [text, text, ← printAll_reread hfits', ← printAll_reread hfits, h]

theorem parse_replaceRules (hd : ∀ s ∈ d.statements, s.Fits false) (hreg : Files kind reg)
    (path : String) (flavor : Flavor) :
    ∃ d', parse path flavor (Utf8.encode (d.replaceRules kind reg).text) = .ok d' ∧
      (∀ s ∈ d'.statements, s.Fits false) ∧
      d'.register kind = reg.mapRules Rule.reread ∧
      ∀ reg' : Register, reg'.mapRules Rule.reread = reg.mapRules Rule.reread →
        (∀ e ∈ reg', (rule e.2).Fits false) →
        (d'.replaceRules kind reg').text = (d.replaceRules kind reg).text := by
  have hfits : ∀ s ∈ (d.replaceRules kind reg).statements, s.Fits false := fits_replaceRules hd hreg.fits
  have hstatements := statements_replaceRules d kind reg
  have hothers := isRuleOf_others d kind
  have hfitsOthers : ∀ s ∈ d.others kind, s.Fits false := fun s hs => hd s (List.mem_filter.mp hs).1
  have hcoded := coded_upToLastCode (d.others kind)
  have hcomments := isComment_trailingComments (d.others kind)
  rw [← upToLastCode_append_trailingComments (d.others kind)] at hothers hfitsOthers
  generalize upToLastCode (d.others kind) = xs at *
  generalize trailingComments (d.others kind) = cs at *
  let d' : Document := ⟨path, flavor, (d.replaceRules kind reg).statements.map reread⟩
  have hparse : parse path flavor (Utf8.encode (d.replaceRules kind reg).text) = .ok d' :=
    parse_text hfits path flavor
  have hfits' : ∀ s ∈ d'.statements, s.Fits false := fits_of_parse hparse
  have hd' : d'.statements = xs.map reread ++ (reg.rules.map Rule.reread).map rule ++ cs.map reread := by
    show (d.replaceRules kind reg).statements.map reread = _
    rw [hstatements, List.map_append, List.map_append, List.map_map, List.map_map]
    rfl
  have hcomments' : ∀ s ∈ cs.map reread, s.isComment = true :=
    List.forall_mem_map.mpr fun s hs => (isComment_reread s).trans (hcomments s hs)
  have hrulesKind : ∀ r ∈ reg.rules, r.kind = kind := Register.forall_rules hreg.kind
  obtain ⟨hremoved, hothers'⟩ := removeRules_append kind hd'
    (by
      rw [← List.map_append]
      exact List.forall_mem_map.mpr fun s hs => (isRuleOf_reread kind s).trans (hothers s hs))
    (List.forall_mem_map.mpr fun r hr => r.kind_reread.trans (hrulesKind r hr))
  refine ⟨d', hparse, hfits', ?_, fun reg' hreg' hfitsRules => ?_⟩
  · rw [register, hremoved, ← Register.rules_mapRules]
    apply Register.ofRules_rules (Register.sorted_mapRules _ hreg.sorted)
    exact List.forall_mem_map.mpr fun e he => (Rule.key_reread e.2).trans (hreg.keyed e he)
  · apply text_replaceRules_congr hfits (fits_replaceRules hfits' hfitsRules)
    have hrules : (reg'.rules.map rule).map reread = (reg.rules.map rule).map reread := by
      have := congrArg (fun reg => (Register.rules reg).map rule) hreg'
      simp only [Register.rules_mapRules, List.map_map] at this
      rw [List.map_map, List.map_map]
      exact this
    rw [statements_replaceRules_append hothers' (coded_reread hcoded) hcomments', hstatements]
    simp only [List.map_append, hrules, map_reread_reread (List.forall_mem_append.mp hfitsOthers).1,
      map_reread_reread (List.forall_mem_append.mp hfitsOthers).2]

end Document
end BuildSync
