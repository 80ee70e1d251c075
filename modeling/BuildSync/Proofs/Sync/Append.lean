import BuildSync.Proofs.Sync.Kept

namespace BuildSync

namespace Rule

variable {r : Rule} {key : String} {ps qs : List Package}

theorem kind_fetching (r : Rule) (key : String) (ps : List Package) : (r.fetching key ps).kind = r.kind := by
  rw [fetching]
  split <;> rfl

theorem fetching_fetching (r : Rule) (key : String) (ps qs : List Package) :
    (r.fetching key ps).fetching key qs = r.fetching key (ps ++ qs) := by
  rcases List.eq_nil_or_concat' qs with rfl | ⟨qs, q, rfl⟩
  · rw [fetching_nil, List.append_nil]
  rcases List.eq_nil_or_concat' ps with rfl | ⟨ps, p, rfl⟩
  · rw [fetching_nil, List.nil_append]
  have hurls := Package.firstUrls_append (ps ++ [p]) (qs ++ [q])
  have hwritten := r.writtenUrls_assign ([("name", .text key), ("sha256", .text p.checksum)] ++
    if r.writtenUrls.isEmpty then [("urls", .textList (Package.firstUrls (ps ++ [p])))] else [])
  rw [← List.append_assoc] at hurls ⊢
  rw [fetching_concat, fetching_concat, fetching_concat, hurls, hwritten]
  cases hw : r.writtenUrls.isEmpty with
  | true =>
    by_cases hfirst : Package.firstUrls (ps ++ [p]) = []
    · rw [assign_assign (by simp [hfirst, Values.lookup_cons, Expr.textList?_textList])]
      simp [Values.put, Values.lookup_cons, Expr.textList?_textList, hfirst]
    · rw [assign_assign (by simp [hfirst, Values.lookup_cons, Expr.textList?_textList])]
      simp [Values.put, Values.lookup_cons, Expr.textList?_textList, hfirst]
  | false =>
    rw [writtenUrls] at hw
    rw [assign_assign (by simp [Values.lookup_cons, hw])]
    simp [Values.put, Values.lookup_cons, hw]

theorem fetching_twice (r : Rule) (key : String) (ps : List Package) :
    (r.fetching key ps).fetching key ps = r.fetching key ps := by
  rw [fetching_fetching, fetching, fetching, List.getLast?_append, Option.or_self, Package.firstUrls_append,
    ite_self]

end Rule

namespace RpmTally

variable {t t' u : RpmTally} {p : Package} {ps : List Package}

theorem addAll_congr (hreg : u.register = t.register) (h : t.addAll ps = .ok t') :
    ∃ u', u.addAll ps = .ok u' ∧ u'.register = t'.register := by
  induction ps generalizing t u with
  | nil =>
    cases h
    exact ⟨u, rfl, hreg⟩
  | cons p ps ih =>
    rw [addAll] at h
    split at h
    · cases h
    rename_i s hs
    obtain ⟨r, hr, hinsert⟩ := add_eq_ok hs
    rw [← hreg] at hr
    have hadd : u.add p = .ok ⟨u.register.insert p.identity r, p.identity :: u.seen,
        if (u.register.find? p.identity).isNone then u.created + 1 else u.created,
        if (u.register.find? p.identity).isSome && !u.seen.contains p.identity then u.updated + 1
        else u.updated⟩ := by
      rw [add]
      simp only [hr]
    obtain ⟨u', hu', hreg'⟩ := ih (u := ⟨u.register.insert p.identity r, p.identity :: u.seen, _, _⟩)
      (by rw [hinsert, hreg]) h
    refine ⟨u', ?_, hreg'⟩
    rw [addAll, hadd]
    exact hu'

theorem register_addAll_again (hs : t.register.Sorted) (h : t.addAll ps = .ok t')
    (hreg : u.register = t'.register) {u' : RpmTally} (h' : u.addAll ps = .ok u') :
    u'.register = t'.register := by
  have hs' : t'.register.Sorted := sorted_addAll h hs
  refine (sorted_addAll h' (hreg ▸ hs')).ext hs' fun key => ?_
  rw [find?_addAll h', hreg, find?_addAll h]
  split_ifs
  · rw [Option.getD_some, Rule.fetching_twice]
  · rfl

end RpmTally

namespace Document

variable {d d' : Document} {kind : String} {reg : Register} {ps : List Package} {report : Report}

theorem kind_of_lastRule? (hk : kind ≠ "") {key : String} {r : Rule} (h : d.lastRule? kind key = some r) :
    r.kind = kind := by
  have hmem := (List.mem_filter.mp (List.mem_of_getLast? h)).1
  have := (List.mem_filter.mp hmem).2
  simpa [hk] using this

theorem kind_rpm (d : Document) (ps : List Package) (key : String) : (d.rpm ps key).kind = rpmKind := by
  rw [rpm, Rule.kind_fetching]
  cases hr : d.lastRule? rpmKind key with
  | none => exact Rule.kind_new (by decide)
  | some r => exact kind_of_lastRule? (by decide) hr

theorem kind_rpms {t : RpmTally} (h : RpmTally.addAll ⟨d.register rpmKind, [], 0, 0⟩ ps = .ok t) :
    ∀ e ∈ t.register, e.2.kind = rpmKind := by
  intro e he
  have hfind := (RpmTally.sorted_addAll h (Register.sorted_ofRules _)).find?_of_mem he
  rw [find?_rpms h] at hfind
  split_ifs at hfind
  rw [← Option.some.inj hfind, kind_rpm]

theorem others_replaceRules (hkind : ∀ e ∈ reg, e.2.kind = kind) :
    (d.replaceRules kind reg).others kind = d.others kind := by
  have hothers := isRuleOf_others d kind
  rw [← Statement.upToLastCode_append_trailingComments (d.others kind)] at hothers
  rw [(removeRules_append kind (statements_replaceRules d kind reg) hothers (Register.forall_rules hkind)).2,
    Statement.upToLastCode_append_trailingComments]

theorem register_replaceRules (hs : reg.Sorted) (hk : reg.Keyed) (hkind : ∀ e ∈ reg, e.2.kind = kind) :
    (d.replaceRules kind reg).register kind = reg := by
  have hothers := isRuleOf_others d kind
  rw [← Statement.upToLastCode_append_trailingComments (d.others kind)] at hothers
  rw [register, (removeRules_append kind (statements_replaceRules d kind reg) hothers
    (Register.forall_rules hkind)).1, Register.ofRules_rules hs hk]

theorem replaceRules_congr (h : d'.others kind = d.others kind) (hpath : d'.path = d.path)
    (hflavor : d'.flavor = d.flavor) (reg : Register) : d'.replaceRules kind reg = d.replaceRules kind reg := by
  rw [replaceRules_eq d', replaceRules_eq d, statements_replaceRules, statements_replaceRules, h, hpath, hflavor]

theorem replaceRules_replaceRules (hkind : ∀ e ∈ reg, e.2.kind = kind) (reg' : Register) :
    (d.replaceRules kind reg).replaceRules kind reg' = d.replaceRules kind reg' := by
  apply replaceRules_congr (others_replaceRules hkind)
  · rw [replaceRules_eq]
  · rw [replaceRules_eq]

/-- A run over one list of packages and then another is a run over both, and a second run over the
same list changes nothing. -/
theorem addRpms_append (d : Document) (xs ys : List Package) :
    (∀ report d', d.addRpms (xs ++ ys) = .ok (report, d') → ∃ report₁ d₁ report₂,
      d.addRpms xs = .ok (report₁, d₁) ∧ d₁.addRpms ys = .ok (report₂, d')) ∧
    ∀ report d₁, d.addRpms xs = .ok (report, d₁) → ∃ report',
      d₁.addRpms xs = .ok (report', d₁) ∧ report'.created = 0 ∧ report'.total = report.total := by
  have hfound {s : RpmTally} (hs : RpmTally.addAll ⟨d.register rpmKind, [], 0, 0⟩ xs = .ok s) :
      (d.replaceRules rpmKind s.register).register rpmKind = s.register :=
    register_replaceRules (RpmTally.sorted_addAll hs (Register.sorted_ofRules _)) (keyed_rpms hs) (kind_rpms hs)
  constructor
  · intro report d' h
    obtain ⟨t, ht, -, rfl⟩ := addRpms_eq_ok_iff.mp h
    obtain ⟨s, hs, hys⟩ := RpmTally.addAll_append_eq_ok.mp ht
    obtain ⟨u, hu, hreg⟩ := RpmTally.addAll_congr (u := ⟨_, [], 0, 0⟩) (hfound hs) hys
    refine ⟨_, _, _, addRpms_eq_ok_iff.mpr ⟨s, hs, rfl, rfl⟩, addRpms_eq_ok_iff.mpr ⟨u, hu, rfl, ?_⟩⟩
    rw [replaceRules_replaceRules (kind_rpms hs), hreg]
  · intro report d₁ h
    obtain ⟨s, hs, rfl, rfl⟩ := addRpms_eq_ok_iff.mp h
    obtain ⟨hcovers, -⟩ := RpmTally.settled_addAll hs
    have hsorted := RpmTally.sorted_addAll hs (Register.sorted_ofRules _)
    obtain ⟨u, hu, hcreated, -, -⟩ := RpmTally.addAll_of_covers
      (t := ⟨(d.replaceRules rpmKind s.register).register rpmKind, [], 0, 0⟩) (fun _ h => h)
      ((hfound hs).symm ▸ hcovers) ((hfound hs).symm ▸ hsorted)
    have hreg := RpmTally.register_addAll_again (Register.sorted_ofRules _) hs (hfound hs) hu
    refine ⟨_, addRpms_eq_ok_iff.mpr ⟨u, hu, rfl, ?_⟩, hcreated, congrArg List.length hreg⟩
    rw [hreg, replaceRules_replaceRules (kind_rpms hs)]

theorem addRpms_append_crowded :
    (crowded.addRpms (crowdedPackages.take 1 ++ crowdedPackages.drop 1) = .ok (⟨0, 1, 2⟩, uncrowded) ∧
      ∃ report₁ d₁ report₂, crowded.addRpms (crowdedPackages.take 1) = .ok (report₁, d₁) ∧
        d₁.addRpms (crowdedPackages.drop 1) = .ok (report₂, uncrowded)) ∧
    crowded.addRpms crowdedPackages = .ok (⟨0, 1, 2⟩, uncrowded) ∧
      ∃ report', uncrowded.addRpms crowdedPackages = .ok (report', uncrowded) ∧ report'.created = 0 ∧
        report'.total = 2 := by
  have h : crowded.addRpms crowdedPackages = .ok (⟨0, 1, 2⟩, uncrowded) := rfl
  exact ⟨⟨h, (addRpms_append crowded _ _).1 _ _ h⟩, h, (addRpms_append crowded crowdedPackages []).2 _ _ h⟩

end Document
end BuildSync
