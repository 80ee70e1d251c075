import BuildSync.Proofs.Rule.Assign
import BuildSync.Proofs.Sync.Rpms
import BuildSync.Proofs.Text.Order

namespace BuildSync

namespace Package

def firstUrls (ps : List Package) : List String :=
  ((ps.find? (!·.mirrors.isEmpty)).map urls).getD []

theorem isEmpty_urls (p : Package) : p.urls.isEmpty = p.mirrors.isEmpty := by
  rw [urls, List.isEmpty_map]

theorem firstUrls_append (ps qs : List Package) :
    firstUrls (ps ++ qs) = if (firstUrls ps).isEmpty then firstUrls qs else firstUrls ps := by
  rw [firstUrls, firstUrls, firstUrls, List.find?_append]
  cases hfirst : ps.find? (!·.mirrors.isEmpty) with
  | some q =>
    have hq : q.urls.isEmpty = false := by
      rw [isEmpty_urls]
      simpa using List.find?_some hfirst
    simp [hq]
  | none => rfl

theorem firstUrls_singleton (p : Package) : firstUrls [p] = p.urls := by
  rw [firstUrls]
  cases hp : p.mirrors.isEmpty with
  | false => simp [hp]
  | true =>
    have hurls : p.urls = [] := by rw [← List.isEmpty_iff, isEmpty_urls, hp]
    simp [hp, hurls]

theorem firstUrls_concat (ps : List Package) (p : Package) :
    firstUrls (ps ++ [p]) = if (firstUrls ps).isEmpty then p.urls else firstUrls ps := by
  rw [firstUrls_append, firstUrls_singleton]

end Package

namespace Rule

variable {r r' : Rule} {key : String} {p : Package} {ps : List Package}

def writtenUrls (r : Rule) : List String := ((r.attr? "urls").bind Expr.textList?).getD []

/-- The rule that fetches the packages of one identity. The last one gives the checksum, and the
first one with mirrors the locations, where none are written. -/
def fetching (r : Rule) (key : String) (ps : List Package) : Rule :=
  match ps.getLast? with
  | none => r
  | some p => r.assign ([("name", .text key), ("sha256", .text p.checksum)] ++
      if r.writtenUrls.isEmpty then [("urls", .textList (Package.firstUrls ps))] else [])

theorem fetching_nil (r : Rule) (key : String) : r.fetching key [] = r := rfl

theorem fetching_concat (r : Rule) (key : String) (ps : List Package) (p : Package) :
    r.fetching key (ps ++ [p]) = r.assign ([("name", .text key), ("sha256", .text p.checksum)] ++
      if r.writtenUrls.isEmpty then [("urls", .textList (Package.firstUrls (ps ++ [p])))] else []) := by
  rw [fetching, List.getLast?_concat]

theorem identify_assign (r : Rule) (values : Values) (p : Package) :
    (r.assign values).identify p =
      r.assign ((values.put "name" (.text p.identity)).put "sha256" (.text p.checksum)) := by
  rw [identify, setText_eq, setText_eq, setAttr_assign, setAttr_assign]

theorem writtenUrls_of_getTexts {urls : List String} (h : r.getTexts "urls" = .ok urls) :
    r.writtenUrls = urls := by
  rw [getTexts] at h
  rw [writtenUrls]
  cases he : r.attr? "urls" with
  | none =>
    rw [he] at h
    exact Except.ok.inj h
  | some e =>
    rw [he] at h
    dsimp only at h
    cases hv : e.textList? with
    | none =>
      rw [hv] at h
      cases h
    | some vs =>
      rw [hv] at h
      cases h
      simp [hv]

theorem writtenUrls_assign (r : Rule) (values : Values) : (r.assign values).writtenUrls =
    (((List.lookup "urls" values).or (r.attr? "urls")).bind Expr.textList?).getD [] := by
  rw [writtenUrls, attr?_assign]

theorem describe_assign {values : Values} (h : (r.assign values).describe p = .ok r') :
    r' = r.assign (if ((r.assign values).identify p).writtenUrls.isEmpty then
        ((values.put "name" (.text p.identity)).put "sha256" (.text p.checksum)).put "urls" (.textList p.urls)
      else (values.put "name" (.text p.identity)).put "sha256" (.text p.checksum)) := by
  obtain ⟨urls, hurls, rfl⟩ := describe_eq_ok h
  rw [writtenUrls_of_getTexts hurls, identify_assign]
  split_ifs
  · rw [setTexts_eq, setAttr_assign]
  · rfl

theorem describe_fetching (h : (r.fetching p.identity ps).describe p = .ok r') :
    r' = r.fetching p.identity (ps ++ [p]) := by
  rw [fetching_concat, Package.firstUrls_concat]
  rcases List.eq_nil_or_concat' ps with rfl | ⟨ps, q, rfl⟩
  · rw [fetching_nil, ← assign_nil r] at h
    rw [describe_assign h, identify_assign, writtenUrls_assign]
    cases hw : r.writtenUrls.isEmpty with
    | true =>
      rw [writtenUrls] at hw
      simp [Values.put, Values.lookup_cons, Package.firstUrls, hw]
    | false =>
      rw [writtenUrls] at hw
      simp [Values.put, Values.lookup_cons, hw]
  · rw [fetching_concat] at h
    rw [describe_assign h, identify_assign, writtenUrls_assign]
    cases hw : r.writtenUrls.isEmpty with
    | true =>
      by_cases hu : Package.firstUrls (ps ++ [q]) = []
      · simp [Values.put, Values.lookup_cons, Expr.textList?_textList, hu]
      · simp [Values.put, Values.lookup_cons, Expr.textList?_textList, hu]
    | false =>
      rw [writtenUrls] at hw
      simp [Values.put, Values.lookup_cons, hw]

theorem key_fetching (h : ps ≠ []) (r : Rule) (key : String) : (r.fetching key ps).key = key := by
  obtain ⟨qs, q, rfl⟩ := (List.eq_nil_or_concat' ps).resolve_left h
  rw [fetching_concat, Rule.key, name?, attr?_assign]
  rfl

end Rule

namespace Register

variable {reg : Register} {key : String} {r : Rule}

theorem find?_ofRules (rules : List Rule) (key : String) :
    (ofRules rules).find? key = (rules.filter (·.key == key)).getLast? := by
  induction rules using List.reverseRecOn with
  | nil => rfl
  | append_singleton rules r ih =>
    have hconcat : ofRules (rules ++ [r]) = insert r.key r (ofRules rules) := by
      rw [ofRules, List.foldl_append]
      rfl
    rw [hconcat, find?_insert, List.filter_append]
    split_ifs with hkey
    · simp [hkey]
    · simp [Ne.symm hkey, ih]

theorem Sorted.find?_of_mem (h : Sorted reg) (hr : (key, r) ∈ reg) : reg.find? key = some r := by
  induction reg with
  | nil => cases hr
  | cons entry reg ih =>
    obtain ⟨hentry, hreg⟩ := List.pairwise_cons.mp h
    rw [find?_cons]
    rcases List.mem_cons.mp hr with rfl | hr
    · exact if_pos rfl
    · rw [if_neg (hentry _ hr).ne', ih hreg hr]

theorem mem_keys : key ∈ reg.map Prod.fst ↔ (reg.find? key).isSome = true := by
  induction reg with
  | nil => simp [find?]
  | cons entry reg ih =>
    rw [List.map_cons, List.mem_cons, find?_cons, ih]
    split_ifs with hk
    · simp [hk]
    · simp [hk]

end Register

namespace Document

variable {d d' : Document} {kind key : String} {ps : List Package} {report : Report}

def lastRule? (d : Document) (kind key : String) : Option Rule :=
  ((d.rules kind).filter (·.key == key)).getLast?

theorem isSome_lastRule? : (d.lastRule? kind key).isSome = true ↔ key ∈ (d.rules kind).map Rule.key := by
  rw [lastRule?, List.getLast?_isSome, Ne, List.filter_eq_nil_iff, List.mem_map]
  simp

theorem key_of_lastRule? {r : Rule} (h : d.lastRule? kind key = some r) : r.key = key := by
  have := (List.mem_filter.mp (List.mem_of_getLast? h)).2
  exact eq_of_beq this

theorem rules_eq (hk : kind ≠ "") (d : Document) : d.rules kind = (d.removeRules kind none).1 := by
  rw [removeRules, rules]
  dsimp only
  congr 1
  funext r
  simp [Rule.isOf, hk]

theorem find?_register (hk : kind ≠ "") (d : Document) (key : String) :
    (d.register kind).find? key = d.lastRule? kind key := by
  rw [register, Register.find?_ofRules, lastRule?, rules_eq hk]

end Document

namespace RpmTally

open Rule

variable {t t' : RpmTally} {ps : List Package}

theorem sorted_addAll (h : t.addAll ps = .ok t') (hs : t.register.Sorted) : t'.register.Sorted := by
  induction ps using List.reverseRecOn generalizing t' with
  | nil =>
    cases h
    exact hs
  | append_singleton ps p ih =>
    obtain ⟨s, hs', hp⟩ := addAll_concat h
    obtain ⟨r, -, hreg⟩ := add_eq_ok hp
    rw [hreg]
    exact Register.sorted_insert (ih hs') _ _

theorem find?_addAll (h : t.addAll ps = .ok t') (key : String) :
    t'.register.find? key =
      if key ∈ ps.map Package.identity then
        some (((t.register.find? key).getD (.new rpmKind)).fetching key (ps.filter (·.identity == key)))
      else t.register.find? key := by
  -- From the end of the list: the last package of an identity is the last one to write its rule.
  induction ps using List.reverseRecOn generalizing t' with
  | nil =>
    cases h
    rfl
  | append_singleton ps p ih =>
    obtain ⟨s, hs, hp⟩ := addAll_concat h
    obtain ⟨r, hr, hreg⟩ := add_eq_ok hp
    rw [hreg, Register.find?_insert, List.filter_append, List.map_append, List.map_singleton]
    by_cases hkey : key = p.identity
    · subst hkey
      have hs' : (s.register.find? p.identity).getD (.new rpmKind) =
          ((t.register.find? p.identity).getD (.new rpmKind)).fetching p.identity
            (ps.filter (·.identity == p.identity)) := by
        rw [ih hs]
        split_ifs with hmem
        · rfl
        · have hnone : ps.filter (·.identity == p.identity) = [] :=
            List.filter_eq_nil_iff.mpr fun q hq he => hmem (List.mem_map.mpr ⟨q, hq, eq_of_beq he⟩)
          rw [hnone, fetching_nil]
      rw [hs'] at hr
      rw [if_pos rfl, if_pos (by simp), describe_fetching hr]
      simp
    · have hmem : key ∈ ps.map Package.identity ++ [p.identity] ↔ key ∈ ps.map Package.identity := by
        simp [hkey]
      rw [if_neg hkey, ih hs]
      simp only [hmem]
      simp [Ne.symm hkey]

end RpmTally

namespace Document

variable {d d' : Document} {ps : List Package} {report : Report}

theorem foldl_appendRule_eq (rules : List Rule) (d : Document) :
    rules.foldl appendRule d = { d with statements := (rules.foldl appendRule d).statements } := by
  induction rules generalizing d with
  | nil => rfl
  | cons r rules ih =>
    rw [List.foldl_cons, ih]
    rfl

theorem replaceRules_eq (d : Document) (kind : String) (reg : Register) :
    d.replaceRules kind reg = { d with statements := (d.replaceRules kind reg).statements } :=
  foldl_appendRule_eq _ _

/-- The rule that a synchronization leaves under a key. -/
def rpm (d : Document) (ps : List Package) (key : String) : Rule :=
  ((d.lastRule? rpmKind key).getD (.new rpmKind)).fetching key (ps.filter (·.identity == key))

theorem rpm_of_not_mem {key : String} (h : key ∉ ps.map Package.identity) :
    d.rpm ps key = (d.lastRule? rpmKind key).getD (.new rpmKind) := by
  have hnone : ps.filter (·.identity == key) = [] :=
    List.filter_eq_nil_iff.mpr fun q hq he => h (List.mem_map.mpr ⟨q, hq, eq_of_beq he⟩)
  rw [rpm, hnone, Rule.fetching_nil]

theorem key_rpm {key : String} (h : key ∈ (d.rules rpmKind).map Rule.key ∨ key ∈ ps.map Package.identity) :
    (d.rpm ps key).key = key := by
  by_cases hp : key ∈ ps.map Package.identity
  · obtain ⟨p, hp, hkey⟩ := List.mem_map.mp hp
    have hne : ps.filter (·.identity == key) ≠ [] :=
      List.ne_nil_of_mem (List.mem_filter.mpr ⟨hp, beq_iff_eq.mpr hkey⟩)
    rw [rpm, Rule.key_fetching hne]
  · obtain ⟨r, hr⟩ := Option.isSome_iff_exists.mp (isSome_lastRule?.mpr (h.resolve_right hp))
    rw [rpm_of_not_mem hp, hr]
    exact key_of_lastRule? hr

theorem find?_rpms {t : RpmTally} (h : RpmTally.addAll ⟨d.register rpmKind, [], 0, 0⟩ ps = .ok t) (key : String) :
    t.register.find? key =
      if key ∈ (d.rules rpmKind).map Rule.key ∨ key ∈ ps.map Package.identity then some (d.rpm ps key)
      else none := by
  rw [RpmTally.find?_addAll h, find?_register (by decide)]
  by_cases hp : key ∈ ps.map Package.identity
  · rw [if_pos hp, if_pos (.inr hp), rpm]
  have hsome : (d.lastRule? rpmKind key).isSome = true ↔ key ∈ (d.rules rpmKind).map Rule.key := isSome_lastRule?
  rw [if_neg hp, rpm_of_not_mem hp]
  cases hr : d.lastRule? rpmKind key with
  | some r =>
    rw [hr] at hsome
    rw [if_pos (.inl (hsome.mp rfl))]
    rfl
  | none =>
    rw [hr] at hsome
    have hd : key ∉ (d.rules rpmKind).map Rule.key := fun hd => Bool.false_ne_true (hsome.mpr hd)
    rw [if_neg (not_or.mpr ⟨hd, hp⟩)]

def namedRpm (name : String) (comments : List String) : Statement :=
  .rule ⟨comments, ⟨.ident "rpm", ⟨[.keyword "name" (.text name)], []⟩⟩, none⟩

def crowded : Document :=
  ⟨"WORKSPACE", .workspace,
    [namedRpm "b" [], namedRpm "a" [], namedRpm "b" ["# kept"], .verbatim [] "x = 1", .comment ["# end"]]⟩

def crowdedPackages : List Package :=
  [⟨"a", none, none, "1", "a.rpm", []⟩, ⟨"a", none, none, "2", "a.rpm", ["http://m"]⟩]

def uncrowded : Document :=
  ⟨"WORKSPACE", .workspace,
    [.verbatim [] "x = 1",
      .rule ⟨[], ⟨.ident "rpm", ⟨[.keyword "name" (.text "a"), .keyword "sha256" (.text "2"),
        .keyword "urls" (.textList ["http://m/a.rpm"])], []⟩⟩, none⟩,
      namedRpm "b" ["# kept"], .comment ["# end"]]⟩

end Document
end BuildSync
