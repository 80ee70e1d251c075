import BuildSync.Proofs.Sync.Append
import BuildSync.Proofs.Sync.Tally

namespace BuildSync

theorem exists_mapM_iff {α β : Type} (f : α → Option β) (xs : List α) :
    (∃ ys, xs.mapM f = some ys) ↔ ∀ x ∈ xs, ∃ y, f x = some y := by
  induction xs with
  | nil => simp
  | cons x xs ih =>
    rw [List.forall_mem_cons, ← ih, List.mapM_cons]
    cases f x <;> cases xs.mapM f <;> simp

namespace Expr

def ListsTexts : Expr → Prop
  | .list elements => ∀ item ∈ elements.items, ∃ value spelling, item.value = .string value spelling
  | _ => False

theorem exists_text?_iff {e : Expr} : (∃ v, e.text? = some v) ↔ ∃ value spelling, e = .string value spelling := by
  cases e <;> simp [text?]

theorem exists_textList?_iff {e : Expr} : (∃ vs, e.textList? = some vs) ↔ e.ListsTexts := by
  cases e with
  | list elements =>
    rw [textList?, exists_mapM_iff]
    simp only [exists_text?_iff, ListsTexts]
  | _ => simp [textList?, ListsTexts]

end Expr

namespace Rule

variable {r : Rule} {p : Package} {e : ShapeError}

theorem locatable_iff : r.Locatable ↔ ∀ v, r.attr? "urls" = some v → v.ListsTexts := by
  rw [Locatable, getTexts]
  cases r.attr? "urls" with
  | none => simp
  | some v =>
    simp only [Option.some.injEq, forall_eq']
    rw [← Expr.exists_textList?_iff]
    cases v.textList? <;> simp

theorem getTexts_eq_error {key : String} (h : r.getTexts key = .error e) : e = r.shapeError key .texts := by
  rw [getTexts] at h
  split at h
  · cases h
  · split at h
    · cases h
    · exact (Except.error.inj h).symm

theorem describe_eq_error (h : r.describe p = .error e) : e = ⟨r.kind, p.identity, "urls", .texts⟩ := by
  have hkey : (r.identify p).key = p.identity := by
    rw [key, name?, identify, setText_eq, setText_eq, attr?_setAttr_ne (by decide), attr?_setAttr]
    rfl
  rw [describe, ← identify] at h
  cases hurls : (r.identify p).getTexts "urls" with
  | error e' =>
    rw [hurls] at h
    obtain rfl := Except.error.inj h
    rw [getTexts_eq_error hurls, shapeError, hkey]
    rfl
  | ok urls =>
    rw [hurls] at h
    cases h

end Rule

namespace RpmTally

variable {t t' : RpmTally} {p : Package} {ps : List Package} {e : ShapeError}

def Takes (t : RpmTally) (p : Package) : Prop :=
  ((t.register.find? p.identity).getD (.new rpmKind)).Locatable

def unreadable (p : Package) : ShapeError := ⟨rpmKind, p.identity, "urls", .texts⟩

theorem message_unreadable (p : Package) : (unreadable p).message =
    "rpm rule " ++ escaped '"' p.identity ++ ": attribute `urls` is not a list of strings" := by
  have hkind : "rpm" ++ " rule " = "rpm rule " := rfl
  have hrest : ": attribute `" ++ ("urls" ++ ("` is not " ++ "a list of strings")) =
      ": attribute `urls` is not a list of strings" := rfl
  rw [← hkind, ← hrest]
  simp only [ShapeError.message, unreadable, rpmKind, Shape.describe, String.append_assoc]

theorem kind_found (ht : ∀ entry ∈ t.register, entry.2.kind = rpmKind) (key : String) :
    ((t.register.find? key).getD (.new rpmKind)).kind = rpmKind := by
  cases hr : t.register.find? key with
  | none => exact Rule.kind_new (by decide)
  | some r => exact ht _ (Register.mem_of_find? hr)

theorem kind_add (ht : ∀ entry ∈ t.register, entry.2.kind = rpmKind) (h : t.add p = .ok t') :
    ∀ entry ∈ t'.register, entry.2.kind = rpmKind := by
  obtain ⟨r, hr, hreg⟩ := add_eq_ok h
  rw [hreg]
  exact Register.forall_insert ht ((Rule.kind_describe hr).trans (kind_found ht _))

theorem add_eq_error (ht : ∀ entry ∈ t.register, entry.2.kind = rpmKind) (h : t.add p = .error e) :
    e = unreadable p := by
  rw [add] at h
  split at h
  · rename_i e' he
    obtain rfl := Except.error.inj h
    rw [Rule.describe_eq_error he, kind_found ht]
    rfl
  · cases h

theorem addAll_eq_error_iff (ht : ∀ entry ∈ t.register, entry.2.kind = rpmKind) :
    t.addAll ps = .error e ↔ ∃ before p after, ps = before ++ p :: after ∧
      (∀ q ∈ before, t.Takes q) ∧ ¬t.Takes p ∧ e = unreadable p := by
  induction ps generalizing t with
  | nil =>
    constructor
    · intro h
      cases h
    · rintro ⟨before, p, after, h, -⟩
      simp at h
  | cons p ps ih =>
    rw [addAll]
    simp only [List.cons_eq_append_iff]
    cases hp : t.add p with
    | error e' =>
      have hbad : ¬t.Takes p := by
        rw [Takes, ← exists_add_iff]
        rintro ⟨t', h⟩
        rw [hp] at h
        cases h
      obtain rfl := add_eq_error ht hp
      constructor
      · intro h
        exact ⟨[], p, ps, .inl ⟨rfl, rfl⟩, List.forall_mem_nil _, hbad, (Except.error.inj h).symm⟩
      · rintro ⟨before, q, after, ⟨rfl, h⟩ | ⟨rest, rfl, -⟩, hgood, -, rfl⟩
        · cases h
          rfl
        · exact absurd (hgood p List.mem_cons_self) hbad
    | ok s =>
      have hsame (q : Package) : s.Takes q ↔ t.Takes q := locatable_add hp _
      have hgood : t.Takes p := exists_add_iff.mp ⟨s, hp⟩
      simp only [ih (kind_add ht hp), hsame]
      constructor
      · rintro ⟨before, q, after, rfl, hbefore, hq, he⟩
        exact ⟨p :: before, q, after, .inr ⟨before, rfl, rfl⟩, List.forall_mem_cons.mpr ⟨hgood, hbefore⟩, hq, he⟩
      · rintro ⟨before, q, after, ⟨rfl, h⟩ | ⟨rest, rfl, rfl⟩, hbefore, hq, he⟩
        · cases h
          exact absurd hgood hq
        · exact ⟨rest, q, after, rfl, (List.forall_mem_cons.mp hbefore).2, hq, he⟩

end RpmTally

namespace Document

variable {d d' : Document} {ps : List Package} {p : Package} {e : ShapeError}

def urls? (d : Document) (key : String) : Option Expr := (d.lastRule? rpmKind key).bind (·.attr? "urls")

/-- The locations for a package are written, but as something else than a list of strings. -/
def Unreadable (d : Document) (p : Package) : Prop := ∃ v, d.urls? p.identity = some v ∧ ¬v.ListsTexts

theorem takes_iff {seen : List String} {created updated : Nat} :
    RpmTally.Takes ⟨d.register rpmKind, seen, created, updated⟩ p ↔ ¬d.Unreadable p := by
  rw [RpmTally.Takes, find?_register (by decide), Rule.locatable_iff, Unreadable, urls?]
  cases d.lastRule? rpmKind p.identity with
  | none =>
    have hnew : (Rule.new rpmKind).attr? "urls" = none := rfl
    simp [hnew]
  | some r => simp

theorem kind_register (d : Document) : ∀ entry ∈ d.register rpmKind, entry.2.kind = rpmKind := by
  refine Register.forall_ofRules (P := fun r => r.kind = rpmKind) fun r hr => ?_
  have := (List.mem_filter.mp hr).2
  simpa [Rule.isOf] using this

theorem addRpms_eq_error : d.addRpms ps = .error e ↔
    RpmTally.addAll ⟨d.register rpmKind, [], 0, 0⟩ ps = .error e := by
  rw [addRpms]
  cases RpmTally.addAll ⟨d.register rpmKind, [], 0, 0⟩ ps <;> simp

theorem exists_unreadable_of_mem (h : p ∈ ps) (hp : d.Unreadable p) : ∃ before q after,
    ps = before ++ q :: after ∧ (∀ q ∈ before, ¬d.Unreadable q) ∧ d.Unreadable q := by
  induction ps with
  | nil => cases h
  | cons q ps ih =>
    by_cases hq : d.Unreadable q
    · exact ⟨[], q, ps, rfl, nofun, hq⟩
    · have hmem : p ∈ ps := (List.mem_cons.mp h).resolve_left fun heq => hq (heq ▸ hp)
      obtain ⟨before, r, after, rfl, hbefore, hr⟩ := ih hmem
      exact ⟨q :: before, r, after, rfl, List.forall_mem_cons.mpr ⟨hq, hbefore⟩, hr⟩

theorem addRpms_eq_error_split : d.addRpms ps = .error e ↔ ∃ before p after,
    ps = before ++ p :: after ∧ (∀ q ∈ before, ¬d.Unreadable q) ∧ d.Unreadable p ∧
      e = RpmTally.unreadable p := by
  rw [addRpms_eq_error, RpmTally.addAll_eq_error_iff (kind_register d)]
  simp only [takes_iff, not_not]

theorem unreadable_congr (h : d'.urls? p.identity = d.urls? p.identity) : d'.Unreadable p ↔ d.Unreadable p := by
  rw [Unreadable, Unreadable, h]

/-- A synchronization fails just where the locations for one of its packages are written and cannot
be read, and complains about the first of these. Nothing else in the document makes it fail. -/
theorem addRpms_fails_iff (d : Document) (ps : List Package) :
    ((∃ e, d.addRpms ps = .error e) ↔ ∃ p ∈ ps, d.Unreadable p) ∧
    (∀ e, d.addRpms ps = .error e → ∃ before p after, ps = before ++ p :: after ∧
      (∀ q ∈ before, ¬d.Unreadable q) ∧ d.Unreadable p ∧ e = ⟨rpmKind, p.identity, "urls", .texts⟩ ∧
      e.message = "rpm rule " ++ escaped '"' p.identity ++ ": attribute `urls` is not a list of strings") ∧
    ∀ d' : Document, (∀ p ∈ ps, d'.urls? p.identity = d.urls? p.identity) →
      ∀ e, d'.addRpms ps = .error e ↔ d.addRpms ps = .error e := by
  refine ⟨⟨?_, ?_⟩, ?_, ?_⟩
  · rintro ⟨e, h⟩
    obtain ⟨before, p, after, rfl, -, hp, -⟩ := addRpms_eq_error_split.mp h
    exact ⟨p, by simp, hp⟩
  · rintro ⟨p, hmem, hp⟩
    obtain ⟨before, q, after, hps, hbefore, hq⟩ := exists_unreadable_of_mem hmem hp
    exact ⟨_, addRpms_eq_error_split.mpr ⟨before, q, after, hps, hbefore, hq, rfl⟩⟩
  · intro e h
    obtain ⟨before, p, after, hps, hbefore, hp, rfl⟩ := addRpms_eq_error_split.mp h
    exact ⟨before, p, after, hps, hbefore, hp, rfl, RpmTally.message_unreadable p⟩
  · intro d' hsame e
    rw [addRpms_eq_error_split, addRpms_eq_error_split]
    refine exists_congr fun before => exists_congr fun p => exists_congr fun after => and_congr_right fun hps => ?_
    subst hps
    obtain ⟨hbefore, hrest⟩ := List.forall_mem_append.mp hsame
    rw [unreadable_congr (hrest p List.mem_cons_self)]
    refine and_congr_left fun _ => forall₂_congr fun q hq => ?_
    rw [unreadable_congr (hbefore q hq)]

def unlisted : Document :=
  ⟨"WORKSPACE", .workspace, [.rule ⟨[], ⟨.ident "rpm",
    ⟨[.keyword "name" (.text "a"), .keyword "urls" (.text "https://m/a.rpm")], []⟩⟩, none⟩]⟩

def unlistedPackage : Package := ⟨"a", none, none, "1", "a.rpm", []⟩

theorem addRpms_fails_iff_unlisted : unlisted.Unreadable unlistedPackage ∧
    unlisted.addRpms [unlistedPackage] = .error ⟨rpmKind, "a", "urls", .texts⟩ := by
  have hunreadable : unlisted.Unreadable unlistedPackage := ⟨.text "https://m/a.rpm", rfl, id⟩
  obtain ⟨hfails, hfirst, -⟩ := addRpms_fails_iff unlisted [unlistedPackage]
  obtain ⟨e, he⟩ := hfails.mpr ⟨_, List.mem_singleton_self _, hunreadable⟩
  obtain ⟨before, p, after, hps, -, -, rfl, -⟩ := hfirst e he
  obtain rfl : p = unlistedPackage := List.mem_singleton.mp (by rw [hps]; simp)
  exact ⟨hunreadable, he⟩

end Document
end BuildSync
