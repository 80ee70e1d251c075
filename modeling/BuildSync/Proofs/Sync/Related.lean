import BuildSync.Proofs.Sync.Replace
import BuildSync.Sync.Bundle
import BuildSync.Sync.Rpms
import Mathlib.Data.List.Forall2

namespace BuildSync

inductive Agree {ε α β : Type} (R : α → β → Prop) : Except ε α → Except ε β → Prop
  | error (e : ε) : Agree R (.error e) (.error e)
  | ok {a : α} {b : β} (h : R a b) : Agree R (.ok a) (.ok b)

theorem Agree.eq_or {ε α β : Type} {R : α → β → Prop} {x : Except ε α} {y : Except ε β} (h : Agree R x y) :
    (∃ e, x = .error e ∧ y = .error e) ∨ ∃ a b, x = .ok a ∧ y = .ok b ∧ R a b := by
  cases h with
  | error e => exact .inl ⟨e, rfl, rfl⟩
  | ok h => exact .inr ⟨_, _, rfl, rfl, h⟩

structure Rule.Indistinct (R : Rule → Rule → Prop) : Prop where
  new (kind : String) : R (.new kind) (.new kind)
  kind {r s : Rule} (h : R r s) : r.kind = s.kind
  name {r s : Rule} (h : R r s) : r.name? = s.name?
  getTexts {r s : Rule} (h : R r s) (key : String) : r.getTexts key = s.getTexts key
  set {r s : Rule} (h : R r s) (key : String) (value : AttrValue) : R (r.set key value) (s.set key value)

variable {R : Rule → Rule → Prop} (hR : Rule.Indistinct R)

namespace Rule.Indistinct

variable {r s : Rule}

include hR

theorem key (h : R r s) : r.key = s.key := by rw [Rule.key, Rule.key, hR.name h]

theorem isOf (h : R r s) (kind : String) (name : Option String) : r.isOf kind name = s.isOf kind name := by
  rw [Rule.isOf, Rule.isOf, hR.kind h, hR.name h]

theorem describe (h : R r s) (p : Package) : Agree R (r.describe p) (s.describe p) := by
  have hid : R ((r.setText "name" p.identity).setText "sha256" p.checksum)
      ((s.setText "name" p.identity).setText "sha256" p.checksum) :=
    hR.set (hR.set h "name" (.text p.identity)) "sha256" (.text p.checksum)
  have hurls := hR.getTexts hid "urls"
  rw [Rule.describe, Rule.describe, hurls]
  cases ((s.setText "name" p.identity).setText "sha256" p.checksum).getTexts "urls" with
  | error e => exact .error e
  | ok urls =>
    apply Agree.ok
    by_cases hempty : urls.isEmpty = true
    · rw [if_pos hempty, if_pos hempty]
      exact hR.set hid "urls" (.texts p.urls)
    · rw [if_neg hempty, if_neg hempty]
      exact hid

theorem bundle (h : R r s) (name : String) (ps : List Package) (files : List String) :
    R (r.bundle name ps files) (s.bundle name ps files) :=
  hR.set (hR.set (hR.set h "name" (.text name)) "rpms" _) "files" _

end Rule.Indistinct

namespace Register

def Related (R : Rule → Rule → Prop) (reg reg' : Register) : Prop :=
  List.Forall₂ (fun e f => e.1 = f.1 ∧ R e.2 f.2) reg reg'

variable {reg reg' : Register} {r s : Rule}

theorem related_insert (h : Related R reg reg') (key : String) (hrs : R r s) :
    Related R (insert key r reg) (insert key s reg') := by
  induction h with
  | nil => exact .cons ⟨rfl, hrs⟩ .nil
  | @cons e f reg reg' hef h ih =>
    obtain ⟨k, r'⟩ := e
    obtain ⟨k', s'⟩ := f
    obtain ⟨hk, hr'⟩ := hef
    dsimp only at hk hr'
    subst hk
    rw [insert, insert]
    by_cases hlt : key < k
    · rw [if_pos hlt, if_pos hlt]
      exact .cons ⟨rfl, hrs⟩ (.cons ⟨rfl, hr'⟩ h)
    by_cases heq : key = k
    · rw [if_neg hlt, if_neg hlt, if_pos heq, if_pos heq]
      exact .cons ⟨rfl, hrs⟩ h
    · rw [if_neg hlt, if_neg hlt, if_neg heq, if_neg heq]
      exact .cons ⟨rfl, hr'⟩ ih

theorem related_find? (h : Related R reg reg') (key : String) :
    Option.Rel R (reg.find? key) (reg'.find? key) := by
  induction h with
  | nil => exact .none
  | @cons e f reg reg' hef h ih =>
    rw [find?_cons, find?_cons, ← hef.1]
    by_cases hk : key = e.1
    · rw [if_pos hk, if_pos hk]
      exact .some hef.2
    · rw [if_neg hk, if_neg hk]
      exact ih

theorem related_rules (h : Related R reg reg') : List.Forall₂ R reg.rules reg'.rules := by
  apply List.rel_map _ h
  intro e f hef
  exact hef.2

include hR in
theorem related_ofRules {rules rules' : List Rule} (h : List.Forall₂ R rules rules') :
    Related R (ofRules rules) (ofRules rules') := by
  apply List.rel_foldl _ .nil h
  intro reg reg' hreg r s hrs
  simp only [hR.key hrs]
  exact related_insert hreg s.key hrs

end Register

theorem related_getD {found found' : Option Rule} (h : Option.Rel R found found') {r s : Rule} (hrs : R r s) :
    R (found.getD r) (found'.getD s) := by
  cases h with
  | none => exact hrs
  | some h => exact h

theorem isSome_of_related {found found' : Option Rule} (h : Option.Rel R found found') :
    found.isSome = found'.isSome ∧ found.isNone = found'.isNone := by
  cases h with
  | none => exact ⟨rfl, rfl⟩
  | some h => exact ⟨rfl, rfl⟩

namespace RpmTally

structure Related (R : Rule → Rule → Prop) (t u : RpmTally) : Prop where
  register : t.register.Related R u.register
  seen : t.seen = u.seen
  created : t.created = u.created
  updated : t.updated = u.updated

variable {t u : RpmTally}

include hR

theorem related_add (h : t.Related R u) (p : Package) : Agree (Related R) (t.add p) (u.add p) := by
  have hfound := Register.related_find? h.register p.identity
  obtain ⟨hsome, hnone⟩ := isSome_of_related hfound
  rw [add, add]
  obtain ⟨e, ht, hu⟩ | ⟨r, s, ht, hu, hrs⟩ :=
    (hR.describe (related_getD hfound (hR.new rpmKind)) p).eq_or
  · rw [ht, hu]
    exact .error e
  · rw [ht, hu]
    apply Agree.ok
    rw [hsome, hnone, h.seen, h.created, h.updated]
    exact ⟨Register.related_insert h.register p.identity hrs, rfl, rfl, rfl⟩

theorem related_addAll (h : t.Related R u) (ps : List Package) :
    Agree (Related R) (t.addAll ps) (u.addAll ps) := by
  induction ps generalizing t u with
  | nil => exact .ok h
  | cons p ps ih =>
    rw [addAll, addAll]
    obtain ⟨e, ht, hu⟩ | ⟨t', u', ht, hu, h'⟩ := (related_add hR h p).eq_or
    · rw [ht, hu]
      exact .error e
    · rw [ht, hu]
      exact ih h'

end RpmTally

namespace Statement

inductive Related (R : Rule → Rule → Prop) : Statement → Statement → Prop
  | rule {r s : Rule} (h : R r s) : Related R (.rule r) (.rule s)
  | other {s : Statement} (h : s.rule? = none) : Related R s s

variable {a b : Statement} {ss ts : List Statement}

theorem Related.isComment (h : Related R a b) : a.isComment = b.isComment := by
  cases h <;> rfl

theorem Related.rule? (h : Related R a b) : Option.Rel R a.rule? b.rule? := by
  cases h with
  | rule h => exact .some h
  | other h =>
    rw [h]
    exact .none

include hR in
theorem Related.isRuleOf (h : Related R a b) (kind : String) (name : Option String) :
    a.isRuleOf kind name = b.isRuleOf kind name := by
  cases h with
  | rule h => exact hR.isOf h kind name
  | other => rfl

theorem forall₂_whiles (h : List.Forall₂ (Related R) ss ts) :
    List.Forall₂ (Related R) (ss.takeWhile isComment) (ts.takeWhile isComment) ∧
      List.Forall₂ (Related R) (ss.dropWhile isComment) (ts.dropWhile isComment) := by
  induction h with
  | nil => exact ⟨.nil, .nil⟩
  | @cons a b ss ts hab h ih =>
    have hcomment := hab.isComment
    cases hb : b.isComment with
    | true =>
      rw [hb] at hcomment
      simp only [List.takeWhile_cons, List.dropWhile_cons, hcomment, hb, if_true]
      exact ⟨.cons hab ih.1, ih.2⟩
    | false =>
      rw [hb] at hcomment
      simp only [List.takeWhile_cons, List.dropWhile_cons, hcomment, hb, Bool.false_eq_true, if_false]
      exact ⟨.nil, .cons hab h⟩

theorem related_append (h : List.Forall₂ (Related R) ss ts) (hab : Related R a b) :
    List.Forall₂ (Related R) (append ss a) (append ts b) := by
  obtain ⟨htake, hdrop⟩ := forall₂_whiles (List.rel_reverse h)
  exact List.rel_append (List.rel_reverse hdrop) (.cons hab (List.rel_reverse htake))

end Statement

namespace Document

def Related (R : Rule → Rule → Prop) (d d' : Document) : Prop :=
  List.Forall₂ (Statement.Related R) d.statements d'.statements

variable {d d' : Document}

include hR in
theorem related_removeRules (h : d.Related R d') (kind : String) (name : Option String) :
    List.Forall₂ R (d.removeRules kind name).1 (d'.removeRules kind name).1 ∧
      (d.removeRules kind name).2.Related R (d'.removeRules kind name).2 := by
  constructor
  · apply List.rel_filter
    · intro r s hrs
      exact Bool.coe_iff_coe.mpr (hR.isOf hrs kind name)
    · apply List.rel_filterMap _ h
      intro a b hab
      exact hab.rule?
  · apply List.rel_filter _ h
    intro a b hab
    exact Bool.coe_iff_coe.mpr (congrArg not (hab.isRuleOf hR kind name))

theorem related_foldl_appendRule (h : d.Related R d') {rules rules' : List Rule}
    (hrules : List.Forall₂ R rules rules') :
    (rules.foldl appendRule d).Related R (rules'.foldl appendRule d') := by
  induction hrules generalizing d d' with
  | nil => exact h
  | cons hrs _ ih => exact ih (Statement.related_append h (.rule hrs))

include hR

theorem related_register (h : d.Related R d') (kind : String) :
    (d.register kind).Related R (d'.register kind) :=
  Register.related_ofRules hR (related_removeRules hR h kind none).1

theorem related_replaceRules (h : d.Related R d') (kind : String) {reg reg' : Register}
    (hreg : reg.Related R reg') : (d.replaceRules kind reg).Related R (d'.replaceRules kind reg') :=
  related_foldl_appendRule (related_removeRules hR h kind none).2 (Register.related_rules hreg)

theorem related_addRpms (h : d.Related R d') (ps : List Package) :
    Agree (fun a b => a.1 = b.1 ∧ a.2.Related R b.2) (d.addRpms ps) (d'.addRpms ps) := by
  have htally : RpmTally.Related R ⟨d.register rpmKind, [], 0, 0⟩ ⟨d'.register rpmKind, [], 0, 0⟩ :=
    ⟨related_register hR h rpmKind, rfl, rfl, rfl⟩
  rw [addRpms, addRpms]
  obtain ⟨e, hd, hd'⟩ | ⟨t, u, hd, hd', ht⟩ := (RpmTally.related_addAll hR htally ps).eq_or
  · rw [hd, hd']
    exact .error e
  · rw [hd, hd']
    apply Agree.ok
    constructor
    · rw [ht.created, ht.updated, ht.register.length_eq]
    · exact related_replaceRules hR h rpmKind ht.register

theorem related_addBundle (h : d.Related R d') (name : String) (ps : List Package) (files : List String) :
    (d.addBundle name ps files).1 = (d'.addBundle name ps files).1 ∧
      (d.addBundle name ps files).2.Related R (d'.addBundle name ps files).2 := by
  have hreg := related_register hR h bundleKind
  have hfound := Register.related_find? hreg name
  obtain ⟨hsome, hnone⟩ := isSome_of_related hfound
  have hbundle := hR.bundle (related_getD hfound (hR.new bundleKind)) name ps files
  have hinsert := Register.related_insert hreg name hbundle
  constructor
  · rw [addBundle, addBundle]
    dsimp only
    rw [hsome, hnone, hinsert.length_eq]
  · exact related_replaceRules hR h bundleKind hinsert

end Document
end BuildSync
