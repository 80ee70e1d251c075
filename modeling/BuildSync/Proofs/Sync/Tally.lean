import BuildSync.Proofs.Sync.Fetch
import Mathlib.Data.Finset.Card
import Mathlib.Data.Finset.Dedup

namespace BuildSync

namespace Rule

variable {r r' : Rule} {p : Package}

def Locatable (r : Rule) : Prop := ∃ urls, r.getTexts "urls" = .ok urls

theorem locatable_identify (r : Rule) (p : Package) : (r.identify p).Locatable ↔ r.Locatable := by
  have hsame : (r.identify p).attr? "urls" = r.attr? "urls" :=
    attr?_identify (by decide) (by decide) r p
  constructor
  · rintro ⟨urls, h⟩
    exact ⟨urls, getTexts_congr hsame.symm h⟩
  · rintro ⟨urls, h⟩
    exact ⟨urls, getTexts_congr hsame h⟩

theorem exists_describe_iff : (∃ r', r.describe p = .ok r') ↔ r.Locatable := by
  rw [← locatable_identify r p]
  constructor
  · rintro ⟨r', h⟩
    obtain ⟨urls, hurls, -⟩ := describe_eq_ok h
    exact ⟨urls, hurls⟩
  · rintro ⟨urls, h⟩
    exact ⟨_, describe_of_getTexts h⟩

theorem locatable_of_describe (h : r.describe p = .ok r') : r'.Locatable := by
  obtain ⟨urls, hurls, -⟩ := urls_describe h
  exact ⟨urls, hurls⟩

end Rule

namespace RpmTally

variable {t t' : RpmTally} {reg : Register} {p : Package} {ps : List Package}

theorem exists_add_iff : (∃ t', t.add p = .ok t') ↔
    ((t.register.find? p.identity).getD (.new rpmKind)).Locatable := by
  rw [← Rule.exists_describe_iff (p := p), add]
  cases ((t.register.find? p.identity).getD (.new rpmKind)).describe p <;> simp

theorem locatable_add (h : t.add p = .ok t') (key : String) :
    ((t'.register.find? key).getD (.new rpmKind)).Locatable ↔
      ((t.register.find? key).getD (.new rpmKind)).Locatable := by
  obtain ⟨r, hr, hreg⟩ := add_eq_ok h
  rw [hreg, Register.find?_insert]
  split_ifs with hkey
  · subst hkey
    exact iff_of_true (Rule.locatable_of_describe hr) (Rule.exists_describe_iff.mp ⟨r, hr⟩)
  · rfl

theorem exists_addAll_iff : (∃ t', t.addAll ps = .ok t') ↔
    ∀ p ∈ ps, ((t.register.find? p.identity).getD (.new rpmKind)).Locatable := by
  induction ps generalizing t with
  | nil => exact iff_of_true ⟨t, rfl⟩ nofun
  | cons p ps ih =>
    rw [List.forall_mem_cons, ← exists_add_iff (t := t)]
    constructor
    · rintro ⟨t', h⟩
      rw [addAll] at h
      split at h
      · cases h
      rename_i s hs
      exact ⟨⟨s, hs⟩, fun q hq => (locatable_add hs _).mp (ih.mp ⟨t', h⟩ q hq)⟩
    · rintro ⟨⟨s, hs⟩, hps⟩
      obtain ⟨t', h⟩ := ih.mpr fun q hq => (locatable_add hs _).mpr (hps q hq)
      exact ⟨t', by rw [addAll, hs]; exact h⟩

def identities (ps : List Package) : Finset String := (ps.map Package.identity).toFinset

theorem mem_identities {key : String} : key ∈ identities ps ↔ key ∈ ps.map Package.identity :=
  List.mem_toFinset

theorem identities_concat (ps : List Package) (p : Package) :
    identities (ps ++ [p]) = insert p.identity (identities ps) := by
  ext key
  rw [mem_identities, List.map_append, List.mem_append, Finset.mem_insert, mem_identities]
  simp [or_comm]

theorem isSome_find?_addAll (h : t.addAll ps = .ok t') (key : String) :
    (t'.register.find? key).isSome = true ↔ key ∈ identities ps ∨ (t.register.find? key).isSome = true := by
  rw [find?_addAll h, mem_identities]
  split_ifs with hkey
  · exact iff_of_true rfl (.inl hkey)
  · simp [hkey]

theorem card_filter_insert (s : Finset String) (key : String) (P : String → Prop) [DecidablePred P] :
    ((insert key s).filter P).card = if key ∉ s ∧ P key then (s.filter P).card + 1 else (s.filter P).card := by
  by_cases hmem : key ∈ s
  · rw [Finset.insert_eq_of_mem hmem, if_neg fun h => h.1 hmem]
  rw [Finset.filter_insert]
  by_cases hkey : P key
  · rw [if_pos hkey, if_pos ⟨hmem, hkey⟩, Finset.card_insert_of_notMem fun h => hmem (Finset.mem_filter.mp h).1]
  · rw [if_neg hkey, if_neg fun h => hkey h.2]

structure Counts (reg : Register) (ps : List Package) (t : RpmTally) : Prop where
  seen : ∀ key, key ∈ t.seen ↔ key ∈ identities ps
  created : t.created = ((identities ps).filter fun key => (reg.find? key).isSome = false).card
  updated : t.updated = ((identities ps).filter fun key => (reg.find? key).isSome = true).card

theorem counts_add (hc : Counts reg ps t)
    (hfind : ∀ key, (t.register.find? key).isSome = true ↔ key ∈ identities ps ∨ (reg.find? key).isSome = true)
    (h : t.add p = .ok t') : Counts reg (ps ++ [p]) t' := by
  rw [add] at h
  split at h
  · cases h
  cases h
  have hfound := hfind p.identity
  have hseen := hc.seen p.identity
  refine ⟨fun key => ?_, ?_, ?_⟩
  · rw [List.mem_cons, hc.seen, identities_concat, Finset.mem_insert]
  · have hnew : (t.register.find? p.identity).isNone = true ↔
        p.identity ∉ identities ps ∧ (reg.find? p.identity).isSome = false := by
      rw [← Option.not_isSome, Bool.not_eq_true', ← Bool.not_eq_true, hfound, not_or, Bool.not_eq_true]
    rw [identities_concat, card_filter_insert, ← hc.created]
    exact if_congr hnew rfl rfl
  · have hold : ((t.register.find? p.identity).isSome && !t.seen.contains p.identity) = true ↔
        p.identity ∉ identities ps ∧ (reg.find? p.identity).isSome = true := by
      rw [Bool.and_eq_true, hfound, ← hseen]
      simp only [Bool.not_eq_true', List.contains_eq_mem, decide_eq_false_iff_not]
      tauto
    rw [identities_concat, card_filter_insert, ← hc.updated]
    exact if_congr hold rfl rfl

theorem counts_addAll (h : RpmTally.addAll ⟨reg, [], 0, 0⟩ ps = .ok t) : Counts reg ps t := by
  induction ps using List.reverseRecOn generalizing t with
  | nil =>
    cases h
    exact ⟨fun key => by simp [identities], rfl, rfl⟩
  | append_singleton ps p ih =>
    obtain ⟨s, hs, hp⟩ := addAll_concat h
    exact counts_add (ih hs) (isSome_find?_addAll hs) hp

end RpmTally
end BuildSync
