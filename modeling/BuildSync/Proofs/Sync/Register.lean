import BuildSync.Sync
import Mathlib.Data.String.Basic

namespace BuildSync

namespace Register

variable {reg reg' : Register} {key key' : String} {r : Rule}

def Sorted (reg : Register) : Prop := reg.Pairwise fun a b => a.1 < b.1

theorem find?_cons (entry : String × Rule) (reg : Register) (key : String) :
    find? (entry :: reg) key = if key = entry.1 then some entry.2 else find? reg key := by
  obtain ⟨k, s⟩ := entry
  simp only [find?, List.lookup_cons]
  split <;> simp_all

theorem find?_insert (reg : Register) (key key' : String) (r : Rule) :
    (insert key r reg).find? key' = if key' = key then some r else reg.find? key' := by
  induction reg with
  | nil => exact find?_cons (key, r) [] key'
  | cons entry reg ih =>
    obtain ⟨k, s⟩ := entry
    rw [insert]
    by_cases hlt : key < k
    · rw [if_pos hlt, find?_cons]
    by_cases heq : key = k
    · subst heq
      rw [if_neg hlt, if_pos rfl, find?_cons, find?_cons]
      split_ifs <;> rfl
    · rw [if_neg hlt, if_neg heq, find?_cons, ih, find?_cons]
      split_ifs with hk hkey
      · exact absurd (hkey.symm.trans hk) heq
      · rfl
      · rfl
      · rfl

theorem forall_insert {P : String × Rule → Prop} (h : ∀ e ∈ reg, P e) (hnew : P (key, r)) :
    ∀ e ∈ insert key r reg, P e := by
  induction reg with
  | nil => exact List.forall_mem_singleton.mpr hnew
  | cons entry reg ih =>
    obtain ⟨hentry, hreg⟩ := List.forall_mem_cons.mp h
    rw [insert]
    split_ifs
    · exact List.forall_mem_cons.mpr ⟨hnew, h⟩
    · exact List.forall_mem_cons.mpr ⟨hnew, hreg⟩
    · exact List.forall_mem_cons.mpr ⟨hentry, ih hreg⟩

theorem sorted_insert (h : Sorted reg) (key : String) (r : Rule) : Sorted (insert key r reg) := by
  induction reg with
  | nil => exact List.pairwise_singleton _ _
  | cons entry reg ih =>
    obtain ⟨hentry, hreg⟩ := List.pairwise_cons.mp h
    obtain ⟨k, s⟩ := entry
    rw [insert]
    split_ifs with hlt heq
    · exact List.pairwise_cons.mpr ⟨List.forall_mem_cons.mpr ⟨hlt, fun e he => hlt.trans (hentry e he)⟩, h⟩
    · exact List.pairwise_cons.mpr ⟨fun e he => heq ▸ hentry e he, hreg⟩
    · have hk : k < key := lt_of_le_of_ne (not_lt.mp hlt) (Ne.symm heq)
      exact List.pairwise_cons.mpr ⟨forall_insert hentry hk, ih hreg⟩

theorem find?_eq_none (h : ∀ e ∈ reg, key < e.1) : reg.find? key = none := by
  induction reg with
  | nil => rfl
  | cons entry reg ih =>
    obtain ⟨hentry, hreg⟩ := List.forall_mem_cons.mp h
    rw [find?_cons, if_neg hentry.ne, ih hreg]

theorem Sorted.find?_tail {entry : String × Rule} (h : Sorted (entry :: reg)) (key : String) :
    find? reg key = if key = entry.1 then none else find? (entry :: reg) key := by
  split_ifs with hk
  · rw [hk]
    exact find?_eq_none (List.pairwise_cons.mp h).1
  · rw [find?_cons, if_neg hk]

theorem Sorted.ext (h : Sorted reg) (h' : Sorted reg') (heq : ∀ key, reg.find? key = reg'.find? key) :
    reg = reg' := by
  induction reg generalizing reg' with
  | nil =>
    cases reg' with
    | nil => rfl
    | cons entry reg' =>
      have := heq entry.1
      rw [find?_cons, if_pos rfl] at this
      cases this
  | cons entry reg ih =>
    cases reg' with
    | nil =>
      have := heq entry.1
      rw [find?_cons, if_pos rfl] at this
      cases this
    | cons entry' reg' =>
      have hkey : entry.1 = entry'.1 := by
        obtain ⟨hentry, -⟩ := List.pairwise_cons.mp h
        obtain ⟨hentry', -⟩ := List.pairwise_cons.mp h'
        rcases lt_trichotomy entry.1 entry'.1 with hlt | hk | hlt
        · have := heq entry.1
          rw [find?_cons, if_pos rfl, find?_eq_none
            (List.forall_mem_cons.mpr ⟨hlt, fun e he => hlt.trans (hentry' e he)⟩)] at this
          cases this
        · exact hk
        · have := heq entry'.1
          rw [find?_cons entry', if_pos rfl, find?_eq_none
            (List.forall_mem_cons.mpr ⟨hlt, fun e he => hlt.trans (hentry e he)⟩)] at this
          cases this
      have hrule : entry.2 = entry'.2 := by
        have := heq entry.1
        rw [find?_cons, if_pos rfl, find?_cons, if_pos hkey] at this
        exact Option.some.inj this
      have hrest : reg = reg' := ih (List.pairwise_cons.mp h).2 (List.pairwise_cons.mp h').2 fun key => by
        rw [h.find?_tail, h'.find?_tail, heq, hkey]
      rw [hrest, Prod.ext hkey hrule]

theorem insert_last (h : ∀ e ∈ reg, e.1 < key) : insert key r reg = reg ++ [(key, r)] := by
  induction reg with
  | nil => rfl
  | cons entry reg ih =>
    obtain ⟨hentry, hreg⟩ := List.forall_mem_cons.mp h
    obtain ⟨k, s⟩ := entry
    rw [insert, if_neg hentry.not_gt, if_neg hentry.ne', ih hreg]
    rfl

def Keyed (reg : Register) : Prop := ∀ e ∈ reg, e.2.key = e.1

theorem foldl_insert (reg' : Register) (hs : Sorted (reg' ++ reg)) (hk : Keyed reg) :
    reg.rules.foldl (fun reg r => insert r.key r reg) reg' = reg' ++ reg := by
  induction reg generalizing reg' with
  | nil => exact (List.append_nil _).symm
  | cons entry reg ih =>
    obtain ⟨hentry, hreg⟩ := List.forall_mem_cons.mp hk
    have hlast : insert entry.2.key entry.2 reg' = reg' ++ [entry] := by
      rw [insert_last, hentry]
      rw [hentry]
      exact fun e he => (List.pairwise_append.mp hs).2.2 e he entry List.mem_cons_self
    rw [rules, List.map_cons, List.foldl_cons, hlast, ← rules, ih (reg' ++ [entry]) (by simpa using hs) hreg]
    simp

theorem ofRules_rules (hs : Sorted reg) (hk : Keyed reg) : ofRules reg.rules = reg :=
  foldl_insert [] hs hk

theorem ofRules_induction {P : Register → Prop} {rules : List Rule} (hnil : P [])
    (hstep : ∀ reg, P reg → ∀ r ∈ rules, P (insert r.key r reg)) : P (ofRules rules) := by
  suffices ∀ (rs : List Rule) (reg : Register), (∀ r ∈ rs, r ∈ rules) → P reg →
      P (rs.foldl (fun reg r => insert r.key r reg) reg) from
    this rules [] (fun _ h => h) hnil
  intro rs
  induction rs with
  | nil => exact fun _ _ h => h
  | cons r rs ih =>
    intro reg hmem h
    obtain ⟨hr, hrs⟩ := List.forall_mem_cons.mp hmem
    exact ih _ hrs (hstep reg h r hr)

theorem sorted_ofRules (rules : List Rule) : Sorted (ofRules rules) :=
  ofRules_induction List.Pairwise.nil fun _ h r _ => sorted_insert h r.key r

theorem keyed_insert (h : Keyed reg) (hr : r.key = key) : Keyed (insert key r reg) := forall_insert h hr

theorem keyed_ofRules (rules : List Rule) : Keyed (ofRules rules) :=
  ofRules_induction nofun fun _ h _ _ => keyed_insert h rfl

theorem forall_ofRules {P : Rule → Prop} {rules : List Rule} (h : ∀ r ∈ rules, P r) :
    ∀ e ∈ ofRules rules, P e.2 :=
  ofRules_induction (P := fun reg => ∀ e ∈ reg, P e.2) nofun fun _ hreg r hr => forall_insert hreg (h r hr)

def mapRules (f : Rule → Rule) (reg : Register) : Register := reg.map fun e => (e.1, f e.2)

theorem find?_mapRules (f : Rule → Rule) (reg : Register) (key : String) :
    (mapRules f reg).find? key = (reg.find? key).map f := by
  induction reg with
  | nil => rfl
  | cons entry reg ih =>
    rw [mapRules, List.map_cons, find?_cons, find?_cons, ← mapRules, ih]
    split_ifs <;> rfl

theorem sorted_mapRules (f : Rule → Rule) (h : Sorted reg) : Sorted (mapRules f reg) :=
  List.pairwise_map.mpr h

theorem rules_mapRules (f : Rule → Rule) (reg : Register) : (mapRules f reg).rules = reg.rules.map f := by
  simp [mapRules, rules]

theorem forall_rules {P : Rule → Prop} (h : ∀ e ∈ reg, P e.2) : ∀ r ∈ reg.rules, P r :=
  List.forall_mem_map.mpr h

theorem mem_of_find? (h : reg.find? key = some r) : (key, r) ∈ reg := by
  induction reg with
  | nil => cases h
  | cons entry reg ih =>
    rw [find?_cons] at h
    split_ifs at h with hk
    · cases h
      rw [hk]
      exact List.mem_cons_self
    · exact List.mem_cons_of_mem _ (ih h)

end Register
end BuildSync
