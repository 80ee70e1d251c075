import BuildSync.FileTree.Write
import Mathlib.Data.List.Basic

namespace BuildSync

namespace Path

theorem pieces_append (cs ds : List Char) (done : List (List Char)) :
    pieces (cs ++ ds) done = pieces ds (pieces cs done) := by
  fun_induction pieces cs done with
  | case1 done => rfl
  | case2 rest done ih => exact ih
  | case3 c rest hc ih => rw [List.cons_append, pieces, ih]; exact hc
  | case4 c rest piece done hc ih => rw [List.cons_append, pieces, ih]; exact hc

theorem pieces_of_not_mem {cs : List Char} (h : '/' ∉ cs) (piece : List Char) (done : List (List Char)) :
    pieces cs (piece :: done) = (piece ++ cs) :: done := by
  induction cs generalizing piece with
  | nil => rw [pieces, List.append_nil]
  | cons c cs ih =>
    obtain ⟨hc, hcs⟩ := not_or.mp (List.mem_cons.not.mp h)
    rw [pieces, ih hcs, List.append_assoc]
    · rfl
    · rintro rfl
      exact hc rfl

theorem not_mem_of_mem_pieces {cs : List Char} {done : List (List Char)} (h : ∀ p ∈ done, '/' ∉ p) :
    ∀ p ∈ pieces cs done, '/' ∉ p := by
  fun_induction pieces cs done with
  | case1 done => exact h
  | case2 rest done ih => exact ih (List.forall_mem_cons.mpr ⟨nofun, h⟩)
  | case3 c rest hc ih =>
    refine ih (List.forall_mem_singleton.mpr ?_)
    simpa using fun h => hc h.symm
  | case4 c rest piece done hc ih =>
    obtain ⟨hpiece, hdone⟩ := List.forall_mem_cons.mp h
    refine ih (List.forall_mem_cons.mpr ⟨?_, hdone⟩)
    simpa [hpiece] using fun h => hc h.symm

theorem pieces_ne_nil {cs : List Char} {done : List (List Char)} (h : done ≠ []) : pieces cs done ≠ [] := by
  fun_induction pieces cs done with
  | case1 => exact h
  | case2 rest done ih => exact ih (List.cons_ne_nil _ _)
  | case3 c rest hc ih => exact ih (List.cons_ne_nil _ _)
  | case4 c rest piece done hc ih => exact ih (List.cons_ne_nil _ _)

theorem names_ne_nil (path : String) : names path ≠ [] := by
  rw [names, ne_eq, List.map_eq_nil_iff]
  exact pieces_ne_nil (List.cons_ne_nil _ _)

theorem not_mem_of_mem_names {path name : String} (h : name ∈ names path) : '/' ∉ name.toList := by
  obtain ⟨p, hp, rfl⟩ := List.mem_map.mp h
  rw [String.toList_ofList]
  exact not_mem_of_mem_pieces (List.forall_mem_singleton.mpr List.not_mem_nil) p hp

theorem names_of_not_mem {name : String} (h : '/' ∉ name.toList) : names name = [name] := by
  rw [names, pieces_of_not_mem h, List.nil_append]
  exact congrArg (· :: []) String.ofList_toList

theorem names_join {name : String} (above : String) (h : '/' ∉ name.toList) :
    names (above ++ "/" ++ name) = name :: names above := by
  have hslash : (above ++ "/" ++ name).toList = above.toList ++ '/' :: name.toList := by simp
  rw [names, hslash, pieces_append, pieces, pieces_of_not_mem h, List.nil_append, List.map_cons,
    String.ofList_toList, ← names]

theorem ofNames_cons {name : String} {ns : List String} (h : ns ≠ []) :
    ofNames (name :: ns) = ofNames ns ++ "/" ++ name := by
  have hreverse : ns.reverse ≠ [] := fun hr => h (List.reverse_eq_nil_iff.mp hr)
  rw [ofNames, List.reverse_cons, String.intercalate_append_of_ne_nil hreverse (List.cons_ne_nil _ _),
    String.intercalate_singleton, ← ofNames]

theorem names_ofNames {ns : List String} (hne : ns ≠ []) (h : ∀ name ∈ ns, '/' ∉ name.toList) :
    names (ofNames ns) = ns := by
  induction ns with
  | nil => exact absurd rfl hne
  | cons name ns ih =>
    obtain ⟨hname, hns⟩ := List.forall_mem_cons.mp h
    by_cases hnil : ns = []
    · rw [hnil, ofNames, List.reverse_singleton, String.intercalate_singleton, names_of_not_mem hname]
    · rw [ofNames_cons hnil, names_join _ hname, ih hnil hns]

def Plain (name : String) : Prop := name ≠ "" ∧ name ≠ "." ∧ name ≠ ".."

instance (name : String) : Decidable (Plain name) :=
  inferInstanceAs (Decidable (name ≠ "" ∧ name ≠ "." ∧ name ≠ ".."))

theorem trim_cons {name : String} (h : Plain name) (ns : List String) : trim (name :: ns) = name :: ns := by
  cases ns with
  | nil => rfl
  | cons n ns => rw [trim, if_neg (not_or.mpr ⟨h.1, h.2.1⟩)]

theorem trim_ne_nil {ns : List String} (h : ns ≠ []) : trim ns ≠ [] := by
  fun_induction trim ns with
  | case1 c d rest hc ih => exact ih (List.cons_ne_nil _ _)
  | case2 c d rest hc => exact List.cons_ne_nil _ _
  | case3 ns => exact h

theorem trim_suffix (ns : List String) : trim ns <:+ ns := by
  fun_induction trim ns with
  | case1 c d rest hc ih => exact ih.trans (List.suffix_cons _ _)
  | case2 c d rest hc => exact List.suffix_rfl
  | case3 ns => exact List.suffix_rfl

variable {path name : String} {ns : List String}

theorem fileName?_eq (hpath : names path = name :: ns) (h : Plain name) : fileName? path = some name := by
  rw [fileName?, hpath, trim_cons h]
  exact if_neg (by simp [h.1, h.2.1, h.2.2])

theorem parents_eq (hpath : names path = name :: ns) (h : Plain name) : parents path =
    if ns = [] then [] else ofNames (trim ns) :: (parentNames ns).map ofNames := by
  rw [parents, hpath, parentNames, if_neg (by simp [h.1, h.2.1])]
  split_ifs <;> rfl

theorem parent?_eq (hpath : names path = name :: ns) (h : Plain name) :
    parent? path = if ns = [] then none else some (ofNames (trim ns)) := by
  rw [parent?, parents_eq hpath h]
  split_ifs <;> rfl

theorem lastName_eq (hpath : names path = name :: ns) (h : name ≠ "") : lastName path = name := by
  rw [lastName, hpath, List.find?_cons_of_pos (by simpa using h), Option.getD_some]

theorem names_sibling {other : String} (hpath : names path = name :: ns) (h : Plain name)
    (hother : '/' ∉ other.toList) : names (sibling path other) = other :: trim ns := by
  rw [sibling, fileName?_eq hpath h, parent?_eq hpath h]
  by_cases hns : ns = []
  · rw [if_pos hns, hns]
    exact names_of_not_mem hother
  · have hslash : ∀ n ∈ trim ns, '/' ∉ n.toList := fun n hn =>
      not_mem_of_mem_names (hpath ▸ List.mem_cons_of_mem name ((trim_suffix ns).subset hn))
    rw [if_neg hns]
    simp only
    rw [names_join _ hother, names_ofNames (trim_ne_nil hns) hslash]

end Path
end BuildSync
