import BuildSync.Package
import Mathlib.Data.List.DropRight

/-!
Locations on mirrors. The slashes at the end of the mirror and at the beginning of the location are taken off,
and what is left of the two is glued together with one slash, where neither is empty. Gluing is associative,
and taking slashes off either end of what is glued takes them off that part.
-/

namespace BuildSync

namespace Url

abbrev slash (c : Char) : Bool := c == '/'

def glue (base path : List Char) : List Char :=
  if base = [] then path else if path = [] then base else base ++ '/' :: path

variable {x y z : List Char}

@[simp] theorem nil_glue (path : List Char) : glue [] path = path := rfl

@[simp] theorem glue_nil (base : List Char) : glue base [] = base := by
  cases base <;> rfl

theorem glue_of_ne_nil (hx : x ≠ []) (hy : y ≠ []) : glue x y = x ++ '/' :: y := by
  rw [glue, if_neg hx, if_neg hy]

theorem glue_assoc (x y z : List Char) : glue (glue x y) z = glue x (glue y z) := by
  by_cases hx : x = []
  · rw [hx, nil_glue, nil_glue]
  by_cases hy : y = []
  · rw [hy, glue_nil, nil_glue]
  by_cases hz : z = []
  · rw [hz, glue_nil, glue_nil]
  have happend (u v : List Char) : u ++ '/' :: v ≠ [] := by simp
  rw [glue_of_ne_nil hx hy, glue_of_ne_nil hy hz, glue_of_ne_nil (happend x y) hz,
    glue_of_ne_nil hx (happend y z), List.append_assoc, List.cons_append]

theorem reverse_glue (x y : List Char) : (glue x y).reverse = glue y.reverse x.reverse := by
  by_cases hx : x = []
  · rw [hx, nil_glue, List.reverse_nil, glue_nil]
  by_cases hy : y = []
  · rw [hy, glue_nil, List.reverse_nil, nil_glue]
  rw [glue_of_ne_nil hx hy, glue_of_ne_nil (by simpa using hy) (by simpa using hx)]
  simp

theorem dropWhile_glue (hx : x.dropWhile slash = [] → x = []) (hy : y.dropWhile slash = y) :
    (glue x y).dropWhile slash = glue (x.dropWhile slash) y := by
  by_cases hnil : x = []
  · rw [hnil, nil_glue, List.dropWhile_nil, nil_glue, hy]
  by_cases hy' : y = []
  · rw [hy', glue_nil, glue_nil]
  have hfront : x.dropWhile slash ≠ [] := fun h => hnil (hx h)
  rw [glue_of_ne_nil hnil hy', glue_of_ne_nil hfront hy', List.dropWhile_append]
  simp [hfront]

theorem rdropWhile_glue (hx : x.rdropWhile slash = x) (hy : y.rdropWhile slash = [] → y = []) :
    (glue x y).rdropWhile slash = glue x (y.rdropWhile slash) := by
  have hback := dropWhile_glue (x := y.reverse) (y := x.reverse)
    (by simpa [List.rdropWhile] using hy) (List.reverse_eq_iff.mp hx)
  rw [List.rdropWhile, reverse_glue, hback, reverse_glue, List.reverse_reverse]
  rfl

theorem dropWhile_rdropWhile (x : List Char) :
    (x.rdropWhile slash).dropWhile slash = (x.dropWhile slash).rdropWhile slash := by
  induction x with
  | nil => rfl
  | cons c x ih =>
    have hcons : (c :: x).rdropWhile slash =
        if x.rdropWhile slash = [] then [c].rdropWhile slash else c :: x.rdropWhile slash := by
      rw [List.rdropWhile, List.reverse_cons, List.dropWhile_append]
      simp only [List.rdropWhile, List.isEmpty_iff, List.reverse_eq_nil_iff]
      split_ifs <;> simp
    by_cases hc : slash c
    · rw [List.dropWhile_cons_of_pos hc, ← ih, hcons]
      split_ifs with hx
      · rw [hx, List.rdropWhile_singleton, if_pos hc]
      · rw [List.dropWhile_cons_of_pos hc]
    · rw [List.dropWhile_cons_of_neg hc, hcons]
      split_ifs
      · rw [List.rdropWhile_singleton, if_neg hc, List.dropWhile_cons_of_neg hc]
      · rw [List.dropWhile_cons_of_neg hc]

theorem eq_nil_of_dropWhile_rdropWhile (h : (x.rdropWhile slash).dropWhile slash = []) :
    x.rdropWhile slash = [] := by
  rw [← List.rdropWhile_idempotent]
  exact List.rdropWhile_eq_nil_iff.mpr (List.dropWhile_eq_nil_iff.mp h)

theorem eq_nil_of_rdropWhile_dropWhile (h : (x.dropWhile slash).rdropWhile slash = []) :
    x.dropWhile slash = [] := by
  rw [← List.dropWhile_idempotent]
  exact List.dropWhile_eq_nil_iff.mpr (List.rdropWhile_eq_nil_iff.mp h)

theorem glue_trimmed (x y z : List Char) :
    glue ((glue (x.rdropWhile slash) (y.dropWhile slash)).rdropWhile slash) (z.dropWhile slash) =
      glue (x.rdropWhile slash) ((glue (y.rdropWhile slash) (z.dropWhile slash)).dropWhile slash) := by
  rw [rdropWhile_glue (List.rdropWhile_idempotent slash x) eq_nil_of_rdropWhile_dropWhile,
    dropWhile_glue eq_nil_of_dropWhile_rdropWhile (List.dropWhile_idempotent slash z), glue_assoc,
    dropWhile_rdropWhile]

theorem rdropWhile_slashes (x : List Char) (n : Nat) :
    (x ++ List.replicate n '/').rdropWhile slash = x.rdropWhile slash := by
  rw [List.rdropWhile, List.rdropWhile, List.reverse_append, List.reverse_replicate,
    List.dropWhile_append_of_pos fun c hc => by rw [List.eq_of_mem_replicate hc]; rfl]

theorem dropWhile_slashes (x : List Char) (n : Nat) :
    (List.replicate n '/' ++ x).dropWhile slash = x.dropWhile slash :=
  List.dropWhile_append_of_pos fun c hc => by rw [List.eq_of_mem_replicate hc]; rfl

end Url

open Url

theorem toList_joinUrl (mirror href : String) :
    (joinUrl mirror href).toList = glue (mirror.toList.rdropWhile slash) (href.toList.dropWhile slash) := by
  simp only [joinUrl, glue, List.isEmpty_iff, apply_ite String.toList, String.toList_ofList]
  rfl

/-- Parts are joined from the front or from the back alike, and slashes at a seam do not matter. -/
theorem joinUrl_seams (a b c : String) :
    joinUrl (joinUrl a b) c = joinUrl a (joinUrl b c) ∧
      ∀ j k : Nat, joinUrl (a ++ String.ofList (List.replicate j '/')) (String.ofList (List.replicate k '/') ++ b) =
        joinUrl a b := by
  refine ⟨?_, fun j k => ?_⟩ <;> apply String.toList_injective
  · simp only [toList_joinUrl, glue_trimmed]
  · simp only [toList_joinUrl, String.toList_append, String.toList_ofList, rdropWhile_slashes, dropWhile_slashes]

end BuildSync
