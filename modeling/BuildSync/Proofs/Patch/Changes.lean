import BuildSync.Patch
import Mathlib.Data.List.Basic
import Mathlib.Tactic.Push

namespace BuildSync

namespace Texts

variable {t : Texts} {i j n most : Nat}

theorem same_of_lt_sameFrom (h : n < t.sameFrom i j most) : t.same (i + n) (j + n) = true := by
  induction most generalizing i j n with
  | zero => exact absurd h (Nat.not_lt_zero n)
  | succ most ih =>
    rw [sameFrom] at h
    split at h
    · rename_i hsame
      cases n with
      | zero => exact hsame
      | succ n =>
        have := ih (Nat.lt_of_succ_lt_succ h)
        rwa [Nat.add_right_comm, Nat.add_right_comm j] at this
    · exact absurd h (Nat.not_lt_zero n)

theorem same_of_lt_sameBefore (h : n < t.sameBefore i j most) : t.same (i - 1 - n) (j - 1 - n) = true := by
  induction most generalizing i j n with
  | zero => exact absurd h (Nat.not_lt_zero n)
  | succ most ih =>
    rw [sameBefore] at h
    split at h
    · rename_i hsame
      cases n with
      | zero => exact hsame.2.2
      | succ n =>
        have := ih (Nat.lt_of_succ_lt_succ h)
        rwa [Nat.sub_sub _ 1 n, Nat.sub_sub _ 1 n, Nat.add_comm 1 n] at this
    · exact absurd h (Nat.not_lt_zero n)

end Texts

namespace Region

variable {t : Texts} {r : Region}

def Same (t : Texts) (r : Region) : Prop :=
  r.oldLength = r.newLength ∧ ∀ n < r.oldLength, t.same (r.old + n) (r.new + n) = true

theorem front_le (t : Texts) (r : Region) : r.front t ≤ min r.oldLength r.newLength :=
  t.sameFrom_le _ _ _

theorem back_le (t : Texts) (r : Region) : r.back t ≤ min r.oldLength r.newLength :=
  t.sameBefore_le _ _ _

theorem same_of_dropFront (h : (r.dropFront (r.front t)).Same t) : r.Same t := by
  obtain ⟨hlength, hsame⟩ := h
  have hle := front_le t r
  simp only [dropFront] at hlength hsame
  refine ⟨by omega, fun n hn => ?_⟩
  by_cases hfront : n < r.front t
  · exact Texts.same_of_lt_sameFrom hfront
  · have := hsame (n - r.front t) (by omega)
    rwa [Nat.add_assoc, Nat.add_sub_cancel' (by omega), Nat.add_assoc, Nat.add_sub_cancel' (by omega)] at this

theorem same_of_dropBack (h : (r.dropBack (r.back t)).Same t) : r.Same t := by
  obtain ⟨hlength, hsame⟩ := h
  have hle := back_le t r
  simp only [dropBack] at hlength hsame
  refine ⟨by omega, fun n hn => ?_⟩
  by_cases hinner : n < r.oldLength - r.back t
  · exact hsame n hinner
  · have hback : r.oldLength - 1 - n < r.back t := by omega
    have := Texts.same_of_lt_sameBefore hback
    have hold : r.old + r.oldLength - 1 - (r.oldLength - 1 - n) = r.old + n := by omega
    have hnew : r.new + r.newLength - 1 - (r.oldLength - 1 - n) = r.new + n := by omega
    rwa [hold, hnew] at this

theorem same_of_core (h : (r.core t).Same t) : r.Same t := same_of_dropFront (same_of_dropBack h)

theorem same_of_split {x y : Nat} (hx : x ≤ r.oldLength) (hy : y ≤ r.newLength) (hbefore : (r.before x y).Same t)
    (hbehind : (r.behind x y).Same t) : r.Same t := by
  obtain ⟨hxy, hsame⟩ := hbefore
  obtain ⟨hlength, hsame'⟩ := hbehind
  simp only [before, behind] at hxy hsame hlength hsame'
  subst hxy
  refine ⟨by omega, fun n hn => ?_⟩
  by_cases hn' : n < x
  · exact hsame n hn'
  · have := hsame' (n - x) (by omega)
    rwa [Nat.add_assoc, Nat.add_sub_cancel' (by omega), Nat.add_assoc, Nat.add_sub_cancel' (by omega)] at this

theorem same_of_script (h : ∀ e ∈ r.script t, e.tag = .keep) : r.Same t := by
  fun_induction script t r with
  | case1 r core inner hbefore hbehind =>
    have hinner : ∀ e ∈ inner, e.tag = .keep := fun e he =>
      h e (List.mem_append_left _ (List.mem_append_right _ he))
    apply same_of_core
    by_cases hnew : core.newLength = 0
    · by_cases hold : core.oldLength = 0
      · exact ⟨hold.trans hnew.symm, fun n hn => absurd (hold ▸ hn) (Nat.not_lt_zero n)⟩
      · simp only [inner, dif_pos hnew, dif_neg hold] at hinner
        cases hinner _ List.mem_cons_self
    by_cases hold : core.oldLength = 0
    · simp only [inner, dif_neg hnew, dif_pos hold] at hinner
      cases hinner _ List.mem_cons_self
    simp only [inner, dif_neg hnew, dif_neg hold] at hinner
    generalize (core.meeting t).getD (0, 0) = met at hinner
    obtain ⟨x, y⟩ := met
    by_cases hsplit : x ≤ core.oldLength ∧ y ≤ core.newLength ∧ 0 < x + y ∧ x + y < core.size
    · simp only [dif_pos hsplit] at hinner
      exact same_of_split hsplit.1 hsplit.2.1
        (hbefore x y hsplit fun e he => hinner e (List.mem_append_left _ he))
        (hbehind x y hsplit fun e he => hinner e (List.mem_append_right _ he))
    · simp only [dif_neg hsplit] at hinner
      cases hinner _ List.mem_cons_self

end Region

namespace Texts

theorem eq_of_same {t : Texts} (h : t.whole.Same t) : t.old = t.new := by
  obtain ⟨hsize, hsame⟩ := h
  refine Array.ext hsize fun n hold hnew => ?_
  have := hsame n hold
  simp only [whole, Nat.zero_add, same, Array.getElem?_eq_getElem hold, Array.getElem?_eq_getElem hnew] at this
  exact eq_of_beq this

theorem exists_mem_script {t : Texts} (h : t.old ≠ t.new) : ∃ e ∈ t.script, e.tag ≠ .keep := by
  by_contra hkeep
  push Not at hkeep
  exact h (eq_of_same (Region.same_of_script hkeep))

end Texts

namespace Edit

variable {e : Edit} {es fs : List Edit} {n : Nat} {tag : Tag}

@[simp] theorem tag_shiftUp : (e.shiftUp n).tag = e.tag := rfl

@[simp] theorem tag_shiftDown : (e.shiftDown n).tag = e.tag := rfl

@[simp] theorem tag_grow : (e.grow n).tag = e.tag := rfl

@[simp] theorem tag_shrink : (e.shrink n).tag = e.tag := rfl

def sorts (es : List Edit) : List Tag := (es.map Edit.tag).filter (· ≠ .keep)

theorem mem_sorts : tag ∈ sorts es ↔ ∃ e ∈ es, e.tag = tag ∧ tag ≠ .keep := by
  simp only [sorts, List.mem_filter, List.mem_map, decide_eq_true_eq]
  constructor
  · rintro ⟨⟨e, he, htag⟩, hne⟩
    exact ⟨e, he, htag, hne⟩
  · rintro ⟨e, he, htag, hne⟩
    exact ⟨⟨e, he, htag⟩, hne⟩

@[simp] theorem mem_sorts_append : tag ∈ sorts (es ++ fs) ↔ tag ∈ sorts es ∨ tag ∈ sorts fs := by
  simp [sorts]

@[simp] theorem mem_sorts_reverse : tag ∈ sorts es.reverse ↔ tag ∈ sorts es := by
  simp [sorts]

@[simp] theorem mem_sorts_cons : tag ∈ sorts (e :: es) ↔ (tag = e.tag ∧ e.tag ≠ .keep) ∨ tag ∈ sorts es := by
  by_cases he : e.tag = .keep <;> simp [sorts, he]

theorem sorts_consUnlessEmpty (he : e.tag = .keep) (es : List Edit) : sorts (e.consUnlessEmpty es) = sorts es := by
  rw [consUnlessEmpty]
  split_ifs
  · rfl
  · simp [sorts, he]

end Edit

namespace Focus

variable {t : Texts} {before after : List Edit} {here : Edit} {tag : Edit.Tag}

theorem tag_up (t : Texts) (before : List Edit) (here : Edit) (after : List Edit) :
    (up t before here after).here.tag = here.tag := by
  fun_induction up t before here after with
  | case1 here after => rfl
  | case2 here after q rest hq n hn ih => exact ih
  | case3 here after q rest hq n hn hempty ih => exact ih
  | case4 here after q rest hq n hn hempty => rfl
  | case5 here after q rest hq heq ih => exact ih.trans heq
  | case6 here after q rest hq hne ih => exact ih

def script (f : Focus) : List Edit := f.before.reverse ++ f.here :: f.after

theorem sorts_keepFront (old new n : Nat) (es : List Edit) : Edit.sorts (keepFront old new n es) = Edit.sorts es := by
  cases es with
  | nil => rfl
  | cons e es =>
    rw [keepFront]
    split_ifs with he <;> simp [Edit.sorts]

theorem sorts_keepBack (old new n : Nat) (es : List Edit) : Edit.sorts (keepBack old new n es) = Edit.sorts es := by
  cases es with
  | nil => rfl
  | cons e es =>
    rw [keepBack]
    split_ifs with he <;> simp [Edit.sorts]

theorem mem_sorts_up (h : tag ∈ Edit.sorts (before.reverse ++ here :: after)) :
    tag ∈ Edit.sorts (up t before here after).script := by
  fun_induction up t before here after with
  | case1 here after => exact h
  | case2 here after q rest hq n hn ih =>
    apply ih
    have hrest := Edit.sorts_consUnlessEmpty (e := q.shrink n) hq rest
    simpa [hrest, sorts_keepFront, hq] using h
  | case3 here after q rest hq n hn hempty ih =>
    apply ih
    simpa [hq] using h
  | case4 here after q rest hq n hn hempty => exact h
  | case5 here after q rest hq heq ih =>
    apply ih
    simp only [Edit.mem_sorts_append, Edit.mem_sorts_reverse, Edit.mem_sorts_cons, Edit.tag_grow] at h ⊢
    grind
  | case6 here after q rest hq hne ih =>
    apply ih
    simp only [Edit.mem_sorts_append, Edit.mem_sorts_reverse, Edit.mem_sorts_cons] at h ⊢
    grind

theorem mem_sorts_down (h : tag ∈ Edit.sorts (before.reverse ++ here :: after)) :
    tag ∈ Edit.sorts (down t before here after).script := by
  fun_induction down t before here after with
  | case1 before here => exact h
  | case2 before here q rest hq n hn ih =>
    apply ih
    have hrest := Edit.sorts_consUnlessEmpty (e := (q.shiftDown n).shrink n) hq rest
    simpa [hrest, sorts_keepBack, hq] using h
  | case3 before here q rest hq n hn hempty ih =>
    apply ih
    simpa [hq] using h
  | case4 before here q rest hq n hn hempty => exact h
  | case5 before here q rest hq heq ih =>
    apply ih
    simp only [Edit.mem_sorts_append, Edit.mem_sorts_reverse, Edit.mem_sorts_cons, Edit.tag_grow] at h ⊢
    grind
  | case6 before here q rest hq hne ih =>
    apply ih
    simp only [Edit.mem_sorts_append, Edit.mem_sorts_reverse, Edit.mem_sorts_cons] at h ⊢
    grind

theorem mem_sorts_settle {tag' : Edit.Tag} (steps : Nat) (h : tag ∈ Edit.sorts (before.reverse ++ after)) :
    tag ∈ Edit.sorts (settle t tag' before steps after) := by
  fun_induction settle t tag' before steps after with
  | case1 before after => exact h
  | case2 before steps => rwa [List.append_nil] at h
  | case3 before steps e after heq raised f ih =>
    apply ih
    rw [List.reverse_cons, List.append_assoc]
    exact mem_sorts_down (mem_sorts_up h)
  | case4 before steps e after hne ih =>
    apply ih
    rwa [List.reverse_cons, List.append_assoc]

end Focus

theorem Texts.mem_sorts_compact (t : Texts) {script : List Edit} {tag : Edit.Tag} (h : tag ∈ Edit.sorts script) :
    tag ∈ Edit.sorts (t.compact script) :=
  Focus.mem_sorts_settle _ (Focus.mem_sorts_settle _ h)

theorem Texts.exists_mem_compact (t : Texts) {script : List Edit} (h : ∃ e ∈ script, e.tag ≠ .keep) :
    ∃ e ∈ t.compact script, e.tag ≠ .keep := by
  obtain ⟨e, he, hne⟩ := h
  obtain ⟨e', he', htag⟩ := Edit.mem_sorts.mp (t.mem_sorts_compact (Edit.mem_sorts.mpr ⟨e, he, rfl, hne⟩))
  exact ⟨e', he', htag.1 ▸ htag.2⟩

namespace Block

theorem mem_kept_cons {b : Block} {blocks : List Block} {k : Bool} :
    k ∈ (b.cons blocks).map kept ↔ k = b.kept ∨ k ∈ blocks.map kept := by
  cases blocks with
  | nil => simp [cons]
  | cons c rest =>
    rw [cons]
    split
    · rename_i hkept
      simp [join, hkept]
    · simp

theorem mem_kept_ofScript {script : List Edit} (h : ∃ e ∈ script, e.tag ≠ .keep) :
    false ∈ (ofScript script).map kept := by
  obtain ⟨e, he, hne⟩ := h
  induction script with
  | nil => cases he
  | cons e' script ih =>
    rw [ofScript, List.foldr_cons, mem_kept_cons, ← ofScript]
    rcases List.mem_cons.mp he with rfl | he
    · exact .inl (by simp [ofEdit, hne])
    · exact .inr (ih he)

end Block

namespace Hunk

theorem map_kept_trimFirst (blocks : List Block) :
    (trimFirst blocks).map Block.kept = blocks.map Block.kept := by
  cases blocks with
  | nil => rfl
  | cons b rest =>
    rw [trimFirst, List.map_cons, List.map_cons]
    split <;> rfl

theorem map_kept_trimLast (blocks : List Block) :
    (trimLast blocks).map Block.kept = blocks.map Block.kept := by
  rw [trimLast]
  cases hback : blocks.reverse with
  | nil => rw [List.reverse_eq_nil_iff.mp hback]
  | cons b rest =>
    rw [List.reverse_eq_cons_iff.mp hback]
    dsimp only
    rw [List.reverse_cons, List.map_append, List.map_append, List.map_singleton, List.map_singleton]
    split <;> rfl

theorem split_ne_nil {hunk : Hunk} {blocks : List Block} (h : false ∈ (hunk ++ blocks).map Block.kept) :
    split hunk blocks ≠ [] := by
  induction blocks generalizing hunk with
  | nil =>
    have hchanges : changes hunk = true := by
      obtain ⟨b, hb, hkept⟩ := List.mem_map.mp h
      rw [List.append_nil] at hb
      exact Bool.or_eq_true_iff.mpr (.inl (List.any_eq_true.mpr ⟨b, hb, by rw [hkept]; rfl⟩))
    rw [split, if_pos hchanges]
    exact List.cons_ne_nil _ _
  | cons b rest ih =>
    rw [split]
    split
    · exact List.cons_ne_nil _ _
    · exact ih (by rwa [List.append_assoc])

theorem ofBlocks_ne_nil {blocks : List Block} (h : false ∈ blocks.map Block.kept) : ofBlocks blocks ≠ [] :=
  split_ne_nil (by rwa [List.nil_append, map_kept_trimLast, map_kept_trimFirst])

end Hunk

theorem linesOf_injective : Function.Injective linesOf := by
  intro a b h
  have hlines : splitLines a.toList = splitLines b.toList :=
    List.map_injective_iff.mpr (fun _ _ => String.ofList_injective) h
  have := congrArg List.flatten hlines
  rw [flatten_splitLines, flatten_splitLines] at this
  exact String.toList_injective this

namespace Texts

variable {t : Texts}

def hunks (t : Texts) : List Hunk := Hunk.ofBlocks (Block.ofScript (t.compact t.script))

theorem hunks_ne_nil (h : t.old ≠ t.new) : t.hunks ≠ [] :=
  Hunk.ofBlocks_ne_nil (Block.mem_kept_ofScript (t.exists_mem_compact (exists_mem_script h)))

end Texts

namespace Patch

def textsOf (old new : String) : Texts := ⟨(linesOf old).toArray, (linesOf new).toArray⟩

theorem hunks_textsOf_ne_nil {old new : String} (h : old ≠ new) : (textsOf old new).hunks ≠ [] :=
  Texts.hunks_ne_nil fun heq => h (linesOf_injective (congrArg Array.toList heq))

theorem unified_eq_append {old new : String} (h : old ≠ new) (a b : String) : unified old new a b =
    "--- " ++ a ++ "\n+++ " ++ b ++ "\n" ++
      (textsOf old new).hunks.foldr (fun h rest => hunk (textsOf old new) h ++ rest) "" := by
  obtain ⟨first, rest, hhunks⟩ := List.exists_cons_of_ne_nil (hunks_textsOf_ne_nil h)
  rw [hhunks, unified, if_neg h]
  rw [Texts.hunks, textsOf] at hhunks
  dsimp only
  rw [hhunks]
  rfl

theorem unified_of_ne {old new : String} (h : old ≠ new) (a b : String) :
    ∃ rest, (unified old new a b).toList = '-' :: rest := by
  rw [unified_eq_append h]
  exact ⟨_, by simp only [String.toList_append]; rfl⟩

theorem unified_eq_empty_iff {old new a b : String} : unified old new a b = "" ↔ old = new := by
  constructor
  · intro h
    by_contra hne
    obtain ⟨rest, hdiff⟩ := unified_of_ne hne a b
    rw [h] at hdiff
    cases hdiff
  · intro h
    rw [unified, if_pos h]

end Patch

end BuildSync
