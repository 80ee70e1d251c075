import BuildSync.Proofs.Patch.Reader
import BuildSync.Proofs.Patch.Walk
import Mathlib.Data.List.Chain

namespace BuildSync

namespace Patch

section Slices

variable {xs : Array String} {i m n : Nat}

theorem slice_add (xs : Array String) (i m n : Nat) : slice xs i (m + n) = slice xs i m ++ slice xs (i + m) n := by
  rw [slice, slice, slice, List.take_add, List.drop_drop]

theorem slice_append_drop (xs : Array String) (i n : Nat) :
    slice xs i n ++ xs.toList.drop (i + n) = xs.toList.drop i := by
  rw [slice, ← List.drop_drop, List.take_append_drop]

theorem length_slice (h : i + n ≤ xs.size) : (slice xs i n).length = n := by
  rw [slice, List.length_take, List.length_drop, Array.length_toList]
  omega

end Slices
end Patch

open Patch

namespace Texts

variable {t : Texts} {p q r : Spot} {n : Nat}

theorem getElem?_of_same {i j : Nat} (h : t.same i j = true) : t.old[i]? = t.new[j]? := by
  rw [same] at h
  split at h
  · rename_i hold hnew
    rw [hold, hnew, eq_of_beq h]
  · exact absurd h Bool.false_ne_true

theorem Shared.le (h : t.Shared p n) (hn : 0 < n) : p.old + n ≤ t.old.size ∧ p.new + n ≤ t.new.size := by
  have hlast := h (n - 1) (by omega)
  rw [same] at hlast
  split at hlast
  · rename_i hold hnew
    obtain ⟨hold, -⟩ := Array.getElem?_eq_some_iff.mp hold
    obtain ⟨hnew, -⟩ := Array.getElem?_eq_some_iff.mp hnew
    omega
  · exact absurd hlast Bool.false_ne_true

theorem slice_shared (h : t.Shared p n) : slice t.old p.old n = slice t.new p.new n := by
  apply List.ext_getElem?
  intro k
  rw [slice, slice, List.getElem?_take, List.getElem?_take]
  split_ifs with hk
  · rw [List.getElem?_drop, List.getElem?_drop, Array.getElem?_toList, Array.getElem?_toList]
    exact getElem?_of_same (h k hk)
  · rfl

theorem length_slice_shared (h : t.Shared p n) : (slice t.old p.old n).length = n := by
  by_cases hn : 0 < n
  · exact length_slice (h.le hn).1
  · rw [Nat.eq_zero_of_not_pos hn, slice, List.take_zero, List.length_nil]

def Gap (t : Texts) (p q : Spot) : Prop := ∃ n, t.Shared p n ∧ q = p.past n n

theorem Gap.refl (p : Spot) : t.Gap p p := ⟨0, fun _ hk => absurd hk (Nat.not_lt_zero _), rfl⟩

theorem Gap.trans (h : t.Gap p q) (h' : t.Gap q r) : t.Gap p r := by
  obtain ⟨m, hm, rfl⟩ := h
  obtain ⟨n, hn, rfl⟩ := h'
  exact ⟨m + n, hm.append hn, Spot.past_past p m m n n⟩

def ends (t : Texts) : Spot := ⟨t.old.size, t.new.size⟩

end Texts

def Edit.Tag.mark : Edit.Tag → Mark
  | keep => .kept
  | delete => .removed
  | insert => .added

namespace Block

variable {t : Texts} {exact : Prop} {b c : Block} {p q : Spot} {bs : List Block} {n : Nat} {m : Mark}

structure Lies (t : Texts) (exact : Prop) (b : Block) (p : Spot) : Prop where
  pos : 0 < b.oldLength + b.newLength
  old : 0 < b.oldLength ∨ exact → b.old = p.old
  new : 0 < b.newLength ∨ exact → b.new = p.new
  oldEnd : p.old + b.oldLength ≤ t.old.size
  newEnd : p.new + b.newLength ≤ t.new.size
  shared : b.kept = true → b.oldLength = b.newLength ∧ t.Shared p b.oldLength

def past (b : Block) (p : Spot) : Spot := p.past b.oldLength b.newLength

abbrev Leads (t : Texts) (exact : Prop) : Spot → List Block → Spot → Prop :=
  BuildSync.Leads (Lies t exact) past

theorem lies_ofEdit {sole : Option Edit.Tag} {e : Edit} (h : e.Lies t sole p)
    (hold : (e.past p).old ≤ t.old.size) (hnew : (e.past p).new ≤ t.new.size) :
    (ofEdit e).Lies t (sole.isSome = true) p where
  pos := by
    have := h.pos
    simp only [ofEdit, Edit.oldLength, Edit.newLength]
    cases e.tag <;> simp only [reduceCtorEq, if_true, if_false] <;> omega
  old := h.old
  new := h.new
  oldEnd := hold
  newEnd := hnew
  shared hk := by
    have hkeep : e.tag = .keep := of_decide_eq_true hk
    simp only [ofEdit, Edit.oldLength_keep hkeep, Edit.newLength_keep hkeep, true_and]
    exact h.shared hkeep

theorem past_join (b c : Block) (p : Spot) : (b.join c).past p = c.past (b.past p) :=
  (Spot.past_past p _ _ _ _).symm

theorem Lies.join (hb : b.Lies t exact p) (hc : c.Lies t exact (b.past p)) (hkept : b.kept = c.kept) :
    (b.join c).Lies t exact p where
  pos := by
    have := hb.pos
    simp only [Block.join]
    omega
  old h := by
    simp only [Block.join] at h ⊢
    split_ifs with hzero
    · rw [hc.old (.inl hzero.2), past, hzero.1]
      rfl
    · exact hb.old (h.imp_left (by omega))
  new h := by
    simp only [Block.join] at h ⊢
    split_ifs with hzero
    · rw [hc.new (.inl hzero.2), past, hzero.1]
      rfl
    · exact hb.new (h.imp_left (by omega))
  oldEnd := by
    have := hc.oldEnd
    simpa only [Block.join, past, Spot.past, Nat.add_assoc] using this
  newEnd := by
    have := hc.newEnd
    simpa only [Block.join, past, Spot.past, Nat.add_assoc] using this
  shared hk := by
    obtain ⟨hlength, hshared⟩ := hb.shared hk
    obtain ⟨hlength', hshared'⟩ := hc.shared (hkept ▸ hk)
    rw [past, ← hlength] at hshared'
    simp only [Block.join]
    exact ⟨by omega, hshared.append hshared'⟩

theorem leads_cons (h : Leads t exact p (b :: bs) q) : Leads t exact p (b.cons bs) q := by
  cases bs with
  | nil => exact h
  | cons c bs =>
    obtain ⟨hb, hc, hbs⟩ := h
    rw [cons]
    split_ifs with hkept
    · refine ⟨hb.join hc hkept, ?_⟩
      rwa [past_join]
    · exact ⟨hb, hc, hbs⟩

theorem leads_ofScript {sole : Option Edit.Tag} {es : List Edit} (h : Edit.Leads t sole p es q)
    (hold : q.old ≤ t.old.size) (hnew : q.new ≤ t.new.size) :
    Leads t (sole.isSome = true) p (ofScript es) q := by
  induction es generalizing p with
  | nil => exact h
  | cons e es ih =>
    obtain ⟨he, hes⟩ := h
    obtain ⟨m, n, hq⟩ := Edit.exists_past_of_leads hes
    have hle : (e.past p).old ≤ q.old ∧ (e.past p).new ≤ q.new := by
      rw [hq]
      exact ⟨Nat.le_add_right _ m, Nat.le_add_right _ n⟩
    exact leads_cons ⟨lies_ofEdit he (hle.1.trans hold) (hle.2.trans hnew), ih hes⟩

theorem alternates_ofScript (es : List Edit) : ((ofScript es).map kept).IsChain (· ≠ ·) := by
  induction es with
  | nil => exact .nil
  | cons e es ih =>
    rw [ofScript, List.foldr_cons, ← ofScript]
    cases hblocks : ofScript es with
    | nil => exact .singleton _
    | cons b bs =>
      rw [hblocks] at ih
      rw [cons]
      split_ifs with hkept
      · rw [List.map_cons] at ih ⊢
        rwa [show ((ofEdit e).join b).kept = b.kept from hkept]
      · exact .cons_cons hkept ih

theorem lies_kept (hn : 0 < n) (h : t.Shared p n) : Lies t exact ⟨true, p.old, n, p.new, n⟩ p where
  pos := Nat.add_pos_left hn n
  old _ := rfl
  new _ := rfl
  oldEnd := (h.le hn).1
  newEnd := (h.le hn).2
  shared _ := ⟨rfl, h⟩

theorem Lies.oldLength_pos (h : b.Lies t exact p) (hk : b.kept = true) : 0 < b.oldLength := by
  have := h.pos
  have := (h.shared hk).1
  omega

theorem Lies.eq_kept (h : b.Lies t exact p) (hk : b.kept = true) :
    b = ⟨true, p.old, b.oldLength, p.new, b.oldLength⟩ := by
  have hpos := h.oldLength_pos hk
  have hlength := (h.shared hk).1
  have hold := h.old (.inl hpos)
  have hnew := h.new (.inl (hlength ▸ hpos))
  cases b
  simp_all

theorem Lies.take (h : b.Lies t exact p) (hk : b.kept = true) (hn : 0 < n) : (b.take n).Lies t exact p := by
  have hpos := h.oldLength_pos hk
  rw [h.eq_kept hk]
  exact lies_kept (Nat.lt_min.mpr ⟨hpos, hn⟩) ((h.shared hk).2.mono (Nat.min_le_left _ n))

theorem Lies.dropFront (h : b.Lies t exact p) (hk : b.kept = true) (hn : n < b.oldLength) :
    (b.dropFront n).Lies t exact (p.past n n) := by
  have hshared : t.Shared p (n + (b.oldLength - n)) := by
    rw [Nat.add_sub_cancel' (Nat.le_of_lt hn)]
    exact (h.shared hk).2
  rw [h.eq_kept hk]
  exact lies_kept (Nat.sub_pos_of_lt hn) hshared.drop

theorem Lies.past_take (h : b.Lies t exact p) (hk : b.kept = true) (n : Nat) :
    (b.take n).past p = p.past (min b.oldLength n) (min b.oldLength n) := by
  have hlength := (h.shared hk).1
  rw [past, Block.take, ← hlength]

theorem Lies.past_dropFront (h : b.Lies t exact p) (hk : b.kept = true) (hn : n ≤ b.oldLength) :
    (b.dropFront n).past (p.past n n) = b.past p := by
  have hlength := (h.shared hk).1
  rw [past, past, Block.dropFront, ← hlength, Spot.past_past, Nat.add_sub_cancel' hn]

def lines (t : Texts) (b : Block) : List Line :=
  if b.kept then (slice t.old b.old b.oldLength).map (Line.mk .kept)
  else (slice t.old b.old b.oldLength).map (Line.mk .removed) ++ (slice t.new b.new b.newLength).map (Line.mk .added)

theorem Lies.slice_old (h : b.Lies t exact p) : slice t.old b.old b.oldLength = slice t.old p.old b.oldLength := by
  by_cases hzero : b.oldLength = 0
  · rw [hzero, slice, slice, List.take_zero, List.take_zero]
  · rw [h.old (.inl (Nat.pos_of_ne_zero hzero))]

theorem Lies.slice_new (h : b.Lies t exact p) : slice t.new b.new b.newLength = slice t.new p.new b.newLength := by
  by_cases hzero : b.newLength = 0
  · rw [hzero, slice, slice, List.take_zero, List.take_zero]
  · rw [h.new (.inl (Nat.pos_of_ne_zero hzero))]

theorem Lies.oldTexts (h : b.Lies t exact p) : oldTexts (b.lines t) = slice t.old p.old b.oldLength := by
  rw [lines, h.slice_old]
  split_ifs <;> simp [oldTexts_append, oldTexts_map]

theorem Lies.newTexts (h : b.Lies t exact p) : newTexts (b.lines t) = slice t.new p.new b.newLength := by
  rw [lines, h.slice_old, h.slice_new]
  split_ifs with hk
  · obtain ⟨hlength, hshared⟩ := h.shared hk
    rw [Texts.slice_shared hshared, hlength]
    simp [newTexts_map]
  · simp [newTexts_append, newTexts_map]

theorem texts_of_leads (h : Leads t exact p bs q) :
    ∃ m n, q = p.past m n ∧ oldTexts (bs.flatMap (lines t)) = slice t.old p.old m ∧
      newTexts (bs.flatMap (lines t)) = slice t.new p.new n := by
  induction bs generalizing p with
  | nil =>
    obtain rfl : p = q := h
    exact ⟨0, 0, rfl, rfl, rfl⟩
  | cons b bs ih =>
    obtain ⟨hb, hbs⟩ := h
    obtain ⟨m, n, rfl, hold, hnew⟩ := ih hbs
    refine ⟨b.oldLength + m, b.newLength + n, Spot.past_past p _ _ _ _, ?_, ?_⟩
    · rw [List.flatMap_cons, oldTexts_append, hb.oldTexts, hold, slice_add]
      rfl
    · rw [List.flatMap_cons, newTexts_append, hb.newTexts, hnew, slice_add]
      rfl

def changed (b : Block) : Mark → Nat
  | .kept => 0
  | .removed => b.oldLength
  | .added => b.newLength

def changes (b : Block) : List Mark :=
  if b.kept then [] else List.replicate b.oldLength .removed ++ List.replicate b.newLength .added

theorem mem_changes : m ∈ b.changes ↔ b.kept = false ∧ 0 < b.changed m := by
  rw [changes]
  split_ifs with hk <;> cases m <;> simp [hk, changed, List.mem_replicate, Nat.pos_iff_ne_zero]

def marks (b : Block) : List Mark := if b.kept then List.replicate b.oldLength .kept else b.changes

theorem Lies.marks (h : b.Lies t exact p) : (b.lines t).map Line.mark = b.marks := by
  have hold : (slice t.old p.old b.oldLength).length = b.oldLength := length_slice h.oldEnd
  have hnew : (slice t.new p.new b.newLength).length = b.newLength := length_slice h.newEnd
  rw [lines, h.slice_old, h.slice_new, Block.marks, changes]
  split_ifs <;> simp [Function.comp_def, List.map_const', hold, hnew]

theorem marks_of_leads (h : Leads t exact p bs q) : (bs.flatMap (lines t)).map Line.mark = bs.flatMap marks := by
  induction bs generalizing p with
  | nil => rfl
  | cons b bs ih => rw [List.flatMap_cons, List.map_append, h.1.marks, ih h.2, List.flatMap_cons]

theorem Lies.exists_mem_changes (h : b.Lies t exact p) (hk : b.kept = false) : ∃ m, m ∈ b.changes := by
  have hpos := h.pos
  by_cases hold : 0 < b.oldLength
  · exact ⟨.removed, mem_changes.mpr ⟨hk, hold⟩⟩
  · exact ⟨.added, mem_changes.mpr ⟨hk, show 0 < b.newLength by omega⟩⟩

theorem Lies.kept_of_changes_eq_nil (h : b.Lies t exact p) (hnil : b.changes = []) : b.kept = true := by
  by_contra hk
  obtain ⟨m, hm⟩ := h.exists_mem_changes (Bool.not_eq_true _ ▸ hk)
  exact List.ne_nil_of_mem hm hnil

theorem Lies.old_of_shows (h : b.Lies t exact p) (hs : exact ∨ b.changes = [] ∨ .removed ∈ b.changes) :
    b.old = p.old := by
  obtain hexact | hnil | hmem := hs
  · exact h.old (.inr hexact)
  · exact h.old (.inl (h.oldLength_pos (h.kept_of_changes_eq_nil hnil)))
  · exact h.old (.inl (mem_changes.mp hmem).2)

theorem Lies.new_of_shows (h : b.Lies t exact p) (hs : exact ∨ b.changes = [] ∨ .added ∈ b.changes) :
    b.new = p.new := by
  obtain hexact | hnil | hmem := hs
  · exact h.new (.inr hexact)
  · have hk := h.kept_of_changes_eq_nil hnil
    exact h.new (.inl ((h.shared hk).1 ▸ h.oldLength_pos hk))
  · exact h.new (.inl (mem_changes.mp hmem).2)

theorem exists_lies_of_mem (h : Leads t exact p bs q) (hb : b ∈ bs) : ∃ r, b.Lies t exact r := by
  induction bs generalizing p with
  | nil => cases hb
  | cons c bs ih =>
    rcases List.mem_cons.mp hb with rfl | hb
    · exact ⟨p, h.1⟩
    · exact ih h.2 hb

theorem edge_flatMap {f : Block → List Mark} (hkept : ∀ c ∈ b :: bs, c.kept = true → (f c).head? = some .kept)
    (hchanges : ∀ m ∈ f b, b.kept = false → m ≠ .kept) (halt : ((b :: bs).map kept).IsChain (· ≠ ·)) :
    edge ((b :: bs).flatMap f) = if b.kept then [] else f b := by
  have hedge {c : Block} {cs : List Block} (hc : c ∈ b :: bs) (hk : c.kept = true) :
      edge ((c :: cs).flatMap f) = [] := by
    obtain ⟨marks, hmarks⟩ := List.head?_eq_some_iff.mp (hkept c hc hk)
    rw [List.flatMap_cons, hmarks]
    rfl
  cases hk : b.kept with
  | true =>
    rw [if_pos rfl]
    exact hedge List.mem_cons_self hk
  | false =>
    have happend : edge (f b ++ bs.flatMap f) = f b ++ edge (bs.flatMap f) :=
      List.takeWhile_append_of_pos fun m hm => decide_eq_true (hchanges m hm hk)
    rw [if_neg Bool.false_ne_true, List.flatMap_cons, happend]
    cases bs with
    | nil => exact List.append_nil _
    | cons c bs =>
      have hc : c.kept = true := by
        have := (List.isChain_cons_cons.mp halt).1
        rw [hk] at this
        exact Bool.not_eq_false _ ▸ this.symm
      rw [hedge (List.mem_cons_of_mem b List.mem_cons_self) hc, List.append_nil]

theorem Lies.marks_kept (h : b.Lies t exact p) (hk : b.kept = true) :
    ∃ n, b.marks = List.replicate (n + 1) .kept := by
  obtain ⟨n, hn⟩ := Nat.exists_eq_add_of_lt (h.oldLength_pos hk)
  refine ⟨n, ?_⟩
  rw [Block.marks, if_pos hk, hn, Nat.zero_add]

theorem Lies.lines_ne_nil (h : b.Lies t exact p) : b.lines t ≠ [] := by
  intro hnil
  have hmarks := h.marks
  rw [hnil] at hmarks
  cases hk : b.kept with
  | true =>
    obtain ⟨n, hn⟩ := h.marks_kept hk
    rw [hn] at hmarks
    cases hmarks
  | false =>
    obtain ⟨m, hm⟩ := h.exists_mem_changes hk
    rw [Block.marks, hk, if_neg Bool.false_ne_true] at hmarks
    rw [← hmarks] at hm
    cases hm

theorem edge_marks (h : Leads t exact p (b :: bs) q) (halt : ((b :: bs).map kept).IsChain (· ≠ ·)) :
    edge ((b :: bs).flatMap marks) = b.changes := by
  rw [edge_flatMap _ _ halt]
  · cases hk : b.kept <;> simp [marks, changes, hk]
  · intro c hc hk
    obtain ⟨r, hc⟩ := exists_lies_of_mem h hc
    obtain ⟨n, hn⟩ := hc.marks_kept hk
    rw [hn]
    rfl
  · intro m hm hk
    rw [marks, hk, if_neg Bool.false_ne_true] at hm
    rintro rfl
    exact absurd (mem_changes.mp hm).2 (Nat.lt_irrefl 0)

theorem edge_marks_reverse (h : Leads t exact p (bs ++ [b]) q) (halt : ((bs ++ [b]).map kept).IsChain (· ≠ ·)) :
    edge ((bs ++ [b]).flatMap marks).reverse = b.changes.reverse := by
  have hreverse : ((b :: bs.reverse).map kept).IsChain (· ≠ ·) := by
    have hlist : (b :: bs.reverse).map kept = ((bs ++ [b]).map kept).reverse := by simp
    rw [hlist, List.isChain_reverse]
    exact halt.imp fun _ _ => Ne.symm
  rw [List.reverse_flatMap, List.reverse_append, List.reverse_singleton, List.singleton_append,
    edge_flatMap _ _ hreverse]
  · cases hk : b.kept <;> simp [marks, changes, hk]
  · intro c hc hk
    have hmem : c ∈ bs ++ [b] := by simpa [or_comm] using hc
    obtain ⟨r, hc⟩ := exists_lies_of_mem h hmem
    obtain ⟨n, hn⟩ := hc.marks_kept hk
    rw [Function.comp, hn, List.reverse_replicate]
    rfl
  · intro m hm hk
    rw [Function.comp, List.mem_reverse, marks, hk, if_neg Bool.false_ne_true] at hm
    rintro rfl
    exact absurd (mem_changes.mp hm).2 (Nat.lt_irrefl 0)

theorem changed_join (b c : Block) (m : Mark) : (b.join c).changed m = b.changed m + c.changed m := by
  cases m <;> rfl

theorem exists_mem_changes_cons (h : m ∈ b.changes ∨ ∃ c ∈ bs, m ∈ c.changes) : ∃ c ∈ b.cons bs, m ∈ c.changes := by
  cases bs with
  | nil => simpa [cons] using h
  | cons c bs =>
    rw [cons]
    split_ifs with hkept
    · have hjoin (hb : m ∈ b.changes ∨ m ∈ c.changes) : m ∈ (b.join c).changes := by
        rw [mem_changes, mem_changes, ← hkept] at hb
        rw [mem_changes, changed_join]
        obtain ⟨hk, hpos⟩ | ⟨hk, hpos⟩ := hb
        · exact ⟨hk, Nat.add_pos_left hpos _⟩
        · exact ⟨hk, Nat.add_pos_right _ hpos⟩
      obtain hb | ⟨c', hc', hm⟩ := h
      · exact ⟨_, List.mem_cons_self, hjoin (.inl hb)⟩
      · rcases List.mem_cons.mp hc' with rfl | hc'
        · exact ⟨_, List.mem_cons_self, hjoin (.inr hm)⟩
        · exact ⟨c', List.mem_cons_of_mem _ hc', hm⟩
    · obtain hb | ⟨c', hc', hm⟩ := h
      · exact ⟨b, List.mem_cons_self, hb⟩
      · exact ⟨c', List.mem_cons_of_mem b hc', hm⟩

theorem exists_mem_changes_ofScript {es : List Edit} {e : Edit} (he : e ∈ es) (hk : e.tag ≠ .keep)
    (hpos : 0 < e.length) : ∃ b ∈ ofScript es, e.tag.mark ∈ b.changes := by
  induction es with
  | nil => cases he
  | cons e' es ih =>
    rw [ofScript, List.foldr_cons, ← ofScript]
    apply exists_mem_changes_cons
    rcases List.mem_cons.mp he with rfl | he
    · left
      rw [mem_changes]
      cases htag : e.tag <;> simp_all [ofEdit, Edit.Tag.mark, changed, Edit.oldLength, Edit.newLength]
    · exact .inr (ih he)

theorem text_mem_of_mem_lines {l : Line} (h : l ∈ b.lines t) :
    l.text ∈ t.old.toList ∨ l.text ∈ t.new.toList := by
  have hslice {texts : Array String} {i n : Nat} {m : Mark} (h : l ∈ (slice texts i n).map (Line.mk m)) :
      l.text ∈ texts.toList := by
    obtain ⟨text, htext, rfl⟩ := List.mem_map.mp h
    exact List.mem_of_mem_drop (List.mem_of_mem_take htext)
  rw [lines] at h
  split_ifs at h
  · exact .inl (hslice h)
  · exact (List.mem_append.mp h).imp hslice hslice

end Block
end BuildSync
