import BuildSync.Proofs.Token.Places

/-!
Bytes, lexemes and tokens. Each byte of a text belongs to one lexeme, and a token over it is that of the lexeme.
-/

namespace BuildSync

theorem utf8Length_pos {cs : List Char} (h : cs ≠ []) : 0 < utf8Length cs := by
  obtain ⟨c, rest, rfl⟩ := List.exists_cons_of_ne_nil h
  have := c.utf8Size_pos
  rw [utf8Length_cons]
  omega

namespace Lexeme

structure Holds (xs ys : List Lexeme) (x : Lexeme) (n : Nat) : Prop where
  split : ∃ zs, xs = ys ++ x :: zs
  first : utf8Length (spelling ys) ≤ n
  last : n < utf8Length (spelling ys) + utf8Length x.chars

theorem Holds.le {xs ys us : List Lexeme} {x y : Lexeme} {n : Nat} (h : Holds xs ys x n) (hy : Holds xs us y n) :
    ys.length ≤ us.length := by
  obtain ⟨zs, hsplit⟩ := h.split
  obtain ⟨vs, rfl⟩ := hy.split
  by_contra hlt
  have hus : us ++ [y] <+: us ++ y :: vs := ⟨vs, by simp⟩
  have hys : ys <+: us ++ y :: vs := ⟨x :: zs, hsplit.symm⟩
  obtain ⟨w, hw⟩ : us ++ [y] <+: ys := by
    refine List.prefix_of_prefix_length_le hus hys ?_
    rw [List.length_append, List.length_singleton]
    omega
  have hfirst := h.first
  have hlast := hy.last
  rw [← hw] at hfirst
  simp only [spelling_append, spelling_cons, spelling_nil, List.append_nil, utf8Length_append] at hfirst
  omega

theorem Holds.unique {xs ys us : List Lexeme} {x y : Lexeme} {n : Nat} (h : Holds xs ys x n)
    (hy : Holds xs us y n) : ys = us ∧ x = y := by
  have hlength : ys.length = us.length := Nat.le_antisymm (h.le hy) (hy.le h)
  obtain ⟨zs, rfl⟩ := h.split
  obtain ⟨vs, hsplit⟩ := hy.split
  obtain ⟨rfl, htail⟩ := List.append_inj hsplit hlength
  exact ⟨rfl, (List.cons.inj htail).1⟩

theorem Holds.of_chars {xs ys zs : List Lexeme} {x : Lexeme} {a b : List Char} {c : Char}
    (hxs : xs = ys ++ x :: zs) (hx : x.chars = a ++ c :: b) : Holds xs ys x (utf8Length (spelling ys ++ a)) := by
  have := c.utf8Size_pos
  refine ⟨⟨zs, hxs⟩, ?_, ?_⟩ <;> rw [utf8Length_append]
  · exact Nat.le_add_right _ _
  · rw [hx, utf8Length_append, utf8Length_cons]
    omega

theorem exists_of_spelling {xs : List Lexeme} {front rest : List Char} {c : Char}
    (h : spelling xs = front ++ c :: rest) : ∃ ys x zs a b, xs = ys ++ x :: zs ∧ x.chars = a ++ c :: b ∧
      front = spelling ys ++ a := by
  induction xs generalizing front with
  | nil => cases front <;> cases h
  | cons x xs ih =>
    rw [spelling_cons] at h
    rcases List.append_eq_append_iff.mp h with ⟨w, rfl, hxs⟩ | ⟨w, hx, hrest⟩
    · obtain ⟨ys, y, zs, a, b, rfl, hy, rfl⟩ := ih hxs
      exact ⟨x :: ys, y, zs, a, b, rfl, hy, by rw [spelling_cons, List.append_assoc]⟩
    · cases w with
      | nil =>
        obtain ⟨ys, y, zs, a, b, rfl, hy, ha⟩ := @ih [] hrest.symm
        refine ⟨x :: ys, y, zs, a, b, rfl, hy, ?_⟩
        rw [spelling_cons, List.append_assoc, ← ha, List.append_nil, hx, List.append_nil]
      | cons d w =>
        obtain ⟨rfl, -⟩ := List.cons.inj hrest
        exact ⟨[], x, xs, front, w, rfl, hx, rfl⟩

end Lexeme

namespace Token

open Lexeme

def ofLexemes (xs : List Lexeme) : List Token :=
  Progress.start.tokens xs ++ [(Progress.start.after xs).token .endOfText []]

def Covers (t : Token) (n : Nat) : Prop := t.start.byte ≤ n ∧ n < t.stop

variable {xs ys zs : List Lexeme} {x : Lexeme} {t : Token} {n : Nat}

theorem mem_ofLexemes_iff : t ∈ ofLexemes xs ↔
    (∃ ys x zs, xs = ys ++ x :: zs ∧ (Progress.start.after ys).next? x = some t) ∨
      t = (Progress.start.after xs).token .endOfText [] := by
  rw [ofLexemes, List.mem_append, List.mem_singleton]
  refine or_congr_left ⟨fun h => ?_, ?_⟩
  · obtain ⟨before, after, hsplit⟩ := List.append_of_mem h
    obtain ⟨ys, x, zs, hxs, -, hx, -⟩ := Progress.tokens_eq_append hsplit
    exact ⟨ys, x, zs, hxs, hx⟩
  · rintro ⟨ys, x, zs, rfl, hx⟩
    rw [Progress.tokens_append, Progress.tokens, hx]
    simp

theorem byte_of_next? (h : (Progress.start.after ys).next? x = some t) :
    t.start.byte = utf8Length (spelling ys) := by
  rw [(Progress.next?_eq_some h).2]
  change (Progress.start.after ys).place.byte = _
  rw [Progress.place_after, Position.byte_past]
  exact Nat.zero_add _

theorem stop_of_next? (h : (Progress.start.after ys).next? x = some t) :
    t.stop = utf8Length (spelling ys) + utf8Length x.text := by
  rw [stop_eq, byte_of_next? h, (Progress.next?_eq_some h).2]
  simp [Progress.token]

theorem next?_of_covers (hx : Holds xs ys x n) (ht : t ∈ ofLexemes xs) (hn : t.Covers n) :
    (Progress.start.after ys).next? x = some t := by
  obtain ⟨hstart, hstop⟩ := hn
  rcases mem_ofLexemes_iff.mp ht with ⟨us, y, vs, hxs, hy⟩ | rfl
  · rw [byte_of_next? hy] at hstart
    rw [stop_of_next? hy] at hstop
    have hholds : Holds xs us y n := by
      refine ⟨⟨vs, hxs⟩, hstart, ?_⟩
      rw [chars, utf8Length_append]
      omega
    obtain ⟨rfl, rfl⟩ := hx.unique hholds
    exact hy
  · rw [stop_eq] at hstop
    simp [Progress.token] at hstart hstop
    omega

theorem filter_ofLexemes (hxs : ∀ x ∈ ys, x.chars ≠ []) :
    (ofLexemes (ys ++ zs)).filter (·.start.byte < utf8Length (spelling ys)) = Progress.start.tokens ys := by
  have hys : ∀ t ∈ Progress.start.tokens ys, t.start.byte < utf8Length (spelling ys) := by
    intro t ht
    obtain ⟨before, after, hsplit⟩ := List.append_of_mem ht
    obtain ⟨us, x, vs, rfl, -, hx, -⟩ := Progress.tokens_eq_append hsplit
    have hchars := utf8Length_pos (hxs x (by simp))
    rw [byte_of_next? hx, spelling_append, utf8Length_append, spelling_cons, utf8Length_append]
    omega
  have hzs : ∀ t ∈ (Progress.start.after ys).tokens zs ++ [(Progress.start.after (ys ++ zs)).token .endOfText []],
      utf8Length (spelling ys) ≤ t.start.byte := by
    intro t ht
    rcases List.mem_append.mp ht with ht | ht
    · obtain ⟨before, after, hsplit⟩ := List.append_of_mem ht
      obtain ⟨us, x, vs, rfl, -, hx, -⟩ := Progress.tokens_eq_append hsplit
      rw [← Progress.after_append] at hx
      rw [byte_of_next? hx, spelling_append, utf8Length_append]
      exact Nat.le_add_right _ _
    · obtain rfl := List.mem_singleton.mp ht
      rw [byte_endOfText, spelling_append, utf8Length_append]
      exact Nat.le_add_right _ _
  rw [ofLexemes, Progress.tokens_append, List.append_assoc, List.filter_append,
    List.filter_eq_self.mpr (by simpa using hys), List.filter_eq_nil_iff.mpr (by simpa using hzs), List.append_nil]

end Token

end BuildSync
