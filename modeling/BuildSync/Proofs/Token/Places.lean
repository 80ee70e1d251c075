import BuildSync.Document
import BuildSync.Proofs.Text.Bytes
import BuildSync.Proofs.Token.Layout
import Mathlib.Data.List.DropRight
import Mathlib.Data.List.Induction
import Mathlib.Tactic.SplitIfs

/-!
Where the tokens of a file stand: which bytes they cover, on which line and in which column, and what is
between them.
-/

namespace BuildSync

def Document.columnOf (bytes : List UInt8) (index : Nat) : Nat :=
  ((bytes.take index).rtakeWhile (· ≠ 10)).length

namespace Position

theorem past_start (cs : List Char) :
    Position.start.past cs = ⟨utf8Length cs, cs.count '\n' + 1, utf8Length (cs.rtakeWhile (· ≠ '\n'))⟩ := by
  induction cs using List.reverseRecOn with
  | nil => rfl
  | append_singleton cs c ih =>
    rw [past_append, ih]
    change Position.step _ c = _
    unfold step
    rw [utf8Length_append, utf8Length_cons, utf8Length_nil, List.count_append]
    split_ifs with hc
    · subst hc
      rw [List.rtakeWhile_concat_neg _ _ _ (by decide)]
      rfl
    · rw [List.rtakeWhile_concat_pos _ _ _ (by simpa using hc), utf8Length_append]
      simp [hc]

theorem past_start_eq {source : String} {front rest : List Char} (h : source.toList = front ++ rest) :
    Position.start.past front = ⟨utf8Length front, Document.lineOf (Utf8.encode source) (utf8Length front),
      Document.columnOf (Utf8.encode source) (utf8Length front)⟩ := by
  have htake : (Utf8.encode source).take (utf8Length front) = Utf8.bytes front := by
    rw [Utf8.encode_eq_bytes, h, Utf8.take_bytes]
  rw [past_start, Document.lineOf, Document.columnOf, htake, Utf8.count_bytes, Utf8.length_rtakeWhile_bytes]

end Position

namespace Token

def stop (t : Token) : Nat := t.start.byte + (Utf8.encode t.text).length

def reach (ts : List Token) : Nat := (ts.getLast?.map stop).getD 0

structure Lies (bytes : List UInt8) (t : Token) : Prop where
  text : bytes.extract t.start.byte t.stop = Utf8.encode t.text
  line : t.start.line = Document.lineOf bytes t.start.byte
  column : t.start.column = Document.columnOf bytes t.start.byte
  endLine : t.text ≠ "" → t.endLine = Document.lineOf bytes (t.stop - 1)

/-- The bytes from some tokens to the next one. They may begin with the white space that was trimmed off the end
of a comment; all else is layout. -/
structure Apart (bytes : List UInt8) (before : List Token) (t : Token) : Prop where
  ordered : reach before ≤ t.start.byte
  gap : bytes.extract (reach before) t.start.byte = Utf8.encode t.gap
  parts : ∃ space layout, t.gap.toList = space ++ layout ∧ Layout (0 < depth before) layout ∧
    (space = [] ∨ before.getLast?.any isComment = true ∧ (∀ c ∈ space, isBlank c = true ∧ c ≠ '\n') ∧
      bytes[reach before + (Utf8.bytes space).length]?.all (· = 10) = true)

/-- The tokens of a file and what is between them, one behind the other, are the file. -/
structure Tiling (bytes : List UInt8) (ts : List Token) : Prop where
  ordered : ts.Pairwise fun t u => t.stop ≤ u.start.byte
  lies : ∀ t ∈ ts, t.Lies bytes
  apart : ∀ before t after, ts = before ++ t :: after → t.Apart bytes before
  last : ∃ init last, ts = init ++ [last] ∧ (∀ t ∈ init, t.kind ≠ .endOfText) ∧ last.kind = .endOfText ∧
    last.start.byte = bytes.length ∧ last.stop = bytes.length

theorem stop_eq (t : Token) : t.stop = t.start.byte + utf8Length t.text.toList := by
  rw [stop, Utf8.encode_eq_bytes, Utf8.length_bytes]

theorem reach_of_tiles {ts : List Token} (h : Tiles 0 ts) : reach ts = utf8Length (covered ts) := by
  unfold reach
  cases hlast : ts.getLast? with
  | none =>
    rw [List.getLast?_eq_none_iff.mp hlast]
    rfl
  | some u =>
    rw [Option.map_some, Option.getD_some, stop_eq, h.last hlast, Nat.zero_add]

theorem Tiles.le {n : Nat} {ts : List Token} (h : Tiles n ts) : ∀ t ∈ ts, n ≤ t.start.byte := by
  induction ts generalizing n with
  | nil => exact nofun
  | cons t ts ih =>
    obtain ⟨hstart, hts⟩ := h
    refine List.forall_mem_cons.mpr ⟨by omega, fun u hu => ?_⟩
    have := ih hts u hu
    omega

theorem Tiles.pairwise {n : Nat} {ts : List Token} (h : Tiles n ts) :
    ts.Pairwise fun t u => t.stop ≤ u.start.byte := by
  induction ts generalizing n with
  | nil => exact .nil
  | cons t ts ih =>
    refine .cons (fun u hu => ?_) (ih h.2)
    rw [stop_eq]
    exact h.2.le u hu

end Token

namespace Progress

open Lexeme

theorem tokens_eq_append {p : Progress} {xs : List Lexeme} {before after : List Token} {t : Token}
    (h : p.tokens xs = before ++ t :: after) : ∃ ys x zs, xs = ys ++ x :: zs ∧ p.tokens ys = before ∧
      (p.after ys).next? x = some t ∧ ((p.after ys).next x).tokens zs = after := by
  induction xs generalizing p before with
  | nil => cases before <;> cases h
  | cons x xs ih =>
    rw [tokens] at h
    cases hx : p.next? x with
    | none =>
      rw [hx, Option.toList_none, List.nil_append] at h
      obtain ⟨ys, y, zs, rfl, hbefore, hy, hafter⟩ := ih h
      refine ⟨x :: ys, y, zs, rfl, ?_, hy, hafter⟩
      rw [tokens, hx, hbefore]
      rfl
    | some u =>
      rw [hx, Option.toList_some, List.singleton_append] at h
      cases before with
      | nil =>
        obtain ⟨rfl, hafter⟩ := List.cons.inj h
        exact ⟨[], x, xs, rfl, rfl, hx, hafter⟩
      | cons v before =>
        rw [List.cons_append, List.cons_eq_cons] at h
        obtain ⟨rfl, htokens⟩ := h
        obtain ⟨ys, y, zs, rfl, hbefore, hy, hafter⟩ := ih htokens
        refine ⟨x :: ys, y, zs, rfl, ?_, hy, hafter⟩
        rw [tokens, hx, hbefore]
        rfl

structure Meets (source : String) (xs : List Lexeme) (t : Token) (rest : List Char) : Prop where
  source : source.toList = spelling xs ++ t.text.toList ++ rest
  joined : Joined xs (t.text.toList ++ rest).head?
  nested : (Lexeme.nest [] xs).isSome = true
  token : t = (Progress.start.after xs).token t.kind t.text.toList

variable {source : String} {xs : List Lexeme} {t : Token} {rest : List Char}

theorem Meets.start (h : Meets source xs t rest) : t.start = Position.start.past (spelling xs) := by
  rw [h.token]
  exact Progress.start.place_after xs

theorem Meets.start_eq (h : Meets source xs t rest) : t.start = ⟨utf8Length (spelling xs),
    Document.lineOf (Utf8.encode source) (utf8Length (spelling xs)),
    Document.columnOf (Utf8.encode source) (utf8Length (spelling xs))⟩ := by
  rw [h.start]
  exact Position.past_start_eq (h.source.trans (List.append_assoc ..))

theorem Meets.lies (h : Meets source xs t rest) : t.Lies (Utf8.encode source) := by
  have hbyte : t.start.byte = utf8Length (spelling xs) := by rw [h.start_eq]
  refine ⟨?_, ?_, ?_, fun hne => ?_⟩
  · rw [Token.stop_eq, hbyte, Utf8.encode_eq_bytes, h.source]
    exact Utf8.extract_bytes _ _ _
  · rw [h.start_eq]
  · rw [h.start_eq]
  · obtain ⟨init, c, htext⟩ : ∃ init c, t.text.toList = init ++ [c] := by
      rcases List.eq_nil_or_concat' t.text.toList with hnil | hconcat
      · exact absurd (String.toList_eq_nil_iff.mp hnil) hne
      · exact hconcat
    have hfront : source.toList = spelling xs ++ init ++ c :: rest := by
      rw [h.source, htext]
      simp
    have hstop : t.stop - 1 = utf8Length (spelling xs ++ init) + c.utf8Size - 1 := by
      rw [Token.stop_eq, hbyte, htext]
      simp only [utf8Length_append, utf8Length_cons, utf8Length_nil]
      omega
    rw [Document.lineOf, Utf8.encode_eq_bytes, hfront, hstop, Utf8.count_take_bytes, Token.endLine, htext,
      List.dropLast_concat, h.start, Position.past_start, List.count_append]
    dsimp only
    omega

theorem Meets.apart (h : Meets source xs t rest) : t.Apart (Utf8.encode source) (Progress.start.tokens xs) := by
  have hbyte : t.start.byte = utf8Length (spelling xs) := by rw [h.start_eq]
  have hgap : t.gap.toList = (Progress.start.after xs).gap := by
    rw [h.token]
    exact String.toList_ofList
  have hcovered : Token.covered (Progress.start.tokens xs) ++ t.gap.toList = spelling xs := by
    rw [hgap]
    exact Progress.start.covered_tokens xs
  have hreach : Token.reach (Progress.start.tokens xs) = utf8Length (Token.covered (Progress.start.tokens xs)) :=
    Token.reach_of_tiles (tiles_tokens rfl xs)
  obtain ⟨stack, hnest⟩ := Option.isSome_iff_exists.mp h.nested
  obtain ⟨space, layout, hsplit, hlayout, hspace⟩ := parts_after h.joined hnest
  rw [← hgap] at hsplit
  generalize Progress.start.tokens xs = before at hcovered hreach hlayout hspace ⊢
  refine ⟨?_, ?_, space, layout, hsplit, hlayout, hspace.imp_right fun hspace => ⟨hspace.comment, hspace.blank, ?_⟩⟩
  · rw [hreach, hbyte, ← hcovered, utf8Length_append]
    exact Nat.le_add_right _ _
  · rw [hreach, hbyte, ← hcovered, utf8Length_append, Utf8.encode_eq_bytes, h.source, ← hcovered,
      List.append_assoc _ t.text.toList]
    exact Utf8.extract_bytes _ _ _
  · have hsource : Utf8.encode source = Utf8.bytes (Token.covered before ++ space) ++
        Utf8.bytes (layout ++ (t.text.toList ++ rest)) := by
      rw [Utf8.encode_eq_bytes, h.source, ← hcovered, hsplit, ← Utf8.bytes_append]
      simp only [List.append_assoc]
    have hlength : Token.reach before + (Utf8.bytes space).length =
        (Utf8.bytes (Token.covered before ++ space)).length := by
      rw [hreach, Utf8.length_bytes, Utf8.length_bytes, utf8Length_append]
    have hline := hspace.line
    rw [hsource, hlength, List.getElem?_append_right (Nat.le_refl _), Nat.sub_self]
    cases hrest : layout ++ (t.text.toList ++ rest) with
    | nil => rfl
    | cons c cs =>
      rw [hrest] at hline
      obtain rfl : c = '\n' := by simpa using hline
      rfl

theorem meets_of_source {ts before after : List Token} (h : Token.ofSource source = .ok ts)
    (hts : ts = before ++ t :: after) : ∃ xs rest, Meets source xs t rest ∧ Progress.start.tokens xs = before := by
  obtain ⟨xs, hspelling, hjoined, hnest, rfl⟩ := Token.lexemes_of_scan h
  rcases List.eq_nil_or_concat' after with rfl | ⟨after, last, rfl⟩
  · obtain ⟨rfl, hlast⟩ := List.append_inj' hts rfl
    obtain rfl := List.singleton_inj.mp hlast
    refine ⟨xs, [], ⟨?_, hjoined, ?_, rfl⟩, rfl⟩
    · rw [hspelling]
      simp [Progress.token]
    · change (Lexeme.nest Progress.start.brackets xs).isSome = true
      rw [hnest]
      rfl
  · rw [← List.cons_append, ← List.append_assoc] at hts
    obtain ⟨htokens, -⟩ := List.append_inj' hts rfl
    obtain ⟨ys, x, zs, rfl, hbefore, hx, -⟩ := tokens_eq_append htokens
    obtain ⟨-, htoken⟩ := next?_eq_some hx
    have htext : t.text.toList = x.text := by
      rw [htoken]
      exact String.toList_ofList
    rw [joined_append] at hjoined
    have hfront : front (x :: zs) none = (t.text.toList ++ (x.after ++ spelling zs)).head? := by
      unfold front
      rw [Option.toList_none, List.append_nil, spelling_cons, chars, htext, List.append_assoc]
    refine ⟨ys, x.after ++ spelling zs, ⟨?_, hfront ▸ hjoined.1, ?_, by rwa [htext]⟩, hbefore⟩
    · rw [← hspelling, spelling_append, spelling_cons, chars, htext]
      simp only [List.append_assoc]
    · change Lexeme.nest [] (ys ++ x :: zs) = some [] at hnest
      rw [nest_append] at hnest
      obtain ⟨stack, hstack, -⟩ := Option.bind_eq_some_iff.mp hnest
      rw [hstack]
      rfl

end Progress

namespace Token

theorem byte_endOfText (xs : List Lexeme) :
    ((Progress.start.after xs).token .endOfText []).start.byte = utf8Length (Lexeme.spelling xs) := by
  change (Progress.start.after xs).place.byte = _
  rw [Progress.place_after, Position.byte_past]
  exact Nat.zero_add _

theorem tiling_of_source {source : String} {ts : List Token} (h : ofSource source = .ok ts) :
    Tiling (Utf8.encode source) ts where
  ordered := (tiles_of_source h).2.pairwise
  lies t ht := by
    obtain ⟨before, after, hts⟩ := List.append_of_mem ht
    obtain ⟨xs, rest, hmeets, -⟩ := Progress.meets_of_source h hts
    exact hmeets.lies
  apart before t after hts := by
    obtain ⟨xs, rest, hmeets, rfl⟩ := Progress.meets_of_source h hts
    exact hmeets.apart
  last := by
    obtain ⟨xs, hspelling, hjoined, -, rfl⟩ := lexemes_of_scan h
    have hbyte : ((Progress.start.after xs).token .endOfText []).start.byte = (Utf8.encode source).length := by
      rw [byte_endOfText, hspelling, Utf8.encode_eq_bytes, Utf8.length_bytes]
    refine ⟨_, _, rfl, fun t ht hk => ?_, rfl, hbyte, hbyte⟩
    obtain ⟨before, after, hts⟩ := List.append_of_mem ht
    obtain ⟨ys, x, zs, rfl, -, hx, -⟩ := Progress.tokens_eq_append hts
    obtain ⟨next, hstands⟩ := hjoined.stands x (by simp)
    exact hstands.kind_ne_endOfText (hk ▸ (Progress.next?_eq_some hx).1)

def bracketedTokens : List Token := [
  ⟨"", .opening .square, "[", ⟨0, 1, 0⟩⟩,
  ⟨"\n", .string "a\n", "'''a\n'''", ⟨2, 2, 0⟩⟩,
  ⟨"", .closing .square, "]", ⟨10, 3, 3⟩⟩,
  ⟨" ", .comment, "# é", ⟨12, 3, 5⟩⟩,
  ⟨" \t", .newline, "\n", ⟨18, 3, 11⟩⟩,
  ⟨"\\\n", .endOfText, "", ⟨21, 5, 0⟩⟩]

theorem tiling_of_source_bracketed : ofSource "[\n'''a\n'''] # é \t\n\\\n" = .ok bracketedTokens ∧
    Tiling (Utf8.encode "[\n'''a\n'''] # é \t\n\\\n") bracketedTokens := by
  have h : ofSource "[\n'''a\n'''] # é \t\n\\\n" = .ok bracketedTokens := by decide +kernel
  exact ⟨h, tiling_of_source h⟩

end Token

end BuildSync
