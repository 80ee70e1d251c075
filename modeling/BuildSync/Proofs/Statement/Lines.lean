import BuildSync.Proofs.Expr.Relaid
import BuildSync.Proofs.Statement.Grammar

/-!
Files without comments that hold nothing but rules: each line is a rule, and no blank line counts.
-/

namespace BuildSync

namespace Token

def lines : List Token → List (List Token)
  | [] => []
  | t :: rest =>
    match t.kind with
    | .endOfText => []
    | .newline => lines rest
    | _ => (t :: rest.takeWhile isCode) :: lines (rest.dropWhile isCode)
termination_by tokens => tokens.length
decreasing_by
  · simp
  · have := (List.dropWhile_suffix isCode (l := rest)).length_le
    simp only [List.length_cons]
    omega

variable {s : Setting} {t : Token} {ts us : List Token}

theorem opensBlock_bare (h : ∀ t ∈ ts, t.isComment = false) :
    opensBlock ts = ts.getLast?.any (·.isOperator ":") := by
  unfold opensBlock
  rw [List.getLast?_eq_head?_reverse]
  have hreverse : ∀ t ∈ ts.reverse, t.isComment = false := fun t ht => h t (List.mem_reverse.mp ht)
  generalize ts.reverse = us at hreverse ⊢
  cases us with
  | nil => rfl
  | cons t us =>
    have ht := hreverse t List.mem_cons_self
    cases us with
    | nil => rfl
    | cons u us => simp [ht]

theorem opensBlock_relaid (h : Relaid s ts us) (hts : ∀ t ∈ ts, t.isComment = false)
    (hus : ∀ t ∈ us, t.isComment = false) : opensBlock ts = opensBlock us := by
  rw [opensBlock_bare hts, opensBlock_bare hus]
  have hlast := h.getLast?
  generalize ts.getLast? = o at hlast ⊢
  generalize us.getLast? = p at hlast ⊢
  cases hlast with
  | some h => exact Reading.blind_isOperator ":" _ _ h.kind h.text
  | none => rfl

theorem takeWhile_extent (t : Token) (rest : List Token) :
    (extent t rest).takeWhile isCode = rest.takeWhile isCode := by
  have hline : ∀ u ∈ rest.takeWhile isCode, u.isCode = true := List.all_eq_true.mp List.all_takeWhile
  unfold extent
  dsimp only
  rw [drop_takeWhile]
  split_ifs
  · obtain ⟨-, -, hblock, -⟩ := block_of_ends (ends_dropWhile rest)
    rw [List.takeWhile_append_of_pos hline]
    have hblank : (indented [] (rest.dropWhile isCode)).takeWhile isCode = [] := by
      generalize indented [] (rest.dropWhile isCode) = block at hblock ⊢
      cases hblock with
      | nil => rfl
      | line hn => exact List.takeWhile_cons_of_neg (by simp [isCode_of_newline hn])
    rw [hblank, List.append_nil]
  · rw [List.takeWhile_eq_self_iff]
    exact hline

end Token

namespace Statement

open Token

structure Written (line : List Token) (s : Statement) : Prop where
  bare : ∀ t ∈ line, t.isComment = false
  closed : opensBlock line = false
  call : ∃ call, Call.ofTokens? line = some call ∧ s = .rule ⟨[], call, none⟩

theorem splitSuffix_bare {ts : List Token} (h : ∀ t ∈ ts, t.isComment = false) : splitSuffix ts = (ts, none) := by
  rcases List.eq_nil_or_concat' ts with rfl | ⟨ts, t, rfl⟩
  · rfl
  · rw [splitSuffix_concat, h t (by simp), if_neg Bool.false_ne_true]

theorem extent_of_closed {t : Token} {rest : List Token} (h : opensBlock (t :: rest.takeWhile isCode) = false) :
    extent t rest = rest.takeWhile isCode := by
  unfold extent
  dsimp only
  rw [h]
  rfl

theorem takeWhile_statement {t : Token} (ht : t.isCode = true) (rest : List Token) :
    (t :: extent t rest).takeWhile isCode = t :: rest.takeWhile isCode := by
  rw [List.takeWhile_cons_of_pos ht, takeWhile_extent]

theorem written_of_rule {t : Token} {rest : List Token} (ht : t.isCode = true)
    (hbare : ∀ u ∈ t :: rest, u.isComment = false)
    (hrule : (ofExtent [] (t :: extent t rest)).rule?.isSome = true) :
    Written (t :: rest.takeWhile isCode) (ofExtent [] (t :: extent t rest)) := by
  obtain ⟨more, hrest, -, -⟩ := extends_extent t rest
  have hextent : ∀ u ∈ t :: extent t rest, u.isComment = false := by
    intro u hu
    apply hbare
    rw [hrest, ← List.cons_append]
    exact List.mem_append_left _ hu
  rw [ofExtent_eq, call?, takeWhile_statement ht, splitSuffix_bare hextent] at hrule ⊢
  cases hopen : opensBlock (t :: rest.takeWhile isCode) with
  | true =>
    rw [hopen] at hrule
    cases hrule
  | false =>
    rw [hopen, extent_of_closed hopen] at hrule
    rw [extent_of_closed hopen] at hextent ⊢
    simp only [Bool.false_eq_true, if_false] at hrule ⊢
    cases hcall : Call.ofTokens? (t :: rest.takeWhile isCode) with
    | none =>
      rw [hcall] at hrule
      cases hrule
    | some call => exact ⟨hextent, hopen, call, hcall, rfl⟩

theorem Written.ofExtent {t : Token} {rest : List Token} {s : Statement}
    (h : Written (t :: rest.takeWhile isCode) s) (ht : t.isCode = true) :
    Statement.ofExtent [] (t :: extent t rest) = s := by
  obtain ⟨call, hcall, rfl⟩ := h.call
  rw [ofExtent_eq, call?, takeWhile_statement ht, h.closed, extent_of_closed h.closed, splitSuffix_bare h.bare]
  simp only [Bool.false_eq_true, if_false, hcall]

theorem ofTokensAfter_closed {t : Token} {rest : List Token} (hfiller : t.isFiller = false)
    (hend : t.kind ≠ .endOfText) (h : opensBlock (t :: rest.takeWhile isCode) = false) (newline : Bool) :
    ofTokensAfter [] newline (t :: rest) =
      ofExtent [] (t :: extent t rest) :: ofTokensAfter [] false (rest.dropWhile isCode) := by
  rw [ofTokensAfter_code hfiller hend, extent_of_closed h, drop_takeWhile]

variable {ts : List Token} {newline : Bool}

theorem ofTokensAfter_skip {t : Token} (ht : t.kind = .newline) (rest : List Token) :
    ofTokensAfter [] newline (t :: rest) = ofTokensAfter [] true rest := by
  rw [ofTokensAfter_newline ht]
  cases newline <;> rfl

theorem forall₂_written (hts : ∀ t ∈ ts, t.isComment = false)
    (hrules : ∀ s ∈ ofTokensAfter [] newline ts, s.rule?.isSome = true) :
    List.Forall₂ Written (Token.lines ts) (ofTokensAfter [] newline ts) := by
  fun_induction Token.lines ts generalizing newline with
  | case1 =>
    rw [ofTokensAfter]
    exact .nil
  | case2 t rest hk =>
    rw [ofTokensAfter_end hk]
    exact .nil
  | case3 t rest hk ih =>
    rw [ofTokensAfter_skip hk] at hrules ⊢
    exact ih (fun u hu => hts u (List.mem_cons_of_mem t hu)) hrules
  | case4 t rest hend hnewline ih =>
    have hend : t.kind ≠ .endOfText := hend
    have hnewline : t.kind ≠ .newline := hnewline
    have hcode : t.isCode = true := by simp [Token.isCode, Token.endsLine, hend, hnewline]
    have hfiller : t.isFiller = false := by simp [isFiller, hnewline, hts t List.mem_cons_self]
    have hfirst : ofExtent [] (t :: extent t rest) ∈ ofTokensAfter [] newline (t :: rest) := by
      rw [ofTokensAfter_code hfiller hend]
      exact List.mem_cons_self
    have hline := written_of_rule hcode hts (hrules _ hfirst)
    rw [ofTokensAfter_closed hfiller hend hline.closed] at hrules ⊢
    apply List.Forall₂.cons hline
    apply ih
    · intro u hu
      exact hts u (List.mem_cons_of_mem t ((List.dropWhile_suffix _).subset hu))
    · exact (List.forall_mem_cons.mp hrules).2

theorem ofTokensAfter_of_written {ss : List Statement} (h : List.Forall₂ Written (Token.lines ts) ss) :
    ofTokensAfter [] newline ts = ss := by
  fun_induction Token.lines ts generalizing newline ss with
  | case1 =>
    cases h
    rw [ofTokensAfter]
    rfl
  | case2 t rest hk =>
    cases h
    rw [ofTokensAfter_end hk]
    rfl
  | case3 t rest hk ih =>
    rw [ofTokensAfter_skip hk]
    exact ih h
  | case4 t rest hend hnewline ih =>
    have hend : t.kind ≠ .endOfText := hend
    have hnewline : t.kind ≠ .newline := hnewline
    cases h with
    | @cons _ s _ ss hs hss =>
      have hcode : t.isCode = true := by simp [Token.isCode, Token.endsLine, hend, hnewline]
      have hfiller : t.isFiller = false := by simp [isFiller, hnewline, hs.bare t List.mem_cons_self]
      rw [ofTokensAfter_closed hfiller hend hs.closed, hs.ofExtent hcode, ih hss]

theorem Written.relaid {line line' : List Token} {s : Statement} (h : Written line s)
    (hline : Token.Relaid .start line line') (hwords : ∀ t ∈ line, t.isKeyword "not in" = false) :
    Written line' s := by
  have hbare : ∀ t ∈ line', t.isComment = false := by
    refine hline.forall_mem (fun t u hsame ht => ?_) (fun t ht => (Reading.bare_comma ht).comment) h.bare
    exact (Reading.blind_isComment t u hsame.kind hsame.text).symm.trans ht
  refine ⟨hbare, ?_, ?_⟩
  · rw [← opensBlock_relaid hline h.bare hbare, h.closed]
  · rw [← Call.ofTokens?_relaid hline fun t ht => ⟨h.bare t ht, hwords t ht⟩]
    exact h.call

theorem mem_of_mem_lines {line : List Token} (h : line ∈ Token.lines ts) : line ⊆ ts := by
  fun_induction Token.lines ts with
  | case1 => cases h
  | case2 => cases h
  | case3 t rest _ ih => exact List.Subset.trans (ih h) (List.subset_cons_self t rest)
  | case4 t rest _ _ ih =>
    rcases List.mem_cons.mp h with rfl | h
    · exact List.cons_subset_cons t (List.takeWhile_prefix _).subset
    · have hrest := List.Subset.trans (ih h) (List.dropWhile_suffix _).subset
      exact List.Subset.trans hrest (List.subset_cons_self t rest)

theorem forall₂_relaid {lines lines' : List (List Token)} {ss : List Statement}
    (h : List.Forall₂ Written lines ss) (hlines : List.Forall₂ (Token.Relaid .start) lines lines')
    (hwords : ∀ line ∈ lines, ∀ t ∈ line, t.isKeyword "not in" = false) : List.Forall₂ Written lines' ss := by
  induction hlines generalizing ss with
  | nil => exact h
  | cons hline _ ih =>
    obtain ⟨hwords, hrest⟩ := List.forall_mem_cons.mp hwords
    cases h with
    | cons hs hss => exact .cons (hs.relaid hline hwords) (ih hss hrest)

theorem ofTokens_relaid {us : List Token} (hts : ∀ t ∈ ts, t.isComment = false)
    (hwords : ∀ t ∈ ts, t.isKeyword "not in" = false)
    (hlines : List.Forall₂ (Token.Relaid .start) (Token.lines ts) (Token.lines us))
    (hrules : ∀ s ∈ ofTokens ts, s.rule?.isSome = true) : ofTokens us = ofTokens ts := by
  apply ofTokensAfter_of_written
  apply forall₂_relaid (forall₂_written hts hrules) hlines
  intro line hline t ht
  exact hwords t (mem_of_mem_lines hline ht)

end Statement
end BuildSync
