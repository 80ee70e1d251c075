import BuildSync.Proofs.Expr.RoundTrip
import BuildSync.Proofs.Statement.Echo

namespace BuildSync

namespace Statement

open Lexeme

structure Passage (x : Lexeme) (xs : List Lexeme) : Prop where
  joined : Joined (x :: xs) (some '\n')
  nest : nest [] (x :: xs) = some []
  first : (Progress.start.token? x).isSome = true
  last : (Progress.start.after (x :: xs)).gap = []
  stray : Stray (Progress.start.tokens (x :: xs))

def Verbatim (text : String) : Prop := ∃ x xs, Passage x xs ∧ spelling (x :: xs) = text.toList

/-- The statements that a file may hold. With `strict` they are read back as they are. -/
inductive Fits (strict : Bool) : Statement → Prop
  | comment {lines : List String} (hne : lines ≠ []) (h : ∀ line ∈ lines, Remark line) :
    Fits strict (.comment lines)
  | rule {r : Rule} (hc : ∀ line ∈ r.comments, Remark line)
    (hcall : (Expr.call r.call.callee r.call.args).Fits strict)
    (hname : r.call.callee.dottedName?.isSome = true) (hs : ∀ c ∈ r.suffix, Remark c) :
    Fits strict (.rule r)
  | verbatim {comments : List String} {text : String} (hc : ∀ line ∈ comments, Remark line)
    (h : Verbatim text) : Fits strict (.verbatim comments text)

/-! How the tokens of a file are taken apart, by the kind of the next token. -/

variable {t : Token} {comments : List String} {newline : Bool}

theorem ofTokensAfter_end (ht : t.kind = .endOfText) (rest : List Token) :
    ofTokensAfter comments newline (t :: rest) = standalone comments := by
  rw [ofTokensAfter, ht]

theorem ofTokensAfter_newline (ht : t.kind = .newline) (rest : List Token) :
    ofTokensAfter comments newline (t :: rest) =
      if newline then standalone comments ++ ofTokensAfter [] true rest
      else ofTokensAfter comments true rest := by
  rw [ofTokensAfter, ht]

theorem ofTokensAfter_comment (ht : t.kind = .comment) (rest : List Token) :
    ofTokensAfter comments newline (t :: rest) = ofTokensAfter (comments ++ [t.text]) false rest := by
  rw [ofTokensAfter, ht]

theorem ofTokensAfter_code (ht : t.isFiller = false) (hend : t.kind ≠ .endOfText) (rest : List Token) :
    ofTokensAfter comments newline (t :: rest) =
      ofExtent comments (t :: Token.extent t rest) ::
        ofTokensAfter [] false (rest.drop (Token.extent t rest).length) := by
  simp only [Token.isFiller, Token.isComment, Bool.or_eq_false_iff, beq_eq_false_iff_ne] at ht
  rw [ofTokensAfter]
  split
  · rename_i hk; exact absurd hk hend
  · rename_i hk; exact absurd hk ht.1
  · rename_i hk; exact absurd hk ht.2
  · rfl

theorem ofTokensAfter_extends {ts rest : List Token} {n : Token} (ht : t.isFiller = false)
    (hend : t.kind ≠ .endOfText) (hx : Token.Extends t ts) (hn : n.kind = .newline)
    (hrest : Token.Outer rest) :
    ofTokensAfter comments newline (t :: ts ++ n :: rest) =
      ofExtent comments (t :: ts) :: ofTokensAfter [] true rest := by
  rw [List.cons_append, ofTokensAfter_code ht hend, Token.extent_append hx hn hrest, List.drop_left,
    ofTokensAfter_newline hn]
  rfl

end Statement

structure Progress.AtMargin (p : Progress) : Prop where
  pending : p.pending = []
  column : p.place.column = 0
  gap : p.gap = []

namespace Progress

open Lexeme

theorem atMargin_start : start.AtMargin := ⟨rfl, rfl, rfl⟩

theorem tokens_newline {p : Progress} (h : p.pending = []) (xs : List Lexeme) :
    p.tokens (feed :: xs) = p.token .newline ['\n'] :: (p.next feed).tokens xs := by
  simp [tokens, next?, token?, feed, h]

theorem atMargin_feed {p : Progress} (h : p.pending = []) : (p.next feed).AtMargin where
  pending := h
  column := rfl
  gap := by simp [next, token?, feed, h]

theorem AtMargin.brackets {p : Progress} (h : p.AtMargin) : p.brackets = [] := by
  rw [Progress.brackets, h.pending, List.map_nil]

theorem remarkLines_cons (line : String) (lines : List String) :
    remarkLines 0 (line :: lines) = of .comment line :: feed :: remarkLines 0 lines := rfl

variable {p : Progress}

theorem tokens_remark (h : p.AtMargin) (line : String) (xs : List Lexeme) :
    ∃ q : Progress, q.AtMargin ∧ p.after [of .comment line, feed] = q ∧
      p.tokens (of .comment line :: feed :: xs) = p.token .comment line.toList ::
        (p.next (of .comment line)).token .newline ['\n'] :: q.tokens xs := by
  refine ⟨_, atMargin_feed (p := p.next (of .comment line)) h.pending, rfl, ?_⟩
  rw [tokens_of (by decide), tokens_newline (p := p.next (of .comment line)) h.pending]

theorem atMargin_remarkLines (h : p.AtMargin) (lines : List String) :
    (p.after (remarkLines 0 lines)).AtMargin := by
  induction lines generalizing p with
  | nil => exact h
  | cons line lines ih =>
    obtain ⟨q, hq, rfl, -⟩ := tokens_remark h line []
    exact ih hq

theorem outer_remarkLines (h : p.AtMargin) (lines : List String) {ts : List Token} (hts : Token.Outer ts) :
    Token.Outer (p.tokens (remarkLines 0 lines) ++ ts) := by
  induction lines generalizing p with
  | nil => exact hts
  | cons line lines ih =>
    obtain ⟨q, hq, -, htokens⟩ := tokens_remark h line (remarkLines 0 lines)
    rw [remarkLines_cons, htokens]
    exact Token.outer_filler rfl (Token.outer_filler rfl (ih hq))

theorem ofTokensAfter_remarkLines (h : p.AtMargin) (lines : List String) (comments : List String)
    (newline : Bool) (ts : List Token) :
    Statement.ofTokensAfter comments newline (p.tokens (remarkLines 0 lines) ++ ts) =
      Statement.ofTokensAfter (comments ++ lines) (newline || !lines.isEmpty) ts := by
  induction lines generalizing p comments newline with
  | nil => simp [remarkLines, tokens_nil]
  | cons line lines ih =>
    obtain ⟨q, hq, -, htokens⟩ := tokens_remark h line (remarkLines 0 lines)
    rw [remarkLines_cons, htokens, List.cons_append, List.cons_append,
      Statement.ofTokensAfter_comment rfl, Statement.ofTokensAfter_newline rfl]
    simp only [Bool.false_eq_true, if_false]
    rw [ih hq]
    cases lines <;> simp

theorem source_foldl (p : Progress) (xs : List Lexeme) (text : String) :
    ((p.tokens xs).foldl (fun text u => text ++ u.gap ++ u.text) text).toList ++ (p.after xs).gap =
      text.toList ++ p.gap ++ spelling xs := by
  induction xs generalizing p text with
  | nil => simp [tokens, after]
  | cons x xs ih =>
    have hafter : p.after (x :: xs) = (p.next x).after xs := rfl
    rw [tokens, hafter, next?, List.foldl_append, ih]
    cases hk : p.token? x <;> simp [next, hk, token, chars]

theorem source_tokens {x : Lexeme} {xs : List Lexeme} (hx : (p.token? x).isSome = true)
    (hgap : (p.after (x :: xs)).gap = []) :
    Token.source (p.tokens (x :: xs)) = String.ofList (spelling (x :: xs)) := by
  obtain ⟨kind, hk⟩ := Option.isSome_iff_exists.mp hx
  have hgap : ((p.next x).after xs).gap = [] := hgap
  have hnext : (p.next x).gap = x.after := by simp [next, hk]
  have hfold := source_foldl (p.next x) xs (String.ofList x.text)
  rw [hgap, hnext, List.append_nil, String.toList_ofList] at hfold
  rw [spelling_cons, chars, ← hfold, String.ofList_toList, tokens, next?, hk]
  rfl

theorem brackets_after_congr {p q : Progress} (hb : p.brackets = q.brackets) (xs : List Lexeme) :
    (p.after xs).brackets = (q.after xs).brackets := by
  induction xs generalizing p q with
  | nil => exact hb
  | cons x xs ih => exact ih (brackets_next_congr hb x)

theorem gap_after_congr {p q : Progress} (hb : p.brackets = q.brackets) (hgap : p.gap = q.gap)
    (xs : List Lexeme) : (p.after xs).gap = (q.after xs).gap := by
  induction xs generalizing p q with
  | nil => exact hgap
  | cons x xs ih => exact ih (brackets_next_congr hb x) (by simp only [next, token?_congr hb, hgap])

end Progress
end BuildSync
