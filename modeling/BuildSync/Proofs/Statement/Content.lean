import BuildSync.Proofs.Expr.Tells
import BuildSync.Proofs.Statement.Sound

namespace BuildSync

open Lexeme Progress

theorem Lexeme.Joined.atEnd {xs : List Lexeme} {next : Option Char} (h : Joined xs next) : Joined xs none := by
  induction xs with
  | nil => trivial
  | cons x xs ih =>
    refine ⟨?_, ih h.2⟩
    cases xs with
    | nil => exact h.1.parted rfl
    | cons y ys =>
      obtain ⟨c, r, hy⟩ := List.exists_cons_of_ne_nil h.2.1.chars_ne_nil
      have hx := h.1
      rw [front_cons hy] at hx ⊢
      exact hx

namespace Token

variable {a b : Nat} {ts us : List Token}

theorem Echoes.adds {t u : Token} (h : Echoes a b t u) (last : Bool) : t.adds last = u.adds last := by
  have hk := h.kind
  have htext := h.text
  obtain ⟨gap, kind, text, start⟩ := t
  obtain ⟨gap', kind', text', start'⟩ := u
  dsimp only at hk htext
  subst hk htext
  rfl

theorem closesNext_echoes (h : List.Forall₂ (Echoes a b) ts us) : closesNext ts = closesNext us := by
  have hcloses : Reading.Dull closes :=
    Reading.dull_of_blind (fun t u hk _ => by simp only [closes, hk]) false fun t v ht => by simp only [closes, ht]
  exact (Reading.find?_mirrors (h.imp fun _ _ htu => htu.mirrors)).any hcloses

theorem content_echoes (h : List.Forall₂ (Echoes a b) ts us) : content ts = content us := by
  induction h with
  | nil => rfl
  | cons htu htus ih => rw [content_cons, content_cons, htu.adds, closesNext_echoes htus, ih]

theorem closesNext_ends (h : Ends ts) : closesNext ts = false := by
  cases ts with
  | nil => rfl
  | cons t ts => exact closesNext_endsLine (h t rfl) ts

def sourceContent (source : String) : Content :=
  match ofSource source with
  | .ok ts => content ts
  | .error _ => .empty

theorem sourceContent_spelling {source : String} {xs : List Lexeme} (hs : spelling xs = source.toList)
    (hjoined : Joined xs none) (hnest : nest [] xs = some []) :
    sourceContent source = content (Progress.start.tokens xs) := by
  have hscan : scan .start (spelling xs ++ []) = _ := scan_append hjoined hnest
  have hpending : (Progress.start.after xs).pending = [] := pending_eq_nil (brackets_after_nest hnest)
  rw [List.append_nil, scan, finish, hpending, hs] at hscan
  have hend : Ends [(Progress.start.after xs).token .endOfText []] := .cons rfl
  rw [sourceContent, ofSource, hscan]
  change content (_ ++ _) = _
  rw [content_append (closesNext_ends hend), content_cons, adds_endOfText rfl rfl]
  simp

end Token

namespace Statement

def content : Statement → Content
  | comment lines => .ofComments lines
  | rule r => .ofComments r.comments ++ (Expr.call r.call.callee r.call.args).content ++
      .ofComments r.suffix.toList
  | verbatim comments source => .ofComments comments ++ Token.sourceContent source

def contentAll : List Statement → Content
  | [] => .empty
  | s :: ss => s.content ++ contentAll ss

@[simp] theorem contentAll_append (ss us : List Statement) :
    contentAll (ss ++ us) = contentAll ss ++ contentAll us := by
  induction ss with
  | nil => rfl
  | cons s ss ih => rw [List.cons_append, contentAll, contentAll, ih, Content.append_assoc]

@[simp] theorem contentAll_standalone (comments : List String) :
    contentAll (standalone comments) = .ofComments comments := by
  cases comments with
  | nil => rfl
  | cons c cs =>
    change Content.ofComments (c :: cs) ++ .empty = _
    rw [Content.append_empty]

theorem content_splitSuffix (ts : List Token) :
    Token.content ts = Token.content (splitSuffix ts).1 ++ .ofComments (splitSuffix ts).2.toList := by
  rcases List.eq_nil_or_concat' ts with rfl | ⟨ts, t, rfl⟩
  · rfl
  · rw [splitSuffix_concat]
    split_ifs with ht
    · have hclose : Token.closesNext [t] = false := Token.closesNext_comment ht []
      rw [Token.content_append hclose, Token.content_cons, Token.adds_comment ht]
      rfl
    · simp

theorem content_ofExtent {comments : List String} {ts : List Token} (ht : ∀ t ∈ ts, t.Spelled)
    (he : call? ts = none → Echoed ts) :
    (ofExtent comments ts).content = .ofComments comments ++ Token.content ts := by
  rw [ofExtent_eq]
  cases hcall : call? ts with
  | none =>
    obtain ⟨x, xs, hpassage, hspelling, a, b, hechoes⟩ := he hcall
    dsimp only
    rw [content, Token.sourceContent_spelling hspelling hpassage.joined.atEnd hpassage.nest,
      Token.content_echoes hechoes]
  | some call =>
    unfold call? at hcall
    split_ifs at hcall
    have hspelled : ∀ t ∈ (splitSuffix ts).1, t.Spelled := fun t h => ht t (mem_splitSuffix h)
    dsimp only
    rw [content_splitSuffix, Call.content_of_ofTokens? hspelled hcall, content, Content.append_assoc]

theorem contentAll_ofTokensAfter {comments : List String} {newline : Bool} {ts : List Token} {p : Progress}
    {xs : List Lexeme} (h : Remains p xs ts) (hp : p.brackets = []) :
    contentAll (ofTokensAfter comments newline ts) = .ofComments comments ++ Token.content ts := by
  have hline {t : Token} (hk : t.kind = .newline) (rest : List Token) :
      Token.content (t :: rest) = Token.content rest := by
    rw [Token.content_cons, Token.adds_newline hk, Content.empty_append]
  fun_induction ofTokensAfter comments newline ts generalizing p xs with
  | case1 => exact absurd rfl h.ne_nil
  | case2 comments newline t rest hk =>
    obtain ⟨htext, rfl, -⟩ := h.ended hk
    rw [contentAll_standalone, Token.content_cons, Token.adds_endOfText hk htext]
    simp
  | case3 comments t rest hk ih =>
    obtain ⟨q, ys, hq, hys⟩ := h.plain (.inl hk)
    rw [contentAll_append, contentAll_standalone, ih hys (hq.trans hp), hline hk,
      Content.ofComments_nil, Content.empty_append]
  | case4 comments newline t rest hk _ ih =>
    obtain ⟨q, ys, hq, hys⟩ := h.plain (.inl hk)
    rw [ih hys (hq.trans hp), hline hk]
  | case5 comments newline t rest hk ih =>
    obtain ⟨q, ys, hq, hys⟩ := h.plain (.inr hk)
    rw [ih hys (hq.trans hp), Token.content_cons, Token.adds_comment (by simp [Token.isComment, hk]),
      Content.ofComments_append, Content.append_assoc]
  | case6 comments newline t rest extent hend hnewline hcomment =>
    rename_i ih
    rcases h.cons with ⟨hk, -⟩ | ⟨gs, y, ys, -, -, hb, hy, hys⟩
    · exact (hend hk).elim
    have hfiller := Token.isFiller_eq_false hnewline hcomment
    obtain ⟨hspelled, hechoed, q, zs, us, hrest, hends, hq, hzs⟩ :=
      remains_extent (hb.trans hp) hys hy hfiller hend
    have hdrop : rest.drop extent.length = us := by
      rw [hrest]
      exact List.drop_left
    have hsplit : Token.content (t :: rest) = Token.content (t :: extent) ++ Token.content us := by
      rw [← Token.content_append (Token.closesNext_ends hends), List.cons_append, ← hrest]
    rw [contentAll, content_ofExtent hspelled hechoed, ih (hdrop ▸ hzs) hq, hdrop, hsplit,
      Content.ofComments_nil, Content.empty_append, Content.append_assoc]

theorem content_reread {strict : Bool} {s : Statement} (h : s.Fits strict) : s.reread.content = s.content := by
  cases h with
  | rule _ hcall =>
    have := Expr.content_reread hcall
    rw [reread, content, content, Rule.reread]
    rw [Expr.reread] at this
    rw [this]
  | _ => rfl

theorem contentAll_reread {strict : Bool} {ss : List Statement} (h : ∀ s ∈ ss, s.Fits strict) :
    contentAll (ss.map reread) = contentAll ss := by
  induction ss with
  | nil => rfl
  | cons s ss ih =>
    obtain ⟨hs, hss⟩ := List.forall_mem_cons.mp h
    rw [List.map_cons, contentAll, contentAll, content_reread hs, ih hss]

theorem content_ofSource {source : String} {ss : List Statement} (h : ofSource source = .ok ss) :
    ∃ ts, Token.ofSource source = .ok ts ∧ Token.content ts = contentAll ss := by
  obtain ⟨ts, htokens, rfl⟩ := tokens_of_source h
  obtain ⟨xs, -, hjoined, hnest, rfl⟩ := Token.lexemes_of_scan htokens
  refine ⟨_, htokens, ?_⟩
  rw [ofTokens, contentAll_ofTokensAfter ⟨rfl, hjoined, hnest⟩ rfl]
  rfl

end Statement
end BuildSync
