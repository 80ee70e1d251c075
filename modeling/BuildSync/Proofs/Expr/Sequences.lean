import BuildSync.Proofs.Expr.Clear

namespace BuildSync

open Reading Lexeme

structure Token.Begins (rank : Nat) (t : Token) : Prop where
  comment : t.isComment = false
  closing : ∀ b, closing b t = false
  equals : t.isOperator "=" = false
  negation : t.isKeyword "not" = true → rank ≤ Level.negation.rank
  sign : t.kind = .operator → rank ≤ Level.sign.rank

theorem Expr.Opens.tokens {rank : Nat} {x : Lexeme} (h : Opens rank x) (p : Progress) (xs : List Lexeme) :
    ∃ t, p.tokens (x :: xs) = t :: (p.next x).tokens xs ∧ some t.kind = x.kind ∧ t.Begins rank := by
  cases h with
  | @name name hi hr =>
    refine ⟨_, Progress.tokens_of (by decide) p name xs, rfl, rfl, fun _ => rfl, rfl, fun hn => ?_, by rintro ⟨⟩⟩
    have : name = "not" := by simpa [Token.isKeyword] using hn
    subst this
    exact absurd (by decide) hr
  | number h =>
    exact ⟨_, Progress.tokens_of (by decide) p _ xs, rfl, rfl, fun _ => rfl, rfl, by rintro ⟨⟩, by rintro ⟨⟩⟩
  | string h =>
    exact ⟨_, Progress.tokens_of (by simp) p _ xs, rfl, rfl, fun _ => rfl, rfl, by rintro ⟨⟩, by rintro ⟨⟩⟩
  | bracket b =>
    exact ⟨_, Progress.tokens_opening p b xs, rfl, rfl, fun _ => rfl, rfl, by rintro ⟨⟩, by rintro ⟨⟩⟩
  | @sign op ho hr =>
    refine ⟨_, Progress.tokens_of (by decide) p op xs, rfl, rfl, fun _ => rfl, ?_, by rintro ⟨⟩, fun _ => hr⟩
    have : op ≠ "=" := by
      rintro rfl
      exact absurd ho (by decide)
    simpa [Token.isOperator] using this
  | negation hr =>
    exact ⟨_, Progress.tokens_of (by decide) p _ xs, rfl, rfl, fun _ => rfl, rfl, fun _ => hr, by rintro ⟨⟩⟩

theorem Expr.tokens_first {strict : Bool} {e : Expr} (h : e.Fits strict) (depth : Nat) (spread : Bool)
    (p : Progress) : ∃ t ts, p.tokens (e.lexemes depth spread) = t :: ts ∧ t.Begins e.level.rank := by
  obtain ⟨xs, hx⟩ := lexemes_eq_first h depth spread
  obtain ⟨t, ht, -, hb⟩ := (opens_first h).tokens p xs
  exact ⟨t, _, by rw [hx, ht], hb⟩

namespace Item

def body (i : Item) (depth : Nat) (spread : Bool) : List Lexeme :=
  i.label.lexemes depth ++ i.value.lexemes depth spread

theorem lexemesInline_cons (depth : Nat) (i : Item) (items : List Item) :
    lexemesInline depth (i :: items) = i.body depth false ++
      ((if items.isEmpty then [] else [comma, space]) ++ lexemesInline depth items) := by
  cases i
  simp only [lexemesInline, body, List.append_assoc]

theorem lexemeLines_cons (depth : Nat) (spread : Bool) (i : Item) (items : List Item) :
    lexemeLines depth spread (i :: items) = remarkLines depth i.comments ++ (margin depth ++
      (i.body depth spread ++ (comma :: (Lexeme.suffix i.suffix ++
        feed :: lexemeLines depth spread items)))) := by
  cases i
  simp only [lexemeLines, body, List.append_assoc, List.cons_append]

theorem tokens_first {strict : Bool} {i : Item} (h : i.All (Expr.Fits strict)) (depth : Nat) (spread : Bool)
    (p : Progress) : ∃ t ts, p.tokens (i.body depth spread) = t :: ts ∧ t.isComment = false ∧
      ∀ b, closing b t = false := by
  unfold body
  cases hl : i.label with
  | bare =>
    obtain ⟨t, ts, ht, hb⟩ := Expr.tokens_first h.1 depth spread p
    exact ⟨t, ts, ht, hb.comment, hb.closing⟩
  | name name =>
    rw [Label.lexemes, List.cons_append, Progress.tokens_of (by decide)]
    exact ⟨_, _, rfl, rfl, fun _ => rfl⟩
  | key key =>
    obtain ⟨t, ts, ht, hb⟩ := Expr.tokens_first (h.2 key hl) depth false p
    rw [Label.lexemes, List.append_assoc, Progress.tokens_append, ht]
    exact ⟨t, _, rfl, hb.comment, hb.closing⟩

theorem balanced_body {strict : Bool} {i : Item} (h : i.All (Expr.Fits strict)) (depth : Nat) (spread : Bool) :
    Balanced (i.body depth spread) :=
  (balanced_label ⟨Expr.balanced_lexemes h.1, fun k hk => Expr.balanced_lexemes (h.2 k hk)⟩ depth).append
    (Expr.balanced_lexemes h.1 depth spread)

def Reads (read : Reading (Label × Expr)) (bound : Nat) (i : Item) : Prop :=
  ∀ (depth : Nat) (spread : Bool) (p : Progress) (line : Nat) (rest : List Token), Token.Clear 0 rest →
    (p.tokens (i.body depth spread) ++ rest).length ≤ bound →
    ∃ line', read ⟨line, p.tokens (i.body depth spread) ++ rest⟩ =
      .done (i.label, i.value) ⟨line', rest⟩

end Item

namespace Progress

theorem tokens_margin (p : Progress) (depth : Nat) (xs : List Lexeme) :
    p.tokens (margin depth ++ xs) = (p.after (margin depth)).tokens xs := by
  rw [tokens_append]
  suffices ∀ n (p : Progress), p.tokens (List.replicate n space) = [] by
    rw [margin, this, List.nil_append]
  intro n
  induction n with
  | zero => exact fun _ => rfl
  | succ n ih => exact fun p => ih _

theorem tokens_remarkLines {p : Progress} (hp : p.pending ≠ []) (depth : Nat) (lines : List String) :
    (∀ t ∈ p.tokens (remarkLines depth lines), t.isComment = true) ∧
      (p.tokens (remarkLines depth lines)).map Token.text = lines := by
  induction lines generalizing p with
  | nil => exact ⟨nofun, rfl⟩
  | cons line lines ih =>
    have hm := pending_ne_nil (p.brackets_after (balanced_margin depth)) hp
    have hr : ((p.after (margin depth)).next (of .comment line)).pending ≠ [] := hm
    have hf := ih (p := ((p.after (margin depth)).next (of .comment line)).next feed) hr
    have htokens : p.tokens (remarkLines depth (line :: lines)) =
        (p.after (margin depth)).token .comment line.toList ::
          (((p.after (margin depth)).next (of .comment line)).next feed).tokens
            (remarkLines depth lines) := by
      rw [remarkLines, List.flatMap_cons, List.append_assoc, tokens_margin, List.cons_append,
        List.cons_append, List.nil_append, tokens_of (by decide), tokens_feed hr]
      rfl
    rw [htokens]
    exact ⟨List.forall_mem_cons.mpr ⟨rfl, hf.1⟩, by rw [List.map_cons, hf.2]; simp⟩

theorem endLine_comma (p : Progress) :
    (p.token .operator ",".toList).endLine = (p.next comma).place.line := by
  simp [Token.endLine, next, comma, Position.past, Position.step]

end Progress

namespace Reading

theorem suffix?_lexemes {p : Progress} (hp : p.pending ≠ []) (s : Option String) {xs : List Lexeme}
    (hxs : ∀ q : Progress, q.pending ≠ [] → q.tokens xs ≠ []) (rest : List Token) :
    ∃ q : Progress, q.pending ≠ [] ∧
      (q.tokens xs).length ≤ (p.tokens (suffix s ++ feed :: xs)).length ∧
      suffix? ⟨p.place.line, p.tokens (suffix s ++ feed :: xs) ++ rest⟩ =
        .done s ⟨p.place.line, q.tokens xs ++ rest⟩ := by
  cases s with
  | none =>
    refine ⟨p.next feed, hp, ?_, ?_⟩
    · rw [suffix, List.nil_append, Progress.tokens_feed hp]
    · rw [suffix, List.nil_append, Progress.tokens_feed hp]
      refine suffix?_none fun t ht => .inr ?_
      obtain ⟨u, us, hu⟩ := List.exists_cons_of_ne_nil (hxs (p.next feed) hp)
      rw [hu] at ht
      obtain rfl : u = t := by simpa using ht
      have hline := Progress.line_le_of_mem (hu ▸ List.mem_cons_self : u ∈ (p.next feed).tokens xs)
      have hfeed : (p.next feed).place.line = p.place.line + 1 := by
        simp [Progress.next, Position.past, Position.step]
      omega
  | some c =>
    have hp' : (((p.next space).next space).next (of .comment c)).pending ≠ [] := hp
    have hline : p.place.line = (((p.next space).next space).token .comment c.toList).start.line := by
      simp [Progress.next, Position.past, Position.step]
    have htokens : p.tokens (suffix (some c) ++ feed :: xs) =
        ((p.next space).next space).token .comment c.toList ::
          ((((p.next space).next space).next (of .comment c)).next feed).tokens xs := by
      rw [suffix, List.cons_append, List.cons_append, List.cons_append, List.nil_append,
        Progress.tokens_space, Progress.tokens_space, Progress.tokens_of (by decide),
        Progress.tokens_feed hp']
    refine ⟨(((p.next space).next space).next (of .comment c)).next feed, hp', ?_, ?_⟩
    · rw [htokens, List.length_cons]
      omega
    · rw [htokens, hline, List.cons_append, suffix?_some rfl]
      simp

theorem sequence_item {read : Reading (Label × Expr)} {b : Bracket} {fuel line line' : Nat} {i : Item}
    {remarks ts rest : List Token} {t comma : Token} {others : Sequence} {c c' : Cursor}
    (hremarks : ∀ t ∈ remarks, t.isComment = true) (hcomments : remarks.map Token.text = i.comments)
    (hts : ts.head? = some t) (ht : t.isComment = false ∧ closing b t = false)
    (hread : read ⟨line, ts⟩ = .done (i.label, i.value) ⟨line', comma :: rest⟩)
    (hcomma : comma.kind = .operator ∧ comma.text = ",")
    (hsuffix : suffix? ⟨comma.endLine, rest⟩ = .done i.suffix c)
    (hothers : sequence read b fuel c = .done others c') :
    sequence read b (fuel + 1) ⟨line, remarks ++ ts⟩ =
      .done ⟨i :: others.items, others.trailing⟩ c' := by
  have hcc : comma.isComment = false := by simp [Token.isComment, hcomma.1]
  have hsym : symbol "," comma = true := by simp [symbol, Token.isOperator, hcomma]
  have hnone : token? (closing b) ⟨line, ts⟩ = .done none ⟨line, ts⟩ :=
    token?_none (by rw [hts]; rintro _ ⟨⟩; exact ht) line
  rw [sequence, bind_done (comments_append hremarks (by rw [hts]; simpa using ht.1) line), bind_done hnone]
  simp only [Option.isSome_none, Bool.false_eq_true, if_false]
  rw [bind_done hread]
  dsimp only
  rw [bind_done (suffix?_none (by rintro _ ⟨⟩; exact .inl hcc)), bind_done (token?_cons hcc hsym _ _)]
  simp only [Option.isSome_some, if_true]
  rw [bind_done (r := suffixAfter? none) hsuffix, bind_done hothers, hcomments]
  cases i
  rfl

theorem sequence_last {read : Reading (Label × Expr)} {b : Bracket} {fuel line line' : Nat} {i : Item}
    {ts rest : List Token} {t close : Token} (hcomments : i.comments = []) (hsuffix : i.suffix = none)
    (hts : ts.head? = some t) (ht : t.isComment = false ∧ closing b t = false)
    (hread : read ⟨line, ts⟩ = .done (i.label, i.value) ⟨line', close :: rest⟩)
    (hclose : close.kind = .closing b) :
    sequence read b (fuel + 1) ⟨line, ts⟩ = .done ⟨[i], []⟩ ⟨close.endLine, rest⟩ := by
  have hcc : close.isComment = false := by simp [Token.isComment, hclose]
  have hsym : symbol "," close = false := by simp [symbol, Token.isOperator, hclose]
  have hclosing : closing b close = true := by simp [closing, hclose]
  have hnone : token? (closing b) ⟨line, ts⟩ = .done none ⟨line, ts⟩ :=
    token?_none (by rw [hts]; rintro _ ⟨⟩; exact ht) line
  rw [sequence, bind_done (comments_nil (by rw [hts]; simpa using ht.1) line), bind_done hnone]
  simp only [Option.isSome_none, Bool.false_eq_true, if_false]
  rw [bind_done hread]
  dsimp only
  rw [bind_done (suffix?_none (by rintro _ ⟨⟩; exact .inl hcc)),
    bind_done (token?_none (by rintro _ ⟨⟩; exact ⟨hcc, hsym⟩) _)]
  simp only [Option.isSome_none, Bool.false_eq_true, if_false]
  rw [bind_done (comments_nil (by simpa using hcc) _), bind_done (expect_cons hcc hclosing _ _)]
  cases i
  subst hcomments hsuffix
  rfl

theorem sequence_end {read : Reading (Label × Expr)} {b : Bracket} {fuel line : Nat}
    {remarks rest : List Token} {close : Token} (hremarks : ∀ t ∈ remarks, t.isComment = true)
    (hclose : close.kind = .closing b) :
    sequence read b (fuel + 1) ⟨line, remarks ++ close :: rest⟩ =
      .done ⟨[], remarks.map Token.text⟩ ⟨close.endLine, rest⟩ := by
  have hcc : close.isComment = false := by simp [Token.isComment, hclose]
  have hclosing : closing b close = true := by simp [closing, hclose]
  rw [sequence, bind_done (comments_append hremarks (by simpa using hcc) line),
    bind_done (token?_cons hcc hclosing _ _)]
  rfl

section

variable {read : Reading (Label × Expr)} {b : Bracket} {bound : Nat}

theorem sequence_inline {items : List Item} (hreads : ∀ i ∈ items, i.Reads read bound)
    (hfits : ∀ i ∈ items, i.All (Expr.Fits true)) (hplain : ∀ i ∈ items, i.hasComments = false)
    (depth : Nat) (p : Progress) (line : Nat) (rest : List Token) (fuel : Nat)
    (hbound : (p.tokens (Item.lexemesInline depth items ++ [Lexeme.closing b]) ++ rest).length ≤ bound)
    (hfuel : (p.tokens (Item.lexemesInline depth items ++ [Lexeme.closing b])).length ≤ fuel) :
    ∃ line', sequence read b fuel
      ⟨line, p.tokens (Item.lexemesInline depth items ++ [Lexeme.closing b]) ++ rest⟩ =
        .done ⟨items, []⟩ ⟨line', rest⟩ := by
  induction items generalizing p line fuel with
  | nil =>
    simp only [Item.lexemesInline, List.nil_append, Progress.tokens_closing] at hfuel ⊢
    obtain ⟨fuel, rfl⟩ : ∃ k, fuel = k + 1 := ⟨fuel - 1, by simp at hfuel; omega⟩
    exact ⟨_, @sequence_end read b fuel line [] rest _ (List.forall_mem_nil _) rfl⟩
  | cons i items ih =>
    simp only [List.forall_mem_cons] at hreads hfits hplain
    obtain ⟨t, ts, hts, ht⟩ := Item.tokens_first hfits.1 depth false p
    have hread := hreads.1 depth false p line
    obtain ⟨hcomments, hsuffix⟩ : i.comments = [] ∧ i.suffix = none := by
      simpa [Item.hasComments] using hplain.1
    rw [Item.lexemesInline_cons, List.append_assoc, Progress.tokens_append, List.append_assoc] at hbound hfuel ⊢
    obtain ⟨fuel, rfl⟩ : ∃ k, fuel = k + 1 := ⟨fuel - 1, by rw [hts] at hfuel; simp at hfuel; omega⟩
    have hhead : ∀ us, (p.tokens (i.body depth false) ++ us).head? = some t := by simp [hts]
    cases items with
    | nil =>
      simp only [List.isEmpty_nil, if_true, Item.lexemesInline, List.nil_append,
        Progress.tokens_closing] at hbound ⊢
      obtain ⟨line', hread⟩ := hread _ (Token.clear_closing rfl _) hbound
      exact ⟨_, sequence_last hcomments hsuffix (hhead _) ⟨ht.1, ht.2 b⟩ hread rfl⟩
    | cons j items =>
      simp only [List.isEmpty_cons, Bool.false_eq_true, if_false, List.cons_append, List.nil_append,
        comma, Progress.tokens_of (by decide : Token.Kind.operator ≠ .newline), Progress.tokens_space]
        at hbound hfuel ⊢
      obtain ⟨line', hread⟩ := hread _ (Token.clear_comma rfl rfl _) hbound
      generalize hc : (p.after (i.body depth false)).token .operator ",".toList = c at hread hbound hfuel ⊢
      have hcomma : c.kind = .operator ∧ c.text = "," := by rw [← hc]; exact ⟨rfl, rfl⟩
      generalize ((p.after (i.body depth false)).next (of .operator ",")).next space = q at hread hbound hfuel ⊢
      have hnext : ∀ u ∈ (q.tokens (Item.lexemesInline depth (j :: items) ++ [Lexeme.closing b]) ++
          rest).head?, u.isComment = false := by
        obtain ⟨u, us, hus, hu⟩ := Item.tokens_first (hfits.2 j List.mem_cons_self) depth false q
        rw [Item.lexemesInline_cons, List.append_assoc, Progress.tokens_append, hus]
        rintro _ ⟨⟩
        exact hu.1
      obtain ⟨line'', hothers⟩ := ih hreads.2 hfits.2 hplain.2 q c.endLine fuel
        (by simp only [List.length_append, List.length_cons] at hbound ⊢; omega)
        (by rw [hts] at hfuel; simp only [List.length_append, List.length_cons] at hfuel ⊢; omega)
      exact ⟨line'', sequence_item (List.forall_mem_nil _) hcomments.symm (hhead _)
        ⟨ht.1, ht.2 b⟩ hread hcomma (hsuffix ▸ suffix?_none fun u hu => .inl (hnext u hu)) hothers⟩

theorem sequence_lines {items : List Item} (hreads : ∀ i ∈ items, i.Reads read bound)
    (hfits : ∀ i ∈ items, i.All (Expr.Fits true)) (depth : Nat) (spread : Bool) {trailing : List String}
    {xs : List Lexeme} (hend : ∀ q : Progress, q.pending ≠ [] → ∃ remarks close,
      q.tokens xs = remarks ++ [close] ∧ (∀ t ∈ remarks, t.isComment = true) ∧
        remarks.map Token.text = trailing ∧ close.kind = .closing b)
    {p : Progress} (hp : p.pending ≠ []) (line : Nat) (rest : List Token) (fuel : Nat)
    (hbound : (p.tokens (Item.lexemeLines depth spread items ++ xs) ++ rest).length ≤ bound)
    (hfuel : (p.tokens (Item.lexemeLines depth spread items ++ xs)).length ≤ fuel) :
    ∃ line', sequence read b fuel
      ⟨line, p.tokens (Item.lexemeLines depth spread items ++ xs) ++ rest⟩ =
        .done ⟨items, trailing⟩ ⟨line', rest⟩ := by
  induction items generalizing p line fuel with
  | nil =>
    obtain ⟨remarks, close, hxs, hremarks, rfl, hclose⟩ := hend p hp
    rw [Item.lexemeLines, List.nil_append, hxs] at hfuel ⊢
    obtain ⟨fuel, rfl⟩ : ∃ k, fuel = k + 1 := ⟨fuel - 1, by simp at hfuel; omega⟩
    rw [List.append_assoc]
    exact ⟨_, sequence_end hremarks hclose⟩
  | cons i items ih =>
    simp only [List.forall_mem_cons] at hreads hfits
    have hne : ∀ q : Progress, q.pending ≠ [] →
        q.tokens (Item.lexemeLines depth spread items ++ xs) ≠ [] := by
      intro q hq
      have hbal : Balanced (Item.lexemeLines depth spread items) :=
        Item.balanced_lines (fun j hj => ⟨Expr.balanced_lexemes (hfits.2 j hj).1,
          fun k hk => Expr.balanced_lexemes ((hfits.2 j hj).2 k hk)⟩) depth spread
      obtain ⟨remarks, close, hxs, -⟩ := hend _ (Progress.pending_ne_nil (q.brackets_after hbal) hq)
      rw [Progress.tokens_append, hxs]
      simp
    obtain ⟨hremarks, hcomments⟩ := Progress.tokens_remarkLines hp depth i.comments
    have hm := Progress.pending_ne_nil (p.brackets_after
      ((balanced_remarkLines depth i.comments).append (balanced_margin depth))) hp
    rw [Progress.after_append] at hm
    rw [Item.lexemeLines_cons, List.append_assoc, List.append_assoc, List.append_assoc, List.cons_append,
      List.append_assoc, List.cons_append, Progress.tokens_append, Progress.tokens_margin] at hbound hfuel ⊢
    generalize (p.after (remarkLines depth i.comments)).after (margin depth) = m at hm hbound hfuel ⊢
    have hq := Progress.pending_ne_nil (m.brackets_after (Item.balanced_body hfits.1 depth spread)) hm
    rw [Progress.tokens_append, comma, Progress.tokens_of (by decide)] at hbound hfuel ⊢
    generalize m.after (i.body depth spread) = q at hq hbound hfuel ⊢
    obtain ⟨t, ts, hts, ht⟩ := Item.tokens_first hfits.1 depth spread m
    obtain ⟨q', hq', hlen, hsuffix⟩ := suffix?_lexemes (p := q.next comma) hq i.suffix hne rest
    have hlength : (m.tokens (i.body depth spread)).length = ts.length + 1 := by rw [hts]; rfl
    simp only [List.append_assoc, List.cons_append] at hbound hfuel ⊢
    obtain ⟨fuel, rfl⟩ : ∃ k, fuel = k + 1 :=
      ⟨fuel - 1, by simp only [List.length_append, List.length_cons] at hfuel; omega⟩
    obtain ⟨line', hread⟩ := hreads.1 depth spread m line (q.token .operator ",".toList ::
        ((q.next comma).tokens (suffix i.suffix ++ feed :: (Item.lexemeLines depth spread items ++ xs)) ++
          rest)) (Token.clear_comma rfl rfl _)
      (by simp only [comma, List.length_append] at hbound ⊢; omega)
    obtain ⟨line'', hothers⟩ := ih hreads.2 hfits.2 hq' (q.next comma).place.line fuel
      (by simp only [comma, List.length_append, List.length_cons] at hbound hlen ⊢; omega)
      (by simp only [comma, List.length_append, List.length_cons] at hfuel hlen ⊢; omega)
    rw [← Progress.endLine_comma] at hsuffix hothers
    exact ⟨line'', sequence_item hremarks hcomments (by rw [hts]; rfl) ⟨ht.1, ht.2 b⟩ hread ⟨rfl, rfl⟩
      hsuffix hothers⟩

theorem sequence_lexemes {s : Sequence} (hreads : ∀ i ∈ s.items, i.Reads read bound)
    (hfits : ∀ i ∈ s.items, i.All (Expr.Fits true)) (depth : Nat) {lines : Bool} (spread : Bool)
    (hlines : lines = false → s.hasComments = false) {p : Progress} (hp : p.pending ≠ []) (line : Nat)
    (rest : List Token) (fuel : Nat)
    (hbound : (p.tokens (s.lexemes depth lines spread ++ [Lexeme.closing b]) ++ rest).length ≤ bound)
    (hfuel : (p.tokens (s.lexemes depth lines spread ++ [Lexeme.closing b])).length ≤ fuel) :
    ∃ line', sequence read b fuel
      ⟨line, p.tokens (s.lexemes depth lines spread ++ [Lexeme.closing b]) ++ rest⟩ =
        .done s ⟨line', rest⟩ := by
  obtain ⟨items, trailing⟩ := s
  cases lines with
  | false =>
    have hplain := hlines rfl
    simp only [Sequence.hasComments, Bool.or_eq_false_iff, Bool.not_eq_false', List.isEmpty_iff,
      List.any_eq_false, Bool.not_eq_true] at hplain
    obtain ⟨rfl, hplain⟩ := hplain
    exact sequence_inline hreads hfits hplain depth p line rest fuel hbound hfuel
  | true =>
    have htokens : p.tokens (Sequence.lexemes depth true spread ⟨items, trailing⟩ ++ [Lexeme.closing b]) =
        (p.next feed).tokens (Item.lexemeLines (depth + 1) spread items ++
          (remarkLines (depth + 1) trailing ++ (margin depth ++ [Lexeme.closing b]))) := by
      simp only [Sequence.lexemes, if_true, List.cons_append, List.append_assoc, Progress.tokens_feed hp]
    rw [htokens] at hbound hfuel ⊢
    refine sequence_lines hreads hfits (depth + 1) spread (fun q hq => ?_) (p := p.next feed) hp line rest
      fuel hbound hfuel
    obtain ⟨hremarks, htexts⟩ := Progress.tokens_remarkLines hq (depth + 1) trailing
    refine ⟨_, ((q.after (remarkLines (depth + 1) trailing)).after (margin depth)).token (.closing b)
      [b.closing], ?_, hremarks, htexts, rfl⟩
    rw [Progress.tokens_append, Progress.tokens_margin, Progress.tokens_closing]
    rfl

end

end Reading
end BuildSync
