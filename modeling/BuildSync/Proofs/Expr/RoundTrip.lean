import BuildSync.Proofs.Expr.Reads

namespace BuildSync

open Reading Lexeme

namespace Expr

theorem tokens_second {strict : Bool} {e : Expr} (h : e.Fits strict) (depth : Nat) (spread : Bool)
    (p : Progress) {rest : List Token}
    (hrest : ∀ u ∈ rest.head?, u.isComment = false ∧ u.isOperator "=" = false) :
    ∃ t ts, p.tokens (e.lexemes depth spread) ++ rest = t :: ts ∧ t.isComment = false ∧
      (t.kind = .ident → ∀ u ∈ ts.head?, u.isComment = false ∧ u.isOperator "=" = false) := by
  induction h generalizing depth spread p rest with
  | ident =>
    rw [lexemes, Progress.tokens_of (by decide)]
    exact ⟨_, _, rfl, rfl, fun _ => hrest⟩
  | number =>
    rw [lexemes, Progress.tokens_of (by decide)]
    exact ⟨_, _, rfl, rfl, by rintro ⟨⟩⟩
  | fresh =>
    rw [lexemes, Progress.tokens_of (by simp)]
    exact ⟨_, _, rfl, rfl, by rintro ⟨⟩⟩
  | string =>
    rw [lexemes, Progress.tokens_of (by simp)]
    exact ⟨_, _, rfl, rfl, by rintro ⟨⟩⟩
  | list => exact ⟨_, _, rfl, rfl, by rintro ⟨⟩⟩
  | dict => exact ⟨_, _, rfl, rfl, by rintro ⟨⟩⟩
  | tuple => exact ⟨_, _, rfl, rfl, by rintro ⟨⟩⟩
  | paren => exact ⟨_, _, rfl, rfl, by rintro ⟨⟩⟩
  | call _ _ _ _ ih =>
    rw [lexemes, List.append_assoc, Progress.tokens_append, List.append_assoc]
    exact ih _ _ _ (by rintro _ ⟨⟩; exact ⟨rfl, rfl⟩)
  | dot _ _ _ _ _ ih =>
    rw [lexemes, Progress.tokens_append, List.append_assoc, Progress.tokens_of (by decide)]
    exact ih _ _ _ (by rintro _ ⟨⟩; exact ⟨rfl, rfl⟩)
  | index _ _ _ ih =>
    rw [lexemes, List.append_assoc, Progress.tokens_append, List.append_assoc]
    exact ih _ _ _ (by rintro _ ⟨⟩; exact ⟨rfl, rfl⟩)
  | negation h =>
    rw [lexemes, prefixed, if_pos rfl, List.cons_append, Progress.tokens_of (by decide)]
    refine ⟨_, _, rfl, rfl, fun _ => ?_⟩
    obtain ⟨t, ts, ht, hb⟩ := tokens_first h depth false ((p.next (of .ident "not")).next space)
    rw [List.singleton_append, Progress.tokens_space, ht]
    rintro _ ⟨⟩
    exact ⟨hb.comment, hb.equals⟩
  | sign ho =>
    rw [lexemes, prefixed, if_neg (sign_ne_not ho), List.singleton_append, Progress.tokens_of (by decide)]
    exact ⟨_, _, rfl, rfl, by rintro ⟨⟩⟩
  | @binary op lhs rhs level ho _ _ _ _ ihl _ =>
    rw [lexemes, List.append_assoc, List.cons_append, Progress.tokens_append, Progress.tokens_space,
      List.append_assoc]
    obtain ⟨t, ts, q, ht, hj⟩ := Progress.tokens_joint ho
      ((p.after (lexemes depth spread lhs)).next space) (space :: rhs.lexemes depth spread)
    rw [ht]
    exact ihl _ _ _ (by rintro _ ⟨⟩; exact ⟨hj.comment, hj.equals⟩)

end Expr

namespace Reading

theorem argumentLabel_plain {t : Token} {ts : List Token} (ht : t.isComment = false)
    (hts : t.kind = .ident → (ts.find? (!·.isComment)).any (·.isOperator "=") = false) (line : Nat) :
    argumentLabel ⟨line, t :: ts⟩ = .done .bare ⟨line, t :: ts⟩ := by
  have hno : ((some t).any (·.kind == .ident) &&
      (ts.find? (!·.isComment)).any (·.isOperator "=")) = false := by
    by_cases hk : t.kind = .ident
    · rw [hts hk, Bool.and_false]
    · simp [hk]
  rw [argumentLabel, bind_done (ahead_cons ht line ts)]
  dsimp only
  rw [hno]
  rfl

theorem argumentLabel_bare {t : Token} {ts : List Token} (ht : t.isComment = false)
    (hts : t.kind = .ident → ∀ u ∈ ts.head?, u.isComment = false ∧ u.isOperator "=" = false) (line : Nat) :
    argumentLabel ⟨line, t :: ts⟩ = .done .bare ⟨line, t :: ts⟩ := by
  refine argumentLabel_plain ht (fun hk => ?_) line
  cases ts with
  | nil => rfl
  | cons u ts =>
    obtain ⟨hc, he⟩ := hts hk u rfl
    simp [hc, he]

theorem argumentLabel_name (name : String) {t u : Token} (ht : t.kind = .ident) (hname : t.text = name)
    (hu : u.kind = .operator) (heq : u.text = "=") (line : Nat) (rest : List Token) :
    argumentLabel ⟨line, t :: u :: rest⟩ = .done (.name name) ⟨u.endLine, rest⟩ := by
  have htc : t.isComment = false := by simp [Token.isComment, ht]
  have huc : u.isComment = false := by simp [Token.isComment, hu]
  have hue : symbol "=" u = true := by simp [symbol, Token.isOperator, hu, heq]
  have hyes : ((some t).any (·.kind == .ident) &&
      ((u :: rest).find? (!·.isComment)).any (·.isOperator "=")) = true := by
    simp [ht, huc, Token.isOperator, hu, heq]
  rw [argumentLabel, bind_done (ahead_cons htc line _)]
  dsimp only
  rw [hyes, if_pos rfl, bind_done (token_cons htc _ _), bind_done (expect_cons huc hue _ _), hname]
  rfl

end Reading

theorem Level.enough_le {level : Level} {tokens : List Token} {bound fuel : Nat}
    (hb : tokens.length ≤ bound) (hf : 20 * bound + 17 ≤ fuel + 1) : level.enough tokens ≤ fuel := by
  unfold Level.enough
  omega

theorem Level.enough_of_succ {level : Level} {tokens : List Token} {fuel : Nat}
    (hf : 20 * (tokens.length + 1) ≤ fuel) : level.enough tokens ≤ fuel := by
  unfold Level.enough
  omega

theorem Level.enough_of_cons {level : Level} {tokens : List Token} {fuel : Nat}
    (hf : 20 * (tokens.length + 1) + 4 ≤ fuel + 2) : level.enough tokens ≤ fuel := by
  unfold Level.enough
  omega

namespace Item

variable {i : Item} {bound fuel : Nat}

theorem reads_element (hl : i.label = .bare) (hv : i.value.Leads .disjunction)
    (hf : 20 * bound + 17 ≤ fuel) : i.Reads (Reading.element fuel) bound := by
  intro depth spread p line rest hc hb
  obtain ⟨fuel, rfl⟩ : ∃ k, fuel = k + 1 := ⟨fuel - 1, by omega⟩
  rw [body, hl, Label.lexemes, List.nil_append] at hb ⊢
  obtain ⟨line', h⟩ := (hv depth spread).reads p line rest fuel hc
    (by simp only [Level.enough, Level.rank]; omega)
  exact ⟨line', by rw [Reading.element, bind_done h]; rfl⟩

theorem reads_entry {key : Expr} (hl : i.label = .key key) (hk : key.Leads .disjunction)
    (hv : i.value.Leads .disjunction) (hf : 20 * bound + 17 ≤ fuel) : i.Reads (entry fuel) bound := by
  intro depth spread p line rest hc hb
  obtain ⟨fuel, rfl⟩ : ∃ k, fuel = k + 1 := ⟨fuel - 1, by omega⟩
  rw [body, hl, Label.lexemes, List.append_assoc, List.cons_append, List.singleton_append,
    Progress.tokens_append, Progress.tokens_of (by decide), Progress.tokens_space, List.append_assoc,
    List.cons_append] at hb ⊢
  generalize ((p.after (key.lexemes depth false)).next (of .operator ":")).next space = q at hb ⊢
  obtain ⟨line₁, hkey⟩ := (hk depth false).reads p line (_ :: (q.tokens (i.value.lexemes depth spread) ++ rest))
    fuel (Token.clear_colon rfl rfl _) (Level.enough_le hb hf)
  simp only [List.length_append, List.length_cons] at hb
  obtain ⟨line₂, hvalue⟩ := (hv depth spread).reads q _ rest fuel hc
    (by simp only [Level.enough, Level.rank, List.length_append]; omega)
  refine ⟨line₂, ?_⟩
  rw [entry, bind_done hkey, bind_done (expect_cons rfl rfl _ _), bind_done hvalue]
  rfl

theorem reads_argument (hs : i.label.Suits .round) (hfit : i.value.Fits true)
    (hv : i.value.Leads .disjunction) (hf : 20 * bound + 17 ≤ fuel) :
    i.Reads (argument fuel) bound := by
  intro depth spread p line rest hc hb
  obtain ⟨fuel, rfl⟩ : ∃ k, fuel = k + 1 := ⟨fuel - 1, by omega⟩
  unfold body at hb ⊢
  cases hl : i.label with
  | bare =>
    rw [hl, Label.lexemes, List.nil_append] at hb
    rw [Label.lexemes, List.nil_append]
    obtain ⟨t, ts, hts, ht, hsecond⟩ := Expr.tokens_second hfit depth spread p
      fun u hu => ⟨(hc u hu).comment, (hc u hu).equals⟩
    obtain ⟨line', h⟩ := (hv depth spread).reads p line rest fuel hc
      (by simp only [Level.enough, Level.rank]; omega)
    refine ⟨line', ?_⟩
    rw [hts] at h ⊢
    rw [argument, bind_done (argumentLabel_bare ht hsecond line), bind_done h]
    rfl
  | name name =>
    rw [hl] at hb
    simp only [Label.lexemes, List.cons_append, List.nil_append, Progress.tokens_space,
      Progress.tokens_of (by decide : Token.Kind.ident ≠ .newline),
      Progress.tokens_of (by decide : Token.Kind.operator ≠ .newline)] at hb ⊢
    generalize (((p.next (of .ident name)).next space).next (of .operator "=")).next space = q at hb ⊢
    simp only [List.length_append, List.length_cons] at hb
    obtain ⟨line', h⟩ := (hv depth spread).reads q _ rest fuel hc
      (by simp only [Level.enough, Level.rank, List.length_append]; omega)
    refine ⟨line', ?_⟩
    rw [argument, bind_done (argumentLabel_name name rfl (by simp) rfl rfl line _), bind_done h]
    rfl
  | key key =>
    rw [hl] at hs
    exact hs.elim

end Item
namespace Expr

theorem leads_operand {e : Expr}
    (h : ∀ (depth : Nat) (spread : Bool) (p : Progress) (line : Nat) (rest : List Token) (fuel : Nat),
      Token.Clear 12 rest → 20 * (p.tokens (e.lexemes depth spread) ++ rest).length + 4 ≤ fuel →
        ∃ line', operand fuel ⟨line, p.tokens (e.lexemes depth spread) ++ rest⟩ = .done e ⟨line', rest⟩) :
    e.Leads .access := by
  intro depth spread p line rest fuel hc hf
  simp only [Level.enough, Level.rank] at hf
  obtain ⟨fuel, rfl⟩ : ∃ k, fuel = k + 1 := ⟨fuel - 1, by omega⟩
  obtain ⟨line', h⟩ := h depth spread p line rest fuel hc (by omega)
  refine ⟨line', fuel, ?_, by rw [expr, bind_done h]; rfl⟩
  rw [List.length_append] at hf
  omega

theorem isComment_of_isName {t : Token} (h : isName t = true) : t.isComment = false := by
  have : t.kind = .ident := by simpa using (Bool.and_eq_true_iff.mp h).1
  simp [Token.isComment, this]

theorem LeadsOver.name {t : Token} (ht : isName t = true) : (ident t.text).LeadsOver [t] .access := by
  intro line rest fuel _ hf
  simp only [Level.enough, Level.rank, List.length_append, List.length_singleton] at hf
  obtain ⟨fuel, rfl⟩ : ∃ k, fuel = k + 2 := ⟨fuel - 2, by omega⟩
  have hkind : t.kind = .ident := by simpa using (Bool.and_eq_true_iff.mp ht).1
  have hoperand : operand (fuel + 1) ⟨line, t :: rest⟩ = .done (ident t.text) ⟨t.endLine, rest⟩ := by
    rw [operand, bind_done (token_cons (isComment_of_isName ht) _ _)]
    simp only [hkind, ht, if_true]
    rfl
  refine ⟨t.endLine, fuel + 1, by omega, ?_⟩
  rw [List.singleton_append, expr, bind_done hoperand]
  rfl

theorem leads_ident {name : String} (hr : name ∉ reserved) : (ident name).Leads .access := by
  intro depth spread p
  have hname : isName (p.token .ident name.toList) = true := by simp [isName, hr]
  have := LeadsOver.name hname
  rw [Progress.token_text, String.ofList_toList] at this
  rw [lexemes, Progress.tokens_of (by decide), Progress.tokens_nil]
  exact this

theorem leads_number (text : String) : (number text).Leads .access := by
  refine leads_operand fun depth spread p line rest fuel _ hf => ?_
  obtain ⟨fuel, rfl⟩ : ∃ k, fuel = k + 1 := ⟨fuel - 1, by omega⟩
  rw [lexemes, Progress.tokens_of (by decide), List.cons_append]
  refine ⟨(p.token .number text.toList).endLine, ?_⟩
  rw [operand, bind_done (token_cons rfl _ _)]
  simp only [Progress.token_kind, Progress.token_text, String.ofList_toList]
  rfl

theorem leads_string (value spelling : String) : (string value (some spelling)).Leads .access := by
  refine leads_operand fun depth spread p line rest fuel hc hf => ?_
  obtain ⟨fuel, rfl⟩ : ∃ k, fuel = k + 1 := ⟨fuel - 1, by omega⟩
  rw [lexemes, Option.getD_some, Progress.tokens_of (by simp), List.cons_append]
  refine ⟨(p.token (.string value) spelling.toList).endLine, ?_⟩
  rw [operand, bind_done (token_cons rfl _ _)]
  simp only [Progress.token_kind, Progress.token_text, String.ofList_toList]
  cases rest with
  | nil => rfl
  | cons t rest =>
    have ht := hc t rfl
    change (ahead >>= _) ⟨_, t :: rest⟩ = _
    rw [bind_done (ahead_cons ht.comment _ _)]
    simp only [Option.any_some, ht.string, Bool.false_eq_true, if_false]
    rfl

theorem pending_opening (p : Progress) (b : Bracket) : (p.next (Lexeme.opening b)).pending ≠ [] := by
  simp [Progress.next, Lexeme.opening]

theorem sequence_brackets {read : Nat → Reading (Label × Expr)} (b : Bracket) {s : Sequence}
    (hreads : ∀ i ∈ s.items, ∀ bound fuel, 20 * bound + 17 ≤ fuel → i.Reads (read fuel) bound)
    (hfits : ∀ i ∈ s.items, i.All (Fits true)) (depth : Nat) (lines spread : Bool)
    (hlines : lines = false → s.hasComments = false) (p : Progress) (line : Nat) (rest : List Token)
    (fuel : Nat)
    (hf : 20 * ((p.next (Lexeme.opening b)).tokens
      (s.lexemes depth lines spread ++ [Lexeme.closing b]) ++ rest).length + 17 ≤ fuel) :
    ∃ line', sequence (read fuel) b fuel ⟨line, (p.next (Lexeme.opening b)).tokens
      (s.lexemes depth lines spread ++ [Lexeme.closing b]) ++ rest⟩ = .done s ⟨line', rest⟩ :=
  sequence_lexemes (fun i hi => hreads i hi _ fuel hf) hfits depth spread hlines (pending_opening p b)
    line rest fuel (Nat.le_refl _) (by rw [List.length_append] at hf; omega)

theorem leads_list {s : Sequence} (hs : s.Framed .square) (hfits : ∀ i ∈ s.items, i.value.Fits true)
    (h : ∀ i ∈ s.items, i.value.Leads .disjunction) : (list s).Leads .access := by
  refine leads_operand fun depth spread p line rest fuel hc hf => ?_
  obtain ⟨fuel, rfl⟩ : ∃ k, fuel = k + 1 := ⟨fuel - 1, by omega⟩
  rw [lexemes, List.cons_append, Progress.tokens_opening, List.cons_append] at hf ⊢
  generalize hl : (s.hasComments || (spread && decide (s.items.length > 1))) = lines at hf ⊢
  have hlabel : ∀ i ∈ s.items, i.label = .bare := fun i hi => by
    have := hs.labels i hi
    cases hl : i.label <;> rw [hl] at this <;> first | rfl | exact this.elim
  obtain ⟨line', hread⟩ := sequence_brackets .square
    (fun i hi bound fuel hf => Item.reads_element (hlabel i hi) (h i hi) hf) (hs.all (by decide) hfits)
    depth lines spread (fun h => (Bool.or_eq_false_iff.mp (hl.trans h)).1) p
    (p.token (.opening .square) [Bracket.square.opening]).endLine rest fuel
    (by rw [List.length_cons] at hf; omega)
  refine ⟨line', ?_⟩
  rw [operand, bind_done (token_cons rfl _ _)]
  change (sequence _ _ _ >>= _) _ = _
  rw [bind_done hread]
  rfl

theorem leads_dict {s : Sequence} (hs : s.Framed .curly) (hfits : ∀ i ∈ s.items, i.All (Fits true))
    (h : ∀ i ∈ s.items, i.All (Leads · .disjunction)) : (dict s).Leads .access := by
  refine leads_operand fun depth spread p line rest fuel hc hf => ?_
  obtain ⟨fuel, rfl⟩ : ∃ k, fuel = k + 1 := ⟨fuel - 1, by omega⟩
  rw [lexemes, List.cons_append, Progress.tokens_opening, List.cons_append] at hf ⊢
  generalize hl : (s.hasComments || (spread && !s.items.isEmpty)) = lines at hf ⊢
  have hlabel : ∀ i ∈ s.items, ∃ key, i.label = .key key := fun i hi => by
    have := hs.labels i hi
    cases hl : i.label <;> rw [hl] at this <;> first | exact this.elim | exact ⟨_, rfl⟩
  obtain ⟨line', hread⟩ := sequence_brackets .curly
    (fun i hi bound fuel hf => by
      obtain ⟨key, hl⟩ := hlabel i hi
      exact Item.reads_entry hl ((h i hi).2 key hl) (h i hi).1 hf)
    hfits depth lines spread (fun h => (Bool.or_eq_false_iff.mp (hl.trans h)).1) p
    (p.token (.opening .curly) [Bracket.curly.opening]).endLine rest fuel
    (by rw [List.length_cons] at hf; omega)
  refine ⟨line', ?_⟩
  rw [operand, bind_done (token_cons rfl _ _)]
  change (sequence _ _ _ >>= _) _ = _
  rw [bind_done hread]
  rfl

theorem operand_parenthesized {p : Progress} {line line' fuel : Nat} {ts rest : List Token} {e : Expr}
    (h : parenthesized fuel ⟨(p.token (.opening .round) ['(']).endLine, ts⟩ = .done e ⟨line', rest⟩) :
    operand (fuel + 1) ⟨line, p.token (.opening .round) ['('] :: ts⟩ = .done e ⟨line', rest⟩ := by
  rw [operand, bind_done (token_cons rfl _ _)]
  exact h

theorem parenthesized_closing {line fuel : Nat} {close : Token} (hclose : close.kind = .closing .round)
    (rest : List Token) :
    parenthesized (fuel + 1) ⟨line, close :: rest⟩ = .done (.tuple []) ⟨close.endLine, rest⟩ := by
  have hcc : close.isComment = false := by simp [Token.isComment, hclose]
  rw [parenthesized, bind_done (token?_cons hcc (by simp [Reading.closing, hclose]) _ _)]
  rfl

theorem parenthesized_first {line line' fuel : Nat} {ts rest : List Token} {t : Token} {e : Expr}
    (hts : ts.head? = some t) (ht : t.isComment = false ∧ Reading.closing .round t = false)
    (h : expr fuel .disjunction ⟨line, ts⟩ = .done e ⟨line', rest⟩) :
    parenthesized (fuel + 1) ⟨line, ts⟩ =
      (do
        if (← token? (Reading.closing .round)).isSome then return .paren e
        let others ← tupleRest (expr fuel .disjunction) fuel
        return .tuple (e :: others) : Reading Expr) ⟨line', rest⟩ := by
  rw [parenthesized, bind_done (token?_none (by rw [hts]; rintro _ ⟨⟩; exact ht) _)]
  simp only [Option.isSome_none, Bool.false_eq_true, if_false]
  rw [bind_done h]

theorem leads_paren {inner : Expr} (hfit : inner.Fits true) (h : inner.Leads .disjunction) :
    (paren inner).Leads .access := by
  refine leads_operand fun depth spread p line rest fuel hc hf => ?_
  obtain ⟨fuel, rfl⟩ : ∃ k, fuel = k + 2 := ⟨fuel - 2, by omega⟩
  rw [lexemes, List.cons_append, Progress.tokens_opening, List.cons_append, Progress.tokens_append,
    List.append_assoc] at hf ⊢
  generalize p.next (Lexeme.opening .round) = q at hf ⊢
  generalize hclose : (q.after (inner.lexemes depth false)).tokens [Lexeme.closing .round] = ts at hf ⊢
  obtain ⟨close, rfl, hk⟩ : ∃ close, ts = [close] ∧ close.kind = .closing .round :=
    ⟨_, hclose.symm, rfl⟩
  obtain ⟨line', hread⟩ := (h depth false).reads q (p.token (.opening .round) ['(']).endLine
    ([close] ++ rest) fuel (Token.clear_closing hk _) (by
      rw [List.length_cons] at hf
      exact Level.enough_le (Nat.le_refl _) (by omega))
  obtain ⟨t, ts, ht, hb⟩ := tokens_first hfit depth false q
  have hcc : close.isComment = false := by simp [Token.isComment, hk]
  refine ⟨close.endLine, operand_parenthesized ?_⟩
  rw [parenthesized_first (by rw [ht]; rfl) ⟨hb.comment, hb.closing .round⟩ hread, List.singleton_append,
    bind_done (token?_cons hcc (by simp [Reading.closing, hk]) _ _)]
  rfl

theorem parenthesized_tuple {line line' line'' fuel : Nat} {ts us rest : List Token} {t c : Token}
    {e : Expr} {es : List Expr} (hts : ts.head? = some t)
    (ht : t.isComment = false ∧ Reading.closing .round t = false)
    (h : expr fuel .disjunction ⟨line, ts⟩ = .done e ⟨line', c :: us⟩) (hc : c.kind = .operator)
    (hes : tupleRest (expr fuel .disjunction) fuel ⟨line', c :: us⟩ = .done es ⟨line'', rest⟩) :
    parenthesized (fuel + 1) ⟨line, ts⟩ = .done (.tuple (e :: es)) ⟨line'', rest⟩ := by
  have hcc : c.isComment = false ∧ Reading.closing .round c = false := by
    simp [Token.isComment, Reading.closing, hc]
  rw [parenthesized_first hts ht h, bind_done (token?_none (by rintro _ ⟨⟩; exact hcc) _)]
  simp only [Option.isSome_none, Bool.false_eq_true, if_false]
  rw [bind_done hes]
  rfl

theorem tupleRest_closing {read : Reading Expr} {c close : Token} (hc : c.kind = .operator ∧ c.text = ",")
    (hclose : close.kind = .closing .round) (line count : Nat) (rest : List Token) :
    tupleRest read (count + 1) ⟨line, c :: close :: rest⟩ = .done [] ⟨close.endLine, rest⟩ := by
  have hcc : c.isComment = false := by simp [Token.isComment, hc.1]
  have hcl : close.isComment = false := by simp [Token.isComment, hclose]
  rw [tupleRest, bind_done (expect_cons hcc (by simp [symbol, Token.isOperator, hc]) _ _),
    bind_done (token?_cons hcl (by simp [Reading.closing, hclose]) _ _)]
  rfl

theorem tupleRest_item {line line' fuel count : Nat} {ts rest : List Token} {t c : Token} {e : Expr}
    (hc : c.kind = .operator ∧ c.text = ",") (hts : ts.head? = some t)
    (ht : t.isComment = false ∧ Reading.closing .round t = false)
    (h : expr fuel .disjunction ⟨c.endLine, ts⟩ = .done e ⟨line', rest⟩) :
    tupleRest (expr fuel .disjunction) (count + 1) ⟨line, c :: ts⟩ =
      (do
        if (← token? (Reading.closing .round)).isSome then return [e]
        return e :: (← tupleRest (expr fuel .disjunction) count) : Reading (List Expr)) ⟨line', rest⟩ := by
  have hcc : c.isComment = false := by simp [Token.isComment, hc.1]
  rw [tupleRest, bind_done (expect_cons hcc (by simp [symbol, Token.isOperator, hc]) _ _),
    bind_done (token?_none (by rw [hts]; rintro _ ⟨⟩; exact ht) _)]
  simp only [Option.isSome_none, Bool.false_eq_true, if_false]
  rw [bind_done h]

theorem tupleRest_lexemes {es : List Expr} (hes : es ≠ []) (hfits : ∀ e ∈ es, e.Fits true)
    (h : ∀ e ∈ es, e.Leads .disjunction) (depth : Nat) (q : Progress) (line : Nat) (rest : List Token)
    (bound fuel count : Nat) (hf : 20 * bound + 17 ≤ fuel + 1)
    (hb : (q.tokens (comma :: space :: (allLexemes depth es ++ [Lexeme.closing .round])) ++ rest).length ≤
      bound)
    (hcount : (q.tokens (comma :: space :: (allLexemes depth es ++ [Lexeme.closing .round])) ++
      rest).length ≤ count) :
    ∃ line', tupleRest (expr fuel .disjunction) count
      ⟨line, q.tokens (comma :: space :: (allLexemes depth es ++ [Lexeme.closing .round])) ++ rest⟩ =
        .done es ⟨line', rest⟩ := by
  induction es generalizing q line count with
  | nil => exact absurd rfl hes
  | cons e es ih =>
    simp only [List.forall_mem_cons] at hfits h
    rw [comma, Progress.tokens_of (by decide), Progress.tokens_space, allLexemes, List.append_assoc,
      List.append_assoc, Progress.tokens_append, List.cons_append, List.append_assoc] at hb hcount ⊢
    obtain ⟨count, rfl⟩ : ∃ k, count = k + 1 := ⟨count - 1, by rw [List.length_cons] at hcount; omega⟩
    generalize (q.next (of .operator ",")).next space = q' at hb hcount ⊢
    obtain ⟨t, ts, ht, hbegins⟩ := tokens_first hfits.1 depth false q'
    cases es with
    | nil =>
      simp only [List.isEmpty_nil, if_true, allLexemes, List.nil_append, Progress.tokens_closing,
        Progress.tokens_nil, List.cons_append] at hb ⊢
      obtain ⟨line', hread⟩ := (h.1 depth false).reads q' (q.token .operator ",".toList).endLine
        ((q'.after (e.lexemes depth false)).token (.closing .round) [Bracket.round.closing] :: rest) fuel
        (Token.clear_closing rfl _) (Level.enough_le (Nat.le_of_succ_le hb) hf)
      refine ⟨((q'.after (e.lexemes depth false)).token (.closing .round) [')']).endLine, ?_⟩
      rw [tupleRest_item ⟨rfl, rfl⟩ (by rw [ht]; rfl) ⟨hbegins.comment, hbegins.closing .round⟩ hread,
        bind_done (token?_cons rfl rfl _ _)]
      rfl
    | cons e' es =>
      have hcomma := Progress.tokens_of (by decide : Token.Kind.operator ≠ .newline)
        (q'.after (e.lexemes depth false)) "," (space :: (allLexemes depth (e' :: es) ++ [Lexeme.closing .round]))
      simp only [List.isEmpty_cons, Bool.false_eq_true, if_false, List.cons_append, List.nil_append]
        at hb hcount ⊢
      obtain ⟨line', hread⟩ := (h.1 depth false).reads q' (q.token .operator ",".toList).endLine _ fuel
        (by rw [comma, hcomma]; exact Token.clear_comma rfl rfl _) (Level.enough_le (Nat.le_of_succ_le hb) hf)
      obtain ⟨line'', hrest⟩ := ih (by simp) hfits.2 h.2 (q'.after (e.lexemes depth false)) line'
        count (by simp only [List.length_append, List.length_cons] at hb ⊢; omega)
        (by simp only [List.length_append, List.length_cons] at hcount ⊢; omega)
      refine ⟨line'', ?_⟩
      rw [tupleRest_item ⟨rfl, rfl⟩ (by rw [ht]; rfl) ⟨hbegins.comment, hbegins.closing .round⟩ hread,
        bind_done (token?_none (by rw [comma, hcomma]; rintro _ ⟨⟩; exact ⟨rfl, rfl⟩) _)]
      simp only [Option.isSome_none, Bool.false_eq_true, if_false]
      rw [bind_done hrest]
      rfl

theorem leads_tuple {items : List Expr} (hfits : ∀ e ∈ items, e.Fits true)
    (h : ∀ e ∈ items, e.Leads .disjunction) : (tuple items).Leads .access := by
  refine leads_operand fun depth spread p line rest fuel hc hf => ?_
  obtain ⟨fuel, rfl⟩ : ∃ k, fuel = k + 2 := ⟨fuel - 2, by omega⟩
  cases items with
  | nil =>
    exact ⟨_, operand_parenthesized (parenthesized_closing rfl rest)⟩
  | cons e es =>
    simp only [List.forall_mem_cons] at hfits h
    rw [lexemes, List.cons_append, List.cons_append, Progress.tokens_opening, List.cons_append,
      allLexemes, List.append_assoc, List.append_assoc, List.append_assoc, Progress.tokens_append,
      List.append_assoc] at hf ⊢
    generalize p.next (Lexeme.opening .round) = q at hf ⊢
    obtain ⟨t, ts, ht, hbegins⟩ := tokens_first hfits.1 depth false q
    have hsymbol := Progress.tokens_of (by decide : Token.Kind.operator ≠ .newline)
      (q.after (e.lexemes depth false)) ","
    cases es with
    | nil =>
      simp only [List.isEmpty_nil, if_true, allLexemes, List.nil_append, List.length_singleton, comma,
        List.cons_append, hsymbol, Progress.tokens_closing, Progress.tokens_nil] at hf ⊢
      obtain ⟨line', hread⟩ := (h.1 depth false).reads q (p.token (.opening .round) ['(']).endLine
        _ fuel (Token.clear_comma rfl rfl _) (Level.enough_of_cons hf)
      obtain ⟨fuel, rfl⟩ : ∃ k, fuel = k + 1 := ⟨fuel - 1, by simp only [List.length_cons] at hf; omega⟩
      exact ⟨_, operand_parenthesized (parenthesized_tuple (by rw [ht]; rfl)
        ⟨hbegins.comment, hbegins.closing .round⟩ hread rfl (tupleRest_closing ⟨rfl, rfl⟩ rfl _ _ _))⟩
    | cons e' es =>
      simp only [List.isEmpty_cons, Bool.false_eq_true, if_false, List.length_cons,
        Nat.add_eq_right, Nat.add_eq_zero_iff, Nat.one_ne_zero, and_false, List.nil_append,
        List.cons_append] at hf ⊢
      obtain ⟨line', hread⟩ := (h.1 depth false).reads q (p.token (.opening .round) ['(']).endLine
        _ fuel (by rw [comma, hsymbol]; exact Token.clear_comma rfl rfl _) (Level.enough_of_cons hf)
      have hlength : (q.tokens (e.lexemes depth false)).length = ts.length + 1 := by rw [ht]; rfl
      simp only [List.length_append] at hf
      obtain ⟨line'', hrest⟩ := tupleRest_lexemes (by simp) hfits.2 h.2 depth
        (q.after (e.lexemes depth false)) line' rest _ fuel fuel
        (by simp only [List.length_append]; omega) (Nat.le_refl _) (by rw [List.length_append]; omega)
      rw [comma, hsymbol] at hread hrest ⊢
      exact ⟨line'', operand_parenthesized (parenthesized_tuple (by rw [ht]; rfl)
        ⟨hbegins.comment, hbegins.closing .round⟩ hread rfl hrest)⟩

theorem clear_access (rank : Nat) {t : Token} {rest : List Token} (ht : t.isComment = false ∧
    t.isString = false ∧ t.isOperator "=" = false) (hlevel : ∀ level : Level, ∀ next, level.operator? t next = none)
    (hr : Level.access.rank < rank) : Token.Clear rank (t :: rest) := by
  rintro _ ⟨⟩
  exact ⟨ht.1, ht.2.1, ht.2.2, fun level _ => hlevel level _, fun hle => absurd hle (Nat.not_le.mpr hr)⟩

theorem clear_opening {t : Token} {b : Bracket} (ht : t.kind = .opening b) (rest : List Token) :
    Token.Clear 12 (t :: rest) := by
  refine clear_access 12 ?_ (fun level next => ?_) (by decide)
  · simp [Token.isComment, Token.isString, Token.isOperator, ht]
  · simp [Level.operator?, Token.isKeyword, ht]

theorem clear_dot {t : Token} (hk : t.kind = .operator) (ht : t.text = ".") (rest : List Token) :
    Token.Clear 12 (t :: rest) := by
  refine clear_access 12 ?_ (fun level next => ?_) (by decide)
  · simp [Token.isComment, Token.isString, Token.isOperator, hk, ht]
  · rw [Level.operator?_symbol hk, ht, if_neg]
    cases level <;> decide

theorem LeadsOver.base {e : Expr} {ts : List Token} (h : e.LeadsOver ts .access) (line : Nat) {fuel : Nat}
    {rest : List Token} (hc : Token.Clear 12 rest) (hf : Level.access.enough (ts ++ rest) ≤ fuel) :
    ∃ line' fuel', 20 * rest.length ≤ fuel' ∧
      expr fuel .access ⟨line, ts ++ rest⟩ = accesses (fuel' + 1) e ⟨line', rest⟩ := by
  obtain ⟨line', fuel', hfuel, h⟩ := h line rest fuel hc hf
  exact ⟨line', fuel' - 1, by omega, by rw [h, Nat.sub_add_cancel (by omega)]; rfl⟩

theorem LeadsOver.dot {base : Expr} {ts : List Token} {t name : Token} (hb : base.LeadsOver ts .access)
    (ht : t.kind = .operator ∧ t.text = ".") (hname : isName name = true) :
    (Expr.dot base name.text).LeadsOver (ts ++ [t, name]) .access := by
  intro line rest fuel _ hf
  rw [List.append_assoc, List.cons_append, List.cons_append, List.nil_append] at hf ⊢
  obtain ⟨line₁, fuel, hfuel, hread⟩ := hb.base line (clear_dot ht.1 ht.2 _) hf
  have htc : t.isComment = false := by simp [Token.isComment, ht]
  have hno (b : Bracket) : token? (opening b) ⟨line₁, t :: name :: rest⟩ = .done none ⟨line₁, _⟩ :=
    token?_none (by rintro _ ⟨⟩; exact ⟨htc, by simp [Reading.opening, ht]⟩) _
  refine ⟨name.endLine, fuel, ?_, ?_⟩
  · simp only [List.length_cons] at hfuel
    omega
  · rw [hread, accesses, bind_done (hno .round)]
    simp only [Option.isSome_none, Bool.false_eq_true, if_false]
    rw [bind_done (hno .square)]
    simp only [Option.isSome_none, Bool.false_eq_true, if_false]
    rw [bind_done (token?_cons htc (by simp [symbol, Token.isOperator, ht]) _ _)]
    simp only [Option.isSome_some, if_true]
    rw [bind_done (token_cons (isComment_of_isName hname) _ _), hname, if_pos rfl]
    rfl

def callLexemes (callee : Expr) (s : Sequence) (depth : Nat) (lines spread : Bool) : List Lexeme :=
  callee.lexemes depth false ++ Lexeme.opening .round :: s.lexemes depth lines spread ++
    [Lexeme.closing .round]

theorem leadsFrom_call {callee : Expr} {s : Sequence} (hc : callee.Leads .access) (hs : s.Framed .round)
    (hfits : ∀ i ∈ s.items, i.value.Fits true) (h : ∀ i ∈ s.items, i.value.Leads .disjunction)
    (depth : Nat) {lines : Bool} (spread : Bool) (hlines : lines = false → s.hasComments = false) :
    (call callee s).LeadsFrom (callLexemes callee s depth lines spread) .access := by
  intro p line rest fuel _ hf
  rw [callLexemes, List.append_assoc, List.cons_append, Progress.tokens_append, Progress.tokens_opening,
    List.append_assoc, List.cons_append] at hf ⊢
  obtain ⟨line₁, fuel, hfuel, hread⟩ := ((hc depth false).leadsOver p).base line (clear_opening rfl _) hf
  rw [hread]
  rw [List.length_cons] at hfuel
  obtain ⟨line₂, hargs⟩ := sequence_brackets .round
    (fun i hi bound fuel hf => Item.reads_argument (hs.labels i hi) (hfits i hi) (h i hi) hf)
    (hs.all (by decide) hfits) depth lines spread hlines (p.after (callee.lexemes depth false))
    ((p.after (callee.lexemes depth false)).token (.opening .round) [Bracket.round.opening]).endLine rest fuel
    (by omega)
  refine ⟨line₂, fuel, by rw [List.length_append] at hfuel; omega, ?_⟩
  rw [accesses, bind_done (token?_cons rfl rfl _ _)]
  simp only [Option.isSome_some, if_true]
  rw [bind_done hargs]
  rfl

theorem leads_call {callee : Expr} {s : Sequence} (hc : callee.Leads .access) (hs : s.Framed .round)
    (hfits : ∀ i ∈ s.items, i.value.Fits true) (h : ∀ i ∈ s.items, i.value.Leads .disjunction) :
    (call callee s).Leads .access :=
  fun depth _ => leadsFrom_call hc hs hfits h depth false id

theorem leads_index {base index : Expr} (hb : base.Leads .access) (hi : index.Leads .disjunction) :
    (Expr.index base index).Leads .access := by
  intro depth spread p line rest fuel _ hf
  rw [lexemes, List.append_assoc, List.cons_append, Progress.tokens_append, Progress.tokens_opening,
    List.append_assoc, List.cons_append] at hf ⊢
  obtain ⟨line₁, fuel, hfuel, hread⟩ := ((hb depth false).leadsOver p).base line (clear_opening rfl _) hf
  rw [hread]
  generalize (p.after (base.lexemes depth false)).next (Lexeme.opening .square) = q at hfuel ⊢
  rw [Progress.tokens_append, List.append_assoc, List.length_cons, Progress.tokens_closing,
    List.cons_append, Progress.tokens_nil, List.nil_append] at hfuel
  rw [Progress.tokens_append, List.append_assoc, Progress.tokens_closing, List.cons_append,
    Progress.tokens_nil, List.nil_append]
  obtain ⟨line₂, hindex⟩ := (hi depth false).reads q
    ((p.after (base.lexemes depth false)).token (.opening .square) [Bracket.square.opening]).endLine _ fuel
    (Token.clear_closing rfl rest) (Level.enough_of_succ hfuel)
  refine ⟨((q.after (index.lexemes depth false)).token (.closing .square) [']']).endLine, fuel, ?_, ?_⟩
  · simp only [List.length_append, List.length_cons] at hfuel
    omega
  · rw [accesses, bind_done (token?_none (by rintro _ ⟨⟩; exact ⟨rfl, rfl⟩) _)]
    simp only [Option.isSome_none, Bool.false_eq_true, if_false]
    rw [bind_done (token?_cons rfl rfl _ _)]
    simp only [Option.isSome_some, if_true]
    rw [bind_done hindex, bind_done (expect_cons rfl rfl _ _)]
    rfl

theorem leads_dot {base : Expr} {name : String} (hb : base.Leads .access) (hr : name ∉ reserved) :
    (dot base name).Leads .access := by
  intro depth spread p
  rw [lexemes, Progress.tokens_append, Progress.tokens_of (by decide), Progress.tokens_of (by decide),
    Progress.tokens_nil]
  generalize hq : (p.after (base.lexemes depth false)).next (of .operator ".") = q
  have hname : isName (q.token .ident name.toList) = true := by simp [isName, hr]
  have hdot := ((hb depth false).leadsOver p).dot (t := (p.after (base.lexemes depth false)).token .operator ".".toList)
    ⟨rfl, rfl⟩ hname
  rw [Progress.token_text, String.ofList_toList] at hdot
  exact hdot

theorem leads_negation {operand : Expr} (h : operand.Leads .negation) :
    (unary "not" operand).Leads .negation := by
  intro depth spread p line rest fuel hc hf
  rw [lexemes, prefixed, if_pos rfl, List.cons_append, Progress.tokens_of (by decide),
    List.singleton_append, Progress.tokens_space, List.cons_append] at hf ⊢
  simp only [Level.enough, Level.rank, List.length_cons] at hf
  obtain ⟨fuel, rfl⟩ : ∃ k, fuel = k + 1 := ⟨fuel - 1, by omega⟩
  obtain ⟨line', fuel', hfuel', hread⟩ := h depth false ((p.next (of .ident "not")).next space)
    (p.token .ident "not".toList).endLine rest fuel hc (by simp only [Level.enough, Level.rank]; omega)
  refine ⟨line', fuel', hfuel', ?_⟩
  rw [expr, bind_done (token?_cons rfl rfl _ _)]
  simp only [Option.isSome_some, if_true]
  rw [bind_done hread]
  rfl

theorem leads_sign {op : String} {operand : Expr} (ho : op ∈ signs) (h : operand.Leads .sign) :
    (unary op operand).Leads .sign := by
  intro depth spread p line rest fuel hc hf
  rw [lexemes, prefixed, if_neg (sign_ne_not ho), List.singleton_append, Progress.tokens_of (by decide),
    List.cons_append] at hf ⊢
  simp only [Level.enough, Level.rank, List.length_cons] at hf
  obtain ⟨fuel, rfl⟩ : ∃ k, fuel = k + 1 := ⟨fuel - 1, by omega⟩
  obtain ⟨line', fuel', hfuel', hread⟩ := h depth false (p.next (of .operator op))
    (p.token .operator op.toList).endLine rest fuel hc (by simp only [Level.enough, Level.rank]; omega)
  refine ⟨line', fuel', hfuel', ?_⟩
  have hop : op = "-" ∨ op = "+" ∨ op = "~" := by simpa [signs] using ho
  rw [expr, bind_done (token?_cons rfl (by simp [hop]) _ _)]
  dsimp only
  rw [bind_done hread, Progress.token_text, String.ofList_toList]
  rfl

theorem operator?_joint {level : Level} {op : String} {t : Token} {ts : List Token}
    (h : Token.Joint level op t ts) (line : Nat) (rest : List Token) :
    ∃ line', operator? level ⟨line, t :: ts ++ rest⟩ = .done (some op) ⟨line', rest⟩ := by
  have hbehind := h.behind
  rw [operator?, List.cons_append, bind_done (ahead_cons h.comment _ _)]
  simp only [Option.bind_some, h.here rest]
  rw [bind_done (token_cons h.comment _ _)]
  split_ifs at hbehind ⊢ with hn
  · obtain ⟨u, rfl, hu⟩ := hbehind
    exact ⟨u.endLine, by rw [List.singleton_append, bind_done (token_cons hu _ _)]; rfl⟩
  · subst hbehind
    exact ⟨t.endLine, rfl⟩

theorem LeadsOver.binary {op : String} {lhs rhs : Expr} {level : Level} {ts js us : List Token} {t : Token}
    (ho : op ∈ level.operators) (hj : Token.Joint level op t js) (hl : lhs.LeadsOver ts level)
    (hr : rhs.LeadsOver us level.tighter) : (binary op lhs rhs).LeadsOver (ts ++ (t :: js ++ us)) level := by
  intro line rest fuel hc hf
  have hbin := Level.mem_binary ho
  have hne := Level.ne_access_of_mem ho
  rw [List.append_assoc, List.append_assoc] at hf ⊢
  obtain ⟨line₁, fuel₁, hfuel₁, hread⟩ := hl line _ fuel (hj.clear _) hf
  rw [hread, continued_binary hbin]
  obtain ⟨fuel₁, rfl⟩ : ∃ k, fuel₁ = k + 1 := ⟨fuel₁ - 1, by omega⟩
  obtain ⟨line₂, hop⟩ := operator?_joint hj line₁ (us ++ rest)
  rw [← Level.rank_tighter hne] at hc
  obtain ⟨line₃, hrhs⟩ := hr.reads line₂ rest fuel₁ hc
    (Level.enough_le (Nat.le_refl _)
      (by simp only [List.length_append, List.length_cons] at hfuel₁ ⊢; omega))
  refine ⟨line₃, fuel₁, by simp only [List.length_append, List.length_cons] at hfuel₁; omega, ?_⟩
  rw [operations, bind_done hop]
  dsimp only
  rw [bind_done hrhs, continued_binary hbin]

theorem leads_binary {op : String} {lhs rhs : Expr} {level : Level} (ho : op ∈ level.operators)
    (hl : lhs.Leads level) (hr : rhs.Leads level.tighter) : (binary op lhs rhs).Leads level := by
  intro depth spread p
  rw [lexemes, List.append_assoc, List.cons_append, Progress.tokens_append, Progress.tokens_space]
  obtain ⟨t, js, q, ht, hj⟩ := Progress.tokens_joint ho ((p.after (lhs.lexemes depth spread)).next space)
    (space :: rhs.lexemes depth spread)
  rw [ht, Progress.tokens_space]
  exact ((hl depth spread).leadsOver p).binary ho hj ((hr depth spread).leadsOver (q.next space))

theorem leads {e : Expr} (h : e.Fits true) : e.Leads e.level := by
  have hloose {e : Expr} (he : e.Fits true) (h : e.Leads e.level) : e.Leads .disjunction :=
    leads_of_le he h (Nat.zero_le _)
  induction h with
  | ident _ hr => exact leads_ident hr
  | number _ => exact leads_number _
  | fresh hf _ => cases hf
  | string _ => exact leads_string _ _
  | list hs hv ih => exact leads_list hs hv fun i hi => hloose (hv i hi) (ih i hi)
  | dict hs hk hv ihk ih =>
    exact leads_dict hs (fun i hi => ⟨hv i hi, hk i hi⟩) fun i hi =>
      ⟨hloose (hv i hi) (ih i hi), fun k hik => hloose (hk i hi k hik) (ihk i hi k hik)⟩
  | tuple hes ih => exact leads_tuple hes fun e he => hloose (hes e he) (ih e he)
  | paren hi ih => exact leads_paren hi (hloose hi ih)
  | call _ hl hs hv ihc ih =>
    exact leads_call (hl ▸ ihc) hs hv fun i hi => hloose (hv i hi) (ih i hi)
  | dot _ hl _ _ hr ih => exact leads_dot (hl ▸ ih) hr
  | index _ hl hi ihb ihi => exact leads_index (hl ▸ ihb) (hloose hi ihi)
  | negation ho hl ih =>
    rw [level_negation]
    exact leads_negation (leads_of_le ho ih hl)
  | sign hop ho hl ih =>
    rw [level_sign hop]
    exact leads_sign hop (leads_of_le ho ih hl)
  | binary hop hl hll hr hrl ihl ihr =>
    rw [level_binary hop]
    refine leads_binary hop (leads_of_le hl ihl hll) (leads_of_le hr ihr ?_)
    rw [Level.rank_tighter (Level.ne_access_of_mem hop)]
    exact hrl

theorem ofTokens?_callLexemes {callee : Expr} {s : Sequence} (h : (call callee s).Fits true) (depth : Nat)
    (lines spread : Bool) (hlines : lines = false → s.hasComments = false) (p : Progress) :
    ofTokens? (p.tokens (callLexemes callee s depth lines spread)) = some (call callee s) := by
  cases h with
  | call hc hl hs hv =>
    have hleads := leadsFrom_call (hl ▸ leads hc) hs hv
      (fun i hi => leads_of_le (hv i hi) (leads (hv i hi)) (Nat.zero_le _)) depth spread hlines
    refine hleads.ofTokens? (fun p => ?_) p
    obtain ⟨t, ts, ht, hb⟩ := tokens_first hc depth false p
    rw [callLexemes, List.append_assoc, Progress.tokens_append, ht]
    exact ⟨t, _, rfl, by rwa [hl] at hb⟩

end Expr
end BuildSync
