import BuildSync.Proofs.Expr.Lexemes

namespace BuildSync

open Lexeme

namespace Expr

def first : Expr → Lexeme
  | .ident name => of .ident name
  | .number text => of .number text
  | .string value spelling => of (.string value) (spelling.getD (quoted value))
  | .list _ => opening .square
  | .dict _ => opening .curly
  | .tuple _ => opening .round
  | .paren _ => opening .round
  | .call callee _ => callee.first
  | .dot base _ => base.first
  | .index base _ => base.first
  | .unary op _ => if op = "not" then of .ident op else of .operator op
  | .binary _ lhs _ => lhs.first

inductive Opens (rank : Nat) : Lexeme → Prop
  | name {name : String} (hi : identifier name = true) (hr : name ∉ reserved) : Opens rank (of .ident name)
  | number {text : String} (h : Token.Spells .number text) : Opens rank (of .number text)
  | string {value text : String} (h : Token.Spells (.string value) text) :
    Opens rank (of (.string value) text)
  | bracket (b : Bracket) : Opens rank (opening b)
  | sign {op : String} (ho : op ∈ signs) (hr : rank ≤ Level.sign.rank) : Opens rank (of .operator op)
  | negation (hr : rank ≤ Level.negation.rank) : Opens rank (of .ident "not")

theorem Opens.mono {m n : Nat} {x : Lexeme} (h : Opens n x) (hle : m ≤ n) : Opens m x := by
  cases h with
  | name hi hr => exact .name hi hr
  | number h => exact .number h
  | string h => exact .string h
  | bracket b => exact .bracket b
  | sign ho hr => exact .sign ho (hle.trans hr)
  | negation hr => exact .negation (hle.trans hr)

theorem sign_ne_not {op : String} (h : op ∈ signs) : op ≠ "not" := by
  rintro rfl
  exact absurd h (by decide)

theorem level_negation (operand : Expr) : (unary "not" operand).level = .negation := by
  simp [level]

theorem level_sign {op : String} {operand : Expr} (h : op ∈ signs) : (unary op operand).level = .sign :=
  if_neg (sign_ne_not h)

theorem level_binary {op : String} {lhs rhs : Expr} {level : Level} (h : op ∈ level.operators) :
    (binary op lhs rhs).level = level :=
  Level.ofOperator_eq h

theorem opens_first {strict : Bool} {e : Expr} (h : e.Fits strict) : Opens e.level.rank e.first := by
  induction h with
  | ident hi hr => exact .name hi hr
  | number h => exact .number h
  | fresh hf value => exact .string (.of_quoted value)
  | string h => exact .string h
  | list => exact .bracket _
  | dict => exact .bracket _
  | tuple => exact .bracket _
  | paren => exact .bracket _
  | call _ hl _ _ ih => rwa [hl] at ih
  | dot _ hl _ _ _ ih => rwa [hl] at ih
  | index _ hl _ ih _ => rwa [hl] at ih
  | negation => exact .negation (Nat.le_refl _)
  | sign ho =>
    rw [level_sign ho, first, if_neg (sign_ne_not ho)]
    exact .sign ho (Nat.le_refl _)
  | binary ho _ hll _ _ ih _ =>
    rw [level_binary ho]
    exact ih.mono hll

theorem lexemes_eq_first {strict : Bool} {e : Expr} (h : e.Fits strict) (level : Nat) (spread : Bool) :
    ∃ xs, e.lexemes level spread = e.first :: xs := by
  induction h generalizing level spread with
  | call _ _ _ _ ih =>
    obtain ⟨xs, hx⟩ := ih level false
    exact ⟨_, by rw [lexemes, hx]; rfl⟩
  | dot _ _ _ _ _ ih =>
    obtain ⟨xs, hx⟩ := ih level false
    exact ⟨_, by rw [lexemes, hx]; rfl⟩
  | index _ _ _ ih =>
    obtain ⟨xs, hx⟩ := ih level false
    exact ⟨_, by rw [lexemes, hx]; rfl⟩
  | negation => exact ⟨_, rfl⟩
  | sign ho =>
    have hne := sign_ne_not ho
    exact ⟨_, by rw [lexemes, first, prefixed, if_neg hne, if_neg hne]; rfl⟩
  | @binary _ _ _ _ _ _ _ _ _ ih _ =>
    obtain ⟨xs, hx⟩ := ih level spread
    exact ⟨_, by rw [lexemes, hx]; rfl⟩
  | _ => exact ⟨_, rfl⟩

theorem Opens.stands {rank : Nat} {x : Lexeme} (h : Opens rank x) : x.Stands none := by
  cases h with
  | name hi _ => exact Token.Spells.of_identifier hi
  | number h => exact h
  | string h => exact h
  | bracket b => exact stands_opening b none
  | sign ho _ =>
    refine stands_operator (?_ : String.toList _ ∈ Lexeme.operators) rfl
    revert ho
    exact (by decide +kernel : ∀ op ∈ signs, op.toList ∈ Lexeme.operators) _
  | negation _ => exact Token.Spells.of_identifier (by decide)

def edge (e : Expr) : Token.Kind := if e.level = .access ∧ e.isNumber = false then .ident else .number

theorem edge_ne_comment (e : Expr) : some e.edge ≠ some .comment := by
  unfold edge
  split_ifs <;> simp

theorem parts_edge (e : Expr) {c : Char} (h : isBreak c = true) : parts (some e.edge) (some c) = true := by
  simp [parts, e.edge_ne_comment, h]

theorem parts_of_number {kind : Token.Kind} {next : Option Char} (hk : kind ≠ .comment)
    (h : parts (some .number) next = true) : parts (some kind) next = true := by
  cases next with
  | none => rfl
  | some c => simp_all [parts]

theorem parts_string (value : String) {next : Option Char} (h : parts (some .ident) next = true) :
    parts (some (.string value)) next = true := by
  cases next with
  | none => rfl
  | some c => simpa [parts] using h

theorem parts_of_edge {e f : Expr} {next : Option Char} (he : e.level ≠ .access ∨ e.isNumber = true)
    (h : parts (some e.edge) next = true) : parts (some f.edge) next = true := by
  have hedge : e.edge = .number := if_neg fun hc => he.elim (· hc.1) fun hn => by simp [hn] at hc
  rw [hedge] at h
  exact parts_of_number (fun hc => f.edge_ne_comment (congrArg some hc)) h

def Joins (e : Expr) : Prop :=
  ∀ level spread next, parts (some e.edge) next = true → Joined (e.lexemes level spread) next

end Expr

namespace Lexeme

theorem front_cons {x : Lexeme} {c : Char} {r : List Char} (h : x.chars = c :: r) (xs : List Lexeme)
    (next : Option Char) : front (x :: xs) next = some c := by
  rw [front, spelling_cons, h]
  rfl

theorem joined_single {x : Lexeme} {next : Option Char} (h : x.Stands next) : Joined [x] next :=
  ⟨by rwa [front_nil], trivial⟩

theorem joined_of_stands {xs : List Lexeme} (h : ∀ x ∈ xs, ∀ next, x.Stands next) (next : Option Char) :
    Joined xs next := by
  induction xs with
  | nil => trivial
  | cons x xs ih =>
    obtain ⟨hx, hxs⟩ := List.forall_mem_cons.mp h
    exact ⟨hx _, ih hxs⟩

theorem stands_comma {next : Option Char} (h : parts (some .operator) next = true) : comma.Stands next :=
  stands_operator (by decide +kernel) h

theorem joined_margin (level : Nat) (next : Option Char) : Joined (margin level) next :=
  joined_of_stands (fun x hx next => by rw [List.eq_of_mem_replicate hx]; exact stands_space next) next

theorem joined_remark {line : String} (h : Remark line) (next : Option Char) :
    Joined [of .comment line, feed] next :=
  ⟨(Token.Spells.of_remark h).parted (by rw [front_cons rfl]; rfl), joined_single (stands_feed next)⟩

theorem joined_remarkLines (level : Nat) {lines : List String} (h : ∀ line ∈ lines, Remark line)
    (next : Option Char) : Joined (remarkLines level lines) next := by
  induction lines with
  | nil => trivial
  | cons line lines ih =>
    obtain ⟨hl, hls⟩ := List.forall_mem_cons.mp h
    rw [remarkLines, List.flatMap_cons, joined_append, joined_append]
    exact ⟨⟨joined_margin _ _, joined_remark hl _⟩, ih hls⟩

theorem joined_suffix_feed {s : Option String} (h : ∀ c ∈ s, Remark c) (next : Option Char) :
    Joined (suffix s ++ [feed]) next := by
  cases s with
  | none => exact joined_single (stands_feed next)
  | some c => exact ⟨stands_space _, stands_space _, joined_remark (h c rfl) next⟩

theorem front_suffix_feed (s : Option String) (xs : List Lexeme) (next : Option Char) :
    parts (some .operator) (front (suffix s ++ feed :: xs) next) = true := by
  cases s with
  | none => rw [suffix, List.nil_append, front_cons rfl]; rfl
  | some c => rw [suffix, List.cons_append, front_cons rfl]; rfl

theorem joined_joint {level : Level} {op : String} (h : op ∈ level.operators) :
    Joined (joint op) (some ' ') := by
  have hword {w : String} (hw : identifier w = true) : (of .ident w).Stands (some ' ') :=
    (Token.Spells.of_identifier hw).parted rfl
  unfold joint
  split_ifs with hnot hmem
  · refine ⟨?_, stands_space _, joined_single (hword (by decide))⟩
    rw [front_cons rfl]
    exact hword (by decide)
  · refine joined_single (hword ?_)
    revert hmem
    exact (by decide : ∀ w ∈ ["or", "and", "in"], identifier w = true) op
  · refine joined_single (stands_operator (?_ : op.toList ∈ Lexeme.operators) rfl)
    have hall : ∀ l ∈ Level.binary, ∀ op ∈ l.operators,
        op = "not in" ∨ op ∈ ["or", "and", "in"] ∨ op.toList ∈ Lexeme.operators := by decide +kernel
    exact ((hall level (Level.mem_binary h) op h).resolve_left hnot).resolve_left hmem

theorem joined_lineEnd {s : Option String} {xs : List Lexeme} {next : Option Char}
    (h : ∀ c ∈ s, Remark c) (hx : Joined xs next) : Joined (comma :: suffix s ++ feed :: xs) next := by
  refine ⟨stands_comma (front_suffix_feed s xs next), ?_⟩
  change Joined (suffix s ++ feed :: xs) next
  rw [List.append_cons, joined_append]
  exact ⟨joined_suffix_feed h _, hx⟩

theorem joined_comma_space (next : Option Char) : Joined [comma, space] next :=
  ⟨stands_comma (by rw [front_cons rfl]; rfl), joined_single (stands_space next)⟩

theorem joined_bracket {xs : List Lexeme} {next : Option Char} (b : Bracket)
    (h : Joined xs (some b.closing)) : Joined (opening b :: xs ++ [closing b]) next := by
  rw [joined_append, front_cons rfl]
  exact ⟨⟨stands_opening b _, h⟩, joined_single (stands_closing b next)⟩

theorem isBreak_closing (b : Bracket) : isBreak b.closing = true := by
  cases b <;> rfl

end Lexeme

namespace Item

theorem joined_label {i : Item} {b : Bracket} (hs : i.label.Suits b) (h : i.All Expr.Joins)
    (level : Nat) (next : Option Char) : Joined (i.label.lexemes level) next := by
  cases hl : i.label with
  | bare => trivial
  | name name =>
    rw [hl] at hs
    have hname : identifier name = true := by cases b <;> first | exact hs | exact hs.elim
    refine ⟨?_, stands_space _, ?_, joined_single (stands_space next)⟩
    · rw [front_cons rfl]
      exact (Token.Spells.of_identifier hname).parted rfl
    · rw [front_cons rfl]
      exact stands_operator (by decide +kernel) rfl
  | key key =>
    rw [Label.lexemes, joined_append, front_cons rfl]
    refine ⟨h.2 key hl level false _ (key.parts_edge rfl), ?_, joined_single (stands_space next)⟩
    rw [front_cons rfl]
    exact stands_operator (by decide +kernel) rfl

theorem joined_lines {items : List Item} {b : Bracket} (hl : ∀ i ∈ items, i.label.Suits b)
    (hc : ∀ i ∈ items, ∀ c ∈ i.comments, Remark c) (hs : ∀ i ∈ items, ∀ c ∈ i.suffix, Remark c)
    (h : ∀ i ∈ items, i.All Expr.Joins) (level : Nat) (spread : Bool) (next : Option Char) :
    Joined (lexemeLines level spread items) next := by
  induction items with
  | nil => trivial
  | cons i items ih =>
    simp only [List.forall_mem_cons] at hl hc hs h
    have hlabel := joined_label hl.1 h.1 level
    have hvalue := h.1.1 level spread
    have hcomments := joined_remarkLines level hc.1
    have hend := joined_lineEnd hs.1 (ih hl.2 hc.2 hs.2 h.2)
    have hedge := i.value.parts_edge (c := ',') rfl
    obtain ⟨comments, label, value, suffix⟩ := i
    rw [lexemeLines, List.append_assoc, joined_append, joined_append, joined_append, joined_append,
      List.cons_append, front_cons rfl]
    exact ⟨⟨⟨⟨hcomments _, joined_margin _ _⟩, hlabel _⟩, hvalue _ hedge⟩, hend⟩

theorem joined_inline {items : List Item} {b : Bracket} (hl : ∀ i ∈ items, i.label.Suits b)
    (h : ∀ i ∈ items, i.All Expr.Joins) (level : Nat) :
    Joined (lexemesInline level items) (some b.closing) := by
  induction items with
  | nil => trivial
  | cons i items ih =>
    simp only [List.forall_mem_cons] at hl h
    have hlabel := joined_label hl.1 h.1 level
    have hvalue := h.1.1 level false
    have hedge {c : Char} (hc : isBreak c = true) := i.value.parts_edge hc
    obtain ⟨comments, label, value, suffix⟩ := i
    rw [lexemesInline, joined_append, joined_append, joined_append]
    refine ⟨⟨⟨hlabel _, hvalue _ ?_⟩, ?_⟩, ih hl.2 h.2⟩
    · cases items with
      | nil => exact hedge (isBreak_closing b)
      | cons _ _ => exact hedge (by rfl)
    · cases items with
      | nil => trivial
      | cons _ _ => exact joined_comma_space _

end Item

theorem Sequence.joined_lexemes {s : Sequence} {b : Bracket} (hs : s.Framed b)
    (h : ∀ i ∈ s.items, i.All Expr.Joins) (level : Nat) (lines spread : Bool) :
    Joined (s.lexemes level lines spread) (some b.closing) := by
  obtain ⟨items, trailing⟩ := s
  cases lines with
  | false => exact Item.joined_inline hs.labels h level
  | true =>
    change Joined ((feed :: Item.lexemeLines (level + 1) spread items ++
      remarkLines (level + 1) trailing) ++ margin level) _
    rw [joined_append, joined_append]
    have hlines := Item.joined_lines hs.labels hs.comments hs.suffixes h (level + 1) spread
    exact ⟨⟨⟨stands_feed _, hlines _⟩, joined_remarkLines _ hs.trailing _⟩, joined_margin _ _⟩

namespace Expr

theorem joined_allLexemes {es : List Expr} (h : ∀ e ∈ es, e.Joins) (level : Nat) {c : Char}
    (hc : isBreak c = true) : Joined (allLexemes level es) (some c) := by
  induction es with
  | nil => trivial
  | cons e es ih =>
    obtain ⟨he, hes⟩ := List.forall_mem_cons.mp h
    rw [allLexemes, joined_append, joined_append]
    refine ⟨⟨he level false _ ?_, ?_⟩, ih hes⟩
    · cases es with
      | nil => exact e.parts_edge hc
      | cons _ _ => exact e.parts_edge rfl
    · cases es with
      | nil => trivial
      | cons _ _ => exact joined_comma_space _

theorem sign_cases {op : String} (h : op ∈ signs) : op = "-" ∨ op = "+" ∨ op = "~" := by
  simpa [signs] using h

theorem head?_sign {op : String} {c : Char} (h : op ∈ signs) (hc : op.toList.head? = some c) :
    c ≠ '=' ∧ c ≠ '>' := by
  rcases sign_cases h with rfl | rfl | rfl <;>
  · cases hc
    decide

theorem stands_sign {op : String} {c : Char} (ho : op ∈ signs) (hc : c ≠ '=' ∧ c ≠ '>') :
    (of .operator op).Stands (some c) := by
  obtain ⟨a, hop, hmem, hdot, hall⟩ : ∃ a, op.toList = [a] ∧ [a] ∈ Lexeme.operators ∧ a ≠ '.' ∧
      (Lexeme.operators.all fun o => o.head? != some a || o.tail.all fun d => d == '=' || d == '>') = true := by
    rcases sign_cases ho with rfl | rfl | rfl
    · exact ⟨'-', rfl, by decide +kernel, by decide, by decide +kernel⟩
    · exact ⟨'+', rfl, by decide +kernel, by decide, by decide +kernel⟩
    · exact ⟨'~', rfl, by decide +kernel, by decide, by decide +kernel⟩
  rw [of, hop]
  apply stands_symbol hmem (fun h => absurd h hdot)
  rintro _ ⟨⟩ o ho ⟨tail, rfl⟩
  have htail : (c = '=' ∨ c = '>') ∧ ∀ d ∈ tail, d = '=' ∨ d = '>' := by
    simpa using List.all_eq_true.mp hall _ ho
  rcases htail.1 with rfl | rfl
  · exact hc.1 rfl
  · exact hc.2 rfl

theorem joined_prefixed_sign {op : String} {rank : Nat} {x : Lexeme} {xs : List Lexeme} {next : Option Char}
    (ho : op ∈ signs) (hx : Opens rank x) (h : Joined (x :: xs) next) :
    Joined (prefixed op ++ x :: xs) next := by
  rw [prefixed, if_neg (sign_ne_not ho)]
  refine ⟨?_, h⟩
  obtain ⟨c, r, hc⟩ := List.exists_cons_of_ne_nil hx.stands.chars_ne_nil
  change (of .operator op).Stands (front (x :: xs) next)
  rw [front_cons hc]
  apply stands_sign ho
  by_cases hk : x.kind = some .operator
  · cases hx with
    | sign ho' _ =>
      rw [chars_of] at hc
      exact head?_sign ho' (by rw [hc]; rfl)
    | _ => cases hk
  · exact hx.stands.front_ne hk c (by rw [hc]; rfl)

theorem stands_dot {c : Char} (h : isWordStart c = true) : (of .operator ".").Stands (some c) := by
  have hdot : ∀ o ∈ Lexeme.operators, o.head? = some '.' → o.length = 1 := by decide +kernel
  refine stands_symbol (by decide +kernel) (fun _ => isDigit_eq_false_of_isWordStart h) ?_
  rintro _ ⟨⟩ o ho ⟨tail, rfl⟩
  exact absurd (hdot _ ho rfl) (by simp)

theorem joined_lexemes {e : Expr} (h : e.Fits true) (level : Nat) (spread : Bool) {next : Option Char}
    (hn : parts (some e.edge) next = true) : Joined (e.lexemes level spread) next := by
  induction h generalizing level spread next with
  | ident hi _ => exact joined_single ((Token.Spells.of_identifier hi).parted hn)
  | number h => exact joined_single (h.parted hn)
  | fresh hf value => cases hf
  | string h => exact joined_single (h.parted (parts_string _ hn))
  | list hs _ ih =>
    exact joined_bracket .square
      (Sequence.joined_lexemes hs (hs.all (by decide) fun i hi l s n hn => ih i hi l s hn) _ _ _)
  | dict hs _ _ ihk ih =>
    exact joined_bracket .curly (Sequence.joined_lexemes hs
      (fun i hi => ⟨fun l s n hn => ih i hi l s hn, fun k hk l s n hn => ihk i hi k hk l s hn⟩) _ _ _)
  | @tuple items _ ih =>
    have hall {c : Char} := @joined_allLexemes items (fun e he l s n hn => ih e he l s hn) level c
    have hinner : Joined (allLexemes level items ++ if items.length = 1 then [comma] else []) (some ')') := by
      rw [joined_append]
      split_ifs
      · exact ⟨hall (by rfl), joined_single (stands_comma rfl)⟩
      · exact ⟨hall (by rfl), trivial⟩
    exact joined_bracket .round hinner
  | @paren inner _ ih => exact joined_bracket .round (ih level false (inner.parts_edge rfl))
  | @call callee s _ hl hs _ ihc ih =>
    rw [lexemes, List.append_assoc, joined_append, List.cons_append, front_cons rfl]
    exact ⟨ihc level false (callee.parts_edge rfl), joined_bracket .round
      (Sequence.joined_lexemes hs (hs.all (by decide) fun i hi l s n hn => ih i hi l s hn) _ _ _)⟩
  | @dot base name _ hl hb hi hr ih =>
    have hname := Token.Spells.of_identifier hi
    rw [lexemes, joined_append, front_cons rfl]
    refine ⟨ih level false ?_, ?_, joined_single (hname.parted hn)⟩
    · rw [edge, if_pos ⟨hl, hb rfl⟩]
      rfl
    · obtain ⟨c, r, hc⟩ := List.exists_cons_of_ne_nil hname.ne_empty
      rw [front_cons (by rwa [chars_of])]
      unfold identifier at hi
      rw [hc, Bool.and_eq_true] at hi
      exact stands_dot hi.1
  | @index base index _ hl _ ihb ihi =>
    rw [lexemes, List.append_assoc, joined_append, List.cons_append, front_cons rfl]
    exact ⟨ihb level false (base.parts_edge rfl),
      joined_bracket .square (ihi level false (index.parts_edge rfl))⟩
  | @negation operand h _ ih =>
    have ho := ih level false (parts_of_edge (.inl (by rw [level_negation]; decide)) hn)
    refine ⟨?_, stands_space _, ho⟩
    change (of .ident "not").Stands (front (space :: operand.lexemes level false) next)
    rw [front_cons rfl]
    exact (Token.Spells.of_identifier (by decide)).parted rfl
  | @sign op operand hop h _ ih =>
    have ho := ih level false (parts_of_edge (.inl (by rw [level_sign hop]; decide)) hn)
    obtain ⟨xs, hx⟩ := lexemes_eq_first h level false
    rw [lexemes]
    rw [hx] at ho ⊢
    exact joined_prefixed_sign hop (opens_first h) ho
  | @binary op lhs rhs l ho hl _ hr _ ihl ihr =>
    have hne : (binary op lhs rhs).level ≠ .access := by
      rw [level_binary ho]
      exact Level.ne_access_of_mem ho
    rw [lexemes, joined_append, joined_append, front_cons rfl, front_cons rfl]
    exact ⟨⟨ihl level spread (lhs.parts_edge rfl), stands_space _, joined_joint ho⟩, stands_space _,
      ihr level spread (parts_of_edge (.inl hne) hn)⟩

end Expr

end BuildSync
