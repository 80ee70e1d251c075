import BuildSync.Proofs.Expr.Enough
import BuildSync.Proofs.Expr.Traces

/-!
Without comments, an expression is read from tokens whatever spare commas they have.
-/

namespace BuildSync

namespace Reading

/-! Behind an operand comes an operator, or else what may have a comma in front. -/

theorem find?_bare {ts : List Token} (h : ∀ t ∈ ts, t.Bare) : ts.find? (!·.isComment) = ts.head? := by
  cases ts with
  | nil => rfl
  | cons t ts => exact List.find?_cons_of_pos (by simp [(h t List.mem_cons_self).comment])

theorem head?_relaid {s : Setting} {ts us : List Token} (h : Token.Relaid s ts us) {accept : Token → Bool}
    (ha : Blind accept) (hlock : Lockstep s accept) : ts.head?.any accept = us.head?.any accept := by
  cases h with
  | nil => rfl
  | cons h => exact ha _ _ h.kind h.text
  | added hs hcomma =>
    obtain ⟨ht, hc⟩ := hlock.rejects hs hcomma
    exact ht.trans hc.symm
  | dropped hs hcomma hsame =>
    obtain ⟨ht, hc⟩ := hlock.rejects hs hcomma
    exact hc.trans (ht.symm.trans (ha _ _ hsame.kind hsame.text))

theorem lockstep_isKeyword (s : Setting) (word : String) : Lockstep s (·.isKeyword word) := by
  right
  intro t ht
  have hkind : t.kind = .ident := (by simpa [Token.isKeyword] using ht : _ ∧ t.text = word).1
  exact ⟨by simp [hkind], by simp [Token.isOperator, hkind]⟩

theorem lockstep_opening (s : Setting) (b : Bracket) : Lockstep s (opening b) := by
  right
  intro t ht
  rw [opening, beq_iff_eq] at ht
  exact ⟨by simp [ht], by simp [Token.isOperator, ht]⟩

theorem lockstep_symbol (s : Setting) {op : String} (hop : op ≠ ",") : Lockstep s (symbol op) := by
  right
  intro t ht
  obtain ⟨hkind, htext⟩ : t.kind = .operator ∧ t.text = op := by simpa [symbol, Token.isOperator] using ht
  exact ⟨by simp [hkind], by simp [Token.isOperator, htext, hop]⟩

theorem next_symbol {t : Token} {op : String} (h : symbol op t = true) (hop : op ≠ ",") (s : Setting) :
    s.next t = ⟨false, s.around⟩ := by
  obtain ⟨hkind, htext⟩ : t.kind = .operator ∧ t.text = op := by simpa [symbol, Token.isOperator] using h
  rw [Setting.next, hkind]
  dsimp only
  rw [if_neg (by rw [htext]; exact hop)]

theorem next_keyword {t : Token} {word : String} (h : t.isKeyword word = true) (hword : word ∈ reserved) (s : Setting) :
    s.next t = ⟨false, s.around⟩ := by
  obtain ⟨hkind, htext⟩ : t.kind = .ident ∧ t.text = word := by simpa [Token.isKeyword] using h
  rw [Setting.next, hkind, htext]
  simp [hword]

theorem next_operand {t : Token} (h : isName t = true ∨ t.kind = .number ∨ ∃ v, t.kind = .string v) (s : Setting) :
    s.next t = ⟨true, s.around⟩ := by
  rcases h with h | h | ⟨v, h⟩
  · obtain ⟨hkind, htext⟩ : t.kind = .ident ∧ t.text ∉ reserved := by simpa [isName] using h
    rw [Setting.next, hkind]
    simp [htext]
  · rw [Setting.next, h]
  · rw [Setting.next, h]

theorem next_operator {level : Level} {t : Token} {next : Option Token} {op : String}
    (h : level.operator? t next = some op) (ht : t.isKeyword "not in" = false) (s : Setting) :
    s.next t = ⟨false, s.around⟩ := by
  unfold Level.operator? at h
  split_ifs at h with hs hw hn
  · rw [Bool.and_eq_true, beq_iff_eq, decide_eq_true_iff] at hs
    refine @next_symbol t t.text (by simp [symbol, Token.isOperator, hs.1]) (fun hcomma => ?_) s
    rw [hcomma] at hs
    cases level <;> exact absurd hs.2 (by decide)
  · rw [Bool.and_eq_true, beq_iff_eq, decide_eq_true_iff] at hw
    refine @next_keyword t t.text (by simp [Token.isKeyword, hw.1]) ?_ s
    have hwords : ∀ word ∈ level.words, word ≠ "not in" → word ∈ reserved := by cases level <;> decide
    apply hwords t.text hw.2
    rintro htext
    simp [Token.isKeyword, hw.1, htext] at ht
  · rw [Bool.and_eq_true, Bool.and_eq_true] at hn
    exact next_keyword hn.1.1 (by decide) s

theorem operator?_spare {s : Setting} {t comma : Token} (hs : s.Spares t) (hcomma : comma.isOperator "," = true)
    (level : Level) (line : Nat) (rest : List Token) :
    operator? level ⟨line, t :: rest⟩ = .done none ⟨line, t :: rest⟩ ∧
      operator? level ⟨line, comma :: rest⟩ = .done none ⟨line, comma :: rest⟩ := by
  obtain ⟨-, e, -, -, hkind⟩ := hs
  obtain ⟨hc, htext⟩ : comma.kind = .operator ∧ comma.text = "," := by
    simpa [Token.isOperator] using hcomma
  exact ⟨operator?_none ((Token.clear_closing hkind rest).mono (Nat.zero_le _)) line,
    operator?_none ((Token.clear_comma hc htext rest).mono (Nat.zero_le _)) line⟩

def Joins (around : List Enclosure) (o p : Option String) (s : Setting) : Prop :=
  o = p ∧ s = ⟨o.isNone, around⟩

theorem operator?_same {level : Level} {t u : Token} (h : t.Same u) {o p : Option Token}
    (hop : t.isKeyword "not" = true → o.any (·.isKeyword "in") = p.any (·.isKeyword "in")) :
    level.operator? t o = level.operator? u p := by
  have hnot : t.isKeyword "not" = u.isKeyword "not" := blind_isKeyword "not" t u h.kind h.text
  unfold Level.operator?
  rw [h.kind, h.text, hnot]
  by_cases hu : u.isKeyword "not" = true
  · rw [hop (hnot.trans hu)]
  · rw [Bool.not_eq_true] at hu
    simp only [hu, Bool.false_and]

theorem traces_operator? (level : Level) (around : List Enclosure) :
    Traces ⟨true, around⟩ (Joins around) (operator? level) (operator? level) := by
  rintro ⟨line, ts⟩ ⟨line', us⟩ ⟨htokens, hts, hus⟩
  dsimp only at htokens hts hus
  cases htokens with
  | nil => exact ⟨_, ⟨rfl, rfl⟩, .nil, nofun, nofun⟩
  | @cons _ t u ts us hsame hrest =>
    obtain ⟨ht, htsrest⟩ := List.forall_mem_cons.mp hts
    obtain ⟨hu, husrest⟩ := List.forall_mem_cons.mp hus
    have hop : level.operator? t ts.head? = level.operator? u us.head? := by
      apply operator?_same hsame
      intro hnot
      exact head?_relaid hrest (blind_isKeyword "in") (lockstep_isKeyword _ "in")
    rw [operator?, bind_done (ahead_cons ht.comment line ts), bind_done (ahead_cons hu.comment line' us),
      find?_bare htsrest, find?_bare husrest]
    simp only [Option.bind_some, ← hop]
    cases hlevel : level.operator? t ts.head? with
    | none => exact ⟨_, ⟨rfl, rfl⟩, .cons hsame hrest, hts, hus⟩
    | some op =>
      rw [next_operator hlevel ht.notIn] at hrest
      dsimp only
      rw [bind_done (token_cons ht.comment line ts), bind_done (token_cons hu.comment line' us)]
      split_ifs with hnot
      · obtain ⟨-, hin⟩ := Level.keywords_of_notIn (hnot ▸ hlevel) ht.notIn
        cases hrest with
        | nil => cases hin
        | cons hsame hrest =>
          rw [next_keyword hin (by decide)] at hrest
          obtain ⟨ht, hts⟩ := List.forall_mem_cons.mp htsrest
          obtain ⟨hu, hus⟩ := List.forall_mem_cons.mp husrest
          rw [bind_done (token_cons ht.comment _ _), bind_done (token_cons hu.comment _ _)]
          exact ⟨_, ⟨rfl, rfl⟩, hrest, hts, hus⟩
        | added hs => exact absurd hs (Setting.not_spares_false _ _)
        | dropped hs => exact absurd hs (Setting.not_spares_false _ _)
      · exact ⟨_, ⟨rfl, rfl⟩, hrest, htsrest, husrest⟩
  | added hs hcomma hsame hrest =>
    rw [(operator?_spare hs hcomma level line _).1, (operator?_spare hs hcomma level line' _).2]
    exact ⟨_, ⟨rfl, rfl⟩, .added hs hcomma hsame hrest, hts, hus⟩
  | dropped hs hcomma hsame hrest =>
    rw [(operator?_spare hs hcomma level line _).2, (operator?_spare (hsame.spares hs) hcomma level line' _).1]
    exact ⟨_, ⟨rfl, rfl⟩, .dropped hs hcomma hsame hrest, hts, hus⟩

theorem traces_argumentLabel (around : List Enclosure) :
    Traces ⟨false, around⟩ (Ends ⟨false, around⟩) argumentLabel argumentLabel := by
  rintro ⟨line, ts⟩ ⟨line', us⟩ ⟨htokens, hts, hus⟩
  dsimp only at htokens hts hus
  cases htokens with
  | nil => exact ⟨_, ⟨rfl, rfl⟩, .nil, nofun, nofun⟩
  | @cons _ t u ts us hsame hrest =>
    obtain ⟨ht, htsrest⟩ := List.forall_mem_cons.mp hts
    obtain ⟨hu, husrest⟩ := List.forall_mem_cons.mp hus
    have hequals := head?_relaid hrest (blind_isOperator "=") (lockstep_symbol _ (by decide))
    rw [argumentLabel, bind_done (ahead_cons ht.comment line ts), bind_done (ahead_cons hu.comment line' us),
      find?_bare htsrest, find?_bare husrest]
    simp only [Option.any_some, ← hequals, ← hsame.kind]
    split_ifs with hname
    · rw [Bool.and_eq_true, beq_iff_eq] at hname
      have hnext : (⟨false, around⟩ : Setting).next t = ⟨t.text ∉ reserved, around⟩ := by rw [Setting.next, hname.1]
      rw [hnext] at hrest
      rw [bind_done (token_cons ht.comment line ts), bind_done (token_cons hu.comment line' us), ← hsame.text]
      have hexpect := Traces.expect (s := ⟨t.text ∉ reserved, around⟩) (R := Ends ⟨false, around⟩)
        (blind_isOperator "=") (lockstep_symbol _ (by decide))
        (f := fun _ => Pure.pure (Label.name t.text)) (g := fun _ => Pure.pure (Label.name t.text)) fun equals he =>
          traces_pure ⟨rfl, next_symbol he (by decide) _⟩
      exact hexpect _ _ ⟨hrest, htsrest, husrest⟩
    · exact ⟨_, ⟨rfl, rfl⟩, .cons hsame hrest, hts, hus⟩
  | added hs => exact absurd hs (Setting.not_spares_false _ _)
  | dropped hs => exact absurd hs (Setting.not_spares_false _ _)

theorem ahead_bare {ts : List Token} (h : ∀ t ∈ ts, t.Bare) (line : Nat) :
    ahead ⟨line, ts⟩ = .done (ts.head?, ts.tail.head?) ⟨line, ts⟩ := by
  cases ts with
  | nil => rfl
  | cons t ts =>
    obtain ⟨ht, hts⟩ := List.forall_mem_cons.mp h
    rw [ahead_cons ht.comment, find?_bare hts]
    rfl

theorem Traces.unlessString {β : Type} {s : Setting} {R : β → β → Setting → Prop} {r r' : Reading β}
    (h : Traces s R r r') :
    Traces s R (ahead >>= fun next => if next.1.any Token.isString then unsupported else r)
      (ahead >>= fun next => if next.1.any Token.isString then unsupported else r') := by
  have hlock : Lockstep s Token.isString := by
    right
    intro t ht
    constructor
    · intro b hb
      simp [Token.isString, hb] at ht
    · rw [← Bool.not_eq_true]
      intro hop
      have hkind : t.kind = .operator := (by simpa [Token.isOperator] using hop : _ ∧ t.text = ",").1
      simp [Token.isString, hkind] at ht
  rintro ⟨line, ts⟩ ⟨line', us⟩ hc
  have hstring := head?_relaid hc.tokens blind_isString hlock
  dsimp only at hstring
  rw [bind_done (ahead_bare hc.left line), bind_done (ahead_bare hc.right line')]
  dsimp only
  rw [← hstring]
  split_ifs
  · exact follows_unsupported _
  · exact h _ _ hc

structure Tracing (fuel fuel' : Nat) : Prop where
  expr : ∀ level around, Traces ⟨false, around⟩ (Ends ⟨true, around⟩) (expr fuel level) (expr fuel' level)
  operations : ∀ level ∈ Level.binary, ∀ lhs around,
    Traces ⟨true, around⟩ (Ends ⟨true, around⟩) (operations fuel level lhs) (operations fuel' level lhs)
  accesses : ∀ base around,
    Traces ⟨true, around⟩ (Ends ⟨true, around⟩) (accesses fuel base) (accesses fuel' base)
  operand : ∀ around, Traces ⟨false, around⟩ (Ends ⟨true, around⟩) (operand fuel) (operand fuel')
  parenthesized : ∀ around,
    Traces ⟨false, .parenthesis :: around⟩ (Ends ⟨true, around⟩) (parenthesized fuel) (parenthesized fuel')
  element : ∀ around, Traces ⟨false, around⟩ (Ends ⟨true, around⟩) (element fuel) (element fuel')
  entry : ∀ around, Traces ⟨false, around⟩ (Ends ⟨true, around⟩) (entry fuel) (entry fuel')
  argument : ∀ around, Traces ⟨false, around⟩ (Ends ⟨true, around⟩) (argument fuel) (argument fuel')

namespace Tracing

theorem zero_left (fuel' : Nat) : Tracing 0 fuel' where
  expr _ _ := traces_exhausted_left _
  operations _ _ _ _ := traces_exhausted_left _
  accesses _ _ := traces_exhausted_left _
  operand _ := traces_exhausted_left _
  parenthesized _ := traces_exhausted_left _
  element _ := traces_exhausted_left _
  entry _ := traces_exhausted_left _
  argument _ := traces_exhausted_left _

theorem zero (fuel : Nat) : Tracing fuel 0 where
  expr _ _ := traces_exhausted _
  operations _ _ _ _ := traces_exhausted _
  accesses _ _ := traces_exhausted _
  operand _ := traces_exhausted _
  parenthesized _ := traces_exhausted _
  element _ := traces_exhausted _
  entry _ := traces_exhausted _
  argument _ := traces_exhausted _

variable {fuel fuel' : Nat} (h : Tracing fuel fuel') (around : List Enclosure)

include h

theorem expr_succ (level : Level) :
    Traces ⟨false, around⟩ (Ends ⟨true, around⟩) (Reading.expr (fuel + 1) level) (Reading.expr (fuel' + 1) level) := by
  by_cases hbin : level ∈ Level.binary
  · rw [expr_binary hbin, expr_binary hbin]
    apply (h.expr level.tighter around).next
    intro lhs
    exact h.operations level hbin lhs around
  cases level with
  | negation =>
    apply Traces.ifToken? (blind_isKeyword "not") (lockstep_isKeyword _ _)
    · intro t ht
      rw [next_keyword ht (by decide)]
      apply (h.expr .negation around).next
      intro operand
      exact traces_ends
    · exact h.expr .comparison around
  | sign =>
    have hblind : Blind fun t => t.kind == .operator && t.text ∈ ["-", "+", "~"] :=
      fun t u hk ht => by simp only [hk, ht]
    apply (traces_token? hblind (.inl (Setting.not_spares_false _))).bind
    rintro o p s' (⟨rfl, rfl, rfl⟩ | ⟨t, u, rfl, rfl, hsame, ht, rfl⟩)
    · exact h.expr .access around
    · rw [Bool.and_eq_true, beq_iff_eq, decide_eq_true_iff] at ht
      have hne : t.text ≠ "," := by
        intro htext
        rw [htext] at ht
        exact absurd ht.2 (by decide)
      rw [@next_symbol t t.text (by simp [symbol, Token.isOperator, ht.1]) hne]
      apply (h.expr .sign around).next
      intro operand
      exact traces_pure ⟨congrArg (Expr.unary · operand) hsame.text, rfl⟩
  | access =>
    apply (h.operand around).next
    intro base
    exact h.accesses base around
  | _ => exact absurd (by decide) hbin

theorem operations_succ (level : Level) (hbin : level ∈ Level.binary) (lhs : Expr) :
    Traces ⟨true, around⟩ (Ends ⟨true, around⟩) (Reading.operations (fuel + 1) level lhs)
      (Reading.operations (fuel' + 1) level lhs) := by
  apply (traces_operator? level around).bind
  rintro op _ _ ⟨rfl, rfl⟩
  cases op with
  | none => exact traces_ends
  | some op =>
    apply (h.expr level.tighter around).next
    intro rhs
    exact h.operations level hbin _ around

theorem accesses_succ (base : Expr) :
    Traces ⟨true, around⟩ (Ends ⟨true, around⟩) (Reading.accesses (fuel + 1) base)
      (Reading.accesses (fuel' + 1) base) := by
  apply Traces.ifToken? (blind_opening .round) (lockstep_opening _ _)
  · intro t ht
    have hnext : (⟨true, around⟩ : Setting).next t = ⟨false, .arguments :: around⟩ := by
      rw [opening, beq_iff_eq] at ht
      rw [Setting.next, ht]
      rfl
    rw [hnext]
    apply (traces_sequence (e := .arguments) rfl (h.argument _) fuel fuel').next
    intro args
    exact h.accesses _ around
  apply Traces.ifToken? (blind_opening .square) (lockstep_opening _ _)
  · intro t ht
    have hnext : (⟨true, around⟩ : Setting).next t = ⟨false, .index :: around⟩ := by
      rw [opening, beq_iff_eq] at ht
      rw [Setting.next, ht]
      rfl
    rw [hnext]
    apply (h.expr .disjunction _).next
    intro index
    apply Traces.expect (blind_closing .square) (.inl (Setting.not_spares_of_trails rfl _ _))
    intro u hu
    rw [next_closing hu]
    exact h.accesses _ around
  apply Traces.ifToken? (blind_isOperator ".") (lockstep_symbol _ (by decide))
  · intro t ht
    rw [next_symbol ht (by decide)]
    apply (traces_token (Setting.not_spares_false around)).bind
    rintro name name' _ ⟨hsame, rfl⟩
    rw [← blind_isName name name' hsame.kind hsame.text, ← hsame.text]
    split_ifs with hname
    · rw [next_operand (.inl hname)]
      exact h.accesses _ around
    · exact traces_unsupported _
  · exact traces_ends

theorem operand_succ :
    Traces ⟨false, around⟩ (Ends ⟨true, around⟩) (Reading.operand (fuel + 1)) (Reading.operand (fuel' + 1)) := by
  apply (traces_token (Setting.not_spares_false around)).bind
  rintro t u _ ⟨hsame, rfl⟩
  rw [← hsame.kind, ← hsame.text, ← blind_isName t u hsame.kind hsame.text]
  split
  · split_ifs with hname
    · rw [next_operand (.inl hname)]
      exact traces_ends
    · exact traces_unsupported _
  · rename_i hkind
    rw [next_operand (.inr (.inl hkind))]
    exact traces_ends
  · rename_i v hkind
    rw [next_operand (.inr (.inr ⟨v, hkind⟩))]
    exact traces_ends.unlessString
  · rename_i hkind
    have hnext : (⟨false, around⟩ : Setting).next t = ⟨false, .elements :: around⟩ := by
      rw [Setting.next, hkind]
      rfl
    rw [hnext]
    apply (traces_sequence (e := .elements) rfl (h.element _) fuel fuel').next
    intro elements
    exact traces_ends
  · rename_i hkind
    have hnext : (⟨false, around⟩ : Setting).next t = ⟨false, .entries :: around⟩ := by rw [Setting.next, hkind]
    rw [hnext]
    apply (traces_sequence (e := .entries) rfl (h.entry _) fuel fuel').next
    intro entries
    exact traces_ends
  · rename_i hkind
    have hnext : (⟨false, around⟩ : Setting).next t = ⟨false, .parenthesis :: around⟩ := by
      rw [Setting.next, hkind]
      rfl
    rw [hnext]
    exact h.parenthesized around
  · exact traces_unsupported _

theorem parenthesized_succ :
    Traces ⟨false, .parenthesis :: around⟩ (Ends ⟨true, around⟩) (Reading.parenthesized (fuel + 1))
      (Reading.parenthesized (fuel' + 1)) := by
  apply Traces.ifToken? (blind_closing .round) (.inl (Setting.not_spares_false _))
  · intro t ht
    rw [next_closing ht]
    exact traces_ends
  apply (h.expr .disjunction _).next
  intro first
  apply Traces.ifToken? (blind_closing .round) (.inl (Setting.not_spares_of_trails rfl _ _))
  · intro t ht
    rw [next_closing ht]
    exact traces_ends
  apply (traces_tupleRest (h.expr .disjunction _) fuel fuel').next
  intro others
  exact traces_ends

theorem element_succ :
    Traces ⟨false, around⟩ (Ends ⟨true, around⟩) (Reading.element (fuel + 1)) (Reading.element (fuel' + 1)) := by
  apply (h.expr .disjunction around).next
  intro value
  exact traces_ends

theorem entry_succ :
    Traces ⟨false, around⟩ (Ends ⟨true, around⟩) (Reading.entry (fuel + 1)) (Reading.entry (fuel' + 1)) := by
  apply (h.expr .disjunction around).next
  intro key
  apply Traces.expect (blind_isOperator ":") (lockstep_symbol _ (by decide))
  intro t ht
  rw [next_symbol ht (by decide)]
  apply (h.expr .disjunction around).next
  intro value
  exact traces_ends

theorem argument_succ :
    Traces ⟨false, around⟩ (Ends ⟨true, around⟩) (Reading.argument (fuel + 1)) (Reading.argument (fuel' + 1)) := by
  apply (traces_argumentLabel around).next
  intro label
  apply (h.expr .disjunction around).next
  intro value
  exact traces_ends

omit around in
theorem succ : Tracing (fuel + 1) (fuel' + 1) where
  expr level around := h.expr_succ around level
  operations level hbin lhs around := h.operations_succ around level hbin lhs
  accesses base around := h.accesses_succ around base
  operand := h.operand_succ
  parenthesized := h.parenthesized_succ
  element := h.element_succ
  entry := h.entry_succ
  argument := h.argument_succ

end Tracing

theorem tracing (fuel fuel' : Nat) : Tracing fuel fuel' := by
  -- commas take fuel, so that one run has less of it left than the other
  induction fuel generalizing fuel' with
  | zero => exact .zero_left fuel'
  | succ fuel ih =>
    cases fuel' with
    | zero => exact .zero (fuel + 1)
    | succ fuel' => exact (ih fuel').succ

end Reading

theorem Expr.ofTokens?_of_relaid {ts us : List Token} (h : Token.Relaid .start ts us)
    (hts : ∀ t ∈ ts, t.Bare) (hus : ∀ t ∈ us, t.Bare) {e : Expr} (he : ofTokens? ts = some e) :
    ofTokens? us = some e := by
  have htraces := (Reading.tracing (fuel ts) (fuel us)).expr .disjunction [] ⟨0, ts⟩ ⟨0, us⟩ ⟨h, hts, hus⟩
  have hanswer := Reading.spends_expr us 0
  unfold ofTokens? at he ⊢
  generalize Reading.expr (fuel ts) .disjunction ⟨0, ts⟩ = x at he htraces
  generalize Reading.expr (fuel us) .disjunction ⟨0, us⟩ = y at htraces hanswer ⊢
  split at he
  · cases he
    cases y with
    | done w d =>
      obtain ⟨s, ⟨rfl, rfl⟩, hrest⟩ := htraces
      obtain ⟨line, rest⟩ := d
      have hnil := hrest.tokens.nil_left
      dsimp only at hnil
      rw [hnil]
    | unsupported => exact htraces.elim
    | exhausted => exact hanswer.elim
  · cases he

theorem Call.ofTokens?_relaid {ts us : List Token} (h : Token.Relaid .start ts us) (hts : ∀ t ∈ ts, t.Bare) :
    ofTokens? ts = ofTokens? us := by
  have hus : ∀ t ∈ us, t.Bare := by
    refine h.forall_mem (fun t u hsame ht => ⟨?_, ?_⟩) (fun t => Reading.bare_comma) hts
    · exact (Reading.blind_isComment t u hsame.kind hsame.text).symm.trans ht.comment
    · exact (Reading.blind_isKeyword "not in" t u hsame.kind hsame.text).symm.trans ht.notIn
  have hexpr : Expr.ofTokens? ts = Expr.ofTokens? us := by
    apply Option.ext
    intro e
    exact ⟨Expr.ofTokens?_of_relaid h hts hus, Expr.ofTokens?_of_relaid h.symm hus hts⟩
  unfold ofTokens?
  rw [hexpr]

end BuildSync
