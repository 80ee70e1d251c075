import BuildSync.Proofs.Expr.Content
import BuildSync.Proofs.Expr.Sound

namespace BuildSync

namespace Token

theorem Spells.bracket {kind : Kind} {text : String} (h : Spells kind text)
    (hk : ∃ b, kind = .opening b ∨ kind = .closing b) :
    ∃ c, text.toList = [c] ∧ Lexeme.bracket? c = some kind := by
  obtain ⟨c, r, -, hf⟩ := Lexeme.Stands.front h
  generalize hy : Lexeme.of kind text = y at hf
  obtain ⟨b, hk⟩ := hk
  have hliteral {v : String} (hv : y.kind = some (.string v)) : False := by
    rw [← hy, Lexeme.kind_of] at hv
    rcases hk with rfl | rfl <;> cases hv
  cases hf with
  | bracket hc =>
    obtain rfl := Option.some.inj (congrArg Lexeme.kind hy)
    exact ⟨c, congrArg Lexeme.text hy, hc⟩
  | string _ h => exact (hliteral (Lexeme.string_of_literal h).choose_spec.1).elim
  | marked _ _ _ _ h => exact (hliteral (Lexeme.string_of_literal h).choose_spec.1).elim
  | _ => rcases hk with rfl | rfl <;> cases hy

variable {t : Token} {b : Bracket}

theorem adds_opening (ht : t.Spelled) (hk : t.kind = .opening b) (last : Bool) :
    t.adds last = .opening b := by
  have hspells := ht (by rw [hk]; nofun)
  rw [hk] at hspells
  obtain ⟨c, htext, hc⟩ := hspells.bracket ⟨b, .inl rfl⟩
  obtain ⟨b', ⟨rfl, hb⟩ | ⟨rfl, hb⟩⟩ := (Lexeme.bracket?_iff c _).mp hc
  · cases hb
    rw [adds_text (by simp [hk]) (by simp [hk]) (by simp [isOperator, hk])]
    simp [Content.ofCode, htext, Content.opening]
  · cases hb

theorem adds_closing (ht : t.Spelled) (hk : t.kind = .closing b) (last : Bool) :
    t.adds last = .closing b := by
  have hspells := ht (by rw [hk]; nofun)
  rw [hk] at hspells
  obtain ⟨c, htext, hc⟩ := hspells.bracket ⟨b, .inr rfl⟩
  obtain ⟨b', ⟨rfl, hb⟩ | ⟨rfl, hb⟩⟩ := (Lexeme.bracket?_iff c _).mp hc
  · cases hb
  · cases hb
    rw [adds_text (by simp [hk]) (by simp [hk]) (by simp [isOperator, hk])]
    simp [Content.ofCode, htext, Content.closing]

structure Plain (t : Token) : Prop where
  adds : ∀ last, t.adds last = .ofCode t.text
  closes : t.closes = false

theorem plain_of_kind (hk : t.kind = .ident ∨ t.kind = .number ∨ ∃ v, t.kind = .string v) : t.Plain where
  adds := by
    apply adds_text <;> rcases hk with hk | hk | ⟨v, hk⟩ <;> simp [isOperator, hk]
  closes := by
    rcases hk with hk | hk | ⟨v, hk⟩ <;> simp [Token.closes, hk]

theorem plain_of_operator (hk : t.kind = .operator) (ht : t.text ≠ ",") : t.Plain where
  adds := adds_text (by simp [hk]) (by simp [hk]) (by simp [isOperator, ht])
  closes := by simp [Token.closes, hk]

end Token

namespace Reading

open Token

variable {α β : Type}

def Tells (said : Bool → Content) (r : Reading α) (f : α → Bool → Content) : Prop :=
  ∀ c v c', (∀ t ∈ c.rest, t.Spelled) → r c = .done v c' →
    said (closesNext c.rest) ++ content c.rest = f v (closesNext c'.rest) ++ content c'.rest

variable {said : Bool → Content} {x : Content}

theorem tells_pure {f : α → Bool → Content} {v : α} (h : f v = said) : Tells said (Pure.pure v) f := by
  rintro c _ _ - ⟨⟩
  rw [h]

theorem tells_unsupported {f : α → Bool → Content} : Tells said unsupported f := nofun

theorem tells_exhausted {f : α → Bool → Content} : Tells said exhausted f := nofun

theorem Tells.bind {r : Reading α} {P : α → Prop} {f : α → Bool → Content} {s : α → Reading β}
    {g : β → Bool → Content} (hr : Tells said r f) (hy : Yields r P)
    (hs : ∀ v, P v → Tells (f v) (s v) g) : Tells said (r >>= s) g := by
  intro c v c' hc h
  obtain ⟨u, d, hu, h⟩ := bind_done_iff.mp h
  obtain ⟨hP, hd⟩ := hy c u d hc hu
  exact (hr c u d hc hu).trans (hs u hP d v c' hd h)

theorem tells_ahead : Tells said ahead fun _ => said := by
  intro c v c' _ h
  unfold ahead at h
  split at h <;> cases h <;> rfl

theorem tells_token : Tells said token fun t last => said t.closes ++ t.adds last := by
  intro c t c' _ h
  obtain ⟨hcons, ht, -⟩ := token_eq_done h
  rw [hcons, closesNext_cons ht, content_cons, Content.append_assoc]

theorem tells_token? (accept : Token → Bool) : Tells said (token? accept) fun o last =>
    o.elim (said last) fun t => said t.closes ++ t.adds last := by
  apply tells_ahead.bind yields_ahead
  intro next _
  split_ifs
  · exact tells_token.bind yields_token fun t _ => tells_pure rfl
  · exact tells_pure rfl

theorem tells_expect {accept : Token → Bool} {f : Bool → Content}
    (h : ∀ t, t.Spelled → accept t = true → ∀ last, said t.closes ++ t.adds last = f last) :
    Tells said (expect accept) fun _ => f := by
  apply tells_token.bind yields_token
  intro t ht
  split_ifs with haccept
  · exact tells_pure (funext fun last => (h t ht.1 haccept last).symm)
  · exact tells_unsupported

theorem tells_comments : Tells said comments fun cs last => said last ++ .ofComments cs := by
  rintro ⟨line, rest⟩ v c' - ⟨⟩
  dsimp only
  rw [content_dropComments, closesNext_dropComments, Content.append_assoc]

theorem tells_suffix? : Tells said suffix? fun s last => said last ++ .ofComments s.toList := by
  intro c v c' _ h
  rcases suffix?_cases c with hnone | ⟨t, rest, hcons, ht, hsome⟩
  · cases hnone.symm.trans h
    simp
  · cases hsome.symm.trans h
    rw [hcons, closesNext_comment ht, content_cons, adds_comment ht, Content.append_assoc, Option.toList_some]

theorem tells_suffixAfter? (before : Option String) :
    Tells (fun last => x ++ .ofComments before.toList ++ .comma last) (suffixAfter? before)
      fun s last => x ++ .ofComments s.toList ++ .comma last := by
  cases before with
  | some text => exact tells_pure rfl
  | none =>
    intro c v c' hc h
    have htells : Tells (fun last => x ++ .comma last) suffix? _ := tells_suffix?
    simpa only [Option.toList_none, Content.ofComments_nil, Content.append_empty, Content.append_assoc,
      Content.ofComments_append_comma] using htells c v c' hc h

theorem ahead_of_token {c c' : Cursor} {t : Token} {next : Option Token × Option Token}
    (h : ahead c = .done next c) (ht : token c = .done t c') :
    next = (some t, c'.rest.find? (!·.isComment)) := by
  obtain ⟨hrest, hcomment, -⟩ := token_eq_done ht
  obtain ⟨line, rest⟩ := c
  dsimp only at hrest
  subst hrest
  rw [ahead_cons hcomment] at h
  cases h
  rfl

theorem plain_of_keyword {t : Token} {word : String} (h : t.isKeyword word = true) :
    t.Plain ∧ t.text = word := by
  rw [isKeyword, Bool.and_eq_true, beq_iff_eq, beq_iff_eq] at h
  exact ⟨plain_of_kind (.inl h.1), h.2⟩

theorem plain_of_operator? {level : Level} {t : Token} {next : Option Token} {op : String}
    (h : level.operator? t next = some op) (hop : op ≠ "not in") : t.Plain ∧ t.text = op := by
  unfold Level.operator? at h
  split_ifs at h with hs hw hn
  · rw [Bool.and_eq_true, beq_iff_eq, decide_eq_true_iff] at hs
    cases h
    refine ⟨plain_of_operator hs.1 fun hcomma => ?_, rfl⟩
    rw [hcomma] at hs
    cases level <;> exact absurd hs.2 (by decide)
  · rw [Bool.and_eq_true, beq_iff_eq, decide_eq_true_iff] at hw
    cases h
    exact ⟨plain_of_kind (.inl hw.1), rfl⟩
  · cases h
    exact absurd rfl hop

theorem tells_operator? (level : Level) : Tells (fun _ => x) (operator? level) fun o _ =>
    o.elim x fun op => x ++ .operator op := by
  intro c v c' hc h
  obtain ⟨⟨first, second⟩, hahead⟩ := ahead_done c
  rw [operator?, bind_done hahead] at h
  dsimp only at h
  generalize hop : first.bind (level.operator? · second) = o at h
  cases o with
  | none =>
    cases h
    rfl
  | some op =>
  obtain ⟨t, e, ht, h⟩ := bind_done_iff.mp h
  cases ahead_of_token hahead ht
  obtain ⟨hrest, hcomment, -⟩ := token_eq_done ht
  rw [Option.bind_some] at hop
  rw [hrest] at hc ⊢
  split_ifs at h with hnot
  · subst hnot
    obtain ⟨u, e', hu, h⟩ := bind_done_iff.mp h
    cases h
    obtain ⟨hrest', hcomment', -⟩ := token_eq_done hu
    obtain ⟨hfirst, hsecond⟩ := Level.keywords_of_notIn hop (hc t List.mem_cons_self).notIn
    rw [hrest', List.find?_cons_of_pos (by simp [hcomment']), Option.any_some] at hsecond
    obtain ⟨hplain, htext⟩ := plain_of_keyword hfirst
    obtain ⟨hplain', htext'⟩ := plain_of_keyword hsecond
    rw [hrest', content_cons, content_cons, hplain.adds, hplain'.adds, htext, htext']
    simp [Content.operator]
  · cases h
    obtain ⟨hplain, htext⟩ := plain_of_operator? hop hnot
    rw [content_cons, hplain.adds, htext]
    simp [Content.operator, hnot]

theorem Tells.ifToken? {accept : Token → Bool} {w : Bool → Content} {yes no : Reading β}
    {g : β → Bool → Content}
    (hw : ∀ t, t.Spelled → accept t = true → ∀ last, said t.closes ++ t.adds last = w last)
    (hyes : Tells w yes g) (hno : Tells said no g) :
    Tells said (token? accept >>= fun o => if o.isSome then yes else no) g := by
  apply (tells_token? accept).bind (yields_token? accept)
  intro o ho
  cases o with
  | some t =>
    have hw : (fun last => said t.closes ++ t.adds last) = w :=
      funext (hw t (ho t rfl).1 (ho t rfl).2)
    subst hw
    exact hyes
  | none => exact hno

theorem Tells.expect {accept : Token → Bool} {w : Bool → Content} {s : Unit → Reading β}
    {g : β → Bool → Content}
    (hw : ∀ t, t.Spelled → accept t = true → ∀ last, said t.closes ++ t.adds last = w last)
    (hs : Tells w (s ()) g) : Tells said (Reading.expect accept >>= s) g :=
  (tells_expect hw).bind (yields_expect accept) fun _ _ => hs

/-! What is said behind each kind of token that a step asks for. -/

variable {b : Bracket} {t : Token}

theorem said_opening (hspelled : t.Spelled) (ht : opening b t = true) (last : Bool) :
    said t.closes ++ t.adds last = said false ++ .opening b := by
  rw [opening, beq_iff_eq] at ht
  rw [adds_opening hspelled ht, Token.closes, ht]

theorem said_closing (hspelled : t.Spelled) (ht : closing b t = true) (last : Bool) :
    said t.closes ++ t.adds last = said true ++ .closing b := by
  rw [closing, beq_iff_eq] at ht
  rw [adds_closing hspelled ht, Token.closes, ht]

theorem said_plain (ht : t.Plain) (last : Bool) :
    said t.closes ++ t.adds last = said false ++ .ofCode t.text := by
  rw [ht.closes, ht.adds]

theorem said_keyword {word : String} (ht : t.isKeyword word = true) (last : Bool) :
    said t.closes ++ t.adds last = said false ++ .ofCode word := by
  obtain ⟨hplain, htext⟩ := plain_of_keyword ht
  rw [said_plain hplain, htext]

theorem said_symbol {op : String} (hop : op ≠ ",") (ht : symbol op t = true) (last : Bool) :
    said t.closes ++ t.adds last = said false ++ .ofCode op := by
  rw [symbol, isOperator, Bool.and_eq_true, beq_iff_eq, beq_iff_eq] at ht
  rw [said_plain (plain_of_operator ht.1 (by rw [ht.2]; exact hop)), ht.2]

theorem said_comma (ht : symbol "," t = true) (last : Bool) :
    said t.closes ++ t.adds last = said false ++ .comma last := by
  rw [symbol] at ht
  have hk : t.kind = .operator := (by simpa [isOperator] using ht : _ ∧ t.text = ",").1
  rw [adds_comma ht, Token.closes, hk]

def labelled (said : Bool → Content) : Label → Bool → Content
  | .bare, last => said last
  | label, _ => said false ++ label.content

theorem tells_argumentLabel : Tells said argumentLabel (labelled said) := by
  intro c v c' hc h
  obtain ⟨⟨first, second⟩, hahead⟩ := ahead_done c
  rw [argumentLabel, bind_done hahead] at h
  dsimp only at h
  split_ifs at h with hnamed
  · obtain ⟨t, d, ht, h⟩ := bind_done_iff.mp h
    cases ahead_of_token hahead ht
    rw [Option.any_some, Bool.and_eq_true, beq_iff_eq] at hnamed
    have hplain := plain_of_kind (.inl hnamed.1)
    have hname : Tells said token _ := tells_token
    have hequals : Tells (fun last => said t.closes ++ t.adds last)
        (expect (symbol "=") >>= fun _ => Pure.pure (Label.name t.text)) (labelled said) := by
      apply Tells.expect fun _ _ => said_symbol (by decide)
      apply tells_pure
      funext last
      simp [labelled, Label.content, said_plain hplain]
    exact (hname c t d hc ht).trans (hequals d v c' (yields_token c t d hc ht).2 h)
  · cases h
    rfl

def itemized (said : Bool → Content) (item : Label × Expr) (_ : Bool) : Content :=
  said false ++ item.1.content ++ item.2.content

theorem tells_sequence {item : Reading (Label × Expr)} {b : Bracket} (hy : Yields item (FitsIn b))
    (h : ∀ said, Tells said item (itemized said)) (fuel : Nat) :
    Tells said (sequence item b fuel) fun s _ => said s.items.isEmpty ++ s.content ++ .closing b := by
  induction fuel generalizing said with
  | zero => exact tells_exhausted
  | succ fuel ih =>
    apply tells_comments.bind yields_comments
    intro comments _
    apply Tells.ifToken? fun _ => said_closing
    · apply tells_pure
      simp [Sequence.content, Item.contentAll]
    apply (h _).bind hy
    rintro ⟨label, value⟩ _
    apply tells_suffix?.bind yields_suffix?
    intro before hbefore
    apply Tells.ifToken? fun _ _ => said_comma
    · apply (tells_suffixAfter? before).bind (yields_suffixAfter? hbefore)
      intro suffix _
      apply ih.bind (yields_sequence hy fuel)
      rintro ⟨items, trailing⟩ _
      apply tells_pure
      simp [Sequence.content, Item.contentAll, itemized]
    · apply tells_comments.bind yields_comments
      intro trailing _
      apply Tells.expect fun _ => said_closing
      apply tells_pure
      simp [Sequence.content, Item.contentAll, itemized]

theorem tells_tupleRest {item : Reading Expr} (hy : Yields item (Expr.Fits false))
    (h : ∀ said, Tells said item fun e _ => said false ++ e.content) (fuel : Nat) :
    Tells (fun _ => x) (tupleRest item fuel) fun es _ =>
      x ++ .comma es.isEmpty ++ Expr.contentAll es ++ .closing .round := by
  induction fuel generalizing x with
  | zero => exact tells_exhausted
  | succ fuel ih =>
    apply Tells.expect fun _ _ => said_comma
    apply Tells.ifToken? fun _ => said_closing
    · apply tells_pure
      simp [Expr.contentAll]
    apply (h _).bind hy
    intro value _
    apply Tells.ifToken? fun _ => said_closing
    · apply tells_pure
      simp [Expr.contentAll]
    · apply ih.bind (yields_tupleRest hy fuel)
      intro others _
      apply tells_pure
      simp [Expr.contentAll]

structure Telling (fuel : Nat) : Prop where
  expr : ∀ level said, Tells said (expr fuel level) fun e _ => said false ++ e.content
  operations : ∀ level lhs x, Tells (fun _ => x ++ lhs.content) (operations fuel level lhs)
    fun e _ => x ++ e.content
  accesses : ∀ base x, Tells (fun _ => x ++ base.content) (accesses fuel base) fun e _ => x ++ e.content
  operand : ∀ said, Tells said (operand fuel) fun e _ => said false ++ e.content
  parenthesized : ∀ x, Tells (fun _ => x ++ .opening .round) (parenthesized fuel) fun e _ => x ++ e.content
  element : ∀ said, Tells said (element fuel) (itemized said)
  entry : ∀ said, Tells said (entry fuel) (itemized said)
  argument : ∀ said, Tells said (argument fuel) (itemized said)

theorem telling_zero : Telling 0 where
  expr _ _ := tells_exhausted
  operations _ _ _ := tells_exhausted
  accesses _ _ := tells_exhausted
  operand _ := tells_exhausted
  parenthesized _ := tells_exhausted
  element _ := tells_exhausted
  entry _ := tells_exhausted
  argument _ := tells_exhausted

namespace Telling

variable {fuel : Nat}

theorem expr_succ (h : Telling fuel) (level : Level) (said : Bool → Content) :
    Tells said (Reading.expr (fuel + 1) level) fun e _ => said false ++ e.content := by
  by_cases hbin : level ∈ Level.binary
  · rw [expr_binary hbin]
    apply (h.expr level.tighter said).bind ((sound fuel).expr level.tighter)
    intro lhs _
    exact h.operations level lhs _
  cases level with
  | negation =>
    apply Tells.ifToken? fun _ _ => said_keyword
    · apply (h.expr .negation _).bind ((sound fuel).expr .negation)
      intro operand _
      apply tells_pure
      simp [Expr.content]
    · exact h.expr .comparison said
  | sign =>
    apply (tells_token? _).bind (yields_token? _)
    intro op hop
    cases op with
    | none => exact h.expr .access said
    | some t =>
      have hplain : t.Plain := by
        have ht := (hop t rfl).2
        rw [Bool.and_eq_true, beq_iff_eq, decide_eq_true_iff] at ht
        refine plain_of_operator ht.1 fun hcomma => ?_
        rw [hcomma] at ht
        exact absurd ht.2 (by decide)
      apply (h.expr .sign _).bind ((sound fuel).expr .sign)
      intro operand _
      apply tells_pure
      simp [Expr.content, said_plain hplain]
  | access =>
    apply (h.operand said).bind (sound fuel).operand
    intro base _
    exact h.accesses base _
  | _ => exact absurd (by decide) hbin

theorem operations_succ (h : Telling fuel) (level : Level) (lhs : Expr) (x : Content) :
    Tells (fun _ => x ++ lhs.content) (Reading.operations (fuel + 1) level lhs)
      fun e _ => x ++ e.content := by
  apply (tells_operator? level).bind (yields_operator? level)
  intro op _
  cases op with
  | none => exact tells_pure rfl
  | some op =>
    apply (h.expr level.tighter _).bind ((sound fuel).expr level.tighter)
    intro rhs _
    have := h.operations level (.binary op lhs rhs) x
    simpa [Expr.content] using this

theorem accesses_succ (h : Telling fuel) (base : Expr) (x : Content) :
    Tells (fun _ => x ++ base.content) (Reading.accesses (fuel + 1) base) fun e _ => x ++ e.content := by
  apply Tells.ifToken? fun _ => said_opening
  · apply (tells_sequence (sound fuel).argument h.argument fuel).bind
      (yields_sequence (sound fuel).argument fuel)
    intro args _
    have := h.accesses (.call base args) x
    simpa [Expr.content, Content.within] using this
  apply Tells.ifToken? fun _ => said_opening
  · apply (h.expr .disjunction _).bind ((sound fuel).expr .disjunction)
    intro index _
    apply Tells.expect fun _ => said_closing
    have := h.accesses (.index base index) x
    simpa [Expr.content, Content.within] using this
  apply Tells.ifToken? fun _ _ => said_symbol (by decide)
  · apply tells_token.bind yields_token
    intro name _
    split_ifs with hname
    · have hplain : name.Plain := plain_of_kind (.inl (by simpa using (Bool.and_eq_true_iff.mp hname).1))
      have := h.accesses (.dot base name.text) x
      simpa [Expr.content, hplain.adds] using this
    · exact tells_unsupported
  · exact tells_pure rfl

theorem operand_succ (h : Telling fuel) (said : Bool → Content) :
    Tells said (Reading.operand (fuel + 1)) fun e _ => said false ++ e.content := by
  apply tells_token.bind yields_token
  intro t ht
  have hopening {b : Bracket} (hk : t.kind = .opening b) :
      (fun last => said t.closes ++ t.adds last) = fun _ => said false ++ .opening b :=
    funext (said_opening ht.1 (by simp [opening, hk]))
  split
  · rename_i hk
    split_ifs
    · apply tells_pure
      funext last
      rw [said_plain (plain_of_kind (.inl hk)), Expr.content]
    · exact tells_unsupported
  · rename_i hk
    apply tells_pure
    funext last
    rw [said_plain (plain_of_kind (.inr (.inl hk))), Expr.content]
  · rename_i value hk
    apply tells_ahead.bind yields_ahead
    intro next _
    split_ifs
    · exact tells_unsupported
    · apply tells_pure
      funext last
      rw [said_plain (plain_of_kind (.inr (.inr ⟨value, hk⟩)))]
      rfl
  · rename_i hk
    rw [hopening hk]
    apply (tells_sequence (sound fuel).element h.element fuel).bind
      (yields_sequence (sound fuel).element fuel)
    intro s _
    apply tells_pure
    simp [Expr.content, Content.within]
  · rename_i hk
    rw [hopening hk]
    apply (tells_sequence (sound fuel).entry h.entry fuel).bind (yields_sequence (sound fuel).entry fuel)
    intro s _
    apply tells_pure
    simp [Expr.content, Content.within]
  · rename_i hk
    rw [hopening hk]
    exact h.parenthesized _
  · exact tells_unsupported

theorem parenthesized_succ (h : Telling fuel) (x : Content) :
    Tells (fun _ => x ++ .opening .round) (Reading.parenthesized (fuel + 1)) fun e _ => x ++ e.content := by
  apply Tells.ifToken? fun _ => said_closing
  · apply tells_pure
    simp [Expr.content, Expr.contentAll, Content.within]
  apply (h.expr .disjunction _).bind ((sound fuel).expr .disjunction)
  intro first _
  apply Tells.ifToken? fun _ => said_closing
  · apply tells_pure
    simp [Expr.content, Content.within]
  · have hy : Yields (Reading.expr fuel .disjunction) (Expr.Fits false) :=
      ((sound fuel).expr .disjunction).mono fun _ he => he.1
    apply (tells_tupleRest hy (h.expr .disjunction) fuel).bind (yields_tupleRest hy fuel)
    intro others _
    apply tells_pure
    simp [Expr.content, Expr.contentAll, Content.within]

theorem element_succ (h : Telling fuel) (said : Bool → Content) :
    Tells said (Reading.element (fuel + 1)) (itemized said) := by
  apply (h.expr .disjunction said).bind ((sound fuel).expr .disjunction)
  intro value _
  apply tells_pure
  funext _
  simp [itemized, Label.content]

theorem entry_succ (h : Telling fuel) (said : Bool → Content) :
    Tells said (Reading.entry (fuel + 1)) (itemized said) := by
  apply (h.expr .disjunction said).bind ((sound fuel).expr .disjunction)
  intro key _
  apply Tells.expect fun _ _ => said_symbol (by decide)
  apply (h.expr .disjunction _).bind ((sound fuel).expr .disjunction)
  intro value _
  apply tells_pure
  funext _
  simp [itemized, Label.content]

theorem argument_succ (h : Telling fuel) (said : Bool → Content) :
    Tells said (Reading.argument (fuel + 1)) (itemized said) := by
  apply tells_argumentLabel.bind yields_argumentLabel
  intro label _
  apply (h.expr .disjunction _).bind ((sound fuel).expr .disjunction)
  intro value _
  apply tells_pure
  funext _
  cases label <;> simp [itemized, labelled, Label.content]

theorem succ (h : Telling fuel) : Telling (fuel + 1) where
  expr := h.expr_succ
  operations := h.operations_succ
  accesses := h.accesses_succ
  operand := h.operand_succ
  parenthesized := h.parenthesized_succ
  element := h.element_succ
  entry := h.entry_succ
  argument := h.argument_succ

end Telling

theorem telling (fuel : Nat) : Telling fuel := by
  induction fuel with
  | zero => exact telling_zero
  | succ fuel ih => exact ih.succ

end Reading

theorem Expr.content_of_ofTokens? {tokens : List Token} {e : Expr} (ht : ∀ t ∈ tokens, t.Spelled)
    (h : ofTokens? tokens = some e) : Token.content tokens = e.content := by
  obtain ⟨line, hread⟩ := exists_expr_of_ofTokens? h
  have := (Reading.telling _).expr .disjunction (fun _ => .empty) _ _ _ ht hread
  simpa using this

theorem Call.content_of_ofTokens? {tokens : List Token} {c : Call} (ht : ∀ t ∈ tokens, t.Spelled)
    (h : ofTokens? tokens = some c) : Token.content tokens = (Expr.call c.callee c.args).content := by
  unfold ofTokens? at h
  split at h
  · rename_i callee args hexpr
    split_ifs at h
    cases h
    exact Expr.content_of_ofTokens? ht hexpr
  · cases h

end BuildSync
