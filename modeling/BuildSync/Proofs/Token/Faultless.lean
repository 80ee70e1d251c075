import BuildSync.Proofs.Token.Lexemes
import BuildSync.Proofs.Token.Offsets

/-!
Reading by byte offsets never faults, and reads what the reading by characters does.
-/

namespace BuildSync

namespace Head

open Lexeme

variable {source rest cs : List Char} {head : Head} {c : Char}

def ended (head : Head) (p : Position) (unterminated : SyntaxError) :
    Literal.Body → Checked SyntaxError (List Char × Head)
  | .closed text value => .done (value, head.past text)
  | .unterminated => .error unterminated
  | .badEscape text => .error (.at (p.past text) .invalidEscape)

theorem ended_after (head : Head) (p : Position) (e : SyntaxError) (text value : List Char) (b : Literal.Body) :
    head.ended p e (b.after text value) =
      (head.past text).ended (p.past text) e b >>= fun r => .done (value ++ r.1, r.2) := by
  cases b with
  | closed t v =>
    change Checked.done (value ++ v, head.past (text ++ t)) = .done (value ++ v, (head.past text).past t)
    rw [past_append]
  | unterminated => rfl
  | badEscape t =>
    change Checked.error (SyntaxError.at (p.past (text ++ t)) _) = .error (.at ((p.past text).past t) _)
    rw [Position.past_append]

section Body

variable {p : Position} {style : Literal.Style} {e : SyntaxError} {value : List Char}

theorem body_of_done {behind : Head} (hunit : head.unit source style e = .done (none, behind)) :
    head.body source style e = .done ([], behind) := by
  rw [Head.body, hunit]
  rfl

theorem body_of_error {e' : SyntaxError} (hunit : head.unit source style e = .error e') :
    head.body source style e = .error e' := by
  rw [Head.body, hunit]
  rfl

theorem At.body_of_unit (cs : List Char) (h : At source head p (cs ++ rest)) (hcs : cs ≠ [])
    (hunit : head.unit source style e = .done (some value, head.past cs)) {b : Literal.Body}
    (hmore : (head.past cs).body source style e = (head.past cs).ended (p.past cs) e b) :
    head.body source style e = head.ended p e (b.after cs value) := by
  rw [Head.body, hunit, Checked.done_bind]
  dsimp only
  rw [dif_pos (h.further cs hcs), hmore, ended_after]
  rfl

theorem At.unit_slash (hslash : '\\' ≠ style.quote) (h : At source head p ('\\' :: rest)) :
    head.unit source style e =
      (head.step '\\').escape source style e >>= fun r => .done (some r.1, r.2) := by
  simp [unit, h.peek, h.advance, hslash]

theorem At.escape_plain (hx : style.raw = true ∨ c ≠ 'x') (h : At source head p (c :: rest)) :
    head.escape source style e = .done (if style.raw then ['\\', c] else Literal.escape c, head.step c) := by
  simp only [escape, h.peek, h.advance, Checked.done_bind, List.head?_cons]
  split_ifs with hraw hc
  · rfl
  · exact absurd hc (hx.resolve_left hraw)
  · rfl

theorem At.escape_pair {a b : Char} (hraw : ¬ style.raw = true) (h : At source head p ('x' :: a :: b :: rest)) :
    head.escape source style e =
      match Literal.hexPair a b with
      | some v => .done ([v], head.past ['x', a, b])
      | none => .error (.at (p.step 'x') .invalidEscape) := by
  simp only [escape, h.peek, h.advance, h.step.rest_eq, Checked.done_bind, List.head?_cons, if_neg hraw,
    if_pos, List.take_succ_cons, List.take_zero]
  cases Literal.hexPair a b with
  | none => exact h.step.reject _
  | some v =>
    dsimp only
    rw [h.step.advances [a, b] 2 rfl]
    rfl

theorem At.escape_short (hraw : ¬ style.raw = true) (hshort : ∀ a b tail, rest ≠ a :: b :: tail)
    (h : At source head p ('x' :: rest)) :
    head.escape source style e = .error (.at (p.step 'x') .invalidEscape) := by
  simp only [escape, h.peek, h.advance, h.step.rest_eq, Checked.done_bind, List.head?_cons, if_neg hraw,
    if_pos]
  rcases rest with _ | ⟨a, _ | ⟨b, tail⟩⟩
  · exact h.step.reject _
  · exact h.step.reject _
  · exact absurd rfl (hshort a b tail)

theorem At.unit_quote (hfeed : style.quote ≠ '\n') (h : At source head p (style.quote :: rest)) :
    head.unit source style e =
      if style.triple = true then
        if style.delimiter.isPrefixOf (style.quote :: rest) then
          head.advances source 3 >>= fun behind => .done (none, behind)
        else .done (some [style.quote], head.step style.quote)
      else .done (none, head.step style.quote) := by
  simp only [unit, h.peek, h.advance, h.startsWith, Checked.done_bind, List.head?_cons, hfeed, false_and,
    if_false, if_true, Checked.pure_eq]

theorem At.body (hq : isQuote style.quote = true) (h : At source head p rest) :
    head.body source style e = head.ended p e (Literal.body style rest) := by
  have hslash : '\\' ≠ style.quote := (ne_of_isQuote hq (by decide)).symm
  have hfeed : style.quote ≠ '\n' := ne_of_isQuote hq (by decide)
  fun_induction Literal.body style rest generalizing head p with
  | case1 =>
    apply body_of_error
    simp [unit, h.peek]
  | case2 =>
    apply body_of_error
    rw [h.unit_slash hslash, Head.escape, h.step.peek]
    rfl
  | case3 c rest hraw ih =>
    apply At.body_of_unit ['\\', c] h (List.cons_ne_nil _ _) _ (ih (h.past ['\\', c]))
    rw [h.unit_slash hslash, h.step.escape_plain (.inl hraw), if_pos hraw]
    rfl
  | case4 hraw a b rest v hpair ih =>
    apply At.body_of_unit ['\\', 'x', a, b] h (List.cons_ne_nil _ _) _ (ih (h.past ['\\', 'x', a, b]))
    rw [h.unit_slash hslash, h.step.escape_pair hraw, hpair]
    rfl
  | case5 hraw a b rest hpair =>
    apply body_of_error
    rw [h.unit_slash hslash, h.step.escape_pair hraw, hpair]
    rfl
  | case6 rest hraw hshort =>
    apply body_of_error
    rw [h.unit_slash hslash, h.step.escape_short hraw fun a b tail => hshort a b tail]
    rfl
  | case7 c rest hraw hx ih =>
    apply At.body_of_unit ['\\', c] h (List.cons_ne_nil _ _) _ (ih (h.past ['\\', c]))
    rw [h.unit_slash hslash, h.step.escape_plain (.inr hx), if_neg hraw]
    rfl
  | case8 c rest _ hline =>
    apply body_of_error
    simp [unit, h.peek, hline]
  | case9 htriple a b rest hab =>
    obtain ⟨rfl, rfl⟩ := hab
    apply body_of_done
    have hquotes : style.delimiter.isPrefixOf (style.quote :: style.quote :: style.quote :: rest) = true := by
      simp [Literal.Style.delimiter, htriple]
    rw [h.unit_quote hfeed, if_pos htriple, if_pos hquotes, h.advances [_, _, _] 3 rfl]
    rfl
  | case10 htriple a b rest hab _ _ ih =>
    apply At.body_of_unit [style.quote] h (List.cons_ne_nil _ _) _ (ih (h.past [style.quote]))
    rw [h.unit_quote hfeed, if_pos htriple, if_neg]
    · rfl
    · intro hquotes
      simp only [Literal.Style.delimiter, htriple, if_true, List.isPrefixOf_iff_prefix, List.cons_prefix_cons,
        List.nil_prefix, true_and, and_true] at hquotes
      exact hab ⟨hquotes.1.symm, hquotes.2.symm⟩
  | case11 rest htriple hshort _ _ ih =>
    apply At.body_of_unit [style.quote] h (List.cons_ne_nil _ _) _ (ih (h.past [style.quote]))
    rw [h.unit_quote hfeed, if_pos htriple, if_neg]
    · rfl
    · rcases rest with _ | ⟨a, _ | ⟨b, tail⟩⟩
      · simp [Literal.Style.delimiter, htriple]
      · simp [Literal.Style.delimiter, htriple]
      · exact (hshort a b tail rfl).elim
  | case12 rest htriple =>
    apply body_of_done
    rw [h.unit_quote hfeed, if_neg htriple]
    rfl
  | case13 c rest hc hline hquote ih =>
    apply At.body_of_unit [c] h (List.cons_ne_nil _ _) _ (ih (h.past [c]))
    have hne : c ≠ '\\' := fun heq => hc heq
    simp only [unit, h.peek, h.advance, Checked.done_bind, List.head?_cons, if_neg hline, if_neg hquote, if_neg hne]
    rfl

end Body

def answer (head : Head) (p : Progress) : Except Failure Lexeme → Checked SyntaxError (Option Cut × Head × Pending)
  | .error failure => .error (.at (p.place.past failure.skipped) failure.fault)
  | .ok x =>
    match p.past x with
    | .error e => .error e
    | .ok (t, q) => .done (t.map Cut.ofToken, head.past x.chars, q.pending)

variable {p : Progress}

theorem answer_token {x : Lexeme} {kind : Token.Kind} (h : p.token? x = some kind) (head : Head) :
    head.answer p (.ok x) =
      match p.nest kind with
      | .error fault => .error (.at p.place fault)
      | .ok pending => .done (some (.ofToken (p.token kind x.text)), head.past x.chars, pending) := by
  unfold answer Progress.past
  dsimp only
  rw [h]
  dsimp only
  cases p.nest kind <;> rfl

theorem answer_ok {x : Lexeme} (kind : Token.Kind) (hkind : x.kind = some kind) (hnewline : kind ≠ .newline)
    (head : Head) :
    head.answer p (.ok x) =
      match p.nest kind with
      | .error fault => .error (.at p.place fault)
      | .ok pending => .done (some (.ofToken (p.token kind x.text)), head.past x.chars, pending) := by
  apply answer_token
  unfold Progress.token?
  rw [hkind]
  split
  · rename_i heq
    exact absurd (Option.some.inj heq) hnewline
  · rfl

theorem answer_none {x : Lexeme} (h : p.token? x = none) (head : Head) :
    head.answer p (.ok x) = .done (none, head.past x.chars, p.pending) := by
  unfold answer Progress.past
  dsimp only
  rw [h]
  rfl

theorem At.comment (h : At source head p.place ('#' :: rest)) :
    (head.comment source >>= fun r => .done (some r.1, r.2, p.pending)) = head.answer p (read '#' rest) := by
  have hline : passed (fun _ c => c ≠ '\n') '\x00' ('#' :: rest) = '#' :: rest.takeWhile (· ≠ '\n') :=
    passed_eq_takeWhile (· ≠ '\n') '\x00' ('#' :: rest)
  have hfeed : '\n' ∉ passed (fun _ c => c ≠ '\n') '\x00' ('#' :: rest) := notMem_passed (fun _ => rfl) _ _
  obtain ⟨tail, htail⟩ := passed_isPrefix (fun _ c => c ≠ '\n') '\x00' ('#' :: rest)
  unfold Head.comment
  rw [h.skip, Checked.done_bind, byte_past]
  rw [← htail] at h
  have htrim := trimEnd_append_blankTail (passed (fun _ c => c ≠ '\n') '\x00' ('#' :: rest))
  have hcut : At source head p.place (trimEnd (passed (fun _ c => c ≠ '\n') '\x00' ('#' :: rest)) ++
      (blankTail (passed (fun _ c => c ≠ '\n') '\x00' ('#' :: rest)) ++ tail)) := by
    rw [← List.append_assoc, htrim]
    exact h
  rw [h.slice, Checked.done_bind, hcut.push _ hfeed (String.ofList p.gap) .comment, read_hash,
    answer_ok .comment rfl nofun, ← hline]
  change Checked.done (_, _, p.pending) = .done (_, head.past (trimEnd _ ++ blankTail _), p.pending)
  rw [htrim]
  rfl

theorem At.pushed (kind : Token.Kind) (hnest : p.nest kind = .ok p.pending) (hkind : kind ≠ .newline)
    (h : At source head p.place (cs ++ rest)) (hfeed : '\n' ∉ cs) :
    ((do
        let cut ← (head.past cs).push source kind head.byte (head.byte + utf8Length cs)
        return (cut, head.past cs)) >>= fun r => .done (some r.1, r.2, p.pending)) =
      head.answer p (.ok ⟨some kind, cs, []⟩) := by
  rw [h.push cs hfeed (String.ofList p.gap) kind, answer_ok kind rfl hkind, hnest]
  change Checked.done _ = .done (_, head.past (cs ++ []), p.pending)
  rw [List.append_nil]
  rfl

theorem At.number (hc : Lexeme.isDigit c = true ∨ c = '.' ∧ rest.head?.any Lexeme.isDigit = true)
    (h : At source head p.place (c :: rest)) :
    (head.number source >>= fun r => .done (some r.1, r.2, p.pending)) = head.answer p (read c rest) := by
  have hfirst : numeral '\x00' c = true := by
    unfold numeral isWordChar
    rcases hc with hc | ⟨rfl, -⟩
    · simp [hc]
    · rfl
  have hfeed : '\n' ∉ passed numeral '\x00' (c :: rest) := notMem_passed (fun _ => rfl) _ _
  have htext : passed numeral '\x00' (c :: rest) = c :: numberTail c rest := by
    rw [passed, if_pos hfirst, passed_numeral]
  obtain ⟨tail, htail⟩ := passed_isPrefix numeral '\x00' (c :: rest)
  unfold Head.number
  rw [h.skip, Checked.done_bind, byte_past]
  rw [← htail] at h
  rw [read_number rest hc, ← htext]
  exact h.pushed .number rfl (by simp) hfeed

def literalOf (opening : List Char) : Literal.Body → Except Failure Lexeme
  | .closed text value => .ok ⟨some (.string (String.ofList value)), opening ++ text, []⟩
  | .unterminated => .error ⟨[], .unterminatedString⟩
  | .badEscape text => .error ⟨opening ++ text, .invalidEscape⟩

theorem At.quoted {style : Literal.Style} (hq : isQuote style.quote = true) {mark : List Char}
    (h : At source head p.place (mark ++ style.delimiter ++ rest)) :
    ((head.past mark).quoted source style p.place >>= fun r => .done (some r.1, r.2, p.pending)) =
      head.answer p (literalOf (mark ++ style.delimiter) (Literal.body style rest)) := by
  have hopened : At source ((head.past mark).past style.delimiter) ((p.place.past mark).past style.delimiter) rest := by
    rw [← past_append, ← Position.past_append]
    exact h.past _
  have hadvances : (head.past mark).advances source style.delimiter.length =
      .done ((head.past mark).past style.delimiter) := by
    rw [List.append_assoc] at h
    exact (h.past mark).advances style.delimiter _ rfl
  unfold Head.quoted
  rw [hadvances, Checked.done_bind, hopened.body hq]
  cases hbody : Literal.body style rest with
  | unterminated => rfl
  | badEscape text =>
    change Checked.error _ = .error (SyntaxError.at (p.place.past (mark ++ style.delimiter ++ text)) _)
    rw [Position.past_append, Position.past_append]
  | closed text value =>
    obtain ⟨tail, rfl⟩ := (Literal.closes_of_body hbody).split
    rw [← List.append_assoc] at h
    have hcut := h.cut (String.ofList p.gap) (.string (String.ofList value))
    dsimp only [ended, Checked.done_bind, literalOf]
    rw [answer_ok (.string (String.ofList value)) rfl nofun, ← past_append, ← past_append, ← List.append_assoc,
      byte_past, h.byte, h.line, hcut]
    change Checked.done _ = .done (_, head.past (mark ++ style.delimiter ++ text ++ []), p.pending)
    rw [List.append_nil]
    rfl

theorem At.string {quote : Char} (hq : isQuote quote = true) {mark : List Char} (hmark : '\n' ∉ mark) (raw : Bool)
    (h : At source head p.place (mark ++ quote :: rest)) :
    ((head.past mark).string source head.byte raw >>= fun r => .done (some r.1, r.2, p.pending)) =
      head.answer p (literal mark quote rest raw) := by
  have hquote : At source (head.past mark) (p.place.past mark) (quote :: rest) := h.past mark
  have htriple : [quote, quote, quote].isPrefixOf (quote :: rest) = [quote, quote].isPrefixOf rest := by
    simp [List.isPrefixOf]
  unfold Head.string
  rw [h.column_past hmark, Checked.done_bind, hquote.peek, (past_of_notMem hmark head).1, h.place]
  dsimp only [List.head?_cons, Checked.done_bind]
  rw [hquote.startsWith, htriple, Checked.done_bind]
  have hstyle : quote :: rest = (⟨quote, [quote, quote].isPrefixOf rest, raw⟩ : Literal.Style).delimiter ++
      if [quote, quote].isPrefixOf rest then rest.drop 2 else rest := by
    unfold Literal.Style.delimiter
    split_ifs with hquotes
    · obtain ⟨tail, rfl⟩ := List.isPrefixOf_iff_prefix.mp hquotes
      rfl
    · rfl
  rw [hstyle, ← List.append_assoc] at h
  rw [At.quoted hq h]
  unfold literal
  dsimp only
  cases Literal.body _ _ <;> rfl

theorem At.word (hc : isWordStart c = true) (h : At source head p.place (c :: rest)) :
    (head.word source >>= fun r => .done (some r.1, r.2, p.pending)) = head.answer p (read c rest) := by
  have hchar : isWordChar c = true := by
    unfold isWordChar
    rcases Bool.or_eq_true_iff.mp hc with hc | hc <;> simp [hc]
  have hword : (c :: rest).takeWhile isWordChar = c :: rest.takeWhile isWordChar := List.takeWhile_cons_of_pos hchar
  have hfeed : '\n' ∉ (c :: rest).takeWhile isWordChar := by
    rw [← passed_eq_takeWhile isWordChar '\x00']
    exact notMem_passed (fun _ => rfl) _ _
  have hsplit : (c :: rest).takeWhile isWordChar ++ rest.dropWhile isWordChar = c :: rest := by
    rw [hword, List.cons_append, List.takeWhile_append_dropWhile]
  unfold Head.word
  rw [h.skip, passed_eq_takeWhile, Checked.done_bind, byte_past]
  rw [← hsplit] at h
  rw [h.slice, Checked.done_bind, (h.past _).peek, Checked.done_bind, read_word rest hc]
  have hident := h.pushed .ident rfl (by simp) hfeed
  unfold readWord
  dsimp only
  rw [← hword]
  generalize (c :: rest).takeWhile isWordChar = word at *
  cases hmark : stringMark word with
  | none => exact hident
  | some raw =>
    cases hrest : rest.dropWhile isWordChar with
    | nil => exact hident
    | cons quote behind =>
      dsimp only [List.head?_cons, Option.any_some]
      cases hquote : isQuote quote with
      | false => exact hident
      | true =>
        rw [hrest] at h
        exact h.string hquote hfeed raw

theorem At.turn (h : At source head p.place rest) (kind : Token.Kind) :
    head.turn p.pending kind =
      match p.nest kind with
      | .error fault => .error (.at p.place fault)
      | .ok pending => .done pending := by
  unfold Head.turn Progress.nest
  cases kind with
  | opening b =>
    dsimp only
    rw [h.column_eq, Checked.done_bind, h.place]
    rfl
  | closing b =>
    dsimp only
    cases p.pending with
    | nil => exact h.reject _
    | cons top outer =>
      dsimp only
      split_ifs
      · rfl
      · exact h.reject _
  | _ => rfl

theorem At.symbol_of {kind : Token.Kind} (h : At source head p.place (cs ++ rest))
    (hsymbol : symbol? (cs ++ rest) = some (kind, cs)) (hfeed : '\n' ∉ cs) (hkind : kind ≠ .newline) :
    (head.symbol source p.pending >>= fun r => .done (some r.1, r.2.1, r.2.2)) =
      head.answer p (.ok ⟨some kind, cs, []⟩) := by
  unfold Head.symbol
  rw [h.rest_eq, Checked.done_bind, hsymbol]
  dsimp only
  rw [h.turn, answer_ok kind rfl hkind]
  cases p.nest kind with
  | error fault => rfl
  | ok pending =>
    dsimp only [Checked.done_bind]
    rw [h.advances cs _ rfl, Checked.done_bind, byte_past, h.push cs hfeed (String.ofList p.gap) kind]
    change Checked.done _ = .done (_, head.past (cs ++ []), pending)
    rw [List.append_nil]
    rfl

theorem feed_notMem_operators : ∀ op ∈ operators, '\n' ∉ op := by
  decide +kernel

theorem At.symbol (h : At source head p.place (c :: rest)) :
    (head.symbol source p.pending >>= fun r => .done (some r.1, r.2.1, r.2.2)) =
      head.answer p (match bracket? c with
        | some kind => .ok ⟨some kind, [c], []⟩
        | none =>
          match operators.find? (·.isPrefixOf (c :: rest)) with
          | some op => .ok ⟨some .operator, op, []⟩
          | none => .error ⟨[], .unexpectedCharacter c⟩) := by
  cases hbracket : bracket? c with
  | some kind =>
    have hfeed : '\n' ∉ [c] := by
      rw [List.mem_singleton]
      rintro rfl
      cases hbracket
    have hkind : kind ≠ .newline := by
      rintro rfl
      obtain ⟨b, ⟨-, hb⟩ | ⟨-, hb⟩⟩ := (bracket?_iff c _).mp hbracket <;> cases hb
    refine At.symbol_of h ?_ hfeed hkind
    simp [symbol?, hbracket]
  | none =>
    dsimp only
    cases hfind : operators.find? (·.isPrefixOf (c :: rest)) with
    | some op =>
      have hquotes : op.isPrefixOf (c :: rest) = true := by
        simpa only using List.find?_some hfind
      obtain ⟨tail, htail⟩ := List.isPrefixOf_iff_prefix.mp hquotes
      have hsymbol : symbol? (c :: rest) = some (.operator, op) := by
        simp [symbol?, hbracket, hfind]
      rw [← htail] at h hsymbol
      exact At.symbol_of h hsymbol (feed_notMem_operators op (List.mem_of_find?_eq_some hfind)) nofun
    | none =>
      have hsymbol : symbol? (c :: rest) = none := by
        simp only [symbol?, List.head?_cons, Option.bind_some, hbracket, hfind, Option.map_none]
      unfold Head.symbol
      rw [h.rest_eq, Checked.done_bind, hsymbol]
      exact congrArg (· >>= _) (h.reject (.unexpectedCharacter c))

theorem At.join (h : At source head p.place ('\\' :: rest)) (pre : List Char) {tail : List Char}
    (hrest : rest = pre ++ '\n' :: tail) (hpre : pre = [] ∨ pre = ['\r']) :
    head.join source = .done (head.past ('\\' :: pre ++ ['\n'])) := by
  subst hrest
  unfold Head.join
  rcases hpre with rfl | rfl
  · rw [h.advance, Checked.done_bind, h.step.peek]
    exact h.step.advance
  · rw [h.advance, Checked.done_bind, h.step.peek]
    change (head.step '\\').advance source >>= _ = _
    rw [h.step.advance]
    exact h.step.step.advance

theorem At.lexeme (h : At source head p.place (c :: rest)) :
    head.lexeme source p.pending c = head.answer p (read c rest) := by
  unfold Head.lexeme
  rw [h.rest_eq, Checked.done_bind]
  split_ifs with hspace hjoin hfeed hpending hhash hquote hword hdigit
  · rw [h.advance, read_space rest hspace, answer_none rfl]
    rfl
  · obtain ⟨rfl, hjoin⟩ := hjoin
    rw [read_backslash]
    simp only [List.isPrefixOf_iff_prefix, List.cons_prefix_cons, true_and] at hjoin ⊢
    split_ifs with hfeed hreturn
    · obtain ⟨tail, rfl⟩ := hfeed
      rw [h.join [] rfl (.inl rfl), answer_none rfl]
      rfl
    · obtain ⟨tail, rfl⟩ := hreturn
      rw [h.join ['\r'] rfl (.inr rfl), answer_none rfl]
      rfl
    · exact absurd (hjoin.resolve_left hfeed) hreturn
  · subst hfeed
    have hcut := h.push ['\n'] List.not_mem_nil (String.ofList p.gap) .newline
    have htoken : p.token? ⟨some .newline, ['\n'], []⟩ = some .newline := if_pos hpending
    rw [read_feed, answer_token htoken, h.advance]
    change ((head.past []).push source .newline head.byte (head.byte + utf8Length ['\n']) >>= _) = _
    rw [hcut]
    rfl
  · subst hfeed
    have htoken : p.token? ⟨some .newline, ['\n'], []⟩ = none := if_neg hpending
    rw [read_feed, answer_none htoken, h.advance]
    rfl
  · subst hhash
    exact h.comment
  · rw [read_quote rest hquote]
    exact At.string hquote List.not_mem_nil false h
  · exact h.word hword
  · exact h.number hdigit
  · have hfeed' : ¬ (c = '\\' ∧ ['\n'].isPrefixOf rest = true) := by
      rintro ⟨rfl, hrest⟩
      exact hjoin ⟨rfl, .inl hrest⟩
    have hreturn : ¬ (c = '\\' ∧ ['\r', '\n'].isPrefixOf rest = true) := by
      rintro ⟨rfl, hrest⟩
      exact hjoin ⟨rfl, .inr hrest⟩
    rw [Lexeme.read, if_neg hspace, if_neg hfeed', if_neg hreturn, if_neg hfeed, if_neg hhash, if_neg hquote,
      if_neg hword, if_neg (by simpa only [List.drop_one, List.tail_cons] using hdigit)]
    exact h.symbol

theorem At.finish (h : At source head p.place []) :
    head.finish source p.pending = .ofExcept (p.finish.map Cut.ofToken) := by
  have hend : utf8Length source = head.byte := by
    obtain ⟨front, rfl, hlength⟩ := h.source
    rw [List.append_nil, hlength]
  unfold Head.finish Progress.finish
  cases p.pending with
  | nil =>
    dsimp only
    rw [hend]
    exact h.push [] List.not_mem_nil (String.ofList p.gap) .endOfText
  | cons top outer => rfl

theorem At.next {q : Progress} {x : Lexeme} {t : Option Token} (h : At source head p.place (c :: rest))
    (hread : Lexeme.read c rest = .ok x) (hpast : p.past x = .ok (t, q)) :
    At source (head.past x.chars) q.place (rest.drop (x.length - 1)) ∧
      head.byte < (head.past x.chars).byte ∧ (head.past x.chars).byte ≤ utf8Length source := by
  obtain ⟨r, tail, hchars, rfl, -⟩ := stands_of_read hread
  obtain ⟨stack, hstack⟩ := Progress.turn_of_past hpast
  rw [p.past_eq hstack] at hpast
  cases hpast
  rw [Token.length_sub_one hchars, List.drop_left]
  rw [← List.cons_append, ← hchars] at h
  exact ⟨h.past x.chars, h.further x.chars (by rw [hchars]; exact List.cons_ne_nil c r)⟩

theorem At.run_nil (h : At source head p.place []) :
    head.run source p.pending = .ofExcept (p.finish.map fun t => [Cut.ofToken t]) := by
  rw [Head.run, h.peek, Checked.done_bind]
  dsimp only [List.head?_nil]
  rw [h.finish]
  cases p.finish <;> rfl

theorem At.run_cons (h : At source head p.place (c :: rest)) :
    head.run source p.pending = head.answer p (Lexeme.read c rest) >>= fun (cut, next, pending) =>
      if head.byte < next.byte ∧ next.byte ≤ utf8Length source then
        next.run source pending >>= fun cuts => .done (cut.toList ++ cuts)
      else .fault := by
  rw [Head.run, h.peek, Checked.done_bind]
  dsimp only [List.head?_cons]
  rw [h.lexeme]
  rfl

theorem At.run_next {q : Progress} {x : Lexeme} {t : Option Token} (h : At source head p.place (c :: rest))
    (hread : Lexeme.read c rest = .ok x) (hpast : p.past x = .ok (t, q)) :
    head.run source p.pending =
      (head.past x.chars).run source q.pending >>= fun cuts => .done ((t.map Cut.ofToken).toList ++ cuts) := by
  rw [h.run_cons, hread, answer, hpast]
  exact if_pos (h.next hread hpast).2

theorem At.run (h : At source head p.place rest) :
    head.run source p.pending = .ofExcept ((Token.scan p rest).map (List.map Cut.ofToken)) := by
  fun_induction Token.scan p rest generalizing head with
  | case1 p e hfinish =>
    rw [h.run_nil, hfinish]
    rfl
  | case2 p t hfinish =>
    rw [h.run_nil, hfinish]
    rfl
  | case3 p c rest failure hread =>
    rw [h.run_cons, hread]
    rfl
  | case4 p c rest x hread e hpast =>
    rw [h.run_cons, hread, answer, hpast]
    rfl
  | case5 p c rest x hread t q hpast e hscan ih =>
    rw [h.run_next hread hpast, ih (h.next hread hpast).1, hscan]
    rfl
  | case6 p c rest x hread t q hpast ts hscan ih =>
    rw [h.run_next hread hpast, ih (h.next hread hpast).1, hscan]
    cases t <;> rfl

end Head

namespace Token

theorem run_start (source : String) :
    Head.start.run source.toList [] = .ofExcept ((ofSource source).map (List.map Cut.ofToken)) :=
  (Head.At.start source.toList).run (p := .start)

end Token

end BuildSync
