import BuildSync.Proofs.Token.Spelling
import Mathlib.Data.List.TakeWhile
import Mathlib.Tactic.SplitIfs

/-!
String literals without an `r`. A literal is a run of characters and of escapes up to the first quotes behind
them; it is read if each of its hexadecimal escapes names a character, and stands for what its pieces stand for.
-/

namespace BuildSync

namespace Literal

inductive Piece where
  | plain (c : Char)
  | escaped (c : Char)
  deriving DecidableEq, Repr

def Piece.chars : Piece → List Char
  | plain c => [c]
  | escaped c => ['\\', c]

def spelling (ps : List Piece) : List Char := ps.flatMap Piece.chars

def written (style : Style) (mark : List Char) (ps : List Piece) : List Char :=
  mark ++ style.delimiter ++ (spelling ps ++ style.delimiter)

inductive Closed (style : Style) (tail : List Char) : List Piece → List Char → Prop
  | quotes : Closed style tail [] (style.delimiter ++ tail)
  | plain {c : Char} {ps : List Piece} {cs : List Char} (hslash : c ≠ '\\')
    (hfeed : c = '\n' → style.triple = true) (hquotes : ¬ style.delimiter <+: c :: cs)
    (h : Closed style tail ps cs) : Closed style tail (.plain c :: ps) (c :: cs)
  | escaped {c : Char} {ps : List Piece} {cs : List Char} (h : Closed style tail ps cs) :
    Closed style tail (.escaped c :: ps) ('\\' :: c :: cs)

def escapes : List (Char × List Char) := [('n', ['\n']), ('t', ['\t']), ('r', ['\r']), ('0', [Char.ofNat 0]),
  ('\\', ['\\']), ('\'', ['\'']), ('"', ['"']), ('\n', [])]

def TwoDigits (a b v : Char) : Prop :=
  ∃ high low, hexDigit a = some high ∧ hexDigit b = some low ∧ v = Char.ofNat (16 * high + low)

/-- A plus sign may stand for the first digit. -/
def SignedDigits (a b v : Char) : Prop :=
  TwoDigits a b v ∨ a = '+' ∧ ∃ low, hexDigit b = some low ∧ v = Char.ofNat low

inductive Decodes (pair : Char → Char → Char → Prop) : List Piece → List Char → Prop
  | nil : Decodes pair [] []
  | plain (c : Char) {ps : List Piece} {value : List Char} (h : Decodes pair ps value) :
    Decodes pair (.plain c :: ps) (c :: value)
  | hex {a b v : Char} {ps : List Piece} {value : List Char} (hpair : pair a b v) (h : Decodes pair ps value) :
    Decodes pair (.escaped 'x' :: .plain a :: .plain b :: ps) (v :: value)
  | escaped {c : Char} {ps : List Piece} {value : List Char} (hc : c ≠ 'x') (h : Decodes pair ps value) :
    Decodes pair (.escaped c :: ps) ((escapes.lookup c).getD ['\\', c] ++ value)

def HexEscapes (pair : Char → Char → Char → Prop) (ps : List Piece) : Prop :=
  ∀ qs rs, ps = qs ++ .escaped 'x' :: rs → ∃ a b v us, rs = .plain a :: .plain b :: us ∧ pair a b v

section

variable {pair : Char → Char → Char → Prop} {style : Style} {ps : List Piece} {cs tail text value : List Char}

theorem HexEscapes.of_cons {p : Piece} (h : HexEscapes pair (p :: ps)) : HexEscapes pair ps :=
  fun qs rs hps => h (p :: qs) rs (by rw [hps, List.cons_append])

theorem hexEscapes_of_decodes (h : Decodes pair ps value) : HexEscapes pair ps := by
  induction h with
  | nil => exact fun qs rs hps => by simp at hps
  | plain c h ih =>
    intro qs rs hps
    cases qs with
    | nil => cases hps
    | cons q qs => exact ih qs rs (List.cons.inj hps).2
  | @hex a b v ps value hpair h ih =>
    intro qs rs hps
    match qs with
    | [] =>
      obtain ⟨-, rfl⟩ := List.cons.inj hps
      exact ⟨a, b, v, ps, rfl, hpair⟩
    | [q] => cases hps
    | [q, q'] => cases hps
    | q :: q' :: q'' :: qs =>
      simp only [List.cons_append, List.cons.injEq] at hps
      exact ih qs rs hps.2.2.2
  | escaped hc h ih =>
    intro qs rs hps
    cases qs with
    | nil =>
      obtain ⟨hx, -⟩ := List.cons.inj hps
      exact absurd (Piece.escaped.inj hx) hc
    | cons q qs => exact ih qs rs (List.cons.inj hps).2

theorem exists_decodes (ps : List Piece) (h : HexEscapes pair ps) : ∃ value, Decodes pair ps value := by
  match ps with
  | [] => exact ⟨[], .nil⟩
  | .plain c :: ps =>
    obtain ⟨value, hvalue⟩ := exists_decodes ps h.of_cons
    exact ⟨c :: value, .plain c hvalue⟩
  | .escaped c :: ps =>
    by_cases hc : c = 'x'
    · subst hc
      obtain ⟨a, b, v, us, rfl, hpair⟩ := h [] ps rfl
      obtain ⟨value, hvalue⟩ := exists_decodes us h.of_cons.of_cons.of_cons
      exact ⟨v :: value, .hex hpair hvalue⟩
    · obtain ⟨value, hvalue⟩ := exists_decodes ps h.of_cons
      exact ⟨_, .escaped hc hvalue⟩
termination_by ps.length

theorem hexPair_eq_some_iff {a b v : Char} : hexPair a b = some v ↔ SignedDigits a b v := by
  have hplus : hexDigit '+' = none := by decide
  unfold hexPair SignedDigits TwoDigits
  cases ha : hexDigit a with
  | some high =>
    have hne : a ≠ '+' := by
      rintro rfl
      rw [hplus] at ha
      cases ha
    cases hb : hexDigit b <;> simp [hne, eq_comm]
  | none => cases hb : hexDigit b <;> simp [eq_comm]

theorem escape_eq (c : Char) : escape c = (escapes.lookup c).getD ['\\', c] := by
  unfold escape
  split_ifs with hn ht hr h0 hself hfeed
  · subst hn; rfl
  · subst ht; rfl
  · subst hr; rfl
  · subst h0; rfl
  · rcases hself with rfl | rfl | rfl <;> rfl
  · subst hfeed; rfl
  · simp only [not_or] at hself
    simp only [escapes, List.lookup_cons, List.lookup_nil, beq_false_of_ne hn, beq_false_of_ne ht, beq_false_of_ne hr, beq_false_of_ne h0,
      beq_false_of_ne hself.1, beq_false_of_ne hself.2.1, beq_false_of_ne hself.2.2, beq_false_of_ne hfeed,
      Option.getD_none]

theorem Closed.eq (h : Closed style tail ps cs) : cs = spelling ps ++ style.delimiter ++ tail := by
  induction h with
  | quotes => rfl
  | plain _ _ _ _ ih => rw [ih]; rfl
  | escaped _ ih => rw [ih]; rfl

theorem delimiter_eq_cons (style : Style) : ∃ r, style.delimiter = style.quote :: r := by
  unfold Style.delimiter
  split_ifs
  · exact ⟨_, rfl⟩
  · exact ⟨[], rfl⟩

theorem eq_of_delimiter {c : Char} (h : style.delimiter <+: c :: cs) : c = style.quote := by
  obtain ⟨r, hr⟩ := delimiter_eq_cons style
  rw [hr, List.cons_prefix_cons] at h
  exact h.1.symm

theorem plain_of_hexDigit {c : Char} {n : Nat} (h : hexDigit c = some n) :
    c ≠ '\\' ∧ c ≠ '\n' ∧ Lexeme.isQuote c = false := by
  refine ⟨?_, ?_, Bool.eq_false_iff.mpr fun hquote => ?_⟩
  · rintro rfl
    cases h
  · rintro rfl
    cases h
  · rcases (Lexeme.isQuote_iff c).mp hquote with rfl | rfl <;> cases h

theorem Closed.plain_of_pair {a b c v : Char} (h : Closed style tail ps cs)
    (hquote : Lexeme.isQuote style.quote = true) (hpair : SignedDigits a b v) (hc : c = a ∨ c = b) :
    Closed style tail (.plain c :: ps) (c :: cs) := by
  have hplain : c ≠ '\\' ∧ c ≠ '\n' ∧ Lexeme.isQuote c = false := by
    obtain ⟨high, low, ha, hb, -⟩ | ⟨rfl, low, hb, -⟩ := hpair
    · rcases hc with rfl | rfl
      · exact plain_of_hexDigit ha
      · exact plain_of_hexDigit hb
    · rcases hc with rfl | rfl
      · decide
      · exact plain_of_hexDigit hb
  refine .plain hplain.1 (absurd · hplain.2.1) (fun hprefix => ?_) h
  rw [← eq_of_delimiter hprefix, hplain.2.2] at hquote
  cases hquote

structure Read (style : Style) (cs text value : List Char) (ps : List Piece) (tail : List Char) : Prop where
  closed : Closed style tail ps cs
  decodes : Decodes SignedDigits ps value
  text : text = spelling ps ++ style.delimiter

theorem body_cons {c : Char} (hslash : c ≠ '\\') : body style (c :: cs) =
    if c = '\n' ∧ style.triple = false then .unterminated
    else if style.delimiter <+: c :: cs then .closed style.delimiter []
    else (body style cs).after [c] [c] := by
  rw [body.eq_def]
  split
  · rename_i h
    cases h
  · rename_i h
    cases h
    exact absurd rfl hslash
  · rename_i d rest _ heq
    obtain ⟨rfl, rfl⟩ := List.cons.inj heq
    refine if_congr Iff.rfl rfl ?_
    unfold Style.delimiter
    by_cases hc : c = style.quote
    · subst hc
      rw [if_pos rfl]
      cases htriple : style.triple with
      | false => simp
      | true =>
        match cs with
        | [] => simp
        | [a] => simp
        | a :: b :: cs =>
          by_cases hab : a = style.quote ∧ b = style.quote
          · simp [hab]
          · simp [hab, eq_comm (a := style.quote)]
    · rw [if_neg hc, if_neg]
      split_ifs <;> simp [hc, eq_comm]

theorem body_hex (hraw : style.raw = false) {a b v : Char} (h : SignedDigits a b v) :
    body style ('\\' :: 'x' :: a :: b :: cs) = (body style cs).after ['\\', 'x', a, b] [v] := by
  rw [body.eq_def]
  simp [hraw, hexPair_eq_some_iff.mpr h]

theorem Read.quotes (h : style.delimiter = text) : Read style (text ++ tail) text [] [] tail :=
  ⟨h ▸ .quotes, .nil, h.symm⟩

theorem Read.plain {c : Char} (h : Read style cs text value ps tail) (hslash : c ≠ '\\')
    (hfeed : ¬ (c = '\n' ∧ style.triple = false)) (hquotes : ¬ style.delimiter <+: c :: cs) :
    Read style (c :: cs) ([c] ++ text) ([c] ++ value) (.plain c :: ps) tail :=
  ⟨.plain hslash (by simpa using hfeed) hquotes h.closed, .plain c h.decodes, by rw [h.text]; rfl⟩

theorem Read.escaped {c : Char} (h : Read style cs text value ps tail) (hc : c ≠ 'x') :
    Read style ('\\' :: c :: cs) (['\\', c] ++ text) (escape c ++ value) (.escaped c :: ps) tail :=
  ⟨.escaped h.closed, escape_eq c ▸ .escaped hc h.decodes, by rw [h.text]; rfl⟩

theorem Read.hex {a b v : Char} (h : Read style cs text value ps tail)
    (hquote : Lexeme.isQuote style.quote = true) (hpair : SignedDigits a b v) :
    Read style ('\\' :: 'x' :: a :: b :: cs) (['\\', 'x', a, b] ++ text) ([v] ++ value)
      (.escaped 'x' :: .plain a :: .plain b :: ps) tail :=
  ⟨.escaped ((h.closed.plain_of_pair hquote hpair (.inr rfl)).plain_of_pair hquote hpair (.inl rfl)),
    .hex hpair h.decodes, by rw [h.text]; rfl⟩

theorem read_of_body (hraw : style.raw = false) (hquote : Lexeme.isQuote style.quote = true)
    (h : body style cs = .closed text value) : ∃ ps tail, Read style cs text value ps tail := by
  fun_induction body style cs generalizing text value with
  | case1 | case2 | case5 | case6 | case8 => cases h
  | case3 c rest hraw' ih =>
    rw [hraw] at hraw'
    cases hraw'
  | case4 _ a b rest v hpair ih =>
    obtain ⟨text, value, hbody, rfl, rfl⟩ := Body.after_eq_closed h
    obtain ⟨ps, tail, hread⟩ := ih hbody
    exact ⟨_, tail, hread.hex hquote (hexPair_eq_some_iff.mp hpair)⟩
  | case7 c rest _ hx ih =>
    obtain ⟨text, value, hbody, rfl, rfl⟩ := Body.after_eq_closed h
    obtain ⟨ps, tail, hread⟩ := ih hbody
    exact ⟨_, tail, hread.escaped hx⟩
  | case9 htriple a b rest hab =>
    obtain ⟨rfl, rfl⟩ := Body.closed.inj h
    obtain ⟨rfl, rfl⟩ := hab
    exact ⟨[], rest, .quotes (if_pos htriple)⟩
  | case10 htriple a b rest hab hslash hfeed ih =>
    obtain ⟨text, value, hbody, rfl, rfl⟩ := Body.after_eq_closed h
    obtain ⟨ps, tail, hread⟩ := ih hbody
    refine ⟨_, tail, hread.plain hslash hfeed ?_⟩
    rw [Style.delimiter, if_pos htriple]
    simpa [eq_comm] using hab
  | case11 rest htriple hshort hslash hfeed ih =>
    obtain ⟨text, value, hbody, rfl, rfl⟩ := Body.after_eq_closed h
    obtain ⟨ps, tail, hread⟩ := ih hbody
    refine ⟨_, tail, hread.plain hslash hfeed ?_⟩
    rw [Style.delimiter, if_pos htriple]
    rintro ⟨more, hmore⟩
    exact hshort _ _ more (List.cons.inj hmore).2.symm
  | case12 rest htriple =>
    obtain ⟨rfl, rfl⟩ := Body.closed.inj h
    exact ⟨[], rest, .quotes (if_neg htriple)⟩
  | case13 c rest hslash hfeed hne ih =>
    obtain ⟨text, value, hbody, rfl, rfl⟩ := Body.after_eq_closed h
    obtain ⟨ps, tail, hread⟩ := ih hbody
    exact ⟨_, tail, hread.plain hslash hfeed fun hprefix => hne (eq_of_delimiter hprefix)⟩

theorem body_of_closed (hraw : style.raw = false) (hquote : Lexeme.isQuote style.quote = true)
    (hclosed : Closed style tail ps cs) (hdecodes : Decodes SignedDigits ps value) :
    body style cs = .closed (spelling ps ++ style.delimiter) value := by
  induction hdecodes generalizing cs with
  | nil =>
    cases hclosed
    obtain ⟨r, hr⟩ := delimiter_eq_cons style
    have hprefix : style.delimiter <+: style.quote :: (r ++ tail) := ⟨tail, by rw [hr, List.cons_append]⟩
    have hcons : body style (style.quote :: (r ++ tail)) = .closed style.delimiter [] := by
      rw [body_cons (Lexeme.ne_of_isQuote hquote (by decide)),
        if_neg fun h => Lexeme.ne_of_isQuote hquote (by decide) h.1, if_pos hprefix]
    rwa [← List.cons_append, ← hr] at hcons
  | plain c _ ih =>
    cases hclosed with
    | plain hslash hfeed hquotes h =>
      rw [body_cons hslash, if_neg (by rintro ⟨hc, htriple⟩; rw [hfeed hc] at htriple; cases htriple),
        if_neg hquotes, ih h]
      rfl
  | hex hpair _ ih =>
    obtain _ | _ | ⟨_ | ⟨_, _, _, _ | ⟨_, _, _, h⟩⟩⟩ := hclosed
    rw [body_hex hraw hpair, ih h]
    rfl
  | escaped hc _ ih =>
    cases hclosed with
    | escaped h =>
      rw [body_escape hraw _ hc, ih h, escape_eq]
      rfl

end

end Literal

namespace Lexeme

open Literal

structure Begins (style : Literal.Style) (mark cs : List Char) : Prop where
  mark : mark = [] ∨ mark = ['b'] ∨ mark = ['B']
  quote : isQuote style.quote = true
  raw : style.raw = false
  single : style.triple = false → ¬ [style.quote, style.quote] <+: cs

variable {style : Literal.Style} {mark cs rest : List Char} {c : Char}

def ofBody (opening : List Char) : Body → Except Failure Lexeme
  | .closed text value => .ok ⟨some (.string (String.ofList value)), opening ++ text, []⟩
  | .unterminated => .error ⟨[], .unterminatedString⟩
  | .badEscape text => .error ⟨opening ++ text, .invalidEscape⟩

theorem literal_eq (mark : List Char) (quote : Char) (rest : List Char) (raw : Bool) :
    literal mark quote rest raw =
      let style : Literal.Style := ⟨quote, [quote, quote].isPrefixOf rest, raw⟩
      ofBody (mark ++ style.delimiter) (body style (if style.triple then rest.drop 2 else rest)) := by
  unfold literal
  dsimp only
  cases body _ (if [quote, quote].isPrefixOf rest then rest.drop 2 else rest) <;> rfl

theorem Begins.literal_eq (h : Begins style mark cs) :
    literal mark style.quote (style.delimiter.tail ++ cs) false = ofBody (mark ++ style.delimiter) (body style cs) := by
  obtain ⟨quote, triple, raw⟩ := style
  obtain rfl : raw = false := h.raw
  have htriple :
      [quote, quote].isPrefixOf ((⟨quote, triple, false⟩ : Literal.Style).delimiter.tail ++ cs) = triple := by
    cases triple with
    | true => simp [Literal.Style.delimiter]
    | false => exact Bool.eq_false_iff.mpr fun hprefix => h.single rfl (List.isPrefixOf_iff_prefix.mp hprefix)
  have hbehind : (if triple then ((⟨quote, triple, false⟩ : Literal.Style).delimiter.tail ++ cs).drop 2
      else (⟨quote, triple, false⟩ : Literal.Style).delimiter.tail ++ cs) = cs := by
    cases triple <;> rfl
  rw [Lexeme.literal_eq]
  dsimp only
  rw [htriple, hbehind]

theorem Begins.read_eq (h : Begins style mark cs) (hc : mark ++ style.delimiter ++ cs = c :: rest) :
    read c rest = literal mark style.quote (style.delimiter.tail ++ cs) false := by
  obtain ⟨r, hr⟩ := delimiter_eq_cons style
  rw [hr] at hc ⊢
  have hstop : isWordChar style.quote = false := isWordChar_eq_false_of_isQuote h.quote
  have hword (letter : Char) (hstart : isWordStart letter = true) (hmark : stringMark [letter] = some false) :
      read letter (style.quote :: (r ++ cs)) = literal [letter] style.quote (r ++ cs) false := by
    have htake : (style.quote :: (r ++ cs)).takeWhile isWordChar = [] :=
      List.takeWhile_cons_of_neg (by simp [hstop])
    have hdrop : (style.quote :: (r ++ cs)).dropWhile isWordChar = style.quote :: (r ++ cs) :=
      List.dropWhile_cons_of_neg (by simp [hstop])
    have hread := stringMark_readWord (c := letter) (by rwa [htake]) hdrop h.quote
    rw [read_word _ hstart, hread, htake]
  rcases h.mark with rfl | rfl | rfl
  · obtain ⟨rfl, rfl⟩ := List.cons.inj hc
    exact read_quote _ h.quote
  · obtain ⟨rfl, rfl⟩ := List.cons.inj hc
    exact hword 'b' (by decide) (by decide)
  · obtain ⟨rfl, rfl⟩ := List.cons.inj hc
    exact hword 'B' (by decide) (by decide)

theorem Begins.read_ok (h : Begins style mark cs) (hc : mark ++ style.delimiter ++ cs = c :: rest) {ps : List Piece}
    {tail value : List Char} (hclosed : Closed style tail ps cs) (hdecodes : Decodes SignedDigits ps value) :
    read c rest = .ok ⟨some (.string (String.ofList value)), written style mark ps, []⟩ := by
  rw [h.read_eq hc, h.literal_eq, body_of_closed h.raw h.quote hclosed hdecodes]
  rfl

theorem Begins.read_iff (h : Begins style mark cs) (hc : mark ++ style.delimiter ++ cs = c :: rest) :
    (∃ x, read c rest = .ok x) ↔ ∃ ps tail, Closed style tail ps cs ∧ HexEscapes SignedDigits ps := by
  constructor
  · rintro ⟨x, hread⟩
    rw [h.read_eq hc, h.literal_eq] at hread
    cases hbody : body style cs with
    | closed text value =>
      obtain ⟨ps, tail, hps⟩ := read_of_body h.raw h.quote hbody
      exact ⟨ps, tail, hps.closed, hexEscapes_of_decodes hps.decodes⟩
    | _ =>
      rw [hbody] at hread
      cases hread
  · rintro ⟨ps, tail, hclosed, hescapes⟩
    obtain ⟨value, hvalue⟩ := exists_decodes ps hescapes
    exact ⟨_, h.read_ok hc hclosed hvalue⟩

theorem Begins.fault_of_read (h : Begins style mark cs) (hc : mark ++ style.delimiter ++ cs = c :: rest)
    {failure : Failure} (hread : read c rest = .error failure) :
    failure.fault = .unterminatedString ∨ failure.fault = .invalidEscape := by
  rw [h.read_eq hc, h.literal_eq] at hread
  cases hbody : body style cs <;> rw [hbody] at hread <;> cases hread
  · exact .inl rfl
  · exact .inr rfl

theorem scan_literal (h : Begins style mark cs) {ps : List Piece} {tail value : List Char}
    (hclosed : Closed style tail ps cs) (hdecodes : Decodes SignedDigits ps value) (p : Progress) :
    Token.scan p (mark ++ style.delimiter ++ cs) =
      (Token.scan ⟨p.place.past (written style mark ps), [], p.pending⟩ tail).map
        (p.token (.string (String.ofList value)) (written style mark ps) :: ·) := by
  obtain ⟨c, rest, hc⟩ : ∃ c rest, mark ++ style.delimiter ++ cs = c :: rest := by
    obtain ⟨r, hr⟩ := delimiter_eq_cons style
    exact List.exists_cons_of_ne_nil (by simp [hr])
  have hsplit : mark ++ style.delimiter ++ cs = written style mark ps ++ tail := by
    rw [hclosed.eq]
    simp [written]
  have hread := h.read_ok hc hclosed hdecodes
  rw [hc, Token.scan_read tail hread (by simp [chars, ← hsplit, hc]) rfl]
  simp [Progress.next, Progress.next?, Progress.token?, chars]

/-- A literal without an `r` is read if its quotes are closed and each of its hexadecimal escapes names a
character; its pieces tell its value. -/
theorem literal_iff (h : Begins style mark cs) (hc : mark ++ style.delimiter ++ cs = c :: rest) :
    ((∃ x, read c rest = .ok x) ↔ ∃ ps tail, Closed style tail ps cs ∧ HexEscapes SignedDigits ps) ∧
      (∀ ps tail, Closed style tail ps cs → HexEscapes SignedDigits ps → (∃ value, Decodes SignedDigits ps value) ∧
        ∀ value, Decodes SignedDigits ps value → ∀ p, Token.scan p (c :: rest) =
          (Token.scan ⟨p.place.past (written style mark ps), [], p.pending⟩ tail).map
            (p.token (.string (String.ofList value)) (written style mark ps) :: ·)) ∧
      ((¬ ∃ ps tail, Closed style tail ps cs ∧ HexEscapes SignedDigits ps) → ∀ p, ∃ e,
        Token.scan p (c :: rest) = .error e ∧ (e.fault = .unterminatedString ∨ e.fault = .invalidEscape)) := by
  refine ⟨h.read_iff hc, fun ps tail hclosed hescapes => ?_, fun hnone p => ?_⟩
  · refine ⟨exists_decodes ps hescapes, fun value hvalue p => ?_⟩
    rw [← hc]
    exact scan_literal h hclosed hvalue p
  · cases hread : read c rest with
    | ok x => exact absurd ((h.read_iff hc).mp ⟨x, hread⟩) hnone
    | error failure =>
      rw [Token.scan, hread]
      exact ⟨_, rfl, h.fault_of_read hc hread⟩

theorem literal_iff_marked : Begins ⟨'\'', true, false⟩ ['b'] ['\\', 'x', '4', 'a', '\n', '\'', '\'', '\'', '+'] ∧
    ∀ p, Token.scan p ['b', '\'', '\'', '\'', '\\', 'x', '4', 'a', '\n', '\'', '\'', '\'', '+'] =
      (Token.scan ⟨p.place.past ['b', '\'', '\'', '\'', '\\', 'x', '4', 'a', '\n', '\'', '\'', '\''], [], p.pending⟩
        ['+']).map
          (p.token (.string "J\n") ['b', '\'', '\'', '\'', '\\', 'x', '4', 'a', '\n', '\'', '\'', '\''] :: ·) := by
  have h : Begins ⟨'\'', true, false⟩ ['b'] ['\\', 'x', '4', 'a', '\n', '\'', '\'', '\'', '+'] :=
    ⟨.inr (.inl rfl), rfl, rfl, nofun⟩
  have hclosed : Closed ⟨'\'', true, false⟩ ['+'] [.escaped 'x', .plain '4', .plain 'a', .plain '\n']
      ['\\', 'x', '4', 'a', '\n', '\'', '\'', '\'', '+'] :=
    .escaped (.plain (by decide) nofun (by decide) (.plain (by decide) nofun (by decide)
      (.plain (by decide) (fun _ => rfl) (by decide) .quotes)))
  have hdecodes : Decodes SignedDigits [.escaped 'x', .plain '4', .plain 'a', .plain '\n'] ['J', '\n'] :=
    .hex (.inl ⟨4, 10, rfl, rfl, rfl⟩) (.plain '\n' .nil)
  exact ⟨h, ((literal_iff h rfl).2.1 _ _ hclosed (hexEscapes_of_decodes hdecodes)).2 _ hdecodes⟩

def signedTokens : List Token := [⟨"", .string "\x0f", "\"\\x+f\"", .start⟩, ⟨"", .endOfText, "", ⟨6, 1, 6⟩⟩]

/-- One hexadecimal digit is enough behind a plus sign. -/
theorem signed_literal_accepted : Token.ofSource "\"\\x+f\"" = .ok signedTokens ∧
    Begins ⟨'"', false, false⟩ [] ['\\', 'x', '+', 'f', '"'] ∧
      ¬ ∃ ps tail, Closed ⟨'"', false, false⟩ tail ps ['\\', 'x', '+', 'f', '"'] ∧ HexEscapes TwoDigits ps := by
  refine ⟨by decide +kernel, ⟨.inl rfl, rfl, rfl, fun _ => by decide⟩, ?_⟩
  rintro ⟨ps, tail, hclosed, hescapes⟩
  generalize hcs : ['\\', 'x', '+', 'f', '"'] = cs at hclosed
  cases hclosed with
  | quotes => cases hcs
  | plain hslash _ _ _ => cases hcs; exact hslash rfl
  | escaped h =>
    cases hcs
    obtain ⟨a, b, v, us, rfl, hpair⟩ := hescapes [] _ rfl
    cases h with
    | plain _ _ _ _ =>
      obtain ⟨high, low, ha, -, -⟩ := hpair
      cases ha

end Lexeme

end BuildSync
