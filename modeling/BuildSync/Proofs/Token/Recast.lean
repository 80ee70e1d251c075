import BuildSync.Proofs.Token.Layout
import BuildSync.Proofs.Token.Returns
import Mathlib.Data.List.Find

/-!
The lexemes and the tokens of a text with a carriage return in front of each line feed.
-/

namespace BuildSync

namespace Lexeme

open Literal

def tripled (text : List Char) : Bool :=
  match text.dropWhile (!isQuote ·) with
  | a :: b :: c :: _ => a == b && b == c
  | _ => false

def Splits (x : Lexeme) : Prop :=
  (∃ value, x.kind = some (.string value)) ∧ '\n' ∈ x.text ∧ tripled x.text = false

def isString : Option Token.Kind → Bool
  | some (.string _) => true
  | _ => false

inductive Recast : Lexeme → Lexeme → Prop
  | string {text value value' : List Char} (hkept : Kept text value value') :
    Recast ⟨some (.string (String.ofList value)), text, []⟩
      ⟨some (.string (String.ofList value')), returned text, []⟩
  | same {kind : Option Token.Kind} {text : List Char} (hstring : isString kind = false)
    (hfeed : '\n' ∉ text) : Recast ⟨kind, text, []⟩ ⟨kind, text, []⟩
  | join : Recast ⟨none, ['\\', '\n'], []⟩ ⟨none, ['\\', '\r', '\n'], []⟩
  | comment {text after : List Char} (hfeed : '\n' ∉ text ++ after) :
    Recast ⟨some .comment, text, after⟩ ⟨some .comment, text, after⟩
  | line {text after : List Char} (hfeed : '\n' ∉ text ++ after) :
    Recast ⟨some .comment, text, after⟩ ⟨some .comment, text, after ++ ['\r']⟩

inductive Alike : Except Failure Lexeme → Except Failure Lexeme → Prop
  | ok {x y : Lexeme} (h : x.Recast y) : Alike (.ok x) (.ok y)
  | error {r : Except Failure Lexeme} {e : Failure} (h : ∀ x, r = .ok x → x.Splits) : Alike r (.error e)

theorem Alike.errors (e e' : Failure) : Alike (.error e) (.error e') := .error nofun

variable {mark rest : List Char} {quote c : Char} {raw : Bool}

theorem tripled_eq_false {text tail : List Char} (hquote : isQuote quote = true)
    (hmark : ∀ c ∈ mark, isQuote c = false) (h : [quote, quote].isPrefixOf (text ++ tail) = false) :
    tripled (mark ++ quote :: text) = false := by
  have hdrop : (mark ++ quote :: text).dropWhile (!isQuote ·) = quote :: text := by
    rw [List.dropWhile_append_of_pos fun c hc => by simpa using hmark c hc,
      List.dropWhile_cons_of_neg (by simpa using hquote)]
  unfold tripled
  rw [hdrop]
  match text with
  | [] => rfl
  | [_] => rfl
  | a :: b :: text =>
    rw [Bool.eq_false_iff]
    intro hequal
    simp only [Bool.and_eq_true, beq_iff_eq] at hequal
    obtain ⟨rfl, rfl⟩ := hequal
    simp [List.isPrefixOf] at h

theorem isPrefixOf_returned {op : List Char} (hfeed : '\n' ∉ op) (hreturn : '\r' ∉ op) (cs : List Char) :
    op.isPrefixOf (returned cs) = op.isPrefixOf cs := by
  rw [Bool.eq_iff_iff, List.isPrefixOf_iff_prefix, List.isPrefixOf_iff_prefix]
  exact prefix_returned_iff hfeed hreturn cs

theorem ofBody_of_open {opening : List Char} {b : Body} (h : b.isClosed = false) :
    ∃ e, ofBody opening b = .error e := by
  cases b with
  | closed => cases h
  | unterminated => exact ⟨_, rfl⟩
  | badEscape => exact ⟨_, rfl⟩

theorem ofBody_returned {style : Literal.Style} {b b' : Body} (h : b.Returned style b')
    (hmark : ∀ c ∈ mark, isQuote c = false) (hfeed : '\n' ∉ mark) (hquote : isQuote style.quote = true)
    (hraw : style.raw = (stringMark mark).getD false)
    (hsingle : ∀ text value, b = .closed text value → style.triple = false →
      tripled (mark ++ style.delimiter ++ text) = false) :
    Alike (ofBody (mark ++ style.delimiter) b) (ofBody (mark ++ style.delimiter) b') := by
  cases h with
  | @closed inside value value' hkeeps =>
    have hdelimiter : returned style.delimiter = style.delimiter := returned_eq_self (notMem_delimiter hquote rfl)
    have := Recast.string ⟨mark, style, inside, ⟨rfl, hmark, hquote, hraw⟩, hkeeps⟩
    simp only [returned_append, returned_eq_self hfeed, hdelimiter] at this
    exact .ok this
  | cut htriple hfeed hb' =>
    obtain ⟨e, he⟩ := ofBody_of_open hb'
    rw [he]
    refine .error fun x hx => ?_
    cases hx
    exact ⟨⟨_, rfl⟩, List.mem_append_right _ hfeed, hsingle _ _ rfl htriple⟩
  | failed hb hb' =>
    obtain ⟨e, he⟩ := ofBody_of_open hb
    obtain ⟨e', he'⟩ := ofBody_of_open hb'
    rw [he, he']
    exact .errors _ _

theorem literal_returned (hquote : isQuote quote = true) (hmark : ∀ c ∈ mark, isWordChar c = true)
    (rest : List Char) (hraw : raw = (stringMark mark).getD false) :
    Alike (literal mark quote rest raw) (literal mark quote (returned rest) raw) := by
  have hplain (c : Char) (hc : isQuote c = false) : c ∉ [quote, quote] := by
    intro hmem
    rw [show c = quote by simpa using hmem, hquote] at hc
    cases hc
  have hnoquote (c : Char) (hc : c ∈ mark) : isQuote c = false := by
    refine Bool.eq_false_iff.mpr fun h => ?_
    exact Bool.false_ne_true ((isWordChar_eq_false_of_isQuote h).symm.trans (hmark c hc))
  rw [literal_eq, literal_eq, isPrefixOf_returned (hplain _ rfl) (hplain _ rfl) rest]
  generalize htriple : [quote, quote].isPrefixOf rest = triple
  dsimp only
  have hbehind : (if triple then (returned rest).drop 2 else returned rest) =
      returned (if triple then rest.drop 2 else rest) := by
    cases triple with
    | false => rfl
    | true =>
      obtain ⟨tail, rfl⟩ := List.isPrefixOf_iff_prefix.mp htriple
      rw [returned_append, returned_eq_self (hplain _ rfl)]
      rfl
  rw [hbehind]
  refine ofBody_returned (@body_returned ⟨quote, triple, raw⟩ hquote _) hnoquote
    (fun hmem => absurd (hmark _ hmem) (by decide)) hquote hraw fun text value hbody hsingle => ?_
  obtain rfl : triple = false := hsingle
  obtain ⟨tail, htail⟩ := (closes_of_body hbody).split
  obtain rfl : rest = text ++ tail := htail
  rw [Literal.Style.delimiter, if_neg Bool.false_ne_true, List.append_assoc, List.singleton_append]
  exact tripled_eq_false hquote hnoquote htriple

theorem numberTail_returned (last : Char) (cs : List Char) : numberTail last (returned cs) = numberTail last cs := by
  induction cs generalizing last with
  | nil => rfl
  | cons c cs ih =>
    by_cases hc : c = '\n'
    · subst hc
      simp [numberTail, isWordChar, isLetter, isDigit]
    · rw [returned_cons hc, numberTail, numberTail, ih]

theorem readWord_returned (hc : isWordChar c = true) (rest : List Char) :
    Alike (readWord c rest) (readWord c (returned rest)) := by
  have htake : (returned rest).takeWhile isWordChar = rest.takeWhile isWordChar := takeWhile_returned rfl rfl rest
  have hdrop : (returned rest).dropWhile isWordChar = returned (rest.dropWhile isWordChar) :=
    dropWhile_returned rfl rfl rest
  have hword : ∀ d ∈ c :: rest.takeWhile isWordChar, isWordChar d = true :=
    List.forall_mem_cons.mpr ⟨hc, fun d hd => List.all_eq_true.mp List.all_takeWhile d hd⟩
  by_cases hident : stringMark (c :: rest.takeWhile isWordChar) = none ∨
      (rest.dropWhile isWordChar).head?.any isQuote = false
  · rw [readWord_ident hident, readWord_ident, htake]
    · exact .ok (.same rfl (not_mem_of_wordChar rfl hword))
    · rwa [htake, hdrop, any_head?_returned rfl rfl]
  · obtain ⟨hmark, hquote⟩ := not_or.mp hident
    obtain ⟨raw, hraw⟩ := Option.ne_none_iff_exists'.mp hmark
    match hbehind : rest.dropWhile isWordChar with
    | [] => simp [hbehind] at hquote
    | quote :: behind =>
      have hisquote : isQuote quote = true := by simpa [hbehind] using hquote
      rw [hbehind, returned_cons (ne_of_isQuote hisquote rfl)] at hdrop
      rw [stringMark_readWord hraw hbehind hisquote, stringMark_readWord (htake ▸ hraw) hdrop hisquote, htake]
      exact literal_returned hisquote hword behind (by rw [hraw]; rfl)

theorem trimEnd_concat {c : Char} (h : isBlank c = true) (cs : List Char) : trimEnd (cs ++ [c]) = trimEnd cs := by
  simp [trimEnd, h]

theorem blankTail_concat {c : Char} (h : isBlank c = true) (cs : List Char) :
    blankTail (cs ++ [c]) = blankTail cs ++ [c] := by
  simp [blankTail, h]

theorem comment_returned (rest : List Char) :
    Recast (comment ('#' :: rest.takeWhile (· ≠ '\n'))) (comment ('#' :: (returned rest).takeWhile (· ≠ '\n'))) := by
  have hall : ∀ c ∈ rest.takeWhile (· ≠ '\n'), decide (c ≠ '\n') = true :=
    fun c hc => List.all_eq_true.mp List.all_takeWhile c hc
  have hstop := any_head?_dropWhile (· ≠ '\n') rest
  have hsplit := List.takeWhile_append_dropWhile (p := (· ≠ '\n')) (l := rest)
  generalize rest.takeWhile (· ≠ '\n') = line at hall hsplit ⊢
  generalize rest.dropWhile (· ≠ '\n') = tail at hstop hsplit
  subst hsplit
  have hfeed : '\n' ∉ line := fun hmem => by simpa using hall _ hmem
  have hhash : '\n' ∉ '#' :: line := by simpa using hfeed
  rw [returned_append, returned_eq_self hfeed, List.takeWhile_append_of_pos hall]
  cases tail with
  | nil =>
    rw [returned_nil, List.takeWhile_nil, List.append_nil]
    exact .comment (by rwa [trimEnd_append_blankTail])
  | cons d tail =>
    obtain rfl : d = '\n' := by simpa using hstop
    have hreturn : (returned ('\n' :: tail)).takeWhile (· ≠ '\n') = ['\r'] := by simp
    rw [hreturn, ← List.cons_append, comment, comment, trimEnd_concat rfl, blankTail_concat rfl]
    exact .line (by rwa [trimEnd_append_blankTail])

theorem read_slash_returned (hreturn : '\r' ∉ rest) : Alike (read '\\' rest) (read '\\' (returned rest)) := by
  rw [read_backslash, read_backslash]
  cases rest with
  | nil => exact .errors _ _
  | cons d rest =>
    by_cases hd : d = '\n'
    · subst hd
      exact .ok .join
    · have hd' : d ≠ '\r' := fun h => hreturn (h ▸ List.mem_cons_self)
      have hdrop (cs : List Char) :
          ['\n'].isPrefixOf (d :: cs) = false ∧ ['\r', '\n'].isPrefixOf (d :: cs) = false := by
        simp [List.isPrefixOf, Ne.symm hd, Ne.symm hd']
      rw [returned_cons hd]
      simp only [(hdrop _).1, (hdrop _).2]
      exact .errors _ _

theorem plain_of_operator : ∀ op ∈ operators, '\n' ∉ op ∧ '\r' ∉ op := by
  decide +kernel

theorem find?_operators_returned (cs : List Char) :
    operators.find? (·.isPrefixOf (returned cs)) = operators.find? (·.isPrefixOf cs) := by
  refine List.find?_congr fun op hop => ?_
  obtain ⟨hfeed, hreturn⟩ := plain_of_operator op hop
  exact isPrefixOf_returned hfeed hreturn cs

theorem read_returned (hc : c ≠ '\n') (hreturn : '\r' ∉ rest) : Alike (read c rest) (read c (returned rest)) := by
  by_cases hspace : isSpace c = true
  · rw [read_space _ hspace, read_space _ hspace]
    exact .ok (.same rfl (by simpa using Ne.symm hc))
  by_cases hslash : c = '\\'
  · exact hslash ▸ read_slash_returned hreturn
  by_cases hhash : c = '#'
  · subst hhash
    rw [read_hash, read_hash]
    exact .ok (comment_returned rest)
  by_cases hquote : isQuote c = true
  · rw [read_quote _ hquote, read_quote _ hquote]
    exact literal_returned hquote (List.forall_mem_nil _) rest rfl
  by_cases hword : isWordStart c = true
  · rw [read_word _ hword, read_word _ hword]
    refine readWord_returned ?_ rest
    unfold isWordChar
    rcases Bool.or_eq_true_iff.mp hword with h | h <;> simp [h]
  have hdigit : (returned rest).head?.any isDigit = rest.head?.any isDigit := any_head?_returned rfl rfl rest
  by_cases hnumber : isDigit c = true ∨ c = '.' ∧ rest.head?.any isDigit = true
  · rw [read_number _ hnumber, read_number _ (by rwa [hdigit]), numberTail_returned]
    refine .ok (.same rfl ?_)
    rw [List.mem_cons, not_or]
    exact ⟨Ne.symm hc, not_mem_numberTail rfl (by decide) (by decide) (by decide) c rest⟩
  have hfind := find?_operators_returned (c :: rest)
  rw [returned_cons hc] at hfind
  simp only [read, hspace, hslash, hc, hhash, hquote, hword, hdigit, hnumber, hfind, false_and, if_false,
    Bool.false_eq_true]
  cases hbracket : bracket? c with
  | some kind =>
    have hfeed : '\n' ∉ [c] := by simpa using Ne.symm hc
    obtain ⟨b, ⟨-, rfl⟩ | ⟨-, rfl⟩⟩ := (bracket?_iff c kind).mp hbracket
    · exact .ok (.same rfl hfeed)
    · exact .ok (.same rfl hfeed)
  | none =>
    cases hop : operators.find? (·.isPrefixOf (c :: rest)) with
    | some op => exact .ok (.same rfl (plain_of_operator op (List.mem_of_find?_eq_some hop)).1)
    | none => exact .errors _ _

theorem Recast.turn {x y : Lexeme} (h : x.Recast y) (stack : List Bracket) : turn stack y = turn stack x := by
  cases h <;> rfl

theorem Recast.chars {x y : Lexeme} (h : x.Recast y) :
    y.chars = returned x.chars ∨ '\n' ∉ x.chars ∧ y.chars = x.chars ++ ['\r'] := by
  cases h with
  | string => simp [Lexeme.chars]
  | same _ hfeed => exact .inl (by simpa [Lexeme.chars] using (returned_eq_self hfeed).symm)
  | join => exact .inl rfl
  | comment hfeed => exact .inl (returned_eq_self hfeed).symm
  | line hfeed => exact .inr ⟨hfeed, (List.append_assoc ..).symm⟩

end Lexeme

namespace Position

theorem past_returned {p q : Position} (hline : q.line = p.line) (hcolumn : q.column = p.column) (cs : List Char) :
    (q.past (returned cs)).line = (p.past cs).line ∧ (q.past (returned cs)).column = (p.past cs).column := by
  induction cs generalizing p q with
  | nil => exact ⟨hline, hcolumn⟩
  | cons c cs ih =>
    by_cases hc : c = '\n'
    · subst hc
      exact ih (p := p.step '\n') (q := (q.step '\r').step '\n') (by simp [step, hline]) rfl
    · rw [returned_cons hc]
      exact ih (p := p.step c) (q := q.step c) (by simp [step, hc, hline]) (by simp [step, hc, hcolumn])

end Position

namespace Token

def Respelled (value spelling value' spelling' : String) : Prop :=
  spelling'.toList = returned spelling.toList ∧ Literal.Kept spelling.toList value.toList value'.toList

structure Recast (t u : Token) : Prop where
  looks : t.Resembles Respelled u
  line : u.start.line = t.start.line
  column : t.kind ≠ .newline → u.start.column = t.start.column

def Splits (t : Token) : Prop :=
  t.isString = true ∧ '\n' ∈ t.text.toList ∧ Lexeme.tripled t.text.toList = false

instance (t : Token) : Decidable t.Splits := inferInstanceAs (Decidable (_ ∧ _ ∧ _))

inductive Alike : Except SyntaxError (List Token) → Except SyntaxError (List Token) → Prop
  | ok {ts us : List Token} (h : List.Forall₂ Recast ts us) : Alike (.ok ts) (.ok us)
  | error {r : Except SyntaxError (List Token)} {e : SyntaxError}
    (h : ∀ ts, r = .ok ts → ∃ t ∈ ts, t.Splits) : Alike r (.error e)

theorem Alike.errors (e e' : SyntaxError) : Alike (.error e) (.error e') := .error nofun

theorem Recast.endLine_eq {t u : Token} (h : t.Recast u) : u.endLine = t.endLine := by
  unfold endLine
  rw [h.line]
  cases h.looks with
  | string _ _ hs => rw [hs.1, count_dropLast_returned]
  | same _ htext => rw [htext]

theorem Alike.map {r r' : Except SyntaxError (List Token)} {ts us : List Token} (h : Alike r r')
    (hts : List.Forall₂ Recast ts us) : Alike (r.map (ts ++ ·)) (r'.map (us ++ ·)) := by
  cases h with
  | ok h => exact .ok (List.rel_append hts h)
  | error h =>
    refine .error fun vs hvs => ?_
    cases r with
    | error => cases hvs
    | ok ts' =>
      cases hvs
      obtain ⟨t, ht, hsplits⟩ := h ts' rfl
      exact ⟨t, List.mem_append_right _ ht, hsplits⟩

variable {p q : Progress} {x y : Lexeme} {cs tail tail' : List Char}

structure Abreast (p q : Progress) : Prop where
  line : q.place.line = p.place.line
  column : q.place.column = p.place.column
  brackets : q.brackets = p.brackets

theorem pending_isEmpty (h : q.brackets = p.brackets) : q.pending.isEmpty = p.pending.isEmpty := by
  unfold Progress.brackets at h
  rw [← List.isEmpty_map, h, List.isEmpty_map]

theorem Abreast.next? (h : Abreast p q) (hx : x.Recast y) :
    List.Forall₂ Recast (p.next? x).toList (q.next? y).toList := by
  have htoken (x : Lexeme) : q.token? x = p.token? x := by
    unfold Progress.token?
    rw [pending_isEmpty h.brackets]
  cases hx with
  | string hkept =>
    refine .cons ⟨.string rfl rfl ⟨?_, ?_⟩, h.line, fun _ => h.column⟩ .nil
    · simp [Progress.token]
    · simpa [Progress.token] using hkept
  | @same kind text hstring _ =>
    rw [Progress.next?, Progress.next?, htoken]
    cases hkind : p.token? ⟨kind, text, []⟩ with
    | none => exact .nil
    | some k =>
      have hk : kind = some k := Progress.token?_eq_some hkind
      refine .cons ⟨.same rfl rfl ?_, h.line, fun _ => h.column⟩ .nil
      cases k with
      | string value =>
        subst hk
        cases hstring
      | _ => rfl
  | join => exact .nil
  | comment => exact .cons ⟨.same rfl rfl rfl, h.line, fun _ => h.column⟩ .nil
  | line => exact .cons ⟨.same rfl rfl rfl, h.line, fun _ => h.column⟩ .nil

theorem exists_of_scan_cons {c : Char} {rest : List Char} {ts : List Token} (h : scan p (c :: rest) = .ok ts) :
    ∃ x stack ts', Lexeme.read c rest = .ok x ∧ Lexeme.turn p.brackets x = some stack ∧
      ts = (p.next? x).toList ++ ts' := by
  rw [scan] at h
  split at h
  · cases h
  · rename_i x hread
    split at h
    · cases h
    · rename_i t p' hpast
      obtain ⟨stack, hturn⟩ := Progress.turn_of_past hpast
      rw [p.past_eq hturn] at hpast
      cases hpast
      split at h
      · cases h
      · cases h
        exact ⟨x, stack, _, hread, hturn, rfl⟩

theorem scan_of_error {c : Char} {rest : List Char} {e : Lexeme.Failure} (h : Lexeme.read c rest = .error e) :
    ∃ e, scan p (c :: rest) = .error e := by
  rw [scan, h]
  exact ⟨_, rfl⟩

theorem scan_of_turn {c : Char} {rest : List Char} (hread : Lexeme.read c rest = .ok x)
    (hturn : Lexeme.turn p.brackets x = none) : ∃ e, scan p (c :: rest) = .error e := by
  cases hscan : scan p (c :: rest) with
  | error e => exact ⟨e, rfl⟩
  | ok ts =>
    obtain ⟨x', stack, -, hread', hturn', -⟩ := exists_of_scan_cons hscan
    cases hread.symm.trans hread'
    cases hturn.symm.trans hturn'

theorem scan_return (q : Progress) (cs : List Char) :
    scan q ('\r' :: cs) = scan (q.next ⟨none, ['\r'], []⟩) cs := by
  rw [scan_read cs (Lexeme.read_space cs rfl) rfl rfl]
  cases scan (q.next ⟨none, ['\r'], []⟩) cs <;> rfl

theorem scan_feed (hline : q.place.line = p.place.line) (hbrackets : q.brackets = p.brackets)
    (ih : ∀ p q, Abreast p q → Alike (scan p cs) (scan q (returned cs))) :
    Alike (scan p ('\n' :: cs)) (scan q ('\n' :: returned cs)) := by
  have hread (p : Progress) (cs : List Char) : scan p ('\n' :: cs) =
      (scan (p.next ⟨some .newline, ['\n'], []⟩) cs).map ((p.next? ⟨some .newline, ['\n'], []⟩).toList ++ ·) :=
    scan_read cs (Lexeme.read_feed cs) rfl rfl
  rw [hread, hread]
  refine (ih _ _ ⟨?_, ?_, ?_⟩).map ?_
  · simp [Progress.next, Lexeme.chars, Position.past, Position.step, hline]
  · rfl
  · exact (q.brackets_next rfl).trans (hbrackets.trans (p.brackets_next rfl).symm)
  · rw [Progress.next?, Progress.next?, Progress.token?, Progress.token?, pending_isEmpty hbrackets]
    cases p.pending.isEmpty with
    | true => exact .cons ⟨.same rfl rfl rfl, hline, fun h => absurd rfl h⟩ .nil
    | false => exact .nil

theorem exists_of_returned_eq_return (hreturn : '\r' ∉ cs) (h : returned cs = '\r' :: tail) :
    ∃ ds, cs = '\n' :: ds ∧ tail = '\n' :: returned ds := by
  cases cs with
  | nil => cases h
  | cons c cs =>
    by_cases hc : c = '\n'
    · subst hc
      exact ⟨cs, rfl, (List.cons.inj h).2.symm⟩
    · rw [returned_cons hc] at h
      exact absurd ((List.cons.inj h).1 ▸ List.mem_cons_self) hreturn

theorem splits_of_scan {c : Char} {rest : List Char} (h : ∀ x, Lexeme.read c rest = .ok x → x.Splits)
    {ts : List Token} (hscan : scan p (c :: rest) = .ok ts) : ∃ t ∈ ts, t.Splits := by
  obtain ⟨x, -, ts', hread, -, rfl⟩ := exists_of_scan_cons hscan
  obtain ⟨⟨value, hkind⟩, hfeed, hsingle⟩ := h x hread
  have hnext : p.next? x = some (p.token (.string value) x.text) := by
    simp [Progress.next?, Progress.token?, hkind]
  rw [hnext]
  exact ⟨_, List.mem_cons_self, rfl, by simpa [Progress.token] using hfeed, by simpa [Progress.token] using hsingle⟩

theorem scan_lexeme {c : Char} {rest : List Char} (hreturn : '\r' ∉ c :: rest) (hc : c ≠ '\n') (h : Abreast p q)
    (hx : Lexeme.read c rest = .ok x) (hy : Lexeme.read c (returned rest) = .ok y) (hxy : x.Recast y)
    (ih : ∀ ds p q, ds.length ≤ rest.length → '\r' ∉ ds → Abreast p q → Alike (scan p ds) (scan q (returned ds))) :
    Alike (scan p (c :: rest)) (scan q (c :: returned rest)) := by
  cases hturn : Lexeme.turn p.brackets x with
  | none =>
    have hturn' : Lexeme.turn q.brackets y = none := by rw [h.brackets, hxy.turn, hturn]
    obtain ⟨e, he⟩ := scan_of_turn hx hturn
    obtain ⟨e', he'⟩ := scan_of_turn hy hturn'
    rw [he, he']
    exact .errors _ _
  | some stack =>
    have hturn' : Lexeme.turn q.brackets y = some stack := by rw [h.brackets, hxy.turn, hturn]
    obtain ⟨r, tail, hr, hrest, -⟩ := Lexeme.stands_of_read hx
    obtain ⟨r', tail', hr', hrest', -⟩ := Lexeme.stands_of_read hy
    have hsplit : c :: rest = x.chars ++ tail := by rw [hr, hrest]; rfl
    have hsplit' : c :: returned rest = y.chars ++ tail' := by rw [hr', hrest']; rfl
    have htail : tail.length ≤ rest.length := by simp [hrest]
    rw [hsplit, List.mem_append, not_or] at hreturn
    rw [scan_read tail hx hsplit hturn, scan_read tail' hy hsplit' hturn']
    have hnext : (q.next y).brackets = (p.next x).brackets := by
      rw [Progress.brackets_next _ hturn, Progress.brackets_next _ hturn']
    have hplace := Position.past_returned h.line h.column x.chars
    refine Alike.map ?_ (h.next? hxy)
    rw [← returned_cons hc, hsplit, returned_append] at hsplit'
    rcases hxy.chars with hchars | ⟨hfeed, hchars⟩
    · rw [hchars] at hsplit'
      obtain rfl := List.append_cancel_left hsplit'
      rw [← hchars] at hplace
      exact ih _ _ _ htail hreturn.2 ⟨hplace.1, hplace.2, hnext⟩
    · rw [returned_eq_self hfeed] at hplace hsplit'
      rw [hchars, List.append_assoc] at hsplit'
      obtain ⟨ds, rfl, rfl⟩ := exists_of_returned_eq_return hreturn.2 (List.append_cancel_left hsplit')
      refine scan_feed ?_ hnext fun p q h => ?_
      · rw [Progress.next, Progress.next, hchars, Position.past_append]
        simpa [Position.past, Position.step] using hplace.1
      · exact ih _ _ _ (by simp at htail; omega) (fun hmem => hreturn.2 (List.mem_cons_of_mem _ hmem)) h

theorem scan_end (h : Abreast p q) : Alike (scan p []) (scan q []) := by
  have hbrackets := h.brackets
  unfold Progress.brackets at hbrackets
  rw [scan, scan]
  unfold Progress.finish
  generalize p.pending = stack at hbrackets ⊢
  generalize q.pending = stack' at hbrackets ⊢
  cases stack with
  | nil =>
    obtain rfl : stack' = [] := by simpa using hbrackets
    exact .ok (.cons ⟨.same rfl rfl rfl, h.line, fun _ => h.column⟩ .nil)
  | cons =>
    cases stack' with
    | nil => simp at hbrackets
    | cons => exact .errors _ _

theorem scan_returned (hreturn : '\r' ∉ cs) (h : Abreast p q) : Alike (scan p cs) (scan q (returned cs)) := by
  induction hn : cs.length using Nat.strong_induction_on generalizing cs p q with
  | _ n ih =>
    subst hn
    cases cs with
    | nil => exact scan_end h
    | cons c rest =>
      have hrest : '\r' ∉ rest := fun h => hreturn (List.mem_cons_of_mem _ h)
      have ih' (ds : List Char) (p q : Progress) (hds : ds.length ≤ rest.length) (hreturn : '\r' ∉ ds)
          (h : Abreast p q) : Alike (scan p ds) (scan q (returned ds)) :=
        ih ds.length (by simp; omega) hreturn h rfl
      by_cases hc : c = '\n'
      · subst hc
        rw [returned_feed, scan_return]
        refine scan_feed ?_ h.brackets fun p q h => ih' rest p q le_rfl hrest h
        simpa [Progress.next, Lexeme.chars, Position.past, Position.step] using h.line
      · rw [returned_cons hc]
        have hread := Lexeme.read_returned hc hrest
        generalize hx : Lexeme.read c rest = r at hread
        generalize hy : Lexeme.read c (returned rest) = r' at hread
        cases hread with
        | ok hxy => exact scan_lexeme hreturn hc h hx hy hxy ih'
        | error h =>
          obtain ⟨e, he⟩ := scan_of_error (p := q) hy
          rw [he]
          exact .error fun ts hts => splits_of_scan (fun x hread => h x (hx ▸ hread)) hts

end Token

end BuildSync
