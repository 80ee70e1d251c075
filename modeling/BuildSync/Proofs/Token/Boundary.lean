import BuildSync.Token.Lexer
import Mathlib.Data.List.Basic
import Mathlib.Tactic.Common

namespace BuildSync

namespace Literal

theorem Body.after_eq_closed {b : Body} {text value t v : List Char}
    (h : b.after text value = .closed t v) :
    ∃ t' v', b = .closed t' v' ∧ t = text ++ t' ∧ v = value ++ v' := by
  cases b with
  | closed t' v' =>
    simp only [Body.after, Body.closed.injEq] at h
    exact ⟨t', v', rfl, h.1.symm, h.2.symm⟩
  | unterminated => cases h
  | badEscape _ => cases h

structure Closes (style : Style) (cs text value : List Char) : Prop where
  nonempty : text ≠ []
  long : style.triple = true → 3 ≤ text.length
  split : ∃ tail, cs = text ++ tail
  stable : ∀ tail, body style (text ++ tail) = .closed text value

theorem Closes.after {style : Style} {cs text value : List Char} (pre v : List Char)
    (h : Closes style cs text value)
    (hpre : ∀ tail, body style (pre ++ (text ++ tail)) = (body style (text ++ tail)).after pre v) :
    Closes style (pre ++ cs) (pre ++ text) (v ++ value) := by
  obtain ⟨tail, rfl⟩ := h.split
  refine ⟨by simp [h.nonempty], fun ht => ?_, ⟨tail, by simp⟩, fun tail => ?_⟩
  · have := h.long ht
    simp only [List.length_append]; omega
  · rw [List.append_assoc, hpre, h.stable]
    rfl

theorem closes_of_body {style : Style} {cs text value : List Char}
    (h : body style cs = .closed text value) : Closes style cs text value := by
  fun_induction body style cs generalizing text value with
  | case1 | case2 | case5 | case6 | case8 => cases h
  | case3 c rest hraw ih =>
    obtain ⟨t, v, hb, rfl, rfl⟩ := Body.after_eq_closed h
    refine (ih hb).after ['\\', c] ['\\', c] fun tail => ?_
    rw [List.cons_append, List.singleton_append, body.eq_def]
    simp [hraw]
  | case4 hraw a b rest v hpair ih =>
    obtain ⟨t, v', hb, rfl, rfl⟩ := Body.after_eq_closed h
    refine (ih hb).after ['\\', 'x', a, b] [v] fun tail => ?_
    simp [body, hraw, hpair]
  | case7 c rest hraw hx ih =>
    obtain ⟨t, v, hb, rfl, rfl⟩ := Body.after_eq_closed h
    refine (ih hb).after ['\\', c] (escape c) fun tail => ?_
    rw [List.cons_append, List.singleton_append, body.eq_def]
    simp [hraw, hx]
  | case9 htriple a b rest hab hq hn =>
    simp only [Body.closed.injEq] at h
    obtain ⟨rfl, rfl⟩ := h
    obtain ⟨rfl, rfl⟩ := hab
    refine ⟨by simp, fun _ => by simp, ⟨rest, by simp⟩, fun tail => ?_⟩
    rw [List.cons_append, body.eq_def]
    simp [htriple]
  | case10 htriple a b rest hab hq hn ih =>
    obtain ⟨t, v, hb, rfl, rfl⟩ := Body.after_eq_closed h
    have hc := ih hb
    obtain ⟨t, rfl⟩ : ∃ t', t = a :: b :: t' := by
      obtain ⟨tail, ht⟩ := hc.split
      match t, hc.long htriple, ht with
      | x :: y :: z, _, ht =>
        simp only [List.cons_append, List.cons.injEq] at ht
        exact ⟨z, by rw [ht.1, ht.2.1]⟩
    refine hc.after [style.quote] [style.quote] fun tail => ?_
    simp only [List.cons_append]
    rw [body.eq_def]
    simp [htriple, hab]
  | case11 rest htriple hshort hq hn ih =>
    obtain ⟨t, v, hb, rfl, rfl⟩ := Body.after_eq_closed h
    obtain ⟨tail, ht⟩ := (ih hb).split
    match t, (ih hb).long htriple, ht with
    | x :: y :: z, _, ht => exact (hshort x y (z ++ tail) (by simpa using ht)).elim
  | case12 rest htriple hq hn =>
    simp only [Body.closed.injEq] at h
    obtain ⟨rfl, rfl⟩ := h
    refine ⟨by simp, fun ht => absurd ht htriple, ⟨rest, rfl⟩, fun tail => ?_⟩
    rw [List.singleton_append, body.eq_def]
    simp [htriple] at hn ⊢
    exact hn
  | case13 c rest hc hn hne ih =>
    obtain ⟨t, v, hb, rfl, rfl⟩ := Body.after_eq_closed h
    refine (ih hb).after [c] [c] fun tail => ?_
    rw [List.singleton_append, body.eq_def]
    simp [hn, hne]

end Literal

theorem span_append (p : Char → Bool) (cs tail : List Char) (h : tail.head?.any p = false) :
    (cs.takeWhile p ++ tail).takeWhile p = cs.takeWhile p ∧
      (cs.takeWhile p ++ tail).dropWhile p = tail := by
  have hall : ∀ c ∈ cs.takeWhile p, p c = true := List.all_eq_true.mp List.all_takeWhile
  rw [List.takeWhile_append_of_pos hall, List.dropWhile_append_of_pos hall]
  cases tail with
  | nil => simp
  | cons c tail =>
    have hc : p c = false := by simpa using h
    simp [hc]

namespace Lexeme

def isBreak (c : Char) : Bool := c ∈ [' ', ',', ':', '(', '[', '\x7b', ')', ']', '\x7d', '\n']

def parts (kind : Option Token.Kind) : Option Char → Bool
  | none => true
  | some c =>
    if kind = some .comment then c = '\n' else isBreak c || (c = '.' && kind ≠ some .number)

theorem parts_classes {kind : Option Token.Kind} {next : Option Char} (h : parts kind next = true)
    (hk : kind ≠ some .comment) : next.any isWordChar = false ∧ next.any isQuote = false ∧
      next.any (· = '+') = false ∧ next.any (· = '-') = false ∧
        (kind = some .number → next.any (· = '.') = false) := by
  cases next with
  | none => simp
  | some c =>
    simp only [parts, hk, if_false, isBreak, List.mem_cons, List.not_mem_nil, or_false,
      Bool.or_eq_true, decide_eq_true_eq, Bool.and_eq_true] at h
    rcases h with h | ⟨rfl, hn⟩
    · rcases h with rfl | rfl | rfl | rfl | rfl | rfl | rfl | rfl | rfl | rfl <;>
        exact ⟨by decide, by decide, by decide, by decide, fun _ => by decide⟩
    · exact ⟨by decide, by decide, by decide, by decide, fun h => absurd h hn⟩

theorem parts_comment {next : Option Char} (h : parts (some .comment) next = true) :
    next.any (· ≠ '\n') = false := by
  cases next with
  | none => rfl
  | some c => simpa [parts] using h

theorem operators_sorted : operators.Pairwise fun a b => b.length ≤ a.length := by
  decide +kernel

theorem take_mem_operators : ∀ op ∈ operators, ∀ o ∈ operators, op <+: o → op.length < o.length →
    o.take (op.length + 1) ∈ operators := by
  decide +kernel

theorem find?_operators_iff (text op : List Char) :
    operators.find? (·.isPrefixOf text) = some op ↔
      op ∈ operators ∧ op <+: text ∧ ∀ o ∈ operators, o <+: text → o.length ≤ op.length := by
  have hmax (o : List Char) (h : operators.find? (·.isPrefixOf text) = some o) :
      o ∈ operators ∧ o <+: text ∧ ∀ o' ∈ operators, o' <+: text → o'.length ≤ o.length := by
    obtain ⟨hp, before, after, heq, hb⟩ := List.find?_eq_some_iff_append.mp h
    refine ⟨List.mem_of_find?_eq_some h, List.isPrefixOf_iff_prefix.mp hp, fun o' ho' hot => ?_⟩
    rw [heq, List.mem_append, List.mem_cons] at ho'
    rcases ho' with ho' | rfl | ho'
    · have := hb o' ho'
      rw [List.isPrefixOf_iff_prefix.mpr hot] at this
      cases this
    · exact Nat.le_refl _
    · have hs := operators_sorted
      rw [heq, List.pairwise_append, List.pairwise_cons] at hs
      exact hs.2.1.1 o' ho'
  refine ⟨hmax op, fun ⟨hmem, hp, hlong⟩ => ?_⟩
  cases h : operators.find? (·.isPrefixOf text) with
  | none =>
    rw [List.find?_eq_none] at h
    exact absurd (List.isPrefixOf_iff_prefix.mpr hp) (h op hmem)
  | some o =>
    obtain ⟨ho, hop, hol⟩ := hmax o h
    have hlen : o.length = op.length := Nat.le_antisymm (hlong o ho hop) (hol op hmem hp)
    rw [List.prefix_iff_eq_take.mp hop, List.prefix_iff_eq_take.mp hp, hlen]

theorem operators_unparted : ∀ o ∈ operators, ∀ c ∈ o.tail,
    parts (some .operator) (some c) = false := by
  have h : (operators.all fun o => o.tail.all fun c => !parts (some .operator) (some c)) = true := by
    decide +kernel
  simpa only [List.all_eq_true, Bool.not_eq_true'] using h

theorem find?_operators_append {op tail tail' : List Char}
    (hhead : tail'.head? = tail.head? ∨ parts (some .operator) tail'.head? = true)
    (h : operators.find? (·.isPrefixOf (op ++ tail)) = some op) :
    operators.find? (·.isPrefixOf (op ++ tail')) = some op := by
  rw [find?_operators_iff] at h ⊢
  obtain ⟨hmem, -, hlong⟩ := h
  refine ⟨hmem, List.prefix_append _ _, fun o ho hot => ?_⟩
  by_contra hlt
  rw [Nat.not_le] at hlt
  have hop : op <+: o := List.prefix_of_prefix_length_le (List.prefix_append _ _) hot (Nat.le_of_lt hlt)
  have hstep := take_mem_operators op hmem o ho hop hlt
  obtain ⟨w, rfl⟩ := hop
  have hw : w ≠ [] := by rintro rfl; simp at hlt
  obtain ⟨a, w, rfl⟩ := List.exists_cons_of_ne_nil hw
  have ha : tail'.head? = some a := by
    obtain ⟨u, hu⟩ := hot
    rw [List.append_assoc] at hu
    rw [← List.append_cancel_left hu]
    rfl
  have htake : (op ++ a :: w).take (op.length + 1) = op ++ [a] := by
    rw [List.take_append, List.take_of_length_le (by omega)]
    simp
  rw [htake] at hstep
  have hne : op ≠ [] := by
    rintro rfl
    exact absurd hmem (by decide +kernel)
  have hhead := hhead.resolve_right fun hp => by
    have := operators_unparted _ hstep a (by cases op <;> simp_all)
    rw [ha, this] at hp
    cases hp
  obtain ⟨u, rfl⟩ : ∃ u, tail = a :: u := by
    cases tail with
    | nil => rw [ha] at hhead; cases hhead
    | cons b u => exact ⟨u, by rw [ha] at hhead; simpa using hhead.symm⟩
  have := hlong (op ++ [a]) hstep ⟨u, by simp⟩
  simp only [List.length_append, List.length_singleton] at this
  omega

theorem numberTail_eq_nil {last : Char} {cs : List Char}
    (h : parts (some .number) cs.head? = true) : numberTail last cs = [] := by
  cases cs with
  | nil => rfl
  | cons c cs =>
    obtain ⟨hw, -, hp, hm, hd⟩ := parts_classes h (by simp)
    have hd := hd rfl
    simp only [List.head?_cons, Option.any_some, decide_eq_false_iff_not] at hw hp hm hd
    simp [numberTail, hw, hp, hm, hd]

theorem numberTail_append (last : Char) (cs : List Char) :
    ∃ tail, cs = numberTail last cs ++ tail ∧ ∀ tail' : List Char,
      (tail'.head? = tail.head? ∨ parts (some .number) tail'.head? = true) →
        numberTail last (numberTail last cs ++ tail') = numberTail last cs := by
  fun_induction numberTail last cs with
  | case1 last =>
    refine ⟨[], rfl, fun tail' h => numberTail_eq_nil ?_⟩
    rw [List.nil_append]
    rcases h with h | h
    · rw [h]; rfl
    · exact h
  | case2 last c rest hc ih =>
    obtain ⟨tail, hcs, hall⟩ := ih
    refine ⟨tail, by rw [List.cons_append, ← hcs], fun tail' h => ?_⟩
    rw [List.cons_append, numberTail, if_pos hc, hall tail' h]
  | case3 last c rest hc =>
    refine ⟨c :: rest, rfl, fun tail' h => ?_⟩
    rcases h with h | h
    swap
    · exact numberTail_eq_nil h
    cases tail' with
    | nil => cases h
    | cons d tail' =>
      obtain rfl : d = c := by simpa using h
      rw [List.nil_append, numberTail, if_neg hc]

def chars (x : Lexeme) : List Char := x.text ++ x.after

theorem isPrefixOf_quotes {text tail tail' : List Char} {quote : Char} (hq : isQuote quote = true)
    (hne : text ≠ []) (hhead : tail'.head? = tail.head? ∨ tail'.head?.any isQuote = false)
    (h : [quote, quote].isPrefixOf (text ++ tail) = false) :
    [quote, quote].isPrefixOf (text ++ tail') = false := by
  match text with
  | [a] =>
    cases tail' with
    | nil => simp [List.isPrefixOf]
    | cons c tail' =>
      rcases hhead with hhead | hhead
      · cases tail with
        | nil => cases hhead
        | cons d tail => simp_all [List.isPrefixOf]
      · have hc : quote ≠ c := by
          rintro rfl
          simp [hq] at hhead
        simp [List.isPrefixOf, hc]
  | _ :: _ :: _ => simpa [List.isPrefixOf] using h

theorem literal_append {mark rest : List Char} {quote : Char} {raw : Bool} {x : Lexeme}
    (hq : isQuote quote = true) (h : literal mark quote rest raw = .ok x) :
    ∃ r tail, x.chars = mark ++ quote :: r ∧ rest = r ++ tail ∧ ∀ tail' : List Char,
      (tail'.head? = tail.head? ∨ tail'.head?.any isQuote = false) →
        literal mark quote (r ++ tail') raw = .ok x := by
  unfold literal at h
  dsimp only at h
  split at h <;> cases h
  rename_i text value hb
  have hc := Literal.closes_of_body hb
  obtain ⟨tail, htail⟩ := hc.split
  cases htriple : [quote, quote].isPrefixOf rest with
  | true =>
    simp only [htriple, if_true] at hc htail
    obtain ⟨rest, rfl⟩ := List.isPrefixOf_iff_prefix.mp htriple
    obtain rfl : rest = text ++ tail := by simpa using htail
    refine ⟨quote :: quote :: text, tail, ?_, by simp, fun tail' _ => ?_⟩
    · simp [chars, Literal.Style.delimiter]
    · simp [literal, Literal.Style.delimiter, hc.stable]
  | false =>
    simp only [htriple, Bool.false_eq_true, if_false] at hc htail
    subst htail
    refine ⟨text, tail, ?_, rfl, fun tail' ht => ?_⟩
    · simp [chars, Literal.Style.delimiter]
    · have htriple' := isPrefixOf_quotes hq hc.nonempty ht htriple
      simp [literal, Literal.Style.delimiter, htriple', hc.stable]

theorem kind_of_literal {mark rest : List Char} {quote : Char} {raw : Bool} {x : Lexeme}
    (h : literal mark quote rest raw = .ok x) : x.kind ≠ some .comment := by
  unfold literal at h
  dsimp only at h
  split at h <;> cases h
  simp

theorem any_head?_dropWhile (p : Char → Bool) (cs : List Char) :
    (cs.dropWhile p).head?.any p = false := by
  have h := List.head?_dropWhile_not p cs
  cases hd : (cs.dropWhile p).head? with
  | none => rfl
  | some c => rw [hd] at h; simpa using h

theorem read_space {c : Char} (rest : List Char) (h : isSpace c = true) :
    read c rest = .ok ⟨none, [c], []⟩ := by
  rw [read, if_pos h]

theorem read_backslash (rest : List Char) : read '\\' rest =
    if ['\n'].isPrefixOf rest then .ok ⟨none, ['\\', '\n'], []⟩
    else if ['\r', '\n'].isPrefixOf rest then .ok ⟨none, ['\\', '\r', '\n'], []⟩
    else .error ⟨[], .unexpectedCharacter '\\'⟩ := by
  have hfind : operators.find? (·.isPrefixOf ('\\' :: rest)) = none := by
    rw [List.find?_eq_none]
    intro op hop
    rw [List.isPrefixOf_iff_prefix]
    rintro ⟨tail, htail⟩
    have hhead : ∀ op ∈ operators, op.head?.any (· ≠ '\\') = true := by decide +kernel
    have := hhead op hop
    cases op with
    | nil => cases this
    | cons d op => simp_all
  simp [read, isSpace, isQuote, isWordStart, isLetter, isDigit, bracket?, hfind]

theorem read_feed (rest : List Char) : read '\n' rest = .ok ⟨some .newline, ['\n'], []⟩ := by
  simp [read, isSpace]

theorem read_hash (rest : List Char) :
    read '#' rest = .ok (comment ('#' :: rest.takeWhile (· ≠ '\n'))) := by
  simp [read, isSpace]

theorem read_quote {c : Char} (rest : List Char) (h : isQuote c = true) :
    read c rest = literal [] c rest false := by
  simp only [isQuote, Bool.or_eq_true, beq_iff_eq] at h
  rcases h with rfl | rfl <;> simp [read, isSpace, isQuote]

def readWord (c : Char) (rest : List Char) : Except Failure Lexeme :=
  let word := c :: rest.takeWhile isWordChar
  match stringMark word, rest.dropWhile isWordChar with
  | some raw, quote :: behind =>
    if isQuote quote then literal word quote behind raw else .ok ⟨some .ident, word, []⟩
  | _, _ => .ok ⟨some .ident, word, []⟩

theorem isSpace_iff (c : Char) : isSpace c = true ↔ c = ' ' ∨ c = '\t' ∨ c = '\r' ∨ c = '\x0c' := by
  simp [isSpace, or_assoc]

theorem isQuote_iff (c : Char) : isQuote c = true ↔ c = '"' ∨ c = '\'' := by
  simp [isQuote]

theorem ne_of_isQuote {c d : Char} (h : isQuote c = true) (hd : isQuote d = false) : c ≠ d :=
  ne_of_apply_ne isQuote (by simp [h, hd])

theorem isWordChar_eq_false_of_isQuote {c : Char} (h : isQuote c = true) : isWordChar c = false := by
  rcases (isQuote_iff c).mp h with rfl | rfl <;> decide

theorem read_word {c : Char} (rest : List Char) (h : isWordStart c = true) :
    read c rest = readWord c rest := by
  have hne (d : Char) (hd : isWordStart d = false) : c ≠ d := by
    rintro rfl; rw [h] at hd; cases hd
  have hs : ¬ isSpace c = true := by
    rw [isSpace_iff]; rintro (rfl | rfl | rfl | rfl) <;> exact absurd h (by decide)
  have hq : ¬ isQuote c = true := by
    rw [isQuote_iff]; rintro (rfl | rfl) <;> exact absurd h (by decide)
  rw [read, if_neg hs, if_neg (fun h => hne _ (by decide) h.1), if_neg (fun h => hne _ (by decide) h.1),
    if_neg (hne _ (by decide)), if_neg (hne _ (by decide)), if_neg hq, if_pos h]
  rfl

theorem isDigit_iff (c : Char) : isDigit c = true ↔ 48 ≤ c.toNat ∧ c.toNat ≤ 57 := by
  simp [isDigit, Char.le_def, UInt32.le_iff_toNat_le]

theorem isWordStart_iff (c : Char) : isWordStart c = true ↔
    (97 ≤ c.toNat ∧ c.toNat ≤ 122) ∨ (65 ≤ c.toNat ∧ c.toNat ≤ 90) ∨ c.toNat = 95 := by
  simp [isWordStart, isLetter, Char.le_def, UInt32.le_iff_toNat_le, ← Char.toNat_inj, or_assoc]

theorem isDigit_eq_false_of_isWordStart {c : Char} (h : isWordStart c = true) : isDigit c = false := by
  rw [isWordStart_iff] at h
  rw [Bool.eq_false_iff, Ne, isDigit_iff]
  omega

theorem read_number {c : Char} (rest : List Char)
    (h : isDigit c = true ∨ c = '.' ∧ rest.head?.any isDigit = true) :
    read c rest = .ok ⟨some .number, c :: numberTail c rest, []⟩ := by
  have hne (d : Char) (hd : isDigit d = false) (hd' : d ≠ '.') : c ≠ d := by
    rintro rfl
    rcases h with h | h
    · rw [h] at hd; cases hd
    · exact hd' h.1
  have hs : ¬ isSpace c = true := by
    rw [isSpace_iff]
    rintro (rfl | rfl | rfl | rfl) <;> exact hne _ (by decide) (by decide) rfl
  have hq : ¬ isQuote c = true := by
    rw [isQuote_iff]
    rintro (rfl | rfl) <;> exact hne _ (by decide) (by decide) rfl
  have hw : ¬ isWordStart c = true := by
    intro hw
    rcases h with h | ⟨rfl, -⟩
    · exact Bool.false_ne_true ((isDigit_eq_false_of_isWordStart hw).symm.trans h)
    · exact absurd hw (by decide)
  rw [read, if_neg hs, if_neg (fun h => hne _ (by decide) (by decide) h.1),
    if_neg (fun h => hne _ (by decide) (by decide) h.1), if_neg (hne _ (by decide) (by decide)),
    if_neg (hne _ (by decide) (by decide)), if_neg hq, if_neg hw, if_pos h]

theorem bracket?_iff (c : Char) (kind : Token.Kind) : bracket? c = some kind ↔
    ∃ b : Bracket, (c = b.opening ∧ kind = .opening b) ∨ (c = b.closing ∧ kind = .closing b) := by
  constructor
  · intro h
    unfold bracket? at h
    split_ifs at h <;> cases h <;> rename_i hc
    · exact ⟨.round, .inl ⟨hc, rfl⟩⟩
    · exact ⟨.square, .inl ⟨hc, rfl⟩⟩
    · exact ⟨.curly, .inl ⟨hc, rfl⟩⟩
    · exact ⟨.round, .inr ⟨hc, rfl⟩⟩
    · exact ⟨.square, .inr ⟨hc, rfl⟩⟩
    · exact ⟨.curly, .inr ⟨hc, rfl⟩⟩
  · rintro ⟨b, ⟨rfl, rfl⟩ | ⟨rfl, rfl⟩⟩ <;> cases b <;> rfl

theorem read_bracket {c : Char} {kind : Token.Kind} (rest : List Char) (h : bracket? c = some kind) :
    read c rest = .ok ⟨some kind, [c], []⟩ := by
  obtain ⟨b, ⟨rfl, rfl⟩ | ⟨rfl, rfl⟩⟩ := (bracket?_iff c kind).mp h <;> cases b <;>
    simp [read, Bracket.opening, Bracket.closing, isSpace, isQuote, isWordStart, isLetter, isDigit, bracket?]

theorem symbol_classes : ∀ c ∈ operators.filterMap List.head?, isSpace c = false ∧ c ≠ '\\' ∧
    c ≠ '\n' ∧ c ≠ '#' ∧ isQuote c = false ∧ isWordStart c = false ∧ isDigit c = false ∧
    bracket? c = none := by
  have h : ((operators.filterMap List.head?).all fun c => decide (isSpace c = false ∧ c ≠ '\\' ∧
      c ≠ '\n' ∧ c ≠ '#' ∧ isQuote c = false ∧ isWordStart c = false ∧ isDigit c = false ∧
      bracket? c = none)) = true := by
    decide +kernel
  simpa only [List.all_eq_true, decide_eq_true_eq] using h

theorem read_operator {c : Char} {r tail : List Char} (h : c :: r ∈ operators)
    (hfind : operators.find? (·.isPrefixOf (c :: (r ++ tail))) = some (c :: r))
    (hdot : ¬ (c = '.' ∧ (r ++ tail).head?.any isDigit = true)) :
    read c (r ++ tail) = .ok ⟨some .operator, c :: r, []⟩ := by
  obtain ⟨hs, hb, hn, hh, hq, hw, hd, hk⟩ :=
    symbol_classes c (List.mem_filterMap.mpr ⟨c :: r, h, rfl⟩)
  simp only [read, hs, hb, hn, hh, hq, hw, hd, hk, hdot, hfind, false_and, or_self, if_false,
    Bool.false_eq_true]

theorem stringMark_readWord {c : Char} {rest behind : List Char} {quote : Char} {raw : Bool}
    (hm : stringMark (c :: rest.takeWhile isWordChar) = some raw)
    (hd : rest.dropWhile isWordChar = quote :: behind) (hq : isQuote quote = true) :
    readWord c rest = literal (c :: rest.takeWhile isWordChar) quote behind raw := by
  simp [readWord, hm, hd, hq]

theorem readWord_ident {c : Char} {rest : List Char}
    (h : stringMark (c :: rest.takeWhile isWordChar) = none ∨
      (rest.dropWhile isWordChar).head?.any isQuote = false) :
    readWord c rest = .ok ⟨some .ident, c :: rest.takeWhile isWordChar, []⟩ := by
  unfold readWord
  dsimp only
  split
  · rename_i raw quote behind hm hd
    rw [hm, hd] at h
    simp only [reduceCtorEq, List.head?_cons, Option.any_some, false_or] at h
    rw [if_neg (by rw [h]; decide)]
  · rfl

theorem head?_numberTail_append {c : Char} {rest : List Char} (tail : List Char)
    (h : rest.head?.any isDigit = true) : (numberTail c rest ++ tail).head? = rest.head? := by
  cases rest with
  | nil => cases h
  | cons d rest =>
    have hd : isDigit d = true := by simpa using h
    simp [numberTail, isWordChar, hd]

inductive Front (c : Char) (rest : List Char) : Lexeme → Prop
  | space (h : isSpace c = true) : Front c rest ⟨none, [c], []⟩
  | join (tail : List Char) (hc : c = '\\') (h : rest = '\n' :: tail) :
    Front c rest ⟨none, [c, '\n'], []⟩
  | longJoin (tail : List Char) (hc : c = '\\') (h : rest = '\r' :: '\n' :: tail) :
    Front c rest ⟨none, [c, '\r', '\n'], []⟩
  | feed (h : c = '\n') : Front c rest ⟨some .newline, [c], []⟩
  | comment (h : c = '#') : Front c rest (comment (c :: rest.takeWhile (· ≠ '\n')))
  | string {x : Lexeme} (hq : isQuote c = true) (h : literal [] c rest false = .ok x) : Front c rest x
  | marked {x : Lexeme} {raw : Bool} {quote : Char} {behind : List Char} (hw : isWordStart c = true)
    (hm : stringMark (c :: rest.takeWhile isWordChar) = some raw)
    (hd : rest.dropWhile isWordChar = quote :: behind) (hq : isQuote quote = true)
    (h : literal (c :: rest.takeWhile isWordChar) quote behind raw = .ok x) : Front c rest x
  | word (hw : isWordStart c = true)
    (h : stringMark (c :: rest.takeWhile isWordChar) = none ∨
      (rest.dropWhile isWordChar).head?.any isQuote = false) :
    Front c rest ⟨some .ident, c :: rest.takeWhile isWordChar, []⟩
  | number (h : isDigit c = true ∨ c = '.' ∧ rest.head?.any isDigit = true) :
    Front c rest ⟨some .number, c :: numberTail c rest, []⟩
  | bracket {kind : Token.Kind} (h : bracket? c = some kind) : Front c rest ⟨some kind, [c], []⟩
  | operator {r tail : List Char} (hm : c :: r ∈ operators) (hr : rest = r ++ tail)
    (hd : ¬ (c = '.' ∧ rest.head?.any isDigit = true))
    (h : operators.find? (·.isPrefixOf (c :: rest)) = some (c :: r)) :
    Front c rest ⟨some .operator, c :: r, []⟩

theorem front_of_read {c : Char} {rest : List Char} {x : Lexeme} (h : read c rest = .ok x) :
    Front c rest x := by
  by_cases hspace : isSpace c = true
  · rw [read_space rest hspace] at h
    cases h
    exact .space hspace
  by_cases hback : c = '\\'
  · subst hback
    rw [read_backslash] at h
    split_ifs at h with hn hr <;> cases h
    · obtain ⟨rest, rfl⟩ := List.isPrefixOf_iff_prefix.mp hn
      exact .join rest rfl rfl
    · obtain ⟨rest, rfl⟩ := List.isPrefixOf_iff_prefix.mp hr
      exact .longJoin rest rfl rfl
  by_cases hfeed : c = '\n'
  · subst hfeed
    rw [read_feed] at h
    cases h
    exact .feed rfl
  by_cases hhash : c = '#'
  · subst hhash
    rw [read_hash] at h
    cases h
    exact .comment rfl
  by_cases hquote : isQuote c = true
  · rw [read_quote rest hquote] at h
    exact .string hquote h
  by_cases hword : isWordStart c = true
  · rw [read_word rest hword] at h
    by_cases hw : stringMark (c :: rest.takeWhile isWordChar) = none ∨
        (rest.dropWhile isWordChar).head?.any isQuote = false
    · rw [readWord_ident hw] at h
      cases h
      exact .word hword hw
    · rw [not_or, Bool.not_eq_false, ← Ne, Option.ne_none_iff_exists'] at hw
      obtain ⟨⟨raw, hm⟩, hq⟩ := hw
      cases hd : rest.dropWhile isWordChar with
      | nil => rw [hd] at hq; cases hq
      | cons quote behind =>
        rw [hd] at hq
        rw [stringMark_readWord hm hd hq] at h
        exact .marked hword hm hd hq h
  by_cases hnumber : isDigit c = true ∨ c = '.' ∧ rest.head?.any isDigit = true
  · rw [read_number rest hnumber] at h
    cases h
    exact .number hnumber
  cases hb : bracket? c with
  | some kind =>
    rw [read_bracket rest hb] at h
    cases h
    exact .bracket hb
  | none =>
    rw [read, if_neg hspace, if_neg (fun h => hback h.1), if_neg (fun h => hback h.1), if_neg hfeed,
      if_neg hhash, if_neg hquote, if_neg hword, if_neg hnumber, hb] at h
    dsimp only at h
    split at h <;> cases h
    rename_i op hop
    obtain ⟨hmem, ⟨tail, htail⟩, -⟩ := (find?_operators_iff _ _).mp hop
    cases op with
    | nil => exact absurd hmem (by decide +kernel)
    | cons d r =>
      obtain ⟨rfl, rfl⟩ := List.cons.inj htail
      exact .operator hmem rfl (fun h => hnumber (.inr h)) hop

theorem Front.read {c : Char} {rest : List Char} {x : Lexeme} (h : Front c rest x) :
    read c rest = .ok x := by
  cases h with
  | space h => exact read_space rest h
  | join tail hc h => subst hc h; simp [read_backslash]
  | longJoin tail hc h => subst hc h; simp [read_backslash]
  | feed h => subst h; exact read_feed rest
  | comment h => subst h; exact read_hash rest
  | string hq h => rw [read_quote rest hq, h]
  | marked hw hm hd hq h => rw [read_word rest hw, stringMark_readWord hm hd hq, h]
  | word hw h => rw [read_word rest hw, readWord_ident h]
  | number h => exact read_number rest h
  | bracket h => exact read_bracket rest h
  | operator hm hr hd h => subst hr; exact read_operator hm h hd

theorem any_head?_of_parts {kind : Option Token.Kind} {tail tail' : List Char} {p : Char → Bool}
    (ht : tail'.head? = tail.head? ∨ parts kind tail'.head? = true) (h : tail.head?.any p = false)
    (hparts : parts kind tail'.head? = true → tail'.head?.any p = false) : tail'.head?.any p = false := by
  rcases ht with ht | ht
  · rw [ht]; exact h
  · exact hparts ht

theorem not_number_append {c : Char} {r tail tail' : List Char}
    (ht : tail'.head? = tail.head? ∨ parts (some .operator) tail'.head? = true)
    (h : ¬ (c = '.' ∧ (r ++ tail).head?.any isDigit = true)) :
    ¬ (c = '.' ∧ (r ++ tail').head?.any isDigit = true) := by
  cases r with
  | cons a r => exact h
  | nil =>
    rintro ⟨hdot, hdigit⟩
    have hno : tail'.head?.any isDigit = false := by
      refine any_head?_of_parts ht (by simpa [hdot] using h) fun hp => ?_
      have := (parts_classes hp (by simp)).1
      cases htail : tail'.head? with
      | none => rfl
      | some d => simp_all [isWordChar]
    exact Bool.false_ne_true (hno.symm.trans hdigit)

theorem read_append {c : Char} {rest : List Char} {x : Lexeme} (h : read c rest = .ok x) :
    ∃ r tail, x.chars = c :: r ∧ rest = r ++ tail ∧ ∀ tail' : List Char,
      (tail'.head? = tail.head? ∨ parts x.kind tail'.head? = true) →
        read c (r ++ tail') = .ok x := by
  have hsplit := (List.takeWhile_append_dropWhile (p := isWordChar) (l := rest)).symm
  have hstop := any_head?_dropWhile isWordChar rest
  have hfront := front_of_read h
  clear h
  cases hfront with
  | space h => exact ⟨[], rest, rfl, rfl, fun tail' _ => (Front.space h).read⟩
  | join tail hc h => exact ⟨['\n'], tail, rfl, h, fun tail' _ => (Front.join tail' hc rfl).read⟩
  | longJoin tail hc h =>
    exact ⟨['\r', '\n'], tail, rfl, h, fun tail' _ => (Front.longJoin tail' hc rfl).read⟩
  | feed h => exact ⟨[], rest, rfl, rfl, fun tail' _ => (Front.feed h).read⟩
  | bracket h => exact ⟨[], rest, rfl, rfl, fun tail' _ => (Front.bracket h).read⟩
  | comment h =>
    subst h
    refine ⟨_, _, ?_, (List.takeWhile_append_dropWhile (p := (· ≠ '\n'))).symm, fun tail' ht => ?_⟩
    · simp only [chars, Lexeme.comment, trimEnd_append_blankTail]
    · have ht' : tail'.head?.any (· ≠ '\n') = false :=
        any_head?_of_parts ht (any_head?_dropWhile _ _) parts_comment
      rw [read_hash, (span_append _ rest tail' ht').1]
  | string hq h =>
    obtain ⟨r, tail, hx, hrest, hall⟩ := literal_append hq h
    refine ⟨r, tail, hx, hrest, fun tail' ht => ?_⟩
    rw [read_quote _ hq]
    exact hall tail' (ht.imp_right fun hp => (parts_classes hp (kind_of_literal h)).2.1)
  | @marked _ _ quote _ hw hm hd hq h =>
    obtain ⟨r, tail, hx, hbehind, hall⟩ := literal_append hq h
    rw [hd] at hstop hsplit
    refine ⟨rest.takeWhile isWordChar ++ quote :: r, tail, by simp [hx], ?_, fun tail' ht => ?_⟩
    · rw [List.append_assoc, List.cons_append, ← hbehind, ← hsplit]
    · obtain ⟨htake, hdrop⟩ := span_append isWordChar rest (quote :: r ++ tail') hstop
      rw [List.append_assoc, read_word _ hw, stringMark_readWord (by rwa [htake]) hdrop hq, htake]
      exact hall tail' (ht.imp_right fun hp => (parts_classes hp (kind_of_literal h)).2.1)
  | word hw h =>
    refine ⟨_, _, by simp [chars], hsplit, fun tail' ht => ?_⟩
    obtain ⟨htake, hdrop⟩ := span_append isWordChar rest tail'
      (any_head?_of_parts ht hstop fun hp => (parts_classes hp (by simp)).1)
    refine (Front.word hw ?_).read.trans (by rw [htake])
    rw [htake, hdrop]
    exact h.imp_right fun hq => any_head?_of_parts ht hq fun hp => (parts_classes hp (by simp)).2.1
  | number h =>
    obtain ⟨tail, hrest, hall⟩ := numberTail_append c rest
    refine ⟨numberTail c rest, tail, by simp [chars], hrest, fun tail' ht => ?_⟩
    rw [read_number _ (h.imp_right fun hdot => ⟨hdot.1, ?_⟩), hall tail' ht]
    rw [head?_numberTail_append tail' hdot.2]
    exact hdot.2
  | @operator r tail hm hr hd h =>
    refine ⟨r, tail, by simp [chars], hr, fun tail' ht => (Front.operator hm rfl ?_ ?_).read⟩
    · subst hr
      exact not_number_append ht hd
    · subst hr
      have hfind : operators.find? (·.isPrefixOf ((c :: r) ++ tail)) = some (c :: r) := h
      exact find?_operators_append ht hfind

end Lexeme
end BuildSync
