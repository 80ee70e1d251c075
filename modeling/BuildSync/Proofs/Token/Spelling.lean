import BuildSync.Proofs.Token.Lexemes
import BuildSync.Text.Quoted
import Mathlib.Data.List.TakeWhile

namespace BuildSync

namespace Lexeme

def of (kind : Token.Kind) (text : String) : Lexeme := ⟨some kind, text.toList, []⟩

def space : Lexeme := ⟨none, [' '], []⟩

def feed : Lexeme := ⟨some .newline, ['\n'], []⟩

def opening (b : Bracket) : Lexeme := ⟨some (.opening b), [b.opening], []⟩

def closing (b : Bracket) : Lexeme := ⟨some (.closing b), [b.closing], []⟩

@[simp] theorem chars_of (kind : Token.Kind) (text : String) : (of kind text).chars = text.toList := by
  simp [of, chars]

@[simp] theorem kind_of (kind : Token.Kind) (text : String) : (of kind text).kind = some kind := rfl

@[simp] theorem chars_space : space.chars = [' '] := rfl

@[simp] theorem chars_feed : feed.chars = ['\n'] := rfl

@[simp] theorem chars_opening (b : Bracket) : (opening b).chars = [b.opening] := rfl

@[simp] theorem chars_closing (b : Bracket) : (closing b).chars = [b.closing] := rfl

theorem Front.stands {c : Char} {r : List Char} {x : Lexeme} {next : Option Char}
    (hx : x.chars = c :: r) (h : Front c (r ++ next.toList) x) : x.Stands next :=
  ⟨c, r, hx, h.read⟩

theorem stands_space (next : Option Char) : space.Stands next :=
  Front.stands rfl (.space rfl)

theorem stands_feed (next : Option Char) : feed.Stands next :=
  Front.stands rfl (.feed rfl)

theorem stands_opening (b : Bracket) (next : Option Char) : (opening b).Stands next :=
  Front.stands rfl (.bracket ((bracket?_iff _ _).mpr ⟨b, .inl ⟨rfl, rfl⟩⟩))

theorem stands_closing (b : Bracket) (next : Option Char) : (closing b).Stands next :=
  Front.stands rfl (.bracket ((bracket?_iff _ _).mpr ⟨b, .inr ⟨rfl, rfl⟩⟩))

theorem stands_symbol {a : Char} {next : Option Char} (ha : [a] ∈ operators)
    (hdot : a = '.' → next.any isDigit = false)
    (hlong : ∀ c ∈ next, ∀ o ∈ operators, ¬ [a, c] <+: o) :
    (⟨some .operator, [a], []⟩ : Lexeme).Stands next := by
  refine Front.stands (r := []) rfl (.operator ha rfl ?_ ?_)
  · rintro ⟨h, hd⟩
    have := hdot h
    cases next <;> simp_all
  · refine (find?_operators_iff _ _).mpr ⟨ha, List.prefix_append [a] _, fun o ho hp => ?_⟩
    cases next with
    | none => simpa using hp.length_le
    | some c =>
      by_contra hlt
      have : o = [a, c] := hp.eq_of_length_le (by simp at hlt ⊢; omega)
      exact hlong c rfl o ho (this ▸ List.prefix_rfl)

theorem stands_operator {op : List Char} {next : Option Char} (h : op ∈ operators)
    (hn : parts (some .operator) next = true) : (⟨some .operator, op, []⟩ : Lexeme).Stands next := by
  suffices (⟨some .operator, op, []⟩ : Lexeme).Stands none from this.parted hn
  cases op with
  | nil => exact absurd h (by decide +kernel)
  | cons c r =>
    refine Front.stands (r := r) (by simp [chars]) (.operator h rfl ?_ ?_)
    · rintro ⟨rfl, hd⟩
      have : ∀ o ∈ operators, o.head? = some '.' → o = ['.'] := by decide +kernel
      have := this _ h rfl
      simp_all
    · exact (find?_operators_iff _ _).mpr ⟨h, by simp, fun o _ hp => by simpa using hp.length_le⟩

end Lexeme

def identifier (name : String) : Bool :=
  match name.toList with
  | [] => false
  | c :: r => Lexeme.isWordStart c && r.all Lexeme.isWordChar

structure Remark (text : String) : Prop where
  hash : text.toList.head? = some '#'
  line : '\n' ∉ text.toList
  trimmed : text.toList.getLast?.any isBlank = false

def Token.Spells (kind : Token.Kind) (text : String) : Prop := (Lexeme.of kind text).Stands none

theorem trimEnd_eq_self {cs : List Char} (h : cs.getLast?.any isBlank = false) : trimEnd cs = cs := by
  have : cs.reverse.dropWhile isBlank = cs.reverse := by
    rw [List.getLast?_eq_head?_reverse] at h
    cases hr : cs.reverse with
    | nil => rfl
    | cons c r =>
      rw [hr] at h
      exact List.dropWhile_cons_of_neg (by simpa using h)
  rw [trimEnd, this, List.reverse_reverse]

theorem getLast?_trimEnd (cs : List Char) : (trimEnd cs).getLast?.any isBlank = false := by
  rw [trimEnd, List.getLast?_reverse]
  exact Lexeme.any_head?_dropWhile _ _

theorem blankTail_eq_nil {cs : List Char} (h : cs.getLast?.any isBlank = false) : blankTail cs = [] := by
  have := trimEnd_append_blankTail cs
  rw [trimEnd_eq_self h] at this
  simpa using this

namespace Token.Spells

open Lexeme

theorem of_identifier {name : String} (h : identifier name = true) : Spells .ident name := by
  unfold identifier at h
  split at h
  · cases h
  · rename_i c r hn
    rw [Bool.and_eq_true] at h
    have htake : r.takeWhile isWordChar = r :=
      List.takeWhile_eq_self_iff.mpr (fun d hd => List.all_eq_true.mp h.2 d hd)
    have hdrop : r.dropWhile isWordChar = [] :=
      List.dropWhile_eq_nil_iff.mpr (fun d hd => List.all_eq_true.mp h.2 d hd)
    have hfront : Front c r ⟨some .ident, c :: r.takeWhile isWordChar, []⟩ :=
      .word h.1 (.inr (by rw [hdrop]; rfl))
    rw [htake, ← hn] at hfront
    exact ⟨c, r, by simpa using hn, by simpa [of] using hfront.read⟩

theorem of_remark {text : String} (h : Remark text) : Spells .comment text := by
  cases hc : text.toList with
  | nil =>
    have := h.hash
    rw [hc] at this
    cases this
  | cons c r =>
    obtain rfl : c = '#' := by simpa [hc] using h.hash
    have hline : ∀ d ∈ r, decide (d ≠ '\n') = true := fun d hd =>
      decide_eq_true fun he => h.line (by rw [hc, ← he]; exact List.mem_cons_of_mem _ hd)
    have hfront : Front '#' r (comment ('#' :: r.takeWhile (· ≠ '\n'))) := .comment rfl
    rw [List.takeWhile_eq_self_iff.mpr hline, ← hc, comment, trimEnd_eq_self h.trimmed,
      blankTail_eq_nil h.trimmed] at hfront
    exact ⟨'#', r, by simpa using hc, by simpa [of] using hfront.read⟩

end Token.Spells

namespace Literal

theorem hexPair_hexByte : ∀ n < 128,
    hexPair (Nat.digitChar (n / 16)) (Nat.digitChar (n % 16)) = some (Char.ofNat n) := by
  decide +kernel

theorem body_escape {style : Style} (hraw : style.raw = false) {c : Char} (rest : List Char) (hc : c ≠ 'x') :
    body style ('\\' :: c :: rest) = (body style rest).after ['\\', c] (escape c) := by
  rw [body.eq_def]
  simp [hraw, hc]

theorem body_quotedChar (c : Char) (rest : List Char) :
    body ⟨'"', false, false⟩ (quotedChar c ++ rest) =
      (body ⟨'"', false, false⟩ rest).after (quotedChar c) [c] := by
  unfold quotedChar
  split_ifs with hquote hback hfeed htab hreturn hcontrol
  · subst hquote; exact body_escape rfl rest (by decide)
  · subst hback; exact body_escape rfl rest (by decide)
  · subst hfeed; exact body_escape rfl rest (by decide)
  · subst htab; exact body_escape rfl rest (by decide)
  · subst hreturn; exact body_escape rfl rest (by decide)
  · have hpair := hexPair_hexByte c.toNat (by omega)
    rw [Char.ofNat_toNat] at hpair
    simp [body, hexByte, hpair]
  · rw [List.singleton_append, body.eq_def]
    simp [hquote, hfeed]

theorem body_quoted (cs : List Char) :
    body ⟨'"', false, false⟩ (cs.flatMap quotedChar ++ ['"']) =
      .closed (cs.flatMap quotedChar ++ ['"']) cs := by
  induction cs with
  | nil => simp [body]
  | cons c cs ih =>
    rw [List.flatMap_cons, List.append_assoc, body_quotedChar, ih]
    rfl

end Literal

namespace Lexeme

theorem quotes_of_quotedChar (c : Char) (rest : List Char) :
    ['"', '"'].isPrefixOf (quotedChar c ++ rest) = false := by
  unfold quotedChar
  split_ifs with hquote <;> simp [List.isPrefixOf]
  exact fun h => absurd h.symm hquote

end Lexeme

theorem Lexeme.stands_quoted (value : String) {next : Option Char} (h : next ≠ some '"') :
    (of (.string value) (quoted value)).Stands next := by
  refine ⟨'"', value.toList.flatMap quotedChar ++ ['"'], by simp [quoted], ?_⟩
  have htriple : ['"', '"'].isPrefixOf (value.toList.flatMap quotedChar ++ ['"'] ++ next.toList) = false := by
    cases value.toList with
    | nil =>
      cases next with
      | none => rfl
      | some c =>
        have hc : ('"' == c) = false := beq_false_of_ne fun heq => h (congrArg some heq.symm)
        simp [List.isPrefixOf, hc]
    | cons c cs =>
      rw [List.flatMap_cons, List.append_assoc, List.append_assoc]
      exact quotes_of_quotedChar c _
  have hbody := (Literal.closes_of_body (Literal.body_quoted value.toList)).stable next.toList
  rw [read_quote _ rfl]
  unfold literal
  rw [htriple]
  dsimp only
  rw [if_neg Bool.false_ne_true, hbody]
  simp [Literal.Style.delimiter, of, quoted]

theorem Token.Spells.of_quoted (value : String) : Spells (.string value) (quoted value) :=
  Lexeme.stands_quoted value nofun

namespace Lexeme

theorem Stands.front {x : Lexeme} {next : Option Char} (h : x.Stands next) :
    ∃ c r, x.chars = c :: r ∧ Front c (r ++ next.toList) x := by
  obtain ⟨c, r, hx, hread⟩ := h
  exact ⟨c, r, hx, front_of_read hread⟩

theorem string_of_literal {mark rest : List Char} {quote : Char} {raw : Bool} {x : Lexeme}
    (h : literal mark quote rest raw = .ok x) : ∃ v, x.kind = some (.string v) ∧ x.after = [] := by
  unfold literal at h
  dsimp only at h
  split at h <;> cases h
  exact ⟨_, rfl, rfl⟩

theorem kind_ne_of_literal {mark rest : List Char} {quote : Char} {raw : Bool} {x : Lexeme} {kind : Token.Kind}
    (h : literal mark quote rest raw = .ok x) (hkind : ∀ v, kind ≠ .string v) : x.kind ≠ some kind := by
  obtain ⟨v, hv, -⟩ := string_of_literal h
  rw [hv]
  exact fun heq => hkind v (Option.some.inj heq).symm

theorem kind_of_bracket {c : Char} {kind : Token.Kind} (h : bracket? c = some kind) :
    ∃ b, kind = .opening b ∨ kind = .closing b := by
  obtain ⟨b, ⟨-, rfl⟩ | ⟨-, rfl⟩⟩ := (bracket?_iff c kind).mp h
  · exact ⟨b, .inl rfl⟩
  · exact ⟨b, .inr rfl⟩

theorem Stands.after_eq_nil {x : Lexeme} {next : Option Char} (h : x.Stands next)
    (hk : x.kind ≠ some .comment) : x.after = [] := by
  obtain ⟨c, r, -, hf⟩ := h.front
  cases hf with
  | comment _ => exact absurd rfl hk
  | string _ h => exact (string_of_literal h).choose_spec.2
  | marked _ _ _ _ h => exact (string_of_literal h).choose_spec.2
  | _ => rfl

theorem Stands.remark {x : Lexeme} {next : Option Char} (h : x.Stands next)
    (hk : x.kind = some .comment) : Remark (String.ofList x.text) := by
  obtain ⟨c, r, -, hf⟩ := h.front
  cases hf with
  | comment hc =>
    subst hc
    refine ⟨?_, fun hmem => ?_, ?_⟩
    · simp only [comment, String.toList_ofList]
      have := trimEnd_append_blankTail ('#' :: (r ++ next.toList).takeWhile (· ≠ '\n'))
      cases ht : trimEnd ('#' :: (r ++ next.toList).takeWhile (· ≠ '\n')) with
      | cons d _ =>
        rw [ht] at this
        rw [List.head?_cons, (List.cons.inj this).1]
      | nil =>
        rw [ht, List.nil_append, blankTail] at this
        have hmem : '#' ∈ (('#' :: (r ++ next.toList).takeWhile (· ≠ '\n')).reverse.takeWhile
            isBlank).reverse := by rw [this]; exact List.mem_cons_self
        have := List.all_eq_true.mp List.all_takeWhile _ (List.mem_reverse.mp hmem)
        exact absurd this (by decide)
    · simp only [comment, String.toList_ofList] at hmem
      have hsub := trimEnd_append_blankTail ('#' :: (r ++ next.toList).takeWhile (· ≠ '\n'))
      have hmem : '\n' ∈ '#' :: (r ++ next.toList).takeWhile (· ≠ '\n') := by
        rw [← hsub]
        exact List.mem_append_left _ hmem
      rcases List.mem_cons.mp hmem with he | hmem
      · exact absurd he (by decide)
      · exact absurd (List.all_eq_true.mp List.all_takeWhile _ hmem) (by decide)
    · simpa only [comment, String.toList_ofList] using getLast?_trimEnd _
  | string _ h => exact absurd hk (kind_of_literal h)
  | marked _ _ _ _ h => exact absurd hk (kind_of_literal h)
  | bracket hb => obtain ⟨b, rfl | rfl⟩ := kind_of_bracket hb <;> cases hk
  | _ => cases hk

theorem Stands.kind_ne_endOfText {x : Lexeme} {next : Option Char} (h : x.Stands next) :
    x.kind ≠ some .endOfText := by
  obtain ⟨c, r, -, hf⟩ := h.front
  clear h
  intro hk
  cases hf with
  | string _ h => exact absurd hk (kind_ne_of_literal h (by simp))
  | marked _ _ _ _ h => exact absurd hk (kind_ne_of_literal h (by simp))
  | bracket h => obtain ⟨b, rfl | rfl⟩ := kind_of_bracket h <;> cases hk
  | _ => cases hk

theorem Stands.chars_feed {x : Lexeme} {next : Option Char} (h : x.Stands next)
    (hk : x.kind = some .newline) : x.chars = ['\n'] := by
  obtain ⟨c, r, -, hf⟩ := h.front
  clear h
  cases hf with
  | feed hc => simp [chars, hc]
  | string _ h => exact absurd hk (kind_ne_of_literal h (by simp))
  | marked _ _ _ _ h => exact absurd hk (kind_ne_of_literal h (by simp))
  | bracket h => obtain ⟨b, rfl | rfl⟩ := kind_of_bracket h <;> cases hk
  | _ => cases hk

theorem Stands.front_ne {x : Lexeme} {next : Option Char} (h : x.Stands next)
    (hk : x.kind ≠ some .operator) : ∀ c ∈ x.chars.head?, c ≠ '=' ∧ c ≠ '>' := by
  obtain ⟨c, r, hx, hf⟩ := h.front
  clear h
  have hclass (p : Char → Bool) (hp : p c = true) (he : p '=' = false) (hg : p '>' = false) :
      c ≠ '=' ∧ c ≠ '>' := by
    constructor <;> rintro rfl <;> simp_all
  rw [hx, List.head?_cons]
  rintro _ ⟨⟩
  cases hf with
  | space h => exact hclass isSpace h (by decide) (by decide)
  | join _ hc _ => subst hc; decide
  | longJoin _ hc _ => subst hc; decide
  | feed hc => subst hc; decide
  | comment hc => subst hc; decide
  | string hq _ => exact hclass isQuote hq (by decide) (by decide)
  | marked hw _ _ _ _ => exact hclass isWordStart hw (by decide) (by decide)
  | word hw _ => exact hclass isWordStart hw (by decide) (by decide)
  | number h =>
    rcases h with h | ⟨rfl, -⟩
    · exact hclass isDigit h (by decide) (by decide)
    · decide
  | bracket h =>
    obtain ⟨b, ⟨rfl, -⟩ | ⟨rfl, -⟩⟩ := (bracket?_iff c _).mp h <;> cases b <;> decide
  | operator _ _ _ _ => exact absurd rfl hk

theorem Stands.spells {x : Lexeme} {next : Option Char} {kind : Token.Kind} (h : x.Stands next)
    (hk : x.kind = some kind) : Token.Spells kind (String.ofList x.text) := by
  by_cases hc : kind = .comment
  · subst hc
    exact .of_remark (h.remark hk)
  · have hx : x = of kind (String.ofList x.text) := by
      have := h.after_eq_nil (by rw [hk]; simpa using hc)
      cases x
      simp_all [of]
    rw [Token.Spells, ← hx]
    exact h.parted rfl

theorem numberTail_concat {last : Char} {cs ds : List Char} (hcs : numberTail last cs = cs)
    (hds : ∀ d ∈ ds, isWordChar d = true ∨ d = '.') : numberTail last (cs ++ ds) = cs ++ ds := by
  induction cs generalizing last with
  | cons c cs ih =>
    rw [numberTail] at hcs
    split_ifs at hcs with hc
    rw [List.cons_append, numberTail, if_pos hc, ih (List.cons.inj hcs).2]
  | nil =>
    clear hcs
    induction ds generalizing last with
    | nil => rfl
    | cons d ds ih =>
      have hd := hds d List.mem_cons_self
      have := @ih (fun e he => hds e (List.mem_cons_of_mem _ he)) d
      rw [List.nil_append] at this
      rw [List.nil_append, numberTail, if_pos, this]
      rcases hd with hd | rfl
      · simp [hd]
      · simp

end Lexeme

namespace Token.Spells

open Lexeme

theorem identifier {name : String} (h : Spells .ident name) : identifier name = true := by
  obtain ⟨c, r, hx, hf⟩ := h.front
  rw [chars_of] at hx
  rw [Option.toList_none, List.append_nil] at hf
  generalize hy : Lexeme.of .ident name = y at hf
  cases hf with
  | word hw _ =>
    have htext := congrArg Lexeme.text hy
    simp only [Lexeme.of, hx, List.cons.injEq, true_and] at htext
    unfold BuildSync.identifier
    rw [hx]
    simp only [hw, Bool.true_and]
    rw [htext]
    exact List.all_takeWhile
  | string _ h => exact absurd (congrArg Lexeme.kind hy).symm (kind_ne_of_literal h (by simp))
  | marked _ _ _ _ h => exact absurd (congrArg Lexeme.kind hy).symm (kind_ne_of_literal h (by simp))
  | bracket h => obtain ⟨b, rfl | rfl⟩ := kind_of_bracket h <;> cases hy
  | _ => cases hy

theorem remark {text : String} (h : Spells .comment text) : Remark text := by
  simpa [Lexeme.of] using Stands.remark h rfl

theorem ne_empty {kind : Token.Kind} {text : String} (h : Spells kind text) : text.toList ≠ [] := by
  simpa using Stands.chars_ne_nil h

theorem number_dot {text name : String} (h : Spells .number text) (hn : BuildSync.identifier name = true) :
    Spells .number (text ++ "." ++ name) := by
  obtain ⟨c, r, hx, hf⟩ := h.front
  rw [chars_of] at hx
  rw [Option.toList_none, List.append_nil] at hf
  have hname : ∀ d ∈ '.' :: name.toList, isWordChar d = true ∨ d = '.' := by
    unfold BuildSync.identifier at hn
    split at hn
    · cases hn
    · rename_i c r hn'
      rw [Bool.and_eq_true, List.all_eq_true] at hn
      rw [hn']
      simp only [List.mem_cons, forall_eq_or_imp, or_true, true_and]
      refine ⟨.inl ?_, fun d hd => .inl (hn.2 d hd)⟩
      have := hn.1
      simp only [isWordStart, isWordChar, Bool.or_eq_true] at this ⊢
      tauto
  generalize hy : Lexeme.of .number text = y at hf
  cases hf with
  | number hd =>
    have htext := congrArg Lexeme.text hy
    simp only [Lexeme.of, hx, List.cons.injEq, true_and] at htext
    refine ⟨c, r ++ '.' :: name.toList, by simp [hx], ?_⟩
    have hd' : Lexeme.isDigit c = true ∨
        c = '.' ∧ (r ++ '.' :: name.toList).head?.any Lexeme.isDigit = true := by
      refine hd.imp_right fun hd => ⟨hd.1, ?_⟩
      cases r with
      | nil => exact absurd hd.2 (by simp)
      | cons d r => exact hd.2
    rw [Option.toList_none, List.append_nil, read_number _ hd', numberTail_concat htext.symm hname]
    simp [Lexeme.of, hx]
  | string _ h => exact absurd (congrArg Lexeme.kind hy).symm (kind_ne_of_literal h (by simp))
  | marked _ _ _ _ h => exact absurd (congrArg Lexeme.kind hy).symm (kind_ne_of_literal h (by simp))
  | bracket h => obtain ⟨b, rfl | rfl⟩ := kind_of_bracket h <;> cases hy
  | _ => cases hy

end Token.Spells

end BuildSync
