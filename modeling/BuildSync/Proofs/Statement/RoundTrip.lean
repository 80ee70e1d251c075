import BuildSync.Proofs.Expr.Reread
import BuildSync.Proofs.Statement.Grammar
import BuildSync.Statement.Printer

namespace BuildSync

namespace Lexeme

theorem turn_append {stack stack' : List Bracket} {x : Lexeme} (h : turn stack x = some stack')
    (outer : List Bracket) : turn (stack ++ outer) x = some (stack' ++ outer) := by
  unfold turn at h ⊢
  split at h
  · cases h; rfl
  · split_ifs at h with hb
    cases h
    cases stack with
    | nil => cases hb
    | cons b' stack =>
      cases hb
      simp
  · cases h; rfl

end Lexeme

namespace Expr

open Lexeme

variable {strict : Bool} {callee : Expr} {s : Sequence}

theorem spelling_callLexemes (h : (call callee s).Fits strict) (depth : Nat) (lines spread : Bool) :
    spelling (callLexemes callee s depth lines spread) =
      (callee.print depth false ++ "(" ++ s.print depth lines spread ++ ")").toList := by
  cases h with
  | call hc _ hs hv =>
    have hargs := Sequence.spelling_lexemes
      (hs.all (by decide) fun i hi level spread => spelling_lexemes (hv i hi) level spread) depth lines spread
    simp [callLexemes, spelling_lexemes hc, hargs, Bracket.opening, Bracket.closing]

theorem balanced_callLexemes (h : (call callee s).Fits strict) (depth : Nat) (lines spread : Bool) :
    Balanced (callLexemes callee s depth lines spread) := by
  cases h with
  | call hc _ hs hv =>
    rw [callLexemes, List.append_assoc]
    exact (balanced_lexemes hc depth false).append (.bracket .round (Sequence.balanced_lexemes
      (hs.all (by decide) fun i hi => balanced_lexemes (hv i hi)) depth lines spread))

theorem joined_callLexemes (h : (call callee s).Fits true) (depth : Nat) (lines spread : Bool)
    (next : Option Char) : Joined (callLexemes callee s depth lines spread) next := by
  cases h with
  | call hc _ hs hv =>
    rw [callLexemes, List.append_assoc, joined_append, List.cons_append, front_cons rfl]
    exact ⟨joined_lexemes hc depth false (callee.parts_edge rfl), joined_bracket .round
      (Sequence.joined_lexemes hs (hs.all (by decide) fun i hi l s n hn => joined_lexemes (hv i hi) l s hn)
        _ _ _)⟩

end Expr

namespace Progress

open Lexeme

theorem pending_eq_nil {p : Progress} (h : p.brackets = []) : p.pending = [] := List.map_eq_nil_iff.mp h

theorem isCode_of_nest {p : Progress} {xs : List Lexeme} {inner outer stack : List Bracket}
    (hp : p.brackets = inner ++ outer) (ho : outer ≠ []) (hn : Lexeme.nest inner xs = some stack)
    (hx : ∀ x ∈ xs, x.kind ≠ some .endOfText) : ∀ t ∈ p.tokens xs, t.isCode = true := by
  induction xs generalizing p inner with
  | nil => exact nofun
  | cons x xs ih =>
    obtain ⟨hend, hxs⟩ := List.forall_mem_cons.mp hx
    rw [Lexeme.nest, List.foldlM_cons] at hn
    obtain ⟨st, hst, hn⟩ := Option.bind_eq_some_iff.mp hn
    have hnext := p.brackets_next (hp ▸ turn_append hst outer)
    rw [tokens, List.forall_mem_append]
    refine ⟨fun t ht => ?_, ih hnext hn hxs⟩
    rw [next?, Option.mem_toList, Option.map_eq_some_iff] at ht
    obtain ⟨kind, hk, rfl⟩ := ht
    have hpending : p.pending.isEmpty = false := by
      rw [← List.isEmpty_map (f := Prod.fst)]
      change p.brackets.isEmpty = false
      rw [hp]
      cases inner <;> cases outer <;> first | rfl | exact absurd rfl ho
    have hkind := token?_eq_some hk
    have hnewline : kind ≠ .newline := by
      rintro rfl
      simp [token?, hkind, hpending] at hk
    rw [hkind] at hend
    simpa [Token.isCode, Token.endsLine, hnewline] using hend

theorem isCode_of_plain {xs : List Lexeme} (hx : ∀ x ∈ xs, x.kind = some .ident ∨ x.kind = some .operator)
    (p : Progress) : ∀ t ∈ p.tokens xs, t.isCode = true := by
  induction xs generalizing p with
  | nil => exact nofun
  | cons x xs ih =>
    obtain ⟨hk, hxs⟩ := List.forall_mem_cons.mp hx
    rw [tokens, List.forall_mem_append]
    refine ⟨fun t ht => ?_, ih hxs _⟩
    rw [next?, Option.mem_toList, Option.map_eq_some_iff] at ht
    obtain ⟨kind, hkind, rfl⟩ := ht
    rw [token?_eq_some hkind] at hk
    rcases hk with hk | hk <;> cases hk <;> rfl

end Progress

theorem Expr.lexemes_dotted {e : Expr} (h : e.dottedName?.isSome = true) (depth : Nat) (spread : Bool) :
    ∃ name xs, e.lexemes depth spread = .of .ident name :: xs ∧
      ∀ x ∈ xs, x.kind = some .ident ∨ x.kind = some .operator := by
  fun_induction dottedName? e generalizing spread with
  | case1 name => exact ⟨name, [], rfl, List.forall_mem_nil _⟩
  | case2 base name ih =>
    rw [Option.isSome_map] at h
    obtain ⟨first, xs, hxs, hkinds⟩ := ih h false
    refine ⟨first, _, by rw [lexemes, hxs]; rfl, ?_⟩
    simpa [or_imp, forall_and] using hkinds
  | case3 => cases h

namespace Statement

open Token

def suffixTokens (p : Progress) : Option String → List Token
  | some c => [p.token .comment c.toList]
  | none => []

theorem splitSuffix_call (ts : List Token) {t : Token} (ht : t.kind = .closing .round) (p : Progress)
    (suffix : Option String) :
    splitSuffix (ts ++ [t] ++ suffixTokens p suffix) = (ts ++ [t], suffix) := by
  cases suffix with
  | none =>
    have hcomment : t.isComment = false := by simp [Token.isComment, ht]
    rw [suffixTokens, List.append_nil, splitSuffix_concat, hcomment]
    rfl
  | some c =>
    have hcomment : (p.token .comment c.toList).isComment = true := rfl
    rw [suffixTokens, splitSuffix_concat, hcomment, if_pos rfl, Progress.token_text, String.ofList_toList]

theorem opensBlock_call (ts : List Token) {t : Token} (ht : t.kind = .closing .round) (p : Progress)
    (suffix : Option String) : opensBlock (ts ++ [t] ++ suffixTokens p suffix) = false := by
  have hcolon : t.isOperator ":" = false := by simp [isOperator, ht]
  cases suffix with
  | none =>
    have hcomment : t.isComment = false := by simp [Token.isComment, ht]
    cases hts : ts.reverse <;> simp [opensBlock, suffixTokens, hts, hcolon, hcomment]
  | some c =>
    have hcomment : (p.token .comment c.toList).isComment = true := rfl
    simp [opensBlock, suffixTokens, hcomment, hcolon]

theorem ofExtent_call {ts : List Token} {t : Token} {call : Call} (p : Progress) (suffix : Option String)
    (comments : List String) (ht : t.kind = .closing .round)
    (hcode : ∀ u ∈ ts ++ [t] ++ suffixTokens p suffix, u.isCode = true)
    (hcall : Call.ofTokens? (ts ++ [t]) = some call) :
    ofExtent comments (ts ++ [t] ++ suffixTokens p suffix) = .rule ⟨comments, call, suffix⟩ := by
  have : call? (ts ++ [t] ++ suffixTokens p suffix) = some call := by
    rw [call?, List.takeWhile_eq_self_iff.mpr hcode, opensBlock_call ts ht, splitSuffix_call ts ht]
    exact hcall
  rw [ofExtent_eq, this, splitSuffix_call ts ht]

end Statement

namespace Rule

open Lexeme Statement

def lexemes (r : Rule) : List Lexeme :=
  Expr.callLexemes r.call.callee r.call.args 0 r.spreads true ++ Lexeme.suffix r.suffix

theorem hasComments_of_spreads {r : Rule} (h : r.spreads = false) : r.call.args.hasComments = false := by
  unfold spreads at h
  exact (Bool.or_eq_false_iff.mp h).1

theorem tokens_suffix (p : Progress) (s : Option String) :
    ∃ q : Progress, p.tokens (Lexeme.suffix s) = suffixTokens q s := by
  cases s with
  | none => exact ⟨p, rfl⟩
  | some c => exact ⟨_, Progress.tokens_of (by decide) ((p.next space).next space) c []⟩

theorem isCode_arguments {s : Sequence} (hs : s.Framed .round) (hv : ∀ i ∈ s.items, i.value.Fits true)
    (lines spread : Bool) (p : Progress) :
    ∀ t ∈ p.tokens (Lexeme.opening .round :: s.lexemes 0 lines spread), t.isCode = true := by
  have hall := hs.all (by decide) hv
  have hjoined := Sequence.joined_lexemes hs
    (fun i hi => ⟨fun l s _ hn => Expr.joined_lexemes (hall i hi).1 l s hn,
      fun k hk l s _ hn => Expr.joined_lexemes ((hall i hi).2 k hk) l s hn⟩) 0 lines spread
  have hbalanced := Sequence.balanced_lexemes
    (fun i hi => ⟨Expr.balanced_lexemes (hall i hi).1, fun k hk => Expr.balanced_lexemes ((hall i hi).2 k hk)⟩)
    0 lines spread
  rw [Progress.tokens_opening]
  refine List.forall_mem_cons.mpr ⟨rfl, ?_⟩
  have hbrackets : (p.next (Lexeme.opening .round)).brackets =
      [] ++ (p.next (Lexeme.opening .round)).brackets := rfl
  refine Progress.isCode_of_nest hbrackets (List.cons_ne_nil _ _) (hbalanced []) fun x hx => ?_
  obtain ⟨next, hstands⟩ := hjoined.stands x hx
  exact hstands.kind_ne_endOfText

theorem tokens_lexemes {r : Rule} (hcall : (Expr.call r.call.callee r.call.args).Fits true)
    (hname : r.call.callee.dottedName?.isSome = true) (p : Progress) :
    ∃ t ts, p.tokens r.lexemes = t :: ts ∧ t.kind = .ident ∧ t.start = p.place ∧ Token.Extends t ts ∧
      ∀ comments, ofExtent comments (t :: ts) = .rule ⟨comments, r.call, r.suffix⟩ := by
  obtain ⟨name, xs, hcallee, hkinds⟩ := Expr.lexemes_dotted hname 0 false
  have hread := Expr.ofTokens?_callLexemes hcall 0 r.spreads true hasComments_of_spreads p
  rw [lexemes, Progress.tokens_append]
  obtain ⟨q, hq⟩ := tokens_suffix (p.after (Expr.callLexemes r.call.callee r.call.args 0 r.spreads true))
    r.suffix
  rw [hq]
  rw [Expr.callLexemes, Progress.tokens_append, Progress.tokens_append, Progress.tokens_closing,
    Progress.tokens_nil] at hread ⊢
  have hargs : ∀ t ∈ (p.after (r.call.callee.lexemes 0 false)).tokens
      (Lexeme.opening .round :: r.call.args.lexemes 0 r.spreads true), t.isCode = true := by
    cases hcall with
    | call _ _ hs hv => exact isCode_arguments hs hv _ _ _
  generalize (p.after (r.call.callee.lexemes 0 false)).tokens
    (Lexeme.opening .round :: r.call.args.lexemes 0 r.spreads true) = args at hargs hread ⊢
  have hclose : ((p.after (r.call.callee.lexemes 0 false ++ Lexeme.opening .round ::
    r.call.args.lexemes 0 r.spreads true)).token (.closing .round) [Bracket.round.closing]).kind =
      .closing .round := rfl
  generalize (p.after _).token (.closing .round) [Bracket.round.closing] = close at hclose hread ⊢
  rw [hcallee, Progress.tokens_of (by decide)] at hread ⊢
  have hfirst : ∀ t ∈ (p.next (.of .ident name)).tokens xs, t.isCode = true :=
    Progress.isCode_of_plain hkinds _
  generalize (p.next (.of .ident name)).tokens xs = names at hfirst hread ⊢
  have hcall? : Call.ofTokens? (p.token .ident name.toList :: names ++ args ++ [close]) = some r.call := by
    rw [Call.ofTokens?, hread]
    exact if_pos hname
  have hsuffix : ∀ t ∈ suffixTokens q r.suffix, t.isCode = true := by
    cases r.suffix with
    | none => exact List.forall_mem_nil _
    | some c => exact List.forall_mem_singleton.mpr rfl
  have hcode : ∀ t ∈ names ++ args ++ [close] ++ suffixTokens q r.suffix, t.isCode = true := by
    simp only [List.forall_mem_append, List.forall_mem_singleton]
    exact ⟨⟨⟨hfirst, hargs⟩, by simp [Token.isCode, Token.endsLine, hclose]⟩, hsuffix⟩
  refine ⟨_, _, rfl, rfl, rfl, ?_, fun comments => ?_⟩
  · have := Token.Extends.intro (t := p.token .ident name.toList) hcode .nil fun _ => rfl
    rwa [List.append_nil] at this
  · refine ofExtent_call q r.suffix comments hclose (fun u hu => ?_) hcall?
    rcases List.mem_cons.mp hu with rfl | hu
    · rfl
    · exact hcode u hu

end Rule
namespace Statement

open Lexeme

inductive Parted : List Token → Prop
  | newline {n : Token} {rest : List Token} (hn : n.kind = .newline) (h : Token.Outer rest) : Parted (n :: rest)
  | last {t : Token} (ht : t.kind = .endOfText) : Parted [t]

theorem Parted.outer {ts : List Token} (h : Parted ts) : Token.Outer ts := by
  cases h with
  | newline hn h => exact Token.outer_filler (Token.isFiller_of_newline hn) h
  | last ht => exact Token.outer_first (by simp [Token.isFiller, Token.isComment, ht]) (.inl ht) []

structure Writes (s : Statement) (xs : List Lexeme) : Prop where
  spelling : spelling xs = s.print.toList
  joined : ∀ next, Joined xs next
  nest : nest [] xs = some []
  margin : ∀ p : Progress, p.AtMargin → (p.after xs).AtMargin
  outer : ∀ p : Progress, p.AtMargin → ∀ rest, Token.Outer rest → Token.Outer (p.tokens xs ++ rest)
  reads : ∀ p : Progress, p.AtMargin → ∀ newline rest, Parted rest →
    ofTokensAfter [] newline (p.tokens xs ++ rest) = s :: ofTokensAfter [] true rest

theorem writes_comment {lines : List String} (hne : lines ≠ []) (h : ∀ line ∈ lines, Remark line) :
    Writes (.comment lines) (remarkLines 0 lines) where
  spelling := spelling_remarkLines 0 lines
  joined := joined_remarkLines 0 h
  nest := balanced_remarkLines 0 lines []
  margin p hp := Progress.atMargin_remarkLines hp lines
  outer p hp rest := Progress.outer_remarkLines hp lines
  reads p hp newline rest hrest := by
    have hlines : lines.isEmpty = false := by simpa using hne
    rw [Progress.ofTokensAfter_remarkLines hp, hlines, Bool.not_false, Bool.or_true]
    cases hrest with
    | newline hn _ =>
      rw [ofTokensAfter_newline hn, ofTokensAfter_newline hn, if_pos rfl, if_pos rfl]
      simp [standalone, hlines]
    | last ht =>
      rw [ofTokensAfter_end ht, ofTokensAfter_end ht]
      simp [standalone, hlines]

theorem writes_code {s : Statement} {comments : List String} {xs : List Lexeme}
    (hc : ∀ line ∈ comments, Remark line)
    (hspelling : s.print.toList = (commentLines 0 comments).toList ++ spelling xs ++ ['\n'])
    (hjoined : Joined xs (some '\n')) (hnest : Lexeme.nest [] xs = some [])
    (htokens : ∀ p : Progress, p.AtMargin → ∃ t ts, p.tokens xs = t :: ts ∧ t.isFiller = false ∧
      t.kind ≠ .endOfText ∧ t.start.column = 0 ∧ Token.Extends t ts ∧ ofExtent comments (t :: ts) = s) :
    Writes s (remarkLines 0 comments ++ xs ++ [feed]) where
  spelling := by rw [hspelling]; simp [spelling_remarkLines]
  joined next := by
    rw [List.append_assoc, joined_append, joined_append]
    exact ⟨joined_remarkLines 0 hc _, by rwa [front_cons rfl], joined_single (stands_feed next)⟩
  nest := by
    rw [List.append_assoc, nest_append, balanced_remarkLines 0 comments [], Option.bind_some, nest_append,
      hnest]
    rfl
  margin p hp := by
    rw [Progress.after_append, Progress.after_append]
    refine Progress.atMargin_feed (Progress.pending_eq_nil (Progress.brackets_after_nest ?_))
    rw [(Progress.atMargin_remarkLines hp comments).brackets]
    exact hnest
  outer p hp rest hrest := by
    rw [List.append_assoc, Progress.tokens_append, List.append_assoc]
    obtain ⟨t, ts, ht, hfiller, -, hcolumn, -⟩ := htokens _ (Progress.atMargin_remarkLines hp comments)
    rw [Progress.tokens_append, ht]
    exact Progress.outer_remarkLines hp comments (Token.outer_first hfiller (.inr hcolumn) _)
  reads p hp newline rest hrest := by
    have hp' := Progress.atMargin_remarkLines hp comments
    obtain ⟨t, ts, ht, hfiller, hend, -, hx, hs⟩ := htokens _ hp'
    have hpending : (((p.after (remarkLines 0 comments)).after xs).pending) = [] :=
      Progress.pending_eq_nil (Progress.brackets_after_nest (by rw [hp'.brackets]; exact hnest))
    rw [List.append_assoc, Progress.tokens_append, List.append_assoc,
      Progress.ofTokensAfter_remarkLines hp, List.nil_append, Progress.tokens_append, ht,
      Progress.tokens_newline hpending, Progress.tokens_nil, List.append_assoc, List.singleton_append,
      ofTokensAfter_extends hfiller hend hx rfl hrest.outer, hs]

theorem writes_rule {r : Rule} (hc : ∀ line ∈ r.comments, Remark line)
    (hcall : (Expr.call r.call.callee r.call.args).Fits true)
    (hname : r.call.callee.dottedName?.isSome = true) (hs : ∀ c ∈ r.suffix, Remark c) :
    Writes (.rule r) (remarkLines 0 r.comments ++ r.lexemes ++ [feed]) := by
  refine writes_code hc ?_ ?_ ?_ fun p hp => ?_
  · rw [Rule.lexemes, spelling_append, Expr.spelling_callLexemes hcall, spelling_suffix]
    simp [print, Rule.print]
  · rw [Rule.lexemes, joined_append]
    have := (joined_append (Lexeme.suffix r.suffix) [feed] none).mp (joined_suffix_feed hs none)
    exact ⟨Expr.joined_callLexemes hcall 0 r.spreads true _, this.1⟩
  · exact ((Expr.balanced_callLexemes hcall 0 r.spreads true).append (balanced_suffix r.suffix)) []
  · obtain ⟨t, ts, ht, hk, hstart, hx, hmakes⟩ := r.tokens_lexemes hcall hname p
    refine ⟨t, ts, ht, ?_, ?_, ?_, hx, hmakes r.comments⟩
    · simp [Token.isFiller, Token.isComment, hk]
    · simp [hk]
    · rw [hstart, hp.column]

theorem writes_verbatim {comments : List String} {text : String} {x : Lexeme} {xs : List Lexeme}
    (hc : ∀ line ∈ comments, Remark line) (h : Passage x xs) (ht : spelling (x :: xs) = text.toList) :
    Writes (.verbatim comments text) (remarkLines 0 comments ++ x :: xs ++ [feed]) := by
  refine writes_code hc ?_ h.joined h.nest fun p hp => ?_
  · rw [ht]
    simp [print]
  have hb : Progress.start.brackets = p.brackets := by rw [hp.brackets]; rfl
  have hgap : (p.after (x :: xs)).gap = [] := by
    rw [← Progress.gap_after_congr hb hp.gap.symm (x :: xs)]
    exact h.last
  have hfirst : (p.token? x).isSome = true := by
    rw [← Progress.token?_congr hb]
    exact h.first
  have hsource := Progress.source_tokens hfirst hgap
  have hstray := h.stray.echo (Progress.tokens_echo 1 p.place.line false
    (fun y hy hk => (h.joined.stands y hy).choose_spec.chars_feed hk) hb (Nat.add_comm _ _) nofun)
  obtain ⟨kind, hkind⟩ := Option.isSome_iff_exists.mp hfirst
  have htokens : p.tokens (x :: xs) = p.token kind x.text :: (p.next x).tokens xs := by
    rw [Progress.tokens, Progress.next?, hkind]
    rfl
  rw [htokens] at hstray hsource ⊢
  cases hstray with
  | intro hfiller hend hx hcall =>
    refine ⟨_, _, rfl, hfiller, hend, hp.column, hx, ?_⟩
    rw [ofExtent_eq, hcall, hsource, ht, String.ofList_toList]

theorem Fits.writes {s : Statement} (h : s.Fits true) : ∃ xs, s.Writes xs := by
  cases h with
  | comment hne h => exact ⟨_, writes_comment hne h⟩
  | rule hc hcall hname hs => exact ⟨_, writes_rule hc hcall hname hs⟩
  | verbatim hc h =>
    obtain ⟨x, xs, hpassage, ht⟩ := h
    exact ⟨_, writes_verbatim hc hpassage ht⟩

structure AllWrites (ss : List Statement) (xs : List Lexeme) : Prop where
  spelling : spelling xs = (printAll ss).toList
  joined : Joined xs none
  nest : nest [] xs = some []
  outer : ∀ p : Progress, p.AtMargin → ∀ t : Token, t.kind = .endOfText → Token.Outer (p.tokens xs ++ [t])
  reads : ∀ p : Progress, p.AtMargin → ∀ t : Token, t.kind = .endOfText → ∀ newline,
    ofTokensAfter [] newline (p.tokens xs ++ [t]) = ss

theorem allWrites_nil : AllWrites [] [] where
  spelling := rfl
  joined := trivial
  nest := rfl
  outer _ _ _ ht := (Parted.last ht).outer
  reads _ _ _ ht _ := ofTokensAfter_end ht []

theorem allWrites_single {s : Statement} {xs : List Lexeme} (h : s.Writes xs) : AllWrites [s] xs where
  spelling := by rw [h.spelling]; simp [printAll]
  joined := h.joined none
  nest := h.nest
  outer p hp t ht := h.outer p hp _ (Parted.last ht).outer
  reads p hp t ht newline := by
    rw [h.reads p hp newline _ (.last ht), ofTokensAfter_end ht]
    rfl

theorem allWrites_cons {s : Statement} {ss : List Statement} {xs ys : List Lexeme} (h : s.Writes xs)
    (hss : AllWrites ss ys) (hne : ss ≠ []) : AllWrites (s :: ss) (xs ++ feed :: ys) where
  spelling := by
    have : ss.isEmpty = false := by simpa using hne
    simp [printAll, h.spelling, hss.spelling, this]
  joined := by
    rw [joined_append]
    exact ⟨h.joined _, stands_feed _, hss.joined⟩
  nest := by
    rw [nest_append, h.nest]
    exact hss.nest
  outer p hp t ht := by
    have hp' := h.margin p hp
    rw [Progress.tokens_append, Progress.tokens_newline hp'.pending, List.append_assoc]
    exact h.outer p hp _ (Token.outer_filler rfl (hss.outer _ (Progress.atMargin_feed hp'.pending) t ht))
  reads p hp t ht newline := by
    have hp' := h.margin p hp
    have hnext := Progress.atMargin_feed hp'.pending
    rw [Progress.tokens_append, Progress.tokens_newline hp'.pending, List.append_assoc, List.cons_append,
      h.reads p hp newline _ (.newline rfl (hss.outer _ hnext t ht)), ofTokensAfter_newline rfl, if_pos rfl,
      hss.reads _ hnext t ht]
    rfl

theorem allWrites {ss : List Statement} (h : ∀ s ∈ ss, s.Fits true) : ∃ xs, AllWrites ss xs := by
  induction ss with
  | nil => exact ⟨[], allWrites_nil⟩
  | cons s ss ih =>
    obtain ⟨hs, hss⟩ := List.forall_mem_cons.mp h
    obtain ⟨xs, hxs⟩ := hs.writes
    obtain ⟨ys, hys⟩ := ih hss
    cases ss with
    | nil => exact ⟨xs, allWrites_single hxs⟩
    | cons s' ss => exact ⟨_, allWrites_cons hxs hys (List.cons_ne_nil _ _)⟩

theorem ofSource_printAll {ss : List Statement} (h : ∀ s ∈ ss, s.Fits true) :
    ofSource (printAll ss) = .ok ss := by
  obtain ⟨xs, hxs⟩ := allWrites h
  have hscan : Token.scan .start (Lexeme.spelling xs ++ []) = _ := Token.scan_append hxs.joined hxs.nest
  have hpending : (Progress.start.after xs).pending = [] :=
    Progress.pending_eq_nil (Progress.brackets_after_nest hxs.nest)
  rw [List.append_nil, hxs.spelling, Token.scan, Progress.finish, hpending] at hscan
  rw [ofSource, Token.ofSource, hscan]
  exact congrArg Except.ok (hxs.reads _ Progress.atMargin_start _ rfl _)

end Statement
end BuildSync
