import BuildSync.Proofs.Document.RoundTrip
import BuildSync.Proofs.Expr.Arguments
import BuildSync.Proofs.Expr.Chain
import BuildSync.Proofs.Statement.Lines

/-!
Operators in a file: wherever operands with binary operators between them stand as an argument of a rule,
the file is parsed, and the value of the argument is the tree that the operators group them into.
-/

namespace BuildSync

namespace Token

def firstLines : List Token → List (List Token)
  | [] => []
  | t :: rest =>
    match t.kind with
    | .endOfText => []
    | .newline => firstLines rest
    | .comment => firstLines rest
    | _ => (t :: rest.takeWhile isCode) :: firstLines (rest.drop (extent t rest).length)
termination_by tokens => tokens.length
decreasing_by all_goals simp only [List.length_drop, List.length_cons]; omega

theorem Arguments.exists_last {ts : List Token} {args : List (Label × List Token)} (h : Arguments ts args) :
    ∃ us t, ts = us ++ [t] ∧ t.kind = .closing .round := by
  induction h with
  | @close t ht => exact ⟨[], t, rfl, ht⟩
  | @comment t _ _ _ _ ih =>
    obtain ⟨us, u, rfl, hu⟩ := ih
    exact ⟨t :: us, u, rfl, hu⟩
  | @last ls ts remarks _ t _ _ ht => exact ⟨ls ++ ts ++ remarks, t, by simp, ht⟩
  | @next ls ts _ _ suffix t _ _ _ _ _ ih =>
    obtain ⟨us, u, rfl, hu⟩ := ih
    exact ⟨ls ++ ts ++ (suffix.toList ++ t :: us), u, by simp, hu⟩

theorem Calls.exists_last {ts : List Token} {callee : Expr} {args : List (Label × List Token)}
    (h : Calls ts callee args) : ∃ us t, ts = us ++ [t] ∧ t.kind = .closing .round := by
  obtain @⟨ts, us, _, t, _, _, _, h⟩ := h
  obtain ⟨us, u, rfl, hu⟩ := h.exists_last
  exact ⟨ts ++ t :: us, u, by simp, hu⟩

end Token

namespace Statement

open Token

variable {ts line : List Token}

theorem splitSuffix_closing (us : List Token) {t : Token} (ht : t.kind = .closing .round)
    {suffix : Option Token} (hsuffix : ∀ u ∈ suffix, u.isComment = true) :
    opensBlock (us ++ [t] ++ suffix.toList) = false ∧
      splitSuffix (us ++ [t] ++ suffix.toList) = (us ++ [t], suffix.map Token.text) := by
  have htc : t.isComment = false := by simp [Token.isComment, ht]
  have hcolon : t.isOperator ":" = false := by simp [isOperator, ht]
  cases suffix with
  | none =>
    rw [Option.toList_none, List.append_nil, splitSuffix_concat, htc, opensBlock, List.reverse_append]
    refine ⟨?_, rfl⟩
    cases us.reverse <;> simp [htc, hcolon]
  | some u =>
    have hu := hsuffix u rfl
    rw [Option.toList_some, splitSuffix_concat, hu]
    exact ⟨by simp [opensBlock, hu, hcolon], rfl⟩

theorem exists_mem_of_firstLines {callee : Expr} {args : List (Label × List Token)} {suffix : Option Token}
    (hline : line ++ suffix.toList ∈ firstLines ts) (hsuffix : ∀ t ∈ suffix, t.isComment = true)
    (hcalls : Calls line callee args) {call : Call} (hcall : Call.ofTokens? line = some call)
    (comments : List String) (newline : Bool) :
    ∃ above, .rule ⟨above, call, suffix.map Token.text⟩ ∈ ofTokensAfter comments newline ts := by
  fun_induction firstLines ts generalizing comments newline with
  | case1 => cases hline
  | case2 => cases hline
  | case3 t rest hk ih =>
    rw [ofTokensAfter_newline hk]
    split_ifs
    · obtain ⟨above, h⟩ := ih hline [] true
      exact ⟨above, List.mem_append_right _ h⟩
    · exact ih hline comments true
  | case4 t rest hk ih =>
    rw [ofTokensAfter_comment hk]
    exact ih hline _ false
  | case5 t rest hend hnewline hcomment ih =>
    have hend : t.kind ≠ .endOfText := hend
    have hnewline : t.kind ≠ .newline := hnewline
    have hcomment : t.kind ≠ .comment := hcomment
    have hcode : t.isCode = true := by simp [Token.isCode, Token.endsLine, hend, hnewline]
    rw [ofTokensAfter_code (isFiller_eq_false hnewline hcomment) hend]
    rcases List.mem_cons.mp hline with hfirst | hline
    · obtain ⟨us, u, rfl, hu⟩ := hcalls.exists_last
      obtain ⟨hopens, hsplit⟩ := splitSuffix_closing us hu hsuffix
      refine ⟨comments, List.mem_cons.mpr (.inl ?_)⟩
      rw [hfirst] at hopens hsplit
      rw [ofExtent_eq, call?, takeWhile_statement hcode, hopens, extent_of_closed hopens, hsplit]
      simp only [Bool.false_eq_true, if_false, hcall]
    · obtain ⟨above, h⟩ := ih hline [] false
      exact ⟨above, List.mem_cons_of_mem _ h⟩

end Statement

namespace Document

open Token

variable {source : String} {ts line : List Token} {suffix : Option Token} {callee : Expr}
  {args : List (Label × List Token)}

/-- Where the line of a rule has operands with binary operators between them as arguments, the file is
parsed, and each such argument is the one tree that its operators group. -/
theorem parse_chain (hts : Token.ofSource source = .ok ts) (hline : line ++ suffix.toList ∈ firstLines ts)
    (hsuffix : ∀ t ∈ suffix, t.isComment = true) (hcalls : Calls line callee args)
    (hargs : ∀ a ∈ args, (∃ c : Chain, a.2 = c.tokens) ∨ (Expr.ofTokens? a.2).isSome = true)
    (path : String) (flavor : Flavor) :
    ∃ doc rule, parse path flavor (Utf8.encode source) = .ok doc ∧ .rule rule ∈ doc.statements ∧
      rule.call.callee = callee ∧ List.Forall₂ (fun a i => i.label = a.1 ∧ ∀ c : Chain, a.2 = c.tokens →
        i.value.Grouped ∧ i.value.inorder = c.reading ∧
          ∀ e : Expr, e.Grouped → e.inorder = c.reading → e = i.value) args rule.args := by
  have hread : ∀ a ∈ args, ∃ e, Expr.ofTokens? a.2 = some e := by
    intro a ha
    rcases hargs a ha with ⟨c, hc⟩ | hsome
    · obtain ⟨e, he, -⟩ := c.existsUnique_grouped
      exact ⟨e, hc ▸ Chain.ofTokens?_tokens_iff.mpr he⟩
    · exact Option.isSome_iff_exists.mp hsome
  have hvalues : List.Forall₂ (fun a v => v.1 = a.1 ∧ Expr.ofTokens? a.2 = some v.2) args
      (args.map fun a => (a.1, (Expr.ofTokens? a.2).getD default)) := by
    refine List.forall₂_map_right_iff.mpr (List.forall₂_same.mpr fun a ha => ⟨rfl, ?_⟩)
    obtain ⟨e, he⟩ := hread a ha
    rw [he, Option.getD_some]
  obtain ⟨s, hcall, hparts⟩ := hcalls.ofTokens? hvalues
  obtain ⟨above, hmem⟩ := Statement.exists_mem_of_firstLines hline hsuffix hcalls hcall [] false
  refine ⟨⟨path, flavor, Statement.ofTokens ts⟩, ⟨above, ⟨callee, s⟩, suffix.map Token.text⟩, ?_, hmem, rfl, ?_⟩
  · rw [parse_encode, ofSource, Statement.ofSource, hts]
    rfl
  · rw [← hparts, Reading.parts, List.forall₂_map_right_iff] at hvalues
    refine hvalues.imp fun a i hi => ⟨hi.1, fun c hc => ?_⟩
    obtain ⟨hlabel, hvalue⟩ := hi
    rw [hc] at hvalue
    obtain ⟨hgrouped, hinorder⟩ := Chain.ofTokens?_tokens_iff.mp hvalue
    refine ⟨hgrouped, hinorder, fun e he hread => ?_⟩
    have := Chain.ofTokens?_tokens_iff.mpr ⟨he, hread⟩
    exact Option.some.inj (this.symm.trans hvalue)

def onFirstLine (gap : String) (kind : Token.Kind) (text : String) (column : Nat) : Token :=
  ⟨gap, kind, text, ⟨column, 1, column⟩⟩

def differences : Chain where
  first := ⟨[onFirstLine " " .ident "a" 9], .ident "a", trivial, by decide +kernel⟩
  rest := [
    (⟨"-", [onFirstLine " " .operator "-" 11], .symbol (by decide) (by decide) rfl⟩,
      ⟨[onFirstLine " " .ident "b" 13, onFirstLine "" .operator "." 14, onFirstLine "" .ident "c" 15],
        .dot (.ident "b") "c", trivial, by decide +kernel⟩),
    (⟨"-", [onFirstLine " " .operator "-" 17], .symbol (by decide) (by decide) rfl⟩,
      ⟨[onFirstLine " " .number "2" 19], .number "2", trivial, by decide +kernel⟩),
    (⟨"not in", [onFirstLine " " .ident "not" 21, onFirstLine " " .ident "in" 25], .notIn rfl rfl⟩,
      ⟨[onFirstLine " " .ident "g" 28], .ident "g", trivial, by decide +kernel⟩)]

def differencesLine : List Token :=
  [onFirstLine "" .ident "f" 0] ++ onFirstLine "" (.opening .round) "(" 1 ::
    ([] ++ [onFirstLine "" .ident "n" 2] ++ (none.toList ++ onFirstLine "" .operator "," 3 ::
      ([onFirstLine " " .ident "x" 5, onFirstLine " " .operator "=" 7] ++ differences.tokens ++
        ([] ++ [onFirstLine "" (.closing .round) ")" 29]))))

def differencesTokens : List Token :=
  differencesLine ++ [onFirstLine "  " .comment "# k" 32, onFirstLine "" .newline "\n" 35,
    ⟨"", .endOfText, "", ⟨36, 2, 0⟩⟩]

theorem parse_chain_differences :
    Token.ofSource "f(n, x = a - b.c - 2 not in g)  # k\n" = .ok differencesTokens ∧
      differencesLine ++ [onFirstLine "  " .comment "# k" 32] ∈ firstLines differencesTokens ∧
      Calls differencesLine (.ident "f")
        [(.bare, [onFirstLine "" .ident "n" 2]), (.name "x", differences.tokens)] ∧
      ∃ doc rule, parse "BUILD" .build (Utf8.encode "f(n, x = a - b.c - 2 not in g)  # k\n") = .ok doc ∧
        .rule rule ∈ doc.statements ∧ rule.call.callee = .ident "f" ∧
        List.Forall₂ (fun a i => i.label = a.1 ∧ ∀ c : Chain, a.2 = c.tokens →
          i.value.Grouped ∧ i.value.inorder = c.reading ∧
            ∀ e : Expr, e.Grouped → e.inorder = c.reading → e = i.value)
          [(.bare, [onFirstLine "" .ident "n" 2]), (.name "x", differences.tokens)] rule.args := by
  have hts : Token.ofSource "f(n, x = a - b.c - 2 not in g)  # k\n" = .ok differencesTokens := by decide +kernel
  have hlines : firstLines differencesTokens =
      [differencesLine ++ [onFirstLine "  " .comment "# k" 32]] := by decide +kernel
  have hcalls : Calls differencesLine (.ident "f")
      [(.bare, [onFirstLine "" .ident "n" 2]), (.name "x", differences.tokens)] :=
    .intro (.name rfl) rfl (.next .bare (by simp) rfl (.last (.name rfl rfl) (List.forall_mem_nil _) rfl))
  have hline : differencesLine ++ (some (onFirstLine "  " .comment "# k" 32)).toList ∈
      firstLines differencesTokens := by
    rw [hlines]
    exact List.mem_singleton_self _
  refine ⟨hts, hline, hcalls, parse_chain hts hline ?_ hcalls ?_ "BUILD" .build⟩
  · rintro _ ⟨⟩
    rfl
  · exact List.forall_mem_cons.mpr ⟨.inr (by decide +kernel), List.forall_mem_singleton.mpr (.inl ⟨differences, rfl⟩)⟩

end Document
end BuildSync
