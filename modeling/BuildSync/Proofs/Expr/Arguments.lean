import BuildSync.Proofs.Expr.Postfix
import BuildSync.Proofs.Expr.RoundTrip

/-!
The call of a name is read from its tokens as it is put together: each argument comes from the tokens
between two commas, as those make an expression on their own.
-/

namespace BuildSync

open Reading BuildSync.Expr

namespace Token

inductive Names : List Token → Expr → Prop
  | name {t : Token} (ht : isName t = true) : Names [t] (.ident t.text)
  | dot {ts : List Token} {base : Expr} {t name : Token} (h : Names ts base) (ht : t.isOperator "." = true)
    (hname : isName name = true) : Names (ts ++ [t, name]) (.dot base name.text)

inductive Labels : List Token → Label → Prop
  | bare : Labels [] .bare
  | name {t u : Token} (ht : t.kind = .ident) (hu : u.isOperator "=" = true) : Labels [t, u] (.name t.text)

inductive Arguments : List Token → List (Label × List Token) → Prop
  | close {t : Token} (ht : t.kind = .closing .round) : Arguments [t] []
  | comment {t : Token} {ts : List Token} {args : List (Label × List Token)} (ht : t.isComment = true)
    (h : Arguments ts args) : Arguments (t :: ts) args
  | last {ls ts remarks : List Token} {label : Label} {t : Token} (hl : Labels ls label)
    (hremarks : ∀ u ∈ remarks, u.isComment = true) (ht : t.kind = .closing .round) :
    Arguments (ls ++ ts ++ (remarks ++ [t])) [(label, ts)]
  | next {ls ts us : List Token} {label : Label} {suffix : Option Token} {t : Token}
    {args : List (Label × List Token)} (hl : Labels ls label)
    (hsuffix : ∀ u ∈ suffix, u.isComment = true ∧ u.start.line = lastLine 0 ts)
    (ht : t.isOperator "," = true) (h : Arguments us args) :
    Arguments (ls ++ ts ++ (suffix.toList ++ t :: us)) ((label, ts) :: args)

inductive Calls : List Token → Expr → List (Label × List Token) → Prop
  | intro {ts us : List Token} {callee : Expr} {t : Token} {args : List (Label × List Token)}
    (hc : Names ts callee) (ht : t.kind = .opening .round) (h : Arguments us args) :
    Calls (ts ++ t :: us) callee args

theorem lastLine_congr {ts : List Token} {t : Token} (h : ts.head? = some t) (ht : t.isComment = false)
    (line line' : Nat) : lastLine line ts = lastLine line' ts := by
  cases ts with
  | nil => cases h
  | cons u ts =>
    cases h
    simp [lastLine, ht]

variable {ts : List Token} {callee : Expr}

theorem Names.leadsOver (h : Names ts callee) : callee.LeadsOver ts .access := by
  induction h with
  | name ht => exact .name ht
  | dot _ ht hname ih => exact ih.dot (by simpa [isOperator] using ht) hname

theorem Names.dottedName? (h : Names ts callee) : callee.dottedName?.isSome = true := by
  induction h with
  | name => rfl
  | dot _ _ _ ih => simpa [Expr.dottedName?] using ih

end Token

namespace Reading

variable {item : Reading (Label × Expr)} {close : Bracket} {fuel line : Nat}

def parts (items : List Item) : List (Label × Expr) := items.map fun i => (i.label, i.value)

def sequenceBehind (item : Reading (Label × Expr)) (close : Bracket) (fuel : Nat) (comments : List String)
    (first : Label × Expr) : Reading Sequence := do
  let before ← suffix?
  if (← token? (symbol ",")).isSome then
    let suffix ← suffixAfter? before
    let others ← sequence item close fuel
    return ⟨⟨comments, first.1, first.2, suffix⟩ :: others.items, others.trailing⟩
  else
    let trailing ← Reading.comments
    expect (closing close)
    return ⟨[⟨comments, first.1, first.2, before⟩], trailing⟩

def sequenceBelow (item : Reading (Label × Expr)) (close : Bracket) (fuel : Nat) (comments : List String) :
    Reading Sequence := do
  if (← token? (closing close)).isSome then return ⟨[], comments⟩
  let first ← item
  sequenceBehind item close fuel comments first

theorem sequence_succ : sequence item close (fuel + 1) = comments >>= sequenceBelow item close fuel := rfl

def Gives (r : Reading Sequence) (c d : Cursor) (values : List (Label × Expr)) : Prop :=
  ∃ s, r c = .done s d ∧ parts s.items = values

variable {c d : Cursor} {values : List (Label × Expr)} {cs : List String}

theorem gives_bind {α : Type} {r : Reading α} {f : α → Reading Sequence} {v : α} {e : Cursor}
    (h : r c = .done v e) : (r >>= f).Gives c d values ↔ (f v).Gives e d values := by
  rw [Gives, bind_done h]
  rfl

theorem gives_below (h : (sequenceBelow item close fuel cs).Gives c d values) (cs' : List String) :
    (sequenceBelow item close fuel cs').Gives c d values := by
  obtain ⟨s, h, hs⟩ := h
  obtain ⟨o, c₁, ho, h⟩ := bind_done_iff.mp h
  rw [sequenceBelow, gives_bind ho]
  split_ifs at h ⊢ with hclosing
  · cases h
    exact ⟨_, rfl, hs⟩
  obtain ⟨first, c₂, hfirst, h⟩ := bind_done_iff.mp h
  obtain ⟨before, c₃, hbefore, h⟩ := bind_done_iff.mp h
  obtain ⟨o', c₄, ho', h⟩ := bind_done_iff.mp h
  rw [gives_bind hfirst, sequenceBehind, gives_bind hbefore, gives_bind ho']
  split_ifs at h ⊢ with hcomma
  · obtain ⟨suffix, c₅, hsuffix, h⟩ := bind_done_iff.mp h
    obtain ⟨others, c₆, hothers, h⟩ := bind_done_iff.mp h
    cases h
    rw [gives_bind hsuffix, gives_bind hothers]
    exact ⟨_, rfl, hs⟩
  · obtain ⟨trailing, c₅, htrailing, h⟩ := bind_done_iff.mp h
    obtain ⟨_, c₆, hclose, h⟩ := bind_done_iff.mp h
    cases h
    rw [gives_bind htrailing, gives_bind hclose]
    exact ⟨_, rfl, hs⟩

theorem gives_comment {t : Token} (ht : t.isComment = true) {ts : List Token} :
    (sequence item close fuel).Gives ⟨line, t :: ts⟩ d values ↔
      (sequence item close fuel).Gives ⟨line, ts⟩ d values := by
  cases fuel with
  | zero => constructor <;> rintro ⟨_, h, -⟩ <;> cases h
  | succ fuel =>
    have hcomments : comments ⟨line, t :: ts⟩ =
        .done (t.text :: (ts.takeWhile Token.isComment).map Token.text) ⟨line, ts.dropWhile Token.isComment⟩ := by
      simp [comments, ht]
    have hrest : comments ⟨line, ts⟩ =
      .done ((ts.takeWhile Token.isComment).map Token.text) ⟨line, ts.dropWhile Token.isComment⟩ := rfl
    rw [sequence_succ, gives_bind hcomments, gives_bind hrest]
    exact ⟨fun h => gives_below h _, fun h => gives_below h _⟩

theorem suffixAfter?_cases (before : Option String) (c : Cursor) : ∃ o ws,
    suffixAfter? before c = .done o ⟨c.line, ws⟩ ∧ (ws = c.rest ∨ ∃ t, t.isComment = true ∧ c.rest = t :: ws) := by
  cases before with
  | none =>
    rcases suffix?_cases c with hnone | ⟨t, rest, hcons, ht, hsome⟩
    · exact ⟨none, c.rest, hnone, .inl rfl⟩
    · exact ⟨some t.text, rest, hsome, .inr ⟨t, ht, hcons⟩⟩
  | some text => exact ⟨some text, c.rest, rfl, .inl rfl⟩

theorem gives_last {t : Token} (ht : t.kind = .closing close) {remarks : List Token}
    (hremarks : ∀ u ∈ remarks, u.isComment = true) (rest : List Token) (first : Label × Expr) :
    (sequenceBehind item close fuel cs first).Gives ⟨line, remarks ++ t :: rest⟩ ⟨t.endLine, rest⟩ [first] := by
  have htc : t.isComment = false := by simp [Token.isComment, ht]
  obtain ⟨before, ws, hbefore, hws⟩ := suffixAfter?_cases none ⟨line, remarks ++ t :: rest⟩
  obtain ⟨remarks, hremarks, rfl⟩ : ∃ remarks' : List Token, (∀ u ∈ remarks', u.isComment = true) ∧
      ws = remarks' ++ t :: rest := by
    rcases hws with rfl | ⟨u, hu, hrest⟩
    · exact ⟨remarks, hremarks, rfl⟩
    rcases List.append_eq_cons_iff.mp hrest with ⟨-, hcons⟩ | ⟨remarks', rfl, hbehind⟩
    · obtain ⟨rfl, -⟩ := List.cons.inj hcons
      rw [htc] at hu
      cases hu
    · exact ⟨remarks', (List.forall_mem_cons.mp hremarks).2, hbehind⟩
  have hfirst : (remarks ++ t :: rest).find? (!·.isComment) = some t := by
    rw [List.find?_append, List.find?_eq_none.mpr (by simpa using hremarks), Option.none_or,
      List.find?_cons_of_pos (by simp [htc])]
  have hcomma : symbol "," t = false := by simp [symbol, Token.isOperator, ht]
  rw [suffixAfter?] at hbefore
  rw [sequenceBehind, gives_bind hbefore, gives_bind (token?_rejects hfirst hcomma)]
  simp only [Option.isSome_none, Bool.false_eq_true, if_false]
  rw [gives_bind (comments_append hremarks (by simpa using htc) line),
    gives_bind (expect_cons htc (by simp [closing, ht]) _ _)]
  exact ⟨_, rfl, rfl⟩

theorem gives_next {t : Token} (ht : t.isOperator "," = true) {suffix : Option Token}
    (hsuffix : ∀ u ∈ suffix, u.isComment = true ∧ u.start.line = line) {us rest : List Token}
    (h : ∀ line, ∃ line', (sequence item close fuel).Gives ⟨line, us⟩ ⟨line', rest⟩ values) (first : Label × Expr) :
    ∃ line', (sequenceBehind item close fuel cs first).Gives ⟨line, suffix.toList ++ t :: us⟩ ⟨line', rest⟩
      (first :: values) := by
  have htc : t.isComment = false := by
    have : t.kind = .operator := by simpa using (Bool.and_eq_true_iff.mp ht).1
    simp [Token.isComment, this]
  have hbefore : suffix? ⟨line, suffix.toList ++ t :: us⟩ = .done (suffix.map Token.text) ⟨line, t :: us⟩ := by
    cases suffix with
    | none => exact suffix?_none (by rintro _ ⟨⟩; exact .inl htc)
    | some u =>
      obtain ⟨hu, rfl⟩ := hsuffix u rfl
      exact suffix?_some hu (t :: us)
  obtain ⟨after, ws, hafter, hws⟩ := suffixAfter?_cases (suffix.map Token.text) ⟨t.endLine, us⟩
  obtain ⟨line', others, hothers, hvalues⟩ := h t.endLine
  have hgives : (sequence item close fuel).Gives ⟨t.endLine, ws⟩ ⟨line', rest⟩ values := by
    rcases hws with rfl | ⟨u, hu, hus⟩
    · exact ⟨others, hothers, hvalues⟩
    · dsimp only at hus
      subst hus
      exact (gives_comment hu).mp ⟨others, hothers, hvalues⟩
  obtain ⟨others, hothers, rfl⟩ := hgives
  refine ⟨line', ?_⟩
  rw [sequenceBehind, gives_bind hbefore, gives_bind (token?_cons htc ht _ _)]
  simp only [Option.isSome_some, if_true]
  rw [gives_bind hafter, gives_bind hothers]
  exact ⟨_, rfl, rfl⟩

end Reading

namespace Token

variable {ls ts rest : List Token} {label : Label} {e : Expr}

theorem Labels.head (hl : Labels ls label) (hv : Expr.ofTokens? ts = some e) :
    ∃ t us, ls ++ ts = t :: us ∧ t.isComment = false ∧ closing .round t = false := by
  cases hl with
  | bare =>
    obtain ⟨_, hread⟩ := exists_expr_of_ofTokens? hv
    obtain ⟨t, us, hts, ht⟩ := begins_expr hread
    exact ⟨t, us, hts, ht.comment, ht.closing _⟩
  | @name t u ht => exact ⟨t, u :: ts, rfl, by simp [isComment, ht], by simp [closing, ht]⟩

theorem argumentLabel_labels (hl : Labels ls label) (hv : Expr.ofTokens? ts = some e)
    (hrest : Clear 0 (rest.dropWhile isComment)) (line : Nat) :
    argumentLabel ⟨line, ls ++ ts ++ rest⟩ = .done label ⟨lastLine line ls, ts ++ rest⟩ := by
  cases hl with
  | bare =>
    obtain ⟨_, hread⟩ := exists_expr_of_ofTokens? hv
    obtain ⟨t, us, rfl, ht⟩ := begins_expr hread
    refine argumentLabel_plain ht.comment (fun hident => ?_) line
    have happend : us ++ rest = us.append rest := rfl
    rw [← happend, List.find?_append]
    cases hu : us.find? (!·.isComment) with
    | none =>
      rw [Option.none_or, List.find?_not_eq_head?_dropWhile]
      cases hhead : (rest.dropWhile isComment).head? with
      | none => rfl
      | some u => exact (hrest u hhead).equals
    | some u =>
      rw [Option.some_or, Option.any_some, ← Bool.not_eq_true]
      intro hequals
      have hnil : [] = us := expr_assigned hident hu hequals hread
      subst hnil
      cases hu
  | @name t u ht hu =>
    obtain ⟨hkind, htext⟩ : u.kind = .operator ∧ u.text = "=" := by simpa [isOperator] using hu
    have hcomment : u.isComment = false := by simp [isComment, hkind]
    have htc : t.isComment = false := by simp [isComment, ht]
    rw [List.append_assoc]
    refine (argumentLabel_name t.text ht rfl hkind htext line (ts ++ rest)).trans ?_
    simp [lastLine, htc, hcomment]

theorem argument_labels (hl : Labels ls label) (hv : Expr.ofTokens? ts = some e)
    (hrest : Clear 0 (rest.dropWhile isComment)) {fuel : Nat} (hf : 20 * (ls ++ ts ++ rest).length + 17 ≤ fuel)
    (line : Nat) : argument fuel ⟨line, ls ++ ts ++ rest⟩ = .done (label, e) ⟨lastLine line (ls ++ ts), rest⟩ := by
  obtain ⟨fuel, rfl⟩ : ∃ k, fuel = k + 1 := ⟨fuel - 1, by omega⟩
  obtain ⟨_, hread⟩ := exists_expr_of_ofTokens? hv
  have henough : Level.disjunction.enough (ts ++ rest) ≤ fuel := by
    simp only [Level.enough, Level.rank, List.length_append] at hf ⊢
    omega
  have hvalue := expr_before hread hrest henough (lastLine line ls)
  rw [argument, bind_done (argumentLabel_labels hl hv hrest line), bind_done hvalue, lastLine_append]
  rfl

theorem gives_argument (hl : Labels ls label) (hv : Expr.ofTokens? ts = some e)
    (hrest : Clear 0 (rest.dropWhile isComment)) {bound : Nat} (hb : 20 * (ls ++ ts ++ rest).length + 17 ≤ bound)
    {line fuel : Nat} {d : Cursor} {values : List (Label × Expr)}
    (h : (sequenceBehind (argument bound) .round fuel [] (label, e)).Gives ⟨lastLine line (ls ++ ts), rest⟩ d values) :
    (sequence (argument bound) .round (fuel + 1)).Gives ⟨line, ls ++ ts ++ rest⟩ d values := by
  obtain ⟨t, us, hts, hcomment, hclosing⟩ := hl.head hv
  have hhead : (ls ++ ts ++ rest).head? = some t := by rw [hts]; rfl
  rw [sequence_succ, gives_bind (comments_nil (by rw [hhead]; simpa using hcomment) line), sequenceBelow,
    gives_bind (token?_none (by rw [hhead]; rintro _ ⟨⟩; exact ⟨hcomment, hclosing⟩) line)]
  simp only [Option.isSome_none, Bool.false_eq_true, if_false]
  rwa [gives_bind (argument_labels hl hv hrest hb line)]

theorem dropWhile_remarks {remarks : List Token} (hremarks : ∀ u ∈ remarks, u.isComment = true) {t : Token}
    (ht : t.isComment = false) (rest : List Token) :
    (remarks ++ t :: rest).dropWhile isComment = t :: rest := by
  rw [List.dropWhile_append_of_pos hremarks, List.dropWhile_cons_of_neg (by simp [ht])]

theorem Arguments.gives {args : List (Label × List Token)} (h : Arguments ts args)
    {values : List (Label × Expr)}
    (hvalues : List.Forall₂ (fun a v => v.1 = a.1 ∧ Expr.ofTokens? a.2 = some v.2) args values) (line : Nat)
    (rest : List Token) {bound fuel : Nat} (hb : 20 * (ts ++ rest).length + 17 ≤ bound) (hf : ts.length ≤ fuel) :
    ∃ line', (sequence (argument bound) .round fuel).Gives ⟨line, ts ++ rest⟩ ⟨line', rest⟩ values := by
  induction h generalizing values line fuel with
  | @close t ht =>
    obtain ⟨fuel, rfl⟩ : ∃ k, fuel = k + 1 := ⟨fuel - 1, by rw [List.length_singleton] at hf; omega⟩
    cases hvalues
    exact ⟨_, _, @sequence_end _ _ fuel line [] rest t nofun ht, rfl⟩
  | @comment t ts args ht _ ih =>
    have hlen : ts.length ≤ fuel := by
      rw [List.length_cons] at hf
      omega
    obtain ⟨line', hs⟩ := ih hvalues line
      (by simp only [List.length_append, List.length_cons] at hb ⊢; omega) hlen
    exact ⟨line', (gives_comment ht).mpr hs⟩
  | @last ls ts remarks label t hl hremarks ht =>
    obtain ⟨fuel, rfl⟩ : ∃ k, fuel = k + 1 :=
      ⟨fuel - 1, by simp only [List.length_append, List.length_singleton] at hf; omega⟩
    obtain ⟨⟨_, e⟩, _, ⟨rfl, hvalue⟩, hnil, rfl⟩ := List.forall₂_cons_left_iff.mp hvalues
    obtain rfl := List.forall₂_nil_left_iff.mp hnil
    have htc : t.isComment = false := by simp [isComment, ht]
    have hrest : remarks ++ [t] ++ rest = remarks ++ t :: rest := by simp
    rw [List.append_assoc, hrest] at hb ⊢
    have hclear := clear_closing ht rest
    rw [← dropWhile_remarks hremarks htc] at hclear
    exact ⟨t.endLine, gives_argument hl hvalue hclear hb (gives_last ht hremarks rest _)⟩
  | @next ls ts us label suffix t args hl hsuffix ht _ ih =>
    obtain ⟨fuel, rfl⟩ : ∃ k, fuel = k + 1 :=
      ⟨fuel - 1, by simp only [List.length_append, List.length_cons] at hf; omega⟩
    obtain ⟨⟨_, e⟩, values, ⟨rfl, hvalue⟩, hothers, rfl⟩ := List.forall₂_cons_left_iff.mp hvalues
    obtain ⟨hkind, htext⟩ : t.kind = .operator ∧ t.text = "," := by simpa [isOperator] using ht
    have htc : t.isComment = false := by simp [isComment, hkind]
    have hrest : suffix.toList ++ t :: us ++ rest = suffix.toList ++ t :: (us ++ rest) := by simp
    rw [List.append_assoc, hrest] at hb ⊢
    have hclear := clear_comma hkind htext (us ++ rest)
    rw [← dropWhile_remarks (fun u hu => (hsuffix u (Option.mem_toList.mp hu)).1) htc] at hclear
    have hline : lastLine 0 ts = lastLine line (ls ++ ts) := by
      obtain ⟨_, hread⟩ := exists_expr_of_ofTokens? hvalue
      obtain ⟨u, vs, rfl, hu⟩ := begins_expr hread
      rw [lastLine_append]
      exact lastLine_congr rfl hu.comment _ _
    rw [hline] at hsuffix
    have hlen : us.length ≤ fuel := by
      simp only [List.length_append, List.length_cons] at hf
      omega
    obtain ⟨line', hgives⟩ := gives_next ht hsuffix (fun line => ih hothers line
      (by simp only [List.length_append, List.length_cons] at hb ⊢; omega) hlen) (_, e)
    exact ⟨line', gives_argument hl hvalue hclear hb hgives⟩

variable {callee : Expr} {args : List (Label × List Token)}

theorem Calls.ofTokens? (h : Calls ts callee args) {values : List (Label × Expr)}
    (hvalues : List.Forall₂ (fun a v => v.1 = a.1 ∧ Expr.ofTokens? a.2 = some v.2) args values) :
    ∃ s, Call.ofTokens? ts = some ⟨callee, s⟩ ∧ parts s.items = values := by
  obtain @⟨ts, us, callee, t, args, hc, ht, h⟩ := h
  obtain ⟨line₁, fuel, hfuel, hread⟩ := hc.leadsOver.base 0 (clear_opening ht us) (Nat.le_refl _)
  rw [List.length_cons] at hfuel
  have hbound : 20 * (us ++ []).length + 17 ≤ fuel := by
    rw [List.append_nil]
    omega
  have hlen : us.length ≤ fuel := by omega
  obtain ⟨line₂, s, hargs, hs⟩ := h.gives hvalues t.endLine [] hbound hlen
  rw [List.append_nil] at hargs
  have htc : t.isComment = false := by simp [isComment, ht]
  obtain ⟨fuel, rfl⟩ : ∃ k, fuel = k + 1 := ⟨fuel - 1, by omega⟩
  rw [accesses, bind_done (token?_cons htc (by simp [opening, ht]) _ _)] at hread
  simp only [Option.isSome_some, if_true] at hread
  rw [bind_done hargs, accesses_stop (clear_nil _)] at hread
  refine ⟨s, ?_, hs⟩
  rw [Call.ofTokens?, ofTokens?_of_access hread]
  simp only [hc.dottedName?, if_true]

end Token
end BuildSync
