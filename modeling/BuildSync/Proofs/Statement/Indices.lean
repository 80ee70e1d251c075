import BuildSync.Proofs.Expr.Enough
import BuildSync.Proofs.Statement.Checked
import BuildSync.Proofs.Statement.Lines
import BuildSync.Proofs.Statement.Sound
import BuildSync.Proofs.Token.Faultless
import BuildSync.Proofs.Token.Tiles

/-!
Finding statements by index never faults: the tokens end with the end of the text, so that every
search for the end of a line stops, and no line is empty.
-/

namespace BuildSync

namespace Token

def Closed (ts : List Token) : Prop := ∃ t ∈ ts, t.kind = .endOfText

theorem Closed.drop {ts us : List Token} (h : Closed (ts ++ us)) (hts : ∀ t ∈ ts, t.kind ≠ .endOfText) :
    Closed us := by
  obtain ⟨t, ht, hk⟩ := h
  rcases List.mem_append.mp ht with ht | ht
  · exact absurd hk (hts t ht)
  · exact ⟨t, ht, hk⟩

theorem Closed.tail {t : Token} {ts : List Token} (h : Closed (t :: ts)) (hk : t.kind ≠ .endOfText) : Closed ts :=
  Closed.drop (show Closed ([t] ++ ts) from h) (List.forall_mem_singleton.mpr hk)

theorem Closed.found {ts : List Token} (h : Closed ts) (accept : Token → Bool)
    (haccept : ∀ t, t.kind = .endOfText → accept t = true) :
    ∃ held t rest, ts = held ++ t :: rest ∧ held = ts.takeWhile (!accept ·) ∧
      (∀ u ∈ held, accept u = false) ∧ accept t = true ∧ Closed (t :: rest) := by
  have hheld : ∀ u ∈ ts.takeWhile (!accept ·), accept u = false := by
    intro u hu
    simpa using List.all_eq_true.mp List.all_takeWhile u hu
  have hsplit := List.takeWhile_append_dropWhile (p := (!accept ·)) (l := ts)
  have hclosed : Closed (ts.dropWhile (!accept ·)) := by
    rw [← hsplit] at h
    refine h.drop fun u hu hk => Bool.false_ne_true ?_
    rw [← hheld u hu, haccept u hk]
  cases hrest : ts.dropWhile (!accept ·) with
  | nil =>
    rw [hrest] at hclosed
    obtain ⟨t, ht, -⟩ := hclosed
    cases ht
  | cons t rest =>
    have ht := List.head?_dropWhile_not (!accept ·) ts
    rw [hrest] at hsplit hclosed ht
    exact ⟨_, t, rest, hsplit.symm, rfl, hheld, by simpa using ht, hclosed⟩

theorem isFiller_of_end {t : Token} (h : t.kind = .endOfText) : t.isFiller = false := by
  simp [isFiller, isComment, h]

theorem endsLine_of_end {t : Token} (h : t.kind = .endOfText) : t.endsLine = true := by
  simp [Token.endsLine, h]

theorem endsLine_of_code {t : Token} (ht : t.isFiller = false) (hk : t.kind ≠ .endOfText) : t.endsLine = false := by
  simp only [isFiller, Bool.or_eq_false_iff, beq_eq_false_iff_ne] at ht
  simp [Token.endsLine, ht.1, hk]

theorem isCode_of_first {t : Token} (ht : t.isFiller = false) (hk : t.kind ≠ .endOfText) : t.isCode = true := by
  rw [isCode, endsLine_of_code ht hk]
  rfl

theorem Closed.line {t : Token} {ts : List Token} (h : Closed (t :: ts)) (hk : t.kind ≠ .endOfText) :
    ∃ line e rest, ts = line ++ e :: rest ∧ line = ts.takeWhile isCode ∧ (∀ u ∈ line, u.endsLine = false) ∧
      e.endsLine = true ∧ Closed (e :: rest) := by
  apply (h.tail hk).found
  intro u hu
  exact endsLine_of_end hu

theorem Closed.behind {t : Token} {ts : List Token} (h : Closed (t :: ts)) (hk : t.kind ≠ .endOfText) :
    ∃ after, ts = extent t ts ++ after ∧ Closed after := by
  obtain ⟨after, hts, hextends, -⟩ := extends_extent t ts
  have hrest : Closed ts := h.tail hk
  refine ⟨after, hts, ?_⟩
  rw [hts] at hrest
  exact hrest.drop hextends.ne_endOfText

theorem Block.getLast? {ts : List Token} (h : Block ts) {line : List Token} (hline : ∀ u ∈ line, u.isCode = true) :
    (line ++ ts).getLast?.any (·.kind == .newline) = false := by
  induction h generalizing line with
  | nil =>
    rcases List.eq_nil_or_concat' line with rfl | ⟨init, u, rfl⟩
    · rfl
    · have hu := hline u (by simp)
      rw [List.append_nil, List.getLast?_concat, Option.any_some]
      by_contra hk
      rw [isCode_of_newline (by simpa using hk)] at hu
      cases hu
  | @line n t held code more hn hheld ht hplace hcode hmore ih =>
    have hsplit : line ++ (n :: held ++ t :: (code ++ more)) = (line ++ n :: held) ++ t :: (code ++ more) := by simp
    have hfirst : t.isCode = true := isCode_of_first ht fun hk => hplace (.inl hk)
    rw [hsplit, List.getLast?_append_of_ne_nil _ (List.cons_ne_nil _ _)]
    exact ih (List.forall_mem_cons.mpr ⟨hfirst, hcode⟩)

theorem Ends.indentedLine {ts : List Token} (h : Ends ts) : Token.indentedLine ts = indented [] ts := by
  cases ts with
  | nil => rfl
  | cons t ts =>
    have ht := h t rfl
    simp only [Token.endsLine, Bool.or_eq_true, beq_iff_eq] at ht
    rcases ht with ht | ht
    · exact indentedLine_newline ht ts
    · rw [outer_first (isFiller_of_end ht) (.inl ht), Token.indentedLine, if_neg (by simp [ht]), if_pos ht]

theorem closed_of_source {source : String} {ts : List Token} (h : ofSource source = .ok ts) :
    Closed ts := by
  obtain ⟨xs, -, -, -, rfl⟩ := lexemes_of_scan h
  exact ⟨_, List.mem_append_right _ (List.mem_singleton_self _), rfl⟩

end Token

namespace Splitter

open Token

variable {before ts rest : List Token} {t : Token}

theorem item_map {i : Nat} (hts : ts = before ++ t :: rest) (hi : i = before.length) :
    (.item (ts.map Cut.ofToken) i : Checked SyntaxError Cut) = .done (.ofToken t) := by
  subst hts hi
  rw [List.map_append, List.map_cons, ← List.length_map (f := Cut.ofToken), Checked.item_append]

theorem index_lt (hts : ts = before ++ t :: rest) : before.length < (ts.map Cut.ofToken).length := by
  rw [hts, List.length_map, List.length_append, List.length_cons]
  omega

theorem seek_eq (accept : Token → Bool) (before : List Token) {held : List Token}
    (hts : ts = before ++ held ++ t :: rest)
    (hheld : ∀ u ∈ held, accept (Cut.ofToken u).token = false) (ht : accept (Cut.ofToken t).token = true) :
    seek (ts.map Cut.ofToken) accept before.length = .done (before.length + held.length) := by
  induction held generalizing before with
  | nil =>
    rw [List.append_nil] at hts
    rw [seek, item_map hts rfl, Checked.done_bind, if_pos ht]
    rfl
  | cons u held ih =>
    rw [List.forall_mem_cons] at hheld
    have hu : ts = before ++ u :: (held ++ t :: rest) := by rw [hts, List.append_assoc, List.cons_append]
    have hseek := ih (before ++ [u]) (by rw [hu]; simp) hheld.2
    have haccept : ¬ accept (Cut.ofToken u).token = true := by
      rw [hheld.1]
      exact Bool.false_ne_true
    rw [List.length_append, List.length_singleton] at hseek
    rw [seek, item_map hu rfl, Checked.done_bind, if_neg haccept, dif_pos (index_lt hu), hseek, List.length_cons]
    congr 1
    omega

theorem indented_line {held line : List Token} (hheld : ∀ u ∈ held, u.isFiller = true) (ht : t.isFiller = false)
    (hplace : ¬ (t.kind = .endOfText ∨ t.start.column = 0)) (hline : ∀ u ∈ line, u.isCode = true)
    (hrest : Ends rest) :
    indented [] (held ++ t :: line ++ rest) = held ++ t :: line ++ indented [] rest := by
  rw [List.append_assoc, List.cons_append, indented_append hheld, List.nil_append, indented,
    if_neg (by rw [ht]; exact Bool.false_ne_true), if_neg hplace, indentedLine_append hline]
  rw [hrest.indentedLine]
  simp

theorem indented_outer {held : List Token} (hheld : ∀ u ∈ held, u.isFiller = true) (ht : t.isFiller = false)
    (hplace : t.kind = .endOfText ∨ t.start.column = 0) : indented [] (held ++ t :: rest) = [] := by
  rw [indented_append hheld]
  exact outer_first ht hplace rest _

theorem block_end {last : Nat} {held : List Token} (hts : ts = before ++ held ++ t :: rest)
    (hheld : ∀ u ∈ held, u.isFiller = true) (ht : t.isFiller = false)
    (hplace : t.kind = .endOfText ∨ t.start.column = 0) :
    block (ts.map Cut.ofToken) before.length last = .done (before.length, last) := by
  have hplace : (Cut.ofToken t).kind = .endOfText ∨ (Cut.ofToken t).column = 0 := hplace
  have hnext := seek_eq (!·.isFiller) before hts (fun u hu => congrArg not (hheld u hu)) (congrArg not ht)
  rw [block, hnext, Checked.done_bind, item_map hts (List.length_append ..).symm, Checked.done_bind, if_pos hplace]
  rfl

theorem block_line {last : Nat} {held line tail : List Token} {e : Token}
    (hts : ts = before ++ held ++ (t :: line) ++ e :: tail) (hheld : ∀ u ∈ held, u.isFiller = true)
    (ht : t.isFiller = false) (hplace : ¬ (t.kind = .endOfText ∨ t.start.column = 0))
    (hline : ∀ u ∈ line, u.endsLine = false) (he : e.endsLine = true) :
    block (ts.map Cut.ofToken) before.length last =
      block (ts.map Cut.ofToken) (before ++ held ++ t :: line).length (before.length + held.length + line.length) := by
  have hbody : ts = before ++ held ++ t :: (line ++ e :: tail) := by rw [hts, List.append_assoc _ (t :: line)]; rfl
  have hcode : t.endsLine = false := endsLine_of_code ht fun hk => hplace (.inl hk)
  have hplace : ¬ ((Cut.ofToken t).kind = .endOfText ∨ (Cut.ofToken t).column = 0) := hplace
  have hnext := seek_eq (!·.isFiller) before hbody (fun u hu => congrArg not (hheld u hu)) (congrArg not ht)
  have hfurther := seek_eq Token.endsLine (before ++ held) hts (List.forall_mem_cons.mpr ⟨hcode, hline⟩) he
  have hguard := index_lt hts
  simp only [List.length_append, List.length_cons] at hfurther hguard ⊢
  rw [block, hnext, Checked.done_bind, item_map hbody (List.length_append ..).symm, Checked.done_bind, if_neg hplace,
    hfurther, Checked.done_bind, Checked.minus_of_le (by omega), Checked.done_bind, dif_pos ⟨by omega, hguard⟩]
  rfl

theorem block_eq {last : Nat} (before rest : List Token) (hts : ts = before ++ rest) (hends : Ends rest)
    (hclosed : Closed rest) :
    block (ts.map Cut.ofToken) before.length last =
      .done (before.length + (indented [] rest).length,
        if indented [] rest = [] then last else before.length + (indented [] rest).length - 1) := by
  induction hn : rest.length using Nat.strong_induction_on generalizing before rest last with
  | _ n ih =>
    subst hn
    obtain ⟨held, t, more, rfl, -, hheld, ht, hmore⟩ :=
      hclosed.found (!·.isFiller) fun t hk => congrArg not (isFiller_of_end hk)
    have hheld : ∀ u ∈ held, u.isFiller = true := fun u hu => by simpa using hheld u hu
    have ht : t.isFiller = false := by simpa using ht
    have hbody : ts = before ++ held ++ t :: more := by rw [hts, List.append_assoc]
    by_cases hplace : t.kind = .endOfText ∨ t.start.column = 0
    · rw [block_end hbody hheld ht hplace, indented_outer hheld ht hplace]
      rfl
    · obtain ⟨line, e, tail, rfl, -, hline, he, htail⟩ := hmore.line fun hk => hplace (.inl hk)
      have hcodes : ∀ u ∈ line, u.isCode = true := fun u hu => congrArg not (hline u hu)
      have hends' : Ends (e :: tail) := .cons he
      have hlines : ts = before ++ held ++ (t :: line) ++ e :: tail := by
        rw [hbody, List.append_assoc _ (t :: line)]
        rfl
      have hblock := indented_line hheld ht hplace hcodes hends'
      rw [List.append_assoc, List.cons_append] at hblock
      rw [block_line hlines hheld ht hplace hline he,
        ih (e :: tail).length (by simp; omega) _ _ hlines hends' htail rfl, hblock]
      generalize indented [] (e :: tail) = later
      cases later with
      | nil => simp; omega
      | cons u us => simp; omega

theorem block_extent {more line tail : List Token} {e : Token} (hts : ts = before ++ t :: more)
    (hmore : more = line ++ e :: tail) (hline : line = more.takeWhile isCode) (he : e.endsLine = true)
    (htail : Closed (e :: tail)) (hopen : opensBlock (t :: line) = true) :
    block (ts.map Cut.ofToken) (before.length + (line.length + 1)) (before.length + line.length) =
      .done (before.length + (extent t more).length + 1, before.length + (extent t more).length) := by
  have hlines : ts = before ++ (t :: line) ++ e :: tail := by rw [hts, hmore, List.append_assoc]; rfl
  have hblock :=
    @block_eq ts (before.length + line.length) (before ++ (t :: line)) (e :: tail) hlines (.cons he) htail
  rw [List.length_append, List.length_cons] at hblock
  have hlength : (extent t more).length = line.length + (indented [] (e :: tail)).length := by
    unfold extent
    dsimp only
    rw [← hline, hopen, if_pos rfl, List.length_append]
    nth_rewrite 1 [hmore]
    rw [List.drop_left]
  rw [hblock, hlength]
  cases indented [] (e :: tail) with
  | nil => rfl
  | cons u us => simp; omega

theorem range_map {mid : List Token} {i j : Nat} (hts : ts = before ++ mid ++ rest) (hi : i = before.length)
    (hj : j = before.length + mid.length) :
    (.range (ts.map Cut.ofToken) i j : Checked SyntaxError (List Cut)) = .done (mid.map Cut.ofToken) := by
  subst hts hi hj
  have hrange :=
    @Checked.range_append SyntaxError _ (before.map Cut.ofToken) (mid.map Cut.ofToken) (rest.map Cut.ofToken)
  rwa [List.length_map, List.length_map, ← List.map_append, ← List.map_append] at hrange

theorem exists_last (before : List Token) (t : Token) (xs after : List Token) :
    ∃ init u, t :: xs = init ++ [u] ∧ before ++ t :: xs ++ after = before ++ init ++ u :: after ∧
      before.length + xs.length = (before ++ init).length := by
  obtain ⟨init, u, hlast⟩ : ∃ init u, t :: xs = init ++ [u] :=
    ⟨_, _, (List.dropLast_append_getLast (List.cons_ne_nil t xs)).symm⟩
  have hlength : xs.length + 1 = init.length + 1 := by
    have := congrArg List.length hlast
    rwa [List.length_cons, List.length_append, List.length_singleton] at this
  refine ⟨init, u, hlast, ?_, ?_⟩
  · rw [hlast]
    simp
  · rw [List.length_append]
    omega

theorem text_eq {source : String} {xs after : List Token} (hsource : ofSource source = .ok ts)
    (hts : ts = before ++ t :: xs ++ after) :
    text source.toList (ts.map Cut.ofToken) before.length (before.length + xs.length) =
      .done (Token.source (t :: xs)) := by
  obtain ⟨init, u, hlast, hclosing, hindex⟩ := exists_last before t xs after
  have hfirst : ts = before ++ t :: (xs ++ after) := by rw [hts, List.append_assoc, List.cons_append]
  have hslice := slice_of_source (hsource.trans (congrArg _ hts)) (List.getLast?_eq_some_iff.mpr ⟨init, hlast⟩)
  unfold text Head.slice
  rw [item_map hfirst rfl, Checked.done_bind, item_map (hts.trans hclosing) hindex, Checked.done_bind]
  change Checked.ofOption (slice? source.toList t.start.byte (u.start.byte + utf8Length u.text.toList)) >>= _ = _
  rw [hslice]
  change Checked.done (String.ofList (Token.source (t :: xs)).toList) = _
  rw [String.ofList_toList]

theorem suffix_eq {xs after : List Token} (hts : ts = before ++ t :: xs ++ after) :
    suffix (ts.map Cut.ofToken) before.length (before.length + xs.length) =
      .done ((Statement.splitSuffix (t :: xs)).1.map Cut.ofToken, (Statement.splitSuffix (t :: xs)).2) := by
  obtain ⟨init, u, hlast, hclosing, hindex⟩ := exists_last before t xs after
  unfold suffix
  rw [item_map (hts.trans hclosing) hindex, Checked.done_bind, hlast, Statement.splitSuffix_concat]
  change (if u.isComment = true then _ else _) = _
  split_ifs with hcomment
  · rw [range_map (hts.trans hclosing) rfl (by rw [hindex, List.length_append])]
    rfl
  · rw [range_map hts rfl (by rw [List.length_cons, Nat.add_assoc]), hlast]
    rfl

theorem opens_eq {line after : List Token} (hts : ts = before ++ t :: line ++ after) :
    opens (ts.map Cut.ofToken) before.length (before.length + line.length) = .done (opensBlock (t :: line)) := by
  unfold opens
  rcases List.eq_nil_or_concat' line with rfl | ⟨init, u, rfl⟩
  · have hone : ts = before ++ t :: after := by rw [hts, List.append_assoc]; rfl
    have hitem := item_map hone rfl
    rw [List.length_nil, Nat.add_zero, hitem, Checked.done_bind, if_neg (by simp)]
    change (Checked.item (ts.map Cut.ofToken) before.length >>= _) = _
    rw [hitem]
    rfl
  · obtain ⟨front, v, hfront, hcolon, hindex⟩ := exists_last before t init (u :: after)
    have hclosing : ts = before ++ t :: init ++ u :: after := by rw [hts]; simp
    have hopens : opensBlock (t :: (init ++ [u])) = if u.isComment then v.isOperator ":" else u.isOperator ":" := by
      rw [← List.cons_append, hfront]
      simp [opensBlock]
    rw [item_map hclosing (by simp), Checked.done_bind, hopens]
    cases hcomment : u.isComment with
    | false =>
      rw [if_neg (by rintro ⟨h, -⟩; exact Bool.false_ne_true (hcomment.symm.trans h))]
      change (Checked.item (ts.map Cut.ofToken) _ >>= _) = _
      rw [item_map hclosing (by simp)]
      rfl
    | true =>
      rw [if_pos ⟨hcomment, by simp⟩, Checked.minus_of_le (by simp; omega), Checked.done_bind]
      change (Checked.item (ts.map Cut.ofToken) _ >>= _) = _
      rw [item_map (hclosing.trans hcolon) (by rw [← hindex]; simp)]
      rfl

theorem call?_eq (line : List Token) : call? line = .done (Call.ofTokens? line) := by
  have hspends := Reading.spends_expr line 0
  unfold call? Call.ofTokens? Expr.ofTokens?
  generalize Reading.expr _ _ _ = x at hspends ⊢
  cases x with
  | done e c =>
    obtain ⟨l, rest⟩ := c
    dsimp only
    rw [if_pos hspends.1]
    cases rest with
    | nil => cases e <;> rfl
    | cons t rest => cases e <;> rfl
  | unsupported => rfl
  | exhausted => exact hspends.elim

theorem ofTokens?_cuts (line : List Token) :
    Call.ofTokens? ((line.map Cut.ofToken).map Cut.token) = Call.ofTokens? line := by
  apply Call.ofTokens?_echoes (a := 0) (b := 0)
  rw [List.map_map, List.forall₂_map_left_iff]
  exact List.forall₂_same.mpr fun t _ => ⟨rfl, rfl, rfl⟩

theorem blank_eq (hts : ts = before ++ rest) :
    blank (ts.map Cut.ofToken) before.length = .done (before.getLast?.any (·.kind == .newline)) := by
  unfold blank
  rcases List.eq_nil_or_concat' before with rfl | ⟨init, u, rfl⟩
  · rfl
  · have hlast : ts = init ++ u :: rest := by rw [hts]; simp
    rw [if_pos (by simp), Checked.minus_of_le (by simp), Checked.done_bind, item_map hlast (by simp)]
    simp [Cut.ofToken]

theorem statement_eq {source : String} {comments : List String} {more : List Token}
    (hsource : ofSource source = .ok ts) (hts : ts = before ++ t :: more) (ht : t.isFiller = false)
    (hcode : t.kind ≠ .endOfText) (hclosed : Closed (t :: more)) :
    statement source.toList (ts.map Cut.ofToken) comments before.length =
      .done (Statement.ofExtent comments (t :: extent t more), before.length + (extent t more).length + 1) := by
  obtain ⟨line, e, tail, hmore, hline, hcodes, he, htail⟩ := hclosed.line hcode
  have hlines : ts = before ++ (t :: line) ++ e :: tail := by rw [hts, hmore, List.append_assoc]; rfl
  have hstop := seek_eq Token.endsLine before hlines
    (List.forall_mem_cons.mpr ⟨endsLine_of_code ht hcode, hcodes⟩) he
  have hopens := opens_eq hlines
  have htest : opensBlock ((t :: extent t more).takeWhile isCode) = opensBlock (t :: line) := by
    rw [Statement.takeWhile_statement (isCode_of_first ht hcode), hline]
  obtain ⟨after, hafter, -, -⟩ := extends_extent t more
  have hextent : ts = before ++ t :: extent t more ++ after := by
    rw [hts, List.append_assoc, List.cons_append, ← hafter]
  have htext := text_eq hsource hextent
  unfold statement
  rw [hstop, List.length_cons, Checked.done_bind, Checked.minus_of_le (by omega), Checked.done_bind,
    show before.length + (line.length + 1) - 1 = before.length + line.length from rfl, hopens, Checked.done_bind,
    Statement.ofExtent_eq, Statement.call?, htest]
  cases hopen : opensBlock (t :: line) with
  | true =>
    rw [if_pos rfl, block_extent hts hmore hline he htail hopen, Checked.done_bind]
    dsimp only
    rw [htext]
    rfl
  | false =>
    have hone : extent t more = line := by
      rw [hline] at hopen ⊢
      exact Statement.extent_of_closed hopen
    rw [if_neg Bool.false_ne_true]
    rw [hone] at hextent htext ⊢
    rw [htext, Checked.done_bind, suffix_eq hextent, Checked.done_bind]
    dsimp only
    rw [call?_eq, ofTokens?_cuts, Checked.done_bind]
    cases Call.ofTokens? (Statement.splitSuffix (t :: line)).1 <;> rfl

theorem getLast?_extent {more : List Token} (ht : t.isCode = true) :
    (t :: extent t more).getLast?.any (·.kind == .newline) = false := by
  obtain ⟨-, -, hextends, -⟩ := extends_extent t more
  generalize extent t more = ts at hextends
  obtain @⟨line, more, hline, hmore, -⟩ := hextends
  exact hmore.getLast? (List.forall_mem_cons.mpr ⟨ht, hline⟩)

section Split

variable {source : String} {comments : List String}

theorem split_end (hts : ts = before ++ t :: rest) (ht : t.kind = .endOfText) :
    split source.toList (ts.map Cut.ofToken) comments before.length = .done (Statement.standalone comments) := by
  rw [split, item_map hts rfl, Checked.done_bind, show (Cut.ofToken t).kind = .endOfText from ht]
  rfl

theorem split_newline (hts : ts = before ++ t :: rest) (ht : t.kind = .newline) :
    split source.toList (ts.map Cut.ofToken) comments before.length =
      if before.getLast?.any (·.kind == .newline) then
        split source.toList (ts.map Cut.ofToken) [] (before ++ [t]).length >>= fun statements =>
          .done (Statement.standalone comments ++ statements)
      else split source.toList (ts.map Cut.ofToken) comments (before ++ [t]).length := by
  rw [split, item_map hts rfl, Checked.done_bind, show (Cut.ofToken t).kind = .newline from ht]
  dsimp only
  rw [dif_pos (index_lt hts), blank_eq hts, Checked.done_bind, List.length_append, List.length_singleton]
  rfl

theorem split_comment (hts : ts = before ++ t :: rest) (ht : t.kind = .comment) :
    split source.toList (ts.map Cut.ofToken) comments before.length =
      split source.toList (ts.map Cut.ofToken) (comments ++ [t.text]) (before ++ [t]).length := by
  rw [split, item_map hts rfl, Checked.done_bind, show (Cut.ofToken t).kind = .comment from ht]
  dsimp only
  rw [dif_pos (index_lt hts), List.length_append, List.length_singleton]
  rfl

theorem split_code (hsource : ofSource source = .ok ts) (hts : ts = before ++ t :: rest) (ht : t.isFiller = false)
    (hcode : t.kind ≠ .endOfText) (hclosed : Closed (t :: rest)) :
    split source.toList (ts.map Cut.ofToken) comments before.length =
      split source.toList (ts.map Cut.ofToken) [] (before ++ t :: extent t rest).length >>= fun statements =>
        .done (Statement.ofExtent comments (t :: extent t rest) :: statements) := by
  have hkind := Bool.or_eq_false_iff.mp ht
  rw [split, item_map hts rfl, Checked.done_bind]
  split
  · rename_i hk
    exact absurd hk hcode
  · rename_i hk
    exact absurd hk (beq_eq_false_iff_ne.mp hkind.1)
  · rename_i hk
    exact absurd hk (beq_eq_false_iff_ne.mp hkind.2)
  · rw [statement_eq hsource hts ht hcode hclosed, Checked.done_bind]
    dsimp only
    obtain ⟨after, hrest, u, hu, -⟩ := hclosed.behind hcode
    have hpos : 0 < after.length := List.length_pos_of_mem hu
    have hguard : before.length < before.length + (extent t rest).length + 1 ∧
        before.length + (extent t rest).length + 1 < (ts.map Cut.ofToken).length := by
      have hlength := congrArg List.length hrest
      rw [List.length_append] at hlength
      rw [hts, List.length_map, List.length_append, List.length_cons]
      omega
    rw [dif_pos hguard, List.length_append, List.length_cons]
    rfl

end Split

theorem split_eq {source : String} {comments : List String} (hsource : ofSource source = .ok ts)
    (before rest : List Token) (hts : ts = before ++ rest) (hclosed : Closed rest) :
    split source.toList (ts.map Cut.ofToken) comments before.length =
      .done (Statement.ofTokensAfter comments (before.getLast?.any (·.kind == .newline)) rest) := by
  -- on what remains, of which a statement takes as much as its block is long
  induction hn : rest.length using Nat.strong_induction_on generalizing before rest comments with
  | _ n ih =>
    subst hn
    obtain ⟨t, more, rfl⟩ : ∃ t more, rest = t :: more := by
      cases rest with
      | nil =>
        obtain ⟨t, ht, -⟩ := hclosed
        cases ht
      | cons t more => exact ⟨t, more, rfl⟩
    have hnext (comments : List String) (hk : t.kind ≠ .endOfText) :=
      @ih more.length (by simp) comments (before ++ [t]) more (by rw [hts, List.append_assoc]; rfl)
        (hclosed.tail hk) rfl
    by_cases hend : t.kind = .endOfText
    · rw [split_end hts hend, Statement.ofTokensAfter_end hend]
    · by_cases hnewline : t.kind = .newline
      · rw [split_newline hts hnewline, Statement.ofTokensAfter_newline hnewline, hnext comments hend, hnext [] hend,
          List.getLast?_concat, Option.any_some, hnewline]
        split_ifs <;> rfl
      · by_cases hcomment : t.kind = .comment
        · rw [split_comment hts hcomment, Statement.ofTokensAfter_comment hcomment, hnext (comments ++ [t.text]) hend,
            List.getLast?_concat, Option.any_some, hcomment]
          rfl
        · have hfiller := isFiller_eq_false hnewline hcomment
          obtain ⟨after, hmore, hafter⟩ := hclosed.behind hend
          have hrest : ts = (before ++ t :: extent t more) ++ after := by
            rw [hts, List.append_assoc, List.cons_append, ← hmore]
          have hlength : after.length < (t :: more).length := by
            have := congrArg List.length hmore
            rw [List.length_append] at this
            rw [List.length_cons]
            omega
          have hgo := @ih after.length hlength [] (before ++ t :: extent t more) after hrest hafter rfl
          have hdrop : more.drop (extent t more).length = after :=
            (congrArg (List.drop (extent t more).length) hmore).trans List.drop_left
          rw [split_code hsource hts hfiller hend hclosed, Statement.ofTokensAfter_code hfiller hend, hgo, hdrop,
            List.getLast?_append_of_ne_nil _ (List.cons_ne_nil _ _), getLast?_extent (isCode_of_first hfiller hend)]
          rfl

end Splitter

namespace Statement

theorem ofSourceChecked_eq (source : String) : ofSourceChecked source = .ofExcept (ofSource source) := by
  unfold ofSourceChecked ofSource
  rw [Token.run_start]
  cases h : Token.ofSource source with
  | error e => rfl
  | ok ts => exact Splitter.split_eq h [] ts rfl (Token.closed_of_source h)

end Statement

end BuildSync
