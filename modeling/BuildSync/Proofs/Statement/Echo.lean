import BuildSync.Proofs.Expr.Steady
import BuildSync.Proofs.Statement.Extent

namespace BuildSync

open Reading

namespace Token

inductive Echo (a b : Nat) : Bool → List Token → List Token → Prop
  | nil {same : Bool} : Echo a b same [] []
  | cons {same : Bool} {t u : Token} {ts us : List Token} (h : Echoes a b t u)
    (hcolumn : same = true → t.start.column = u.start.column)
    (hrest : Echo a b (same || t.kind == .newline) ts us) : Echo a b same (t :: ts) (u :: us)

variable {a b : Nat} {same : Bool} {ts us : List Token}

theorem Echo.weaken {same' : Bool} (h : Echo a b same ts us) (hs : same' = true → same = true) :
    Echo a b same' ts us := by
  induction h generalizing same' with
  | nil => exact .nil
  | cons h hcolumn _ ih =>
    refine .cons h (fun hs' => hcolumn (hs hs')) (ih fun hs' => ?_)
    rw [Bool.or_eq_true] at hs' ⊢
    exact hs'.imp_left hs

theorem Echo.forall₂ (h : Echo a b same ts us) : List.Forall₂ (Echoes a b) ts us := by
  induction h with
  | nil => exact .nil
  | cons h _ _ ih => exact .cons h ih

theorem Echo.append {xs ys : List Token} (h : Echo a b same (xs ++ ys) us) :
    ∃ xs' ys', us = xs' ++ ys' ∧ Echo a b same xs xs' ∧ Echo a b same ys ys' := by
  induction xs generalizing us same with
  | nil => exact ⟨[], us, rfl, .nil, h⟩
  | cons x xs ih =>
    cases h with
    | @cons _ _ u _ us h hcolumn hrest =>
      obtain ⟨xs', ys', rfl, hxs, hys⟩ := ih hrest
      exact ⟨u :: xs', ys', rfl, .cons h hcolumn hxs, hys.weaken fun hs => by rw [hs]; rfl⟩

theorem Echoes.isCode {t u : Token} (h : Echoes a b t u) : t.isCode = u.isCode := by
  simp only [Token.isCode, endsLine, h.kind]

theorem Echoes.isFiller {t u : Token} (h : Echoes a b t u) : t.isFiller = u.isFiller := by
  simp only [Token.isFiller, isComment, h.kind]

theorem Echo.all {accept : Token → Bool} (ha : ∀ t u, Echoes a b t u → accept t = accept u)
    (h : Echo a b same ts us) (hts : ∀ t ∈ ts, accept t = true) : ∀ u ∈ us, accept u = true := by
  induction h with
  | nil => exact nofun
  | cons h _ _ ih =>
    rw [List.forall_mem_cons] at hts ⊢
    exact ⟨ha _ _ h ▸ hts.1, ih hts.2⟩

theorem Block.echo (hb : Block ts) (h : Echo a b same ts us) : Block us := by
  induction hb generalizing us same with
  | nil => cases h; exact .nil
  | @line n t held line more hn hheld ht hplace hline _ ih =>
    cases h with
    | @cons _ _ n' _ us hnn _ hrest =>
      rw [hn, beq_self_eq_true, Bool.or_true] at hrest
      obtain ⟨held', us, rfl, hheld', hrest⟩ := hrest.append
      cases hrest with
      | @cons _ _ t' _ us htt hcolumn htail =>
        obtain ⟨line', more', rfl, hline', hmore'⟩ := htail.append
        refine .line (hnn.kind ▸ hn) (hheld'.all (fun _ _ => Echoes.isFiller) hheld) (htt.isFiller ▸ ht) ?_
          (hline'.all (fun _ _ => Echoes.isCode) hline) (ih hmore')
        rw [← htt.kind, ← hcolumn rfl]
        exact hplace

theorem takeWhile_forall₂ {R : Token → Token → Prop} {accept : Token → Bool}
    (ha : ∀ t u, R t u → accept t = accept u) (h : List.Forall₂ R ts us) :
    List.Forall₂ R (ts.takeWhile accept) (us.takeWhile accept) := by
  induction h with
  | nil => exact .nil
  | @cons t u _ _ htu _ ih =>
    rw [List.takeWhile_cons, List.takeWhile_cons, ha t u htu]
    split_ifs
    · exact .cons htu ih
    · exact .nil

theorem opensBlock_resembles {S : String → String → String → String → Prop}
    (h : List.Forall₂ (Resembles S) ts us) : opensBlock ts = opensBlock us := by
  have hreverse := List.forall₂_reverse_iff.mpr h
  unfold opensBlock
  generalize ts.reverse = ts' at hreverse ⊢
  generalize us.reverse = us' at hreverse ⊢
  cases hreverse with
  | nil => rfl
  | @cons t u _ _ htu hrest =>
    have hcomment : t.isComment = u.isComment := dull_isComment S t u htu
    have hcolon : t.isOperator ":" = u.isOperator ":" := dull_isOperator ":" S t u htu
    cases hrest with
    | nil => exact hcolon
    | @cons t' u' _ _ hbefore _ =>
      have hcolon' : t'.isOperator ":" = u'.isOperator ":" := dull_isOperator ":" S t' u' hbefore
      dsimp only
      rw [hcomment, hcolon, hcolon']

theorem Extends.echo {t u : Token} (hx : Extends t ts) (h : Echo a b same (t :: ts) (u :: us)) :
    Extends u us := by
  obtain @⟨line, more, hline, hmore, hopens⟩ := hx
  cases h with
  | cons htu _ hrest =>
    obtain ⟨line', more', rfl, hline', hmore'⟩ := hrest.append
    refine .intro (hline'.all (fun _ _ => Echoes.isCode) hline) (hmore.echo hmore') fun hopen => ?_
    have hlooks := (List.Forall₂.cons htu hline'.forall₂).imp fun _ _ h => h.mirrors.looks
    rw [← opensBlock_resembles hlooks] at hopen
    rw [hopens hopen] at hmore'
    cases hmore'
    rfl

end Token

namespace Statement

open Token

def call? (tokens : List Token) : Option Call :=
  if opensBlock (tokens.takeWhile isCode) then none else Call.ofTokens? (splitSuffix tokens).1

theorem ofExtent_eq (comments : List String) (tokens : List Token) : ofExtent comments tokens =
    match call? tokens with
    | some call => .rule ⟨comments, call, (splitSuffix tokens).2⟩
    | none => .verbatim comments (source tokens) := rfl

theorem splitSuffix_concat (ts : List Token) (t : Token) :
    splitSuffix (ts ++ [t]) = if t.isComment then (ts, some t.text) else (ts ++ [t], none) := by
  simp [splitSuffix]

variable {S : String → String → String → String → Prop} {a b : Nat} {same : Bool} {ts us : List Token}

theorem splitSuffix_mirrors (h : List.Forall₂ (Mirrors S a b) ts us) :
    List.Forall₂ (Mirrors S a b) (splitSuffix ts).1 (splitSuffix us).1 ∧
      (splitSuffix ts).2 = (splitSuffix us).2 := by
  have hreverse := List.forall₂_reverse_iff.mpr h
  rcases List.eq_nil_or_concat' ts with rfl | ⟨ts, t, rfl⟩
  · cases h
    exact ⟨.nil, rfl⟩
  · rw [List.reverse_concat] at hreverse
    rcases List.eq_nil_or_concat' us with rfl | ⟨us, u, rfl⟩
    · cases hreverse
    · rw [List.reverse_concat] at hreverse
      obtain ⟨htu, hrest⟩ := List.forall₂_cons.mp hreverse
      have hcomment : t.isComment = u.isComment := dull_isComment S t u htu.looks
      rw [splitSuffix_concat, splitSuffix_concat, ← hcomment]
      split_ifs with ht
      · exact ⟨List.forall₂_reverse_iff.mp hrest, congrArg some (htu.looks.text_eq (isString_of_isComment ht)).2⟩
      · exact ⟨h, rfl⟩

theorem dull_isCode : Dull Token.isCode := by
  refine dull_of_blind (fun t u hk _ => ?_) true fun t v ht => ?_
  · simp [Token.isCode, Token.endsLine, hk]
  · simp [Token.isCode, Token.endsLine, ht]

theorem call?_mirrors (h : List.Forall₂ (Mirrors S a b) ts us) :
    Option.Rel (Call.Resembles S) (call? ts) (call? us) := by
  have hline := takeWhile_forall₂ (fun t u htu => dull_isCode S t u htu.looks) h
  unfold call?
  rw [opensBlock_resembles (hline.imp fun _ _ htu => htu.looks)]
  split_ifs
  · exact .none
  · exact Call.ofTokens?_mirrors (splitSuffix_mirrors h).1

theorem call?_echo (h : Echo a b same ts us) : call? ts = call? us := by
  have hcalls := call?_mirrors (h.forall₂.imp fun _ _ htu => htu.mirrors)
  generalize call? ts = x at hcalls ⊢
  generalize call? us = y at hcalls ⊢
  cases hcalls with
  | none => rfl
  | some h => exact congrArg some (Call.eq_of_resembles h)

inductive Stray : List Token → Prop
  | intro {t : Token} {ts : List Token} (hfiller : t.isFiller = false) (hend : t.kind ≠ .endOfText)
    (hx : Extends t ts) (hcall : call? (t :: ts) = none) : Stray (t :: ts)

theorem Stray.echo (hs : Stray ts) (h : Echo a b same ts us) : Stray us := by
  cases hs with
  | intro hfiller hend hx hcall =>
    have hcall' := call?_echo h
    cases us with
    | nil => cases h
    | cons u us =>
      have hx' := hx.echo h
      cases h with
      | cons htu _ _ => exact .intro (htu.isFiller ▸ hfiller) (htu.kind ▸ hend) hx' (hcall' ▸ hcall)

end Statement

theorem Position.line_past {p q : Position} {a b : Nat} (h : p.line + b = q.line + a) (cs : List Char) :
    (p.past cs).line + b = (q.past cs).line + a := by
  induction cs generalizing p q with
  | nil => exact h
  | cons c cs ih =>
    apply ih
    unfold Position.step
    split_ifs
    · dsimp only
      omega
    · exact h

theorem Position.column_past {p q : Position} (h : p.column = q.column) (cs : List Char) :
    (p.past cs).column = (q.past cs).column := by
  induction cs generalizing p q with
  | nil => exact h
  | cons c cs ih =>
    apply ih
    unfold Position.step
    split_ifs
    · rfl
    · exact congrArg (· + c.utf8Size) h

namespace Progress

theorem brackets_next_congr {p q : Progress} (h : p.brackets = q.brackets) (x : Lexeme) :
    (p.next x).brackets = (q.next x).brackets := by
  unfold brackets at h
  unfold brackets next
  dsimp only
  split
  · rw [List.map_cons, List.map_cons, h]
  · rw [List.map_tail, List.map_tail, h]
  · exact h

theorem isEmpty_congr {p q : Progress} (h : p.brackets = q.brackets) : p.pending.isEmpty = q.pending.isEmpty := by
  unfold brackets at h
  rw [← List.isEmpty_map (f := Prod.fst), h, List.isEmpty_map]

theorem token?_congr {p q : Progress} (h : p.brackets = q.brackets) (x : Lexeme) : p.token? x = q.token? x := by
  unfold token?
  rw [isEmpty_congr h]

theorem tokens_echo (a b : Nat) (same : Bool) {p q : Progress} {xs : List Lexeme}
    (hfeeds : ∀ x ∈ xs, x.kind = some .newline → x.chars = ['\n']) (hb : p.brackets = q.brackets)
    (hline : p.place.line + b = q.place.line + a)
    (hcolumn : same = true → p.place.column = q.place.column) :
    Token.Echo a b same (p.tokens xs) (q.tokens xs) := by
  induction xs generalizing p q same with
  | nil => exact .nil
  | cons x xs ih =>
    obtain ⟨hx, hxs⟩ := List.forall_mem_cons.mp hfeeds
    have hb' := brackets_next_congr hb x
    have hline' := Position.line_past hline x.chars
    rw [tokens, tokens, next?, next?, token?_congr hb]
    cases hk : q.token? x with
    | none => exact ih same hxs hb' hline' fun hs => Position.column_past (hcolumn hs) _
    | some kind =>
      refine .cons ⟨rfl, rfl, hline⟩ hcolumn (ih _ hxs hb' hline' fun hs => ?_)
      rcases Bool.or_eq_true _ _ ▸ hs with hs | hs
      · exact Position.column_past (hcolumn hs) _
      · have hkind : x.kind = some .newline := by
          rw [token?_eq_some hk]
          exact congrArg some (eq_of_beq hs)
        simp only [next, hx hkind]
        rfl

end Progress
end BuildSync
