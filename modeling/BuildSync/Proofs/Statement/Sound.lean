import BuildSync.Proofs.Expr.Sound
import BuildSync.Proofs.Statement.Reread

namespace BuildSync

open Lexeme

namespace Progress

variable {p : Progress} {x : Lexeme}

theorem brackets_next_none (h : p.next? x = none) : (p.next x).brackets = p.brackets := by
  apply p.brackets_next
  rw [next?, Option.map_eq_none_iff] at h
  unfold token? at h
  unfold turn
  split at h
  · rename_i hk
    rw [hk]
  · rw [h]

theorem brackets_next_plain {t : Token} (h : p.next? x = some t) (ho : ∀ b, t.kind ≠ .opening b)
    (hc : ∀ b, t.kind ≠ .closing b) : (p.next x).brackets = p.brackets := by
  apply p.brackets_next
  have hk := (next?_eq_some h).1
  unfold turn
  rw [hk]
  split
  · rename_i hb
    exact absurd (Option.some.inj hb) (ho _)
  · rename_i hb
    exact absurd (Option.some.inj hb) (hc _)
  · rfl

structure Remains (p : Progress) (xs : List Lexeme) (ts : List Token) : Prop where
  tokens : ts = p.tokens xs ++ [(p.after xs).token .endOfText []]
  joined : Joined xs none
  nest : Lexeme.nest p.brackets xs = some []

variable {xs : List Lexeme} {ts : List Token} {t : Token}

theorem Remains.step (h : Remains p (x :: xs) ts) :
    ∃ rest, ts = (p.next? x).toList ++ rest ∧ Remains (p.next x) xs rest := by
  have hnest := h.nest
  rw [Lexeme.nest, List.foldlM_cons] at hnest
  obtain ⟨stack, hst, hnest⟩ := Option.bind_eq_some_iff.mp hnest
  refine ⟨_, by rw [h.tokens, Progress.tokens, List.append_assoc]; rfl, rfl, h.joined.2, ?_⟩
  rw [p.brackets_next hst]
  exact hnest

theorem Remains.tail (h : Remains p (x :: xs) (t :: ts)) (hx : p.next? x = some t) :
    Remains (p.next x) xs ts := by
  obtain ⟨rest, hrest, hremains⟩ := h.step
  rw [hx] at hrest
  cases hrest
  exact hremains

theorem Remains.cons (h : Remains p xs (t :: ts)) :
    (t.kind = .endOfText ∧ t.text = "" ∧ ts = [] ∧ p.brackets = []) ∨ ∃ gs y ys, xs = gs ++ y :: ys ∧ p.tokens gs = [] ∧
      (p.after gs).brackets = p.brackets ∧ (p.after gs).next? y = some t ∧
      Remains (p.after gs) (y :: ys) (t :: ts) := by
  induction xs generalizing p with
  | nil =>
    have htokens := h.tokens
    have hnest := h.nest
    cases htokens
    exact .inl ⟨rfl, rfl, rfl, Option.some.inj hnest⟩
  | cons x xs ih =>
    obtain ⟨rest, hrest, hremains⟩ := h.step
    cases hx : p.next? x with
    | some u =>
      rw [hx] at hrest
      cases hrest
      exact .inr ⟨[], x, xs, rfl, rfl, rfl, hx, h⟩
    | none =>
      rw [hx, Option.toList_none, List.nil_append] at hrest
      subst hrest
      have hb := brackets_next_none hx
      rcases ih hremains with ⟨ht, htext, hnil, hp⟩ | ⟨gs, y, ys, rfl, hgs, hbrackets, hy, hys⟩
      · exact .inl ⟨ht, htext, hnil, hb ▸ hp⟩
      · refine .inr ⟨x :: gs, y, ys, rfl, ?_, hbrackets.trans hb, hy, hys⟩
        rw [Progress.tokens, hx, hgs]
        rfl

theorem Remains.ne_nil (h : Remains p xs ts) : ts ≠ [] := by
  rw [h.tokens]
  simp

theorem Remains.ended (h : Remains p xs (t :: ts)) (ht : t.kind = .endOfText) :
    t.text = "" ∧ ts = [] ∧ p.brackets = [] := by
  rcases h.cons with ⟨-, hend⟩ | ⟨gs, y, ys, rfl, -, -, hy, -⟩
  · exact hend
  · obtain ⟨next, hstands⟩ := h.joined.stands y (by simp)
    exact absurd (ht ▸ (next?_eq_some hy).1) hstands.kind_ne_endOfText

theorem Remains.brackets_of_ends (h : Remains p xs ts) (hends : Token.Ends ts) : p.brackets = [] := by
  cases ts with
  | nil => exact absurd rfl h.ne_nil
  | cons t ts =>
    have ht := hends t rfl
    simp only [Token.endsLine, Bool.or_eq_true, beq_iff_eq] at ht
    rcases ht with ht | ht
    · rcases h.cons with ⟨-, -, -, hp⟩ | ⟨gs, y, ys, -, -, hb, hy, -⟩
      · exact hp
      · rw [← hb, pending_of_newline hy ht]
    · exact (h.ended ht).2.2

theorem Remains.cut {us : List Token} (h : Remains p xs (us ++ ts)) (hus : ∀ u ∈ us, u.kind ≠ .endOfText) :
    ∃ ys zs, xs = ys ++ zs ∧ p.tokens ys = us ∧ Remains (p.after ys) zs ts ∧
      (ys = [] ∨ ∃ init z, ys = init ++ [z] ∧ ((p.after init).token? z).isSome = true) := by
  induction us generalizing p xs with
  | nil => exact ⟨[], xs, rfl, rfl, h, .inl rfl⟩
  | cons u us ih =>
    obtain ⟨hu, hus⟩ := List.forall_mem_cons.mp hus
    rcases h.cons with ⟨hend, -⟩ | ⟨gs, y, ys, rfl, hgs, -, hy, hys⟩
    · exact absurd hend hu
    obtain ⟨vs, zs, rfl, rfl, hzs, hlast⟩ := ih (hys.tail hy) hus
    have htokens : p.tokens (gs ++ y :: vs) = u :: ((p.after gs).next y).tokens vs := by
      rw [tokens_append, hgs, Progress.tokens, hy]
      rfl
    have hafter : p.after (gs ++ y :: vs) = ((p.after gs).next y).after vs := by
      rw [after_append]
      rfl
    refine ⟨gs ++ y :: vs, zs, by simp, htokens, hafter ▸ hzs, .inr ?_⟩
    rcases hlast with rfl | ⟨init, z, rfl, hz⟩
    · refine ⟨gs, y, rfl, ?_⟩
      rw [next?, Option.map_eq_some_iff] at hy
      obtain ⟨kind, hk, -⟩ := hy
      rw [hk]
      rfl
    · refine ⟨gs ++ y :: init, z, by simp, ?_⟩
      rw [after_append]
      exact hz

theorem spelled_of_mem {next : Option Char} (h : Joined xs next) : ∀ t ∈ p.tokens xs, t.Spelled := by
  induction xs generalizing p with
  | nil => exact nofun
  | cons x xs ih =>
    rw [tokens, List.forall_mem_append]
    refine ⟨fun t ht _ => ?_, ih h.2⟩
    rw [Option.mem_toList] at ht
    obtain ⟨hk, heq⟩ := next?_eq_some ht
    have := h.1.spells hk
    rwa [heq]

theorem Remains.spelled (h : Remains p xs ts) : ∀ t ∈ ts, t.Spelled := by
  rw [h.tokens, List.forall_mem_append, List.forall_mem_singleton]
  exact ⟨spelled_of_mem h.joined, fun hk => absurd rfl hk⟩

theorem Remains.plain (h : Remains p xs (t :: ts)) (ht : t.kind = .newline ∨ t.kind = .comment) :
    ∃ q ys, q.brackets = p.brackets ∧ Remains q ys ts := by
  rcases h.cons with ⟨hend, -⟩ | ⟨gs, y, ys, -, -, hb, hy, hys⟩
  · rcases ht with ht | ht <;> rw [ht] at hend <;> cases hend
  · refine ⟨_, ys, (brackets_next_plain hy ?_ ?_).trans hb, hys.tail hy⟩ <;>
      rcases ht with ht | ht <;> simp [ht]

end Progress

namespace Lexeme

def bare (x : Lexeme) : Lexeme := ⟨x.kind, x.text, []⟩

theorem Stands.bare {x : Lexeme} {next : Option Char} {kind : Token.Kind} (h : x.Stands next)
    (hk : x.kind = some kind) : x.bare.Stands (some '\n') ∧ ∃ c r s, x.chars = c :: r ∧ x.bare.chars = c :: s := by
  have hspells := h.spells hk
  have hbare : x.bare = .of kind (String.ofList x.text) := by simp [Lexeme.bare, Lexeme.of, hk]
  obtain ⟨c, s, hs⟩ := List.exists_cons_of_ne_nil hspells.ne_empty
  rw [String.toList_ofList] at hs
  refine ⟨?_, c, s ++ x.after, s, by simp [chars, hs], by simp [chars, Lexeme.bare, hs]⟩
  rw [hbare]
  apply hspells.parted
  unfold parts
  split_ifs <;> rfl

theorem joined_bare {xs ys : List Lexeme} {x : Lexeme} {kind : Token.Kind} {next : Option Char}
    (h : Joined (xs ++ x :: ys) next) (hk : x.kind = some kind) : Joined (xs ++ [x.bare]) (some '\n') := by
  rw [joined_append] at h ⊢
  obtain ⟨hstands, c, r, s, hr, hs⟩ := h.2.1.bare hk
  rw [front_cons hr] at h
  rw [front_cons hs]
  exact ⟨h.1, joined_single hstands⟩

theorem nest_bare (stack : List Bracket) (xs : List Lexeme) (x : Lexeme) :
    nest stack (xs ++ [x.bare]) = nest stack (xs ++ [x]) := by
  rw [nest_append, nest_append]
  rfl

end Lexeme

theorem Progress.tokens_bare (p : Progress) (xs : List Lexeme) (x : Lexeme) :
    p.tokens (xs ++ [x.bare]) = p.tokens (xs ++ [x]) := by
  rw [tokens_append, tokens_append]
  rfl

theorem Token.Block.ne_endOfText {ts : List Token} (h : Block ts) : ∀ t ∈ ts, t.kind ≠ .endOfText := by
  have hfiller {t : Token} (ht : t.isFiller = true) : t.kind ≠ .endOfText := by
    intro hk
    simp [isFiller, isComment, hk] at ht
  have hcode {t : Token} (ht : t.isCode = true) : t.kind ≠ .endOfText := by
    intro hk
    simp [isCode, endsLine, hk] at ht
  induction h with
  | nil => exact List.forall_mem_nil _
  | line hn hheld _ hplace hline _ ih =>
    simp only [List.forall_mem_append, List.forall_mem_cons]
    exact ⟨⟨hfiller (isFiller_of_newline hn), fun u hu => hfiller (hheld u hu)⟩, fun hk => hplace (.inl hk),
      fun u hu => hcode (hline u hu), ih⟩

theorem Token.Extends.ne_endOfText {t : Token} {ts : List Token} (h : Extends t ts) :
    ∀ u ∈ ts, u.kind ≠ .endOfText := by
  obtain @⟨line, more, hline, hmore, -⟩ := h
  rw [List.forall_mem_append]
  refine ⟨fun u hu hk => ?_, hmore.ne_endOfText⟩
  have := hline u hu
  simp [isCode, endsLine, hk] at this

namespace Statement

open Progress

theorem token?_bare (p : Progress) (x : Lexeme) : p.token? x.bare = p.token? x := rfl

theorem gap_after_bare {p : Progress} {xs : List Lexeme} {x : Lexeme}
    (h : ((p.after xs).token? x).isSome = true) : (p.after (xs ++ [x.bare])).gap = [] := by
  rw [after_append]
  exact if_pos h

def Echoed (ts : List Token) : Prop :=
  ∃ x xs, Passage x xs ∧ spelling (x :: xs) = (Token.source ts).toList ∧
    ∃ a b, List.Forall₂ (Token.Echoes a b) ts (Progress.start.tokens (x :: xs))

theorem Echoed.verbatim {ts : List Token} (h : Echoed ts) : Verbatim (Token.source ts) := by
  obtain ⟨x, xs, hpassage, hspelling, -⟩ := h
  exact ⟨x, xs, hpassage, hspelling⟩

theorem echoed_of_stray (init : List Lexeme) {p : Progress} {x z : Lexeme} {xs rest : List Lexeme}
    (hp : p.brackets = []) (hjoined : Joined (x :: xs ++ rest) none)
    (hnest : Lexeme.nest [] (x :: xs) = some []) (hfirst : (p.token? x).isSome = true)
    (hlast : x :: xs = init ++ [z]) (hz : ((p.after init).token? z).isSome = true)
    (hstray : Stray (p.tokens (x :: xs))) : Echoed (p.tokens (x :: xs)) := by
  obtain ⟨kind, hkind⟩ := Option.isSome_iff_exists.mp hz
  have hstart : Progress.start.brackets = p.brackets := by rw [hp]; rfl
  have hecho := tokens_echo p.place.line 1 false
    (fun y hy hk => (hjoined.stands y (List.mem_append_left _ hy)).choose_spec.chars_feed hk) hstart.symm
    (Nat.add_comm _ _) nofun
  obtain ⟨y, ys, hy, hkinds⟩ : ∃ y ys, init ++ [z.bare] = y :: ys ∧
      ∀ q : Progress, q.token? y = q.token? x := by
    cases init with
    | nil => cases hlast; exact ⟨_, _, rfl, fun q => token?_bare q x⟩
    | cons i init => cases hlast; exact ⟨_, _, rfl, fun q => rfl⟩
  have hsame (q : Progress) : q.tokens (y :: ys) = q.tokens (x :: xs) := by rw [← hy, tokens_bare, hlast]
  have hgap {q : Progress} (hq : q.brackets = p.brackets) : (q.after (y :: ys)).gap = [] := by
    rw [← hy]
    exact gap_after_bare (by rwa [token?_congr (brackets_after_congr hq init)])
  have hpassage : Passage y ys :=
    { joined := by
        rw [hlast, List.append_assoc] at hjoined
        rw [← hy]
        exact joined_bare hjoined (token?_eq_some hkind)
      nest := by rw [← hy, nest_bare, ← hlast, hnest]
      first := by rwa [hkinds, token?_congr hstart]
      last := hgap hstart
      stray := by
        rw [hsame]
        exact hstray.echo hecho }
  refine ⟨y, ys, hpassage, ?_, p.place.line, 1, ?_⟩
  · rw [← hsame, source_tokens (by rwa [hkinds]) (hgap rfl), String.toList_ofList]
  · rw [hsame]
    exact hecho.forall₂

theorem fits_standalone {strict : Bool} {comments : List String} (h : ∀ line ∈ comments, Remark line) :
    ∀ s ∈ standalone comments, s.Fits strict := by
  unfold standalone
  split_ifs with hempty
  · exact nofun
  · exact List.forall_mem_singleton.mpr (.comment (by simpa using hempty) h)

theorem mem_splitSuffix {ts : List Token} {t : Token} (h : t ∈ (splitSuffix ts).1) : t ∈ ts := by
  rcases List.eq_nil_or_concat' ts with rfl | ⟨us, u, rfl⟩
  · exact h
  · rw [splitSuffix_concat] at h
    split_ifs at h
    · exact List.mem_append_left _ h
    · exact h

theorem remark_splitSuffix {ts : List Token} (ht : ∀ t ∈ ts, t.Spelled) :
    ∀ c ∈ (splitSuffix ts).2, Remark c := by
  rcases List.eq_nil_or_concat' ts with rfl | ⟨us, u, rfl⟩
  · exact nofun
  · rw [splitSuffix_concat]
    split_ifs with hcomment
    · rintro _ ⟨⟩
      exact Reading.remark_of_spelled (ht u (by simp)) hcomment
    · exact nofun

theorem fits_ofExtent {comments : List String} {tokens : List Token} (hc : ∀ line ∈ comments, Remark line)
    (ht : ∀ t ∈ tokens, t.Spelled) (hv : call? tokens = none → Verbatim (Token.source tokens)) :
    (ofExtent comments tokens).Fits false := by
  rw [ofExtent_eq]
  cases hcall : call? tokens with
  | none => exact .verbatim hc (hv hcall)
  | some call =>
    unfold call? at hcall
    split_ifs at hcall
    have hsplit : ∀ t ∈ (splitSuffix tokens).1, t.Spelled := fun t h => ht t (mem_splitSuffix h)
    obtain ⟨hfits, hname⟩ := Call.fits_of_ofTokens? hsplit hcall
    exact .rule hc hfits hname (remark_splitSuffix ht)

theorem remains_extent {p : Progress} {x : Lexeme} {xs : List Lexeme} {t : Token} {ts : List Token}
    (hp : p.brackets = []) (h : Remains p (x :: xs) (t :: ts)) (hx : p.next? x = some t)
    (hfiller : t.isFiller = false) (hend : t.kind ≠ .endOfText) :
    (∀ u ∈ t :: Token.extent t ts, u.Spelled) ∧
      (call? (t :: Token.extent t ts) = none → Echoed (t :: Token.extent t ts)) ∧
      ∃ (q : Progress) (zs : List Lexeme) (rest : List Token), ts = Token.extent t ts ++ rest ∧
        Token.Ends rest ∧ q.brackets = [] ∧ Remains q zs rest := by
  obtain ⟨rest, hts, hextends, hends⟩ := Token.extends_extent t ts
  generalize Token.extent t ts = us at hts hextends ⊢
  subst hts
  obtain ⟨ys, zs, rfl, rfl, hzs, hlast⟩ := (h.tail hx).cut hextends.ne_endOfText
  have hbrackets := hzs.brackets_of_ends hends
  have htokens : p.tokens (x :: ys) = t :: (p.next x).tokens ys := by
    rw [tokens, hx]
    rfl
  have hjoined := (joined_append (x :: ys) zs none).mp h.joined
  refine ⟨?_, fun hcall => ?_, (p.next x).after ys, zs, rest, rfl, hends, hbrackets, hzs⟩
  · rw [← htokens]
    exact spelled_of_mem hjoined.1
  have hnest : Lexeme.nest [] (x :: ys) = some [] := by
    have hall := h.nest
    rw [hp, ← List.cons_append, nest_append] at hall
    obtain ⟨stack, hstack, -⟩ := Option.bind_eq_some_iff.mp hall
    have : (p.after (x :: ys)).brackets = stack := brackets_after_nest (by rwa [hp])
    rw [hstack, ← this]
    exact congrArg some hbrackets
  have hfirst : (p.token? x).isSome = true := by
    rw [next?, Option.map_eq_some_iff] at hx
    obtain ⟨kind, hk, -⟩ := hx
    rw [hk]
    rfl
  have hstray : Stray (p.tokens (x :: ys)) := by
    rw [htokens]
    exact .intro hfiller hend hextends hcall
  rw [← htokens]
  rcases hlast with rfl | ⟨init, z, rfl, hz⟩
  · exact echoed_of_stray [] hp h.joined hnest hfirst rfl hfirst hstray
  · exact echoed_of_stray (x :: init) hp h.joined hnest hfirst rfl hz hstray

theorem fits_ofTokensAfter {comments : List String} {newline : Bool} {ts : List Token} {p : Progress}
    {xs : List Lexeme} (h : Remains p xs ts) (hp : p.brackets = [])
    (hc : ∀ line ∈ comments, Remark line) : ∀ s ∈ ofTokensAfter comments newline ts, s.Fits false := by
  fun_induction ofTokensAfter comments newline ts generalizing p xs with
  | case1 => exact absurd rfl h.ne_nil
  | case2 => exact fits_standalone hc
  | case3 comments t rest hk ih =>
    obtain ⟨q, ys, hq, hys⟩ := h.plain (.inl hk)
    exact List.forall_mem_append.mpr ⟨fits_standalone hc, ih hys (hq.trans hp) nofun⟩
  | case4 comments newline t rest hk _ ih =>
    obtain ⟨q, ys, hq, hys⟩ := h.plain (.inl hk)
    exact ih hys (hq.trans hp) hc
  | case5 comments newline t rest hk ih =>
    obtain ⟨q, ys, hq, hys⟩ := h.plain (.inr hk)
    have ht := Reading.remark_of_spelled (h.spelled t List.mem_cons_self) (by simp [Token.isComment, hk])
    exact ih hys (hq.trans hp) (List.forall_mem_append.mpr ⟨hc, List.forall_mem_singleton.mpr ht⟩)
  | case6 comments newline t rest extent hend hnewline hcomment =>
    rename_i ih
    rcases h.cons with ⟨hk, -⟩ | ⟨gs, y, ys, -, -, hb, hy, hys⟩
    · exact (hend hk).elim
    have hfiller := Token.isFiller_eq_false hnewline hcomment
    obtain ⟨hspelled, hechoed, q, zs, us, hrest, -, hq, hzs⟩ :=
      remains_extent (hb.trans hp) hys hy hfiller hend
    have hdrop : rest.drop extent.length = us := by
      rw [hrest]
      exact List.drop_left
    refine List.forall_mem_cons.mpr ⟨?_, ih (hdrop ▸ hzs) hq nofun⟩
    exact fits_ofExtent hc hspelled fun hcall => (hechoed hcall).verbatim

theorem tokens_of_source {source : String} {ss : List Statement} (h : ofSource source = .ok ss) :
    ∃ ts, Token.ofSource source = .ok ts ∧ ss = ofTokens ts := by
  unfold ofSource at h
  cases htokens : Token.ofSource source with
  | error e =>
    rw [htokens] at h
    cases h
  | ok ts =>
    rw [htokens] at h
    cases h
    exact ⟨ts, rfl, rfl⟩

theorem fits_ofSource {source : String} {ss : List Statement} (h : ofSource source = .ok ss) :
    ∀ s ∈ ss, s.Fits false := by
  obtain ⟨ts, htokens, rfl⟩ := tokens_of_source h
  obtain ⟨xs, -, hjoined, hnest, rfl⟩ := Token.lexemes_of_scan htokens
  exact fits_ofTokensAfter ⟨rfl, hjoined, hnest⟩ rfl nofun

end Statement
end BuildSync
