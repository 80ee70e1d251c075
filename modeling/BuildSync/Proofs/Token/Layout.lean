import BuildSync.Proofs.Token.Content
import BuildSync.Proofs.Token.Spelling
import BuildSync.Proofs.Token.Tiles
import Mathlib.Data.List.Induction

/-!
What stands between tokens: blanks, joined lines, ends of lines inside brackets, and the white space
behind a comment.
-/

namespace BuildSync

namespace Lexeme

inductive Form (next : Option Char) : Lexeme → Prop
  | blank {c : Char} (hc : isSpace c = true) : Form next ⟨none, [c], []⟩
  | join : Form next ⟨none, ['\\', '\n'], []⟩
  | longJoin : Form next ⟨none, ['\\', '\r', '\n'], []⟩
  | feed : Form next .feed
  | comment {text after : List Char} (htext : text ≠ []) (hfeed : '\n' ∉ text ++ after)
    (hblank : ∀ c ∈ after, isBlank c = true) (hnext : next.all (· = '\n') = true) :
    Form next ⟨some .comment, text, after⟩
  | string {value : String} {text : List Char} (htext : text ≠ []) : Form next ⟨some (.string value), text, []⟩
  | opening (b : Bracket) : Form next (.opening b)
  | closing (b : Bracket) : Form next (.closing b)
  | code {kind : Token.Kind} {text : List Char} (hkind : kind = .ident ∨ kind = .number ∨ kind = .operator)
    (htext : text ≠ []) (hfeed : '\n' ∉ text) (hslash : '\\' ∉ text) : Form next ⟨some kind, text, []⟩

theorem takeWhile_append_eq {p : Char → Bool} {r : List Char} {next : Option Char}
    (h : (r ++ next.toList).takeWhile p = r) : (∀ c ∈ r, p c = true) ∧ next.all (!p ·) = true := by
  have hall : ∀ c ∈ r, p c = true := by
    rw [← h]
    exact fun c hc => List.all_eq_true.mp List.all_takeWhile c hc
  refine ⟨hall, ?_⟩
  cases next with
  | none => rfl
  | some d =>
    rw [List.takeWhile_append_of_pos hall] at h
    have hd : [d].takeWhile p = [] := List.append_cancel_left (h.trans (List.append_nil r).symm)
    cases hp : p d with
    | false => simp [hp]
    | true => simp [hp] at hd

theorem not_mem_of_wordChar {c : Char} {cs : List Char} (hc : isWordChar c = false)
    (h : ∀ d ∈ cs, isWordChar d = true) : c ∉ cs := by
  intro hmem
  rw [h c hmem] at hc
  cases hc

theorem not_mem_numberTail {c : Char} (hc : isWordChar c = false) (hdot : c ≠ '.') (hplus : c ≠ '+')
    (hminus : c ≠ '-') (last : Char) (cs : List Char) : c ∉ numberTail last cs := by
  induction cs generalizing last with
  | nil => exact List.not_mem_nil
  | cons d cs ih =>
    rw [numberTail]
    split_ifs with hd
    · rw [List.mem_cons, not_or]
      refine ⟨?_, ih d⟩
      rintro rfl
      simp [hc, hdot, hplus, hminus] at hd
    · exact List.not_mem_nil

theorem plain_operators : ∀ op ∈ operators, '\n' ∉ op ∧ '\\' ∉ op := by
  decide +kernel

theorem form_of_literal {mark rest : List Char} {quote : Char} {raw : Bool} {x : Lexeme} {next : Option Char}
    (h : literal mark quote rest raw = .ok x) (hne : x.text ++ x.after ≠ []) : x.Form next := by
  obtain ⟨value, hkind, hafter⟩ := string_of_literal h
  obtain ⟨kind, text, after⟩ := x
  obtain rfl : after = [] := hafter
  obtain rfl : kind = some (.string value) := hkind
  exact .string (by simpa using hne)

theorem Stands.form {x : Lexeme} {next : Option Char} (h : x.Stands next) : x.Form next := by
  obtain ⟨c, r, hchars, hfront⟩ := h.front
  have hne : x.text ++ x.after ≠ [] := h.chars_ne_nil
  have hremark := h.remark
  clear h
  cases hfront with
  | space hc => exact .blank hc
  | join tail hc hr => subst hc; exact .join
  | longJoin tail hc hr => subst hc; exact .longJoin
  | feed hc => subst hc; exact .feed
  | comment hc =>
    subst hc
    have hline : '#' :: (r ++ next.toList).takeWhile (· ≠ '\n') = '#' :: r :=
      (trimEnd_append_blankTail _).symm.trans hchars
    obtain ⟨hall, hnext⟩ := takeWhile_append_eq (List.cons.inj hline).2
    rw [hline]
    refine .comment ?_ ?_ ?_ (by simpa using hnext)
    · have hhash := (hremark rfl).hash
      rw [hline] at hhash
      rintro htrim
      simp [comment, htrim] at hhash
    · rw [trimEnd_append_blankTail, List.mem_cons, not_or]
      refine ⟨by decide, fun hmem => ?_⟩
      simpa using hall _ hmem
    · exact fun d hd => List.all_eq_true.mp List.all_takeWhile d (List.mem_reverse.mp hd)
  | string _ h => exact form_of_literal h hne
  | marked _ _ _ _ h => exact form_of_literal h hne
  | word hw _ =>
    have hall : ∀ d ∈ c :: (r ++ next.toList).takeWhile isWordChar, isWordChar d = true := by
      refine List.forall_mem_cons.mpr ⟨?_, fun d hd => List.all_eq_true.mp List.all_takeWhile d hd⟩
      unfold isWordChar
      rcases Bool.or_eq_true_iff.mp hw with hw | hw <;> simp [hw]
    exact .code (.inl rfl) (List.cons_ne_nil _ _) (not_mem_of_wordChar (by decide) hall)
      (not_mem_of_wordChar (by decide) hall)
  | number hc =>
    have hfirst (d : Char) (hdigit : isDigit d = false) (hdot : d ≠ '.') : d ≠ c := by
      rintro rfl
      rcases hc with hc | ⟨rfl, -⟩
      · rw [hdigit] at hc
        cases hc
      · exact hdot rfl
    have hnot (d : Char) (hd : isWordChar d = false) (hdot : d ≠ '.') (hplus : d ≠ '+') (hminus : d ≠ '-') :
        d ∉ c :: numberTail c (r ++ next.toList) := by
      rw [List.mem_cons, not_or]
      refine ⟨hfirst d ?_ hdot, not_mem_numberTail hd hdot hplus hminus c _⟩
      unfold isWordChar at hd
      simp only [Bool.or_eq_false_iff] at hd
      exact hd.1.2
    exact .code (.inr (.inl rfl)) (List.cons_ne_nil _ _) (hnot _ (by decide) (by decide) (by decide) (by decide))
      (hnot _ (by decide) (by decide) (by decide) (by decide))
  | bracket h =>
    obtain ⟨b, ⟨rfl, rfl⟩ | ⟨rfl, rfl⟩⟩ := (bracket?_iff c _).mp h
    · exact .opening b
    · exact .closing b
  | operator hm _ _ _ =>
    obtain ⟨hfeed, hslash⟩ := plain_operators _ hm
    exact .code (.inr (.inr rfl)) (List.cons_ne_nil _ _) hfeed hslash

end Lexeme

namespace Token

def opens (t : Token) : Bool :=
  match t.kind with
  | .opening _ => true
  | _ => false

def depth (ts : List Token) : Nat := ts.countP opens - ts.countP closes

inductive Layout (feeds : Prop) : List Char → Prop
  | nil : Layout feeds []
  | blank {c : Char} {cs : List Char} (hc : c = ' ' ∨ c = '\t' ∨ c = '\r' ∨ c = '\x0c') (h : Layout feeds cs) :
    Layout feeds (c :: cs)
  | join {cs : List Char} (h : Layout feeds cs) : Layout feeds ('\\' :: '\n' :: cs)
  | longJoin {cs : List Char} (h : Layout feeds cs) : Layout feeds ('\\' :: '\r' :: '\n' :: cs)
  | feed {cs : List Char} (hfeeds : feeds) (h : Layout feeds cs) : Layout feeds ('\n' :: cs)

theorem Layout.append {feeds : Prop} {cs ds : List Char} (h : Layout feeds cs) (hd : Layout feeds ds) :
    Layout feeds (cs ++ ds) := by
  induction h with
  | nil => exact hd
  | blank hc _ ih => exact .blank hc ih
  | join _ ih => exact .join ih
  | longJoin _ ih => exact .longJoin ih
  | feed hfeeds _ ih => exact .feed hfeeds ih

structure Trimmed (before : List Token) (space rest : List Char) : Prop where
  comment : before.getLast?.any isComment = true
  blank : ∀ c ∈ space, isBlank c = true ∧ c ≠ '\n'
  line : rest.head?.all (· = '\n') = true

def Parts (before : List Token) (gap rest : List Char) : Prop :=
  ∃ space layout, gap = space ++ layout ∧ Layout (0 < depth before) layout ∧
    (space = [] ∨ Trimmed before space (layout ++ rest))

theorem parts_nil (before : List Token) (rest : List Char) : Parts before [] rest :=
  ⟨[], [], rfl, .nil, .inl rfl⟩

theorem Parts.append {before : List Token} {gap cs rest : List Char} (h : Parts before gap (cs ++ rest))
    (hcs : Layout (0 < depth before) cs) : Parts before (gap ++ cs) rest := by
  obtain ⟨space, layout, rfl, hlayout, hspace⟩ := h
  refine ⟨space, layout ++ cs, List.append_assoc .., hlayout.append hcs, ?_⟩
  rwa [List.append_assoc]

end Token

namespace Progress

open Lexeme

theorem countP_next? {p : Progress} {x : Lexeme} {stack : List Bracket} (h : turn p.brackets x = some stack) :
    (p.next? x).toList.countP Token.opens + p.brackets.length =
      (p.next? x).toList.countP Token.closes + stack.length := by
  obtain ⟨kind, text, after⟩ := x
  cases kind with
  | none =>
    cases h
    rfl
  | some kind =>
    cases kind with
    | opening b =>
      cases h
      simp [next?, token?, token, Token.opens, Token.closes, Nat.add_comm]
    | closing b =>
      unfold turn at h
      dsimp only at h
      split_ifs at h with hb
      cases h
      obtain ⟨outer, hstack⟩ := List.head?_eq_some_iff.mp hb
      simp [next?, token?, token, Token.opens, Token.closes, hstack, Nat.add_comm]
    | newline =>
      cases h
      cases hp : p.pending.isEmpty <;> simp [next?, token?, token, Token.opens, Token.closes, hp]
    | _ =>
      cases h
      simp [next?, token?, token, Token.opens, Token.closes]

theorem countP_tokens {p : Progress} {xs : List Lexeme} {stack : List Bracket}
    (h : Lexeme.nest p.brackets xs = some stack) :
    (p.tokens xs).countP Token.opens + p.brackets.length = (p.tokens xs).countP Token.closes + stack.length := by
  induction xs generalizing p with
  | nil =>
    obtain rfl := Option.some.inj h
    rfl
  | cons x xs ih =>
    rw [Lexeme.nest, List.foldlM_cons] at h
    obtain ⟨middle, hturn, h⟩ := Option.bind_eq_some_iff.mp h
    have hnext := countP_next? hturn
    rw [← p.brackets_next hturn] at h hnext
    have := ih h
    rw [tokens, List.countP_append, List.countP_append]
    omega

theorem depth_tokens {xs : List Lexeme} {stack : List Bracket} (h : Lexeme.nest [] xs = some stack) :
    Token.depth (Progress.start.tokens xs) = stack.length := by
  have := countP_tokens (p := .start) h
  have hstart : Progress.start.brackets.length = 0 := rfl
  unfold Token.depth
  omega

theorem next_of_none {p : Progress} {x : Lexeme} (h : p.next? x = none) : (p.next x).gap = p.gap ++ x.chars := by
  rw [next?, Option.map_eq_none_iff] at h
  simp [next, h]

theorem next_of_some {p : Progress} {x : Lexeme} {t : Token} (h : p.next? x = some t) : (p.next x).gap = x.after := by
  rw [next?, Option.map_eq_some_iff] at h
  obtain ⟨kind, hkind, -⟩ := h
  simp [next, hkind]

theorem parts_after {xs : List Lexeme} {stack : List Bracket} {rest : List Char} (hjoined : Joined xs rest.head?)
    (hnest : Lexeme.nest [] xs = some stack) :
    Token.Parts (Progress.start.tokens xs) (Progress.start.after xs).gap rest := by
  induction xs using List.reverseRecOn generalizing stack rest with
  | nil => exact Token.parts_nil _ _
  | append_singleton xs x ih =>
    rw [joined_append, front_head?, spelling_cons, spelling_nil, List.append_nil] at hjoined
    obtain ⟨hxs, hx, -⟩ := hjoined
    rw [front_nil] at hx
    rw [nest_append] at hnest
    obtain ⟨middle, hmiddle, -⟩ := Option.bind_eq_some_iff.mp hnest
    have hgap := ih hxs hmiddle
    have hdepth := depth_tokens hmiddle
    have hbrackets : (Progress.start.after xs).brackets = middle := brackets_after_nest hmiddle
    rw [tokens_append, after_append]
    generalize Progress.start.tokens xs = before at hgap hdepth ⊢
    generalize Progress.start.after xs = p at hgap hbrackets ⊢
    change Token.Parts (before ++ ((p.next? x).toList ++ [])) (p.next x).gap rest
    rw [List.append_nil]
    have hnone (hnext : p.next? x = none) (hlayout : Token.Layout (0 < Token.depth before) x.chars) :
        Token.Parts (before ++ (p.next? x).toList) (p.next x).gap rest := by
      rw [hnext, next_of_none hnext, Option.toList_none, List.append_nil]
      exact hgap.append hlayout
    have hsome {t : Token} (hnext : p.next? x = some t) (hafter : x.after = []) :
        Token.Parts (before ++ (p.next? x).toList) (p.next x).gap rest := by
      rw [next_of_some hnext, hafter]
      exact Token.parts_nil _ _
    cases hx.form with
    | blank hc =>
      refine hnone rfl (.blank ?_ .nil)
      exact (isSpace_iff _).mp hc
    | join => exact hnone rfl (.join .nil)
    | longJoin => exact hnone rfl (.longJoin .nil)
    | feed =>
      cases hpending : p.pending with
      | nil =>
        have hnext : p.next? .feed = some (p.token .newline ['\n']) := by
          simp [next?, token?, Lexeme.feed, hpending]
        exact hsome hnext rfl
      | cons top outer =>
        have hnext : p.next? .feed = none := by
          simp [next?, token?, Lexeme.feed, hpending]
        have hpos : 0 < Token.depth before := by
          rw [hdepth, ← hbrackets, brackets, hpending]
          exact Nat.succ_pos _
        exact hnone hnext (.feed hpos .nil)
    | @comment text after htext hfeed hblank hline =>
      have hnext : p.next? ⟨some .comment, text, after⟩ = some (p.token .comment text) := rfl
      rw [hnext, next_of_some hnext]
      refine ⟨after, [], (List.append_nil _).symm, .nil, .inr ⟨by simp [Token.isComment, token], ?_, hline⟩⟩
      intro c hc
      refine ⟨hblank c hc, ?_⟩
      rintro rfl
      exact hfeed (List.mem_append_right _ hc)
    | string _ => exact hsome rfl rfl
    | opening b => exact hsome rfl rfl
    | closing b => exact hsome rfl rfl
    | code hkind _ _ _ => rcases hkind with rfl | rfl | rfl <;> exact hsome rfl rfl

end Progress

end BuildSync
