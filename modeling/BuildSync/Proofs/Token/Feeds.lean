import BuildSync.Proofs.Token.Nesting
import BuildSync.Proofs.Token.Spans

/-!
Line feeds. Those that end a line of code are told from all others by the tokens around them: they stand
outside strings, joined lines and brackets.
-/

namespace BuildSync

namespace Lexeme

def IsJoin (x : Lexeme) : Prop := x.kind = none ∧ (x.chars = ['\\', '\n'] ∨ x.chars = ['\\', '\r', '\n'])

variable {x : Lexeme} {next : Option Char} {a b : List Char}

theorem Form.feed_of_mem (h : x.Form next) (hx : '\n' ∈ x.chars) :
    x.IsJoin ∨ x = .feed ∨ ∃ value text, x = ⟨some (.string value), text, []⟩ := by
  cases h with
  | blank hc =>
    obtain rfl := List.mem_singleton.mp hx
    cases hc
  | join => exact .inl ⟨rfl, .inl rfl⟩
  | longJoin => exact .inl ⟨rfl, .inr rfl⟩
  | feed => exact .inr (.inl rfl)
  | comment _ hfeed _ _ => exact absurd hx hfeed
  | @string value text _ => exact .inr (.inr ⟨value, text, rfl⟩)
  | opening b => cases b <;> exact absurd hx (by decide)
  | closing b => cases b <;> exact absurd hx (by decide)
  | code _ _ hfeed _ =>
    rw [chars, List.append_nil] at hx
    exact absurd hx hfeed

theorem Form.slash (h : x.Form next) (hx : x.chars = a ++ '\\' :: b) : (x.IsJoin ∧ a = []) ∨
    ∃ kind w, x.kind = some kind ∧ kind ≠ .newline ∧ x.text = a ++ '\\' :: w := by
  have hmem : '\\' ∈ x.chars := by simp [hx]
  have hnil {r : List Char} (hr : '\\' ∉ r) (h : '\\' :: r = a ++ '\\' :: b) : a = [] :=
    ((List.append_cons_inj_of_notMem List.not_mem_nil hr).mp h).1.symm
  cases h with
  | blank hc =>
    obtain rfl := List.mem_singleton.mp hmem
    cases hc
  | join =>
    exact .inl ⟨⟨rfl, .inl rfl⟩, hnil (r := ['\n']) (by decide) hx⟩
  | longJoin =>
    exact .inl ⟨⟨rfl, .inr rfl⟩, hnil (r := ['\r', '\n']) (by decide) hx⟩
  | feed => exact absurd hmem (by decide)
  | @comment text after _ _ hblank _ =>
    have hafter : '\\' ∉ after := fun h => absurd (hblank _ h) (by decide)
    refine .inr ⟨.comment, ?_⟩
    rcases List.append_eq_append_iff.mp hx with ⟨w, rfl, rfl⟩ | ⟨w, rfl, hw⟩
    · exact absurd (List.mem_append_right _ List.mem_cons_self) hafter
    · cases w with
      | nil =>
        obtain rfl : '\\' :: b = after := hw
        exact absurd List.mem_cons_self hafter
      | cons d w =>
        obtain ⟨rfl, -⟩ := List.cons.inj hw
        exact ⟨w, rfl, by decide, rfl⟩
  | string _ =>
    rw [chars, List.append_nil] at hx
    exact .inr ⟨_, b, rfl, by simp, hx⟩
  | opening b => cases b <;> exact absurd hmem (by decide)
  | closing b => cases b <;> exact absurd hmem (by decide)
  | code _ _ _ hslash =>
    rw [chars, List.append_nil] at hmem
    exact absurd hmem hslash

end Lexeme

namespace Token

open Lexeme

def Continues (bytes : List UInt8) (ts : List Token) (n : Nat) : Prop :=
  ∃ k, bytes[k]? = some 92 ∧ (∀ t ∈ ts, ¬ t.Covers k) ∧ (k + 1 = n ∨ k + 2 = n ∧ bytes[k + 1]? = some 13)

structure EndsLine (bytes : List UInt8) (ts : List Token) (n : Nat) : Prop where
  feed : bytes[n]? = some 10
  string : ∀ t ∈ ts, t.isString = true → ¬ t.Covers n
  join : ¬ Continues bytes ts n
  outside : depth (ts.filter (·.start.byte < n)) = 0

variable {source : String} {xs ys zs : List Lexeme} {x : Lexeme} {t : Token} {a b : List Char} {n : Nat}

theorem next?_of_kind {kind : Kind} (hx : x.kind = some kind) (hkind : kind ≠ .newline) (p : Progress) :
    p.next? x = some (p.token kind x.text) := by
  unfold Progress.next? Progress.token?
  rw [hx]
  split
  · rename_i h
    exact absurd (Option.some.inj h) hkind
  · rfl

theorem covers_of_text {c : Char} {w : List Char} (h : (Progress.start.after ys).next? x = some t)
    (htext : x.text = a ++ c :: w) : t.Covers (utf8Length (spelling ys ++ a)) := by
  have := c.utf8Size_pos
  refine ⟨?_, ?_⟩
  · rw [byte_of_next? h, utf8Length_append]
    exact Nat.le_add_right _ _
  · rw [stop_of_next? h, htext, utf8Length_append, utf8Length_append, utf8Length_cons]
    omega

theorem getElem?_source {c : Char} (hc : c.toNat < 0x80) (hsource : spelling xs = source.toList)
    (hxs : xs = ys ++ x :: zs) (hx : x.chars = a ++ c :: b) :
    (Utf8.encode source)[utf8Length (spelling ys ++ a)]? = some (UInt8.ofNat c.toNat) := by
  refine (Utf8.getElem?_bytes_iff hc).mpr ⟨spelling ys ++ a, b ++ spelling zs, ?_, rfl⟩
  rw [← hsource, hxs, spelling_append, spelling_cons, hx]
  simp

theorem eq_of_split {u : List Char} {c : Char} (hu : c ∉ u) (h : u ++ [c] = a ++ c :: b) : u = a :=
  ((List.append_cons_inj_of_notMem hu List.not_mem_nil).mp h).1

theorem continues_of_isJoin (hsource : spelling xs = source.toList) (hxs : xs = ys ++ x :: zs) (hjoin : x.IsJoin)
    (hx : x.chars = a ++ '\n' :: b) :
    Continues (Utf8.encode source) (ofLexemes xs) (utf8Length (spelling ys ++ a)) := by
  obtain ⟨hkind, hchars⟩ := hjoin
  have hslash : ∃ r, x.chars = [] ++ '\\' :: r := hchars.elim (⟨_, ·⟩) (⟨_, ·⟩)
  obtain ⟨r, hslash⟩ := hslash
  have hbyte := getElem?_source (by decide) hsource hxs hslash
  refine ⟨utf8Length (spelling ys ++ []), hbyte, fun t ht hcovers => ?_, ?_⟩
  · have hnext := next?_of_covers (.of_chars hxs hslash) ht hcovers
    rw [(Progress.next?_eq_some hnext).1] at hkind
    cases hkind
  · rw [List.append_nil, utf8Length_append]
    rcases hchars with hchars | hchars <;> rw [hchars] at hx
    · obtain rfl := eq_of_split (u := ['\\']) (by decide) hx
      exact .inl rfl
    · obtain rfl := eq_of_split (u := ['\\', '\r']) (by decide) hx
      have hreturn : x.chars = ['\\'] ++ '\r' :: ['\n'] := hchars
      have hbyte := getElem?_source (by decide) hsource hxs hreturn
      rw [utf8Length_append] at hbyte
      exact .inr ⟨rfl, hbyte⟩

theorem isJoin_of_continues (hsource : spelling xs = source.toList) (hjoined : Joined xs none)
    (h : Continues (Utf8.encode source) (ofLexemes xs) n) : ∃ ys x, Holds xs ys x n ∧ x.IsJoin := by
  obtain ⟨k, hslash, hfree, hn⟩ := h
  obtain ⟨front, rest, hfront, rfl⟩ := (Utf8.getElem?_bytes_iff (a := '\\') (by decide)).mp hslash
  rw [← hsource] at hfront
  obtain ⟨ys, x, zs, a, b, hxs, hx, rfl⟩ := exists_of_spelling hfront
  obtain ⟨next, hstands⟩ := hjoined.stands x (by simp [hxs])
  rcases hstands.form.slash hx with ⟨hjoin, rfl⟩ | ⟨kind, w, hkind, hne, htext⟩
  · rw [List.append_nil] at hn
    refine ⟨ys, x, ⟨⟨zs, hxs⟩, by omega, ?_⟩, hjoin⟩
    rcases hjoin.2 with hchars | hchars
    · have hfeed : x.chars = ['\\'] ++ '\n' :: [] := hchars
      have hbyte := getElem?_source (by decide) hsource hxs hfeed
      have hlength : utf8Length x.chars = 2 := by rw [hchars]; rfl
      rw [utf8Length_append] at hbyte
      rcases hn with rfl | ⟨-, hreturn⟩
      · omega
      · exact absurd (hreturn.symm.trans hbyte) (by decide)
    · have hlength : utf8Length x.chars = 3 := by rw [hchars]; rfl
      omega
  · have hnext := next?_of_kind hkind hne (Progress.start.after ys)
    exact absurd (covers_of_text hnext htext) (hfree _ (mem_ofLexemes_iff.mpr (.inl ⟨ys, x, zs, hxs, hnext⟩)))

theorem pending_of_depth (hjoined : Joined xs none) (hnest : nest [] xs = some []) (hxs : xs = ys ++ x :: zs) :
    depth ((ofLexemes xs).filter (·.start.byte < utf8Length (spelling ys))) =
      (Progress.start.after ys).pending.length := by
  subst hxs
  rw [nest_append] at hnest
  obtain ⟨stack, hstack, -⟩ := Option.bind_eq_some_iff.mp hnest
  have hbrackets : (Progress.start.after ys).brackets = stack := Progress.brackets_after_nest hstack
  rw [filter_ofLexemes fun y hy => ?_, Progress.depth_tokens hstack, ← hbrackets, Progress.brackets, List.length_map]
  obtain ⟨next, hstands⟩ := hjoined.stands y (List.mem_append_left _ hy)
  exact hstands.chars_ne_nil

theorem next?_feed {p : Progress} (h : p.pending = []) : p.next? .feed = some (p.token .newline ['\n']) := by
  simp [Progress.next?, Progress.token?, Lexeme.feed, h]

theorem nil_of_chars_feed (h : feed.chars = a ++ '\n' :: b) : a = [] :=
  (eq_of_split List.not_mem_nil h).symm

theorem endsLine_iff (hsource : spelling xs = source.toList) (hjoined : Joined xs none)
    (hnest : nest [] xs = some []) (hxs : xs = ys ++ x :: zs) (hx : x.chars = a ++ '\n' :: b) :
    EndsLine (Utf8.encode source) (ofLexemes xs) (utf8Length (spelling ys ++ a)) ↔
      x = .feed ∧ (Progress.start.after ys).pending = [] := by
  have hdepth := pending_of_depth hjoined hnest hxs
  have ha (h : x = .feed) : a = [] := nil_of_chars_feed (h ▸ hx)
  constructor
  · intro h
    obtain ⟨next, hstands⟩ := hjoined.stands x (by simp [hxs])
    rcases hstands.form.feed_of_mem (by simp [hx]) with hjoin | hfeed | ⟨value, text, rfl⟩
    · exact absurd (continues_of_isJoin hsource hxs hjoin hx) h.join
    · refine ⟨hfeed, ?_⟩
      have houtside := h.outside
      rw [ha hfeed, List.append_nil, hdepth] at houtside
      exact List.eq_nil_of_length_eq_zero houtside
    · have hnext := next?_of_kind (x := ⟨some (.string value), text, []⟩) rfl nofun (Progress.start.after ys)
      rw [chars, List.append_nil] at hx
      exact absurd (covers_of_text hnext hx)
        (h.string _ (mem_ofLexemes_iff.mpr (.inl ⟨ys, _, zs, hxs, hnext⟩)) rfl)
  · rintro ⟨hfeed, hpending⟩
    have hholds := Holds.of_chars hxs hx
    refine ⟨getElem?_source (by decide) hsource hxs hx, fun t ht hstring hcovers => ?_, fun hcontinues => ?_, ?_⟩
    · have hnext := next?_of_covers hholds ht hcovers
      rw [hfeed, next?_feed hpending] at hnext
      obtain rfl := Option.some.inj hnext
      cases hstring
    · obtain ⟨us, y, hy, hjoin⟩ := isJoin_of_continues hsource hjoined hcontinues
      obtain ⟨-, rfl⟩ := hholds.unique hy
      rw [hfeed] at hjoin
      cases hjoin.1
    · rw [ha hfeed, List.append_nil, hdepth, hpending]
      rfl

end Token

namespace Token

def Kind.symbol : Kind → Option Char
  | .opening b => some b.opening
  | .closing b => some b.closing
  | .newline => some '\n'
  | _ => none

end Token

namespace Lexeme

open Token

variable {x : Lexeme} {next : Option Char}

theorem Form.text_of_symbol {kind : Kind} {c : Char} (h : x.Form next) (hc : kind.symbol = some c)
    (hx : x.kind = some kind) : x = ⟨some kind, [c], []⟩ := by
  cases h with
  | code hkind _ _ _ => rcases hkind with rfl | rfl | rfl <;> cases hx <;> cases hc
  | _ => cases hx <;> cases hc <;> rfl

theorem read_symbol {kind : Kind} {c : Char} (hc : kind.symbol = some c) (rest : List Char) :
    read c rest = .ok ⟨some kind, [c], []⟩ := by
  cases kind <;> cases hc
  · exact read_bracket rest ((bracket?_iff _ _).mpr ⟨_, .inl ⟨rfl, rfl⟩⟩)
  · exact read_bracket rest ((bracket?_iff _ _).mpr ⟨_, .inr ⟨rfl, rfl⟩⟩)
  · exact read_feed rest

theorem Stands.symbol_iff {kind : Kind} {c : Char} (h : x.Stands next) (hc : kind.symbol = some c) :
    x.kind = some kind ↔ x.text = [c] := by
  constructor
  · intro hx
    rw [h.form.text_of_symbol hc hx]
  · intro htext
    obtain ⟨d, r, hx, hread⟩ := h
    rw [chars, htext] at hx
    obtain ⟨rfl, -⟩ := List.cons.inj hx
    rw [read_symbol hc] at hread
    rw [← Except.ok.inj hread]

end Lexeme

namespace Token

open Lexeme

variable {source : String} {xs ys zs : List Lexeme} {x : Lexeme} {t : Token} {n : Nat}

theorem brackets_append (ts us : List Token) : brackets (ts ++ us) = brackets ts ++ brackets us := by
  simp [brackets]

theorem brackets_next? (p : Progress) (x : Lexeme) :
    brackets (p.next? x).toList = x.kind.toList.filter Kind.isBracket := by
  cases hnext : p.next? x with
  | some t =>
    rw [(Progress.next?_eq_some hnext).1]
    rfl
  | none =>
    cases hx : x.kind with
    | none => rfl
    | some kind =>
      by_cases hkind : kind = .newline
      · subst hkind
        rfl
      · rw [next?_of_kind hx hkind] at hnext
        cases hnext

theorem brackets_ofLexemes (xs : List Lexeme) : brackets (ofLexemes xs) = Lexeme.brackets xs := by
  have htokens (p : Progress) : brackets (p.tokens xs) = Lexeme.brackets xs := by
    induction xs generalizing p with
    | nil => rfl
    | cons x xs ih => rw [Progress.tokens, brackets_append, brackets_next?, ih, Lexeme.brackets_cons]
  rw [ofLexemes, brackets_append, htokens]
  exact List.append_nil _

theorem symbol_iff (hjoined : Joined xs none) (ht : t ∈ ofLexemes xs) {kind : Kind} {c : Char}
    (hc : kind.symbol = some c) : t.kind = kind ↔ t.text.toList = [c] := by
  rcases mem_ofLexemes_iff.mp ht with ⟨ys, x, zs, hxs, hx⟩ | rfl
  · obtain ⟨next, hstands⟩ := hjoined.stands x (by simp [hxs])
    obtain ⟨hkind, htoken⟩ := Progress.next?_eq_some hx
    have htext : t.text.toList = x.text := by
      rw [htoken]
      exact String.toList_ofList
    have hsymbol := hstands.symbol_iff hc
    rwa [hkind, Option.some_inj, ← htext] at hsymbol
  · refine iff_of_false ?_ (by simp [Progress.token])
    rintro rfl
    cases hc

theorem newline_iff (hjoined : Joined xs none) : (∃ t ∈ ofLexemes xs, t.kind = .newline ∧ t.start.byte = n) ↔
    ∃ ys zs, xs = ys ++ .feed :: zs ∧ (Progress.start.after ys).pending = [] ∧ utf8Length (spelling ys) = n := by
  constructor
  · rintro ⟨t, ht, hkind, rfl⟩
    rcases mem_ofLexemes_iff.mp ht with ⟨ys, x, zs, hxs, hx⟩ | rfl
    · obtain ⟨next, hstands⟩ := hjoined.stands x (by simp [hxs])
      obtain rfl : x = .feed := hstands.form.text_of_symbol rfl (hkind ▸ (Progress.next?_eq_some hx).1)
      have hpending := List.map_eq_nil_iff.mp (Progress.pending_of_newline hx hkind)
      exact ⟨ys, zs, hxs, hpending, (byte_of_next? hx).symm⟩
    · cases hkind
  · rintro ⟨ys, zs, hxs, hpending, rfl⟩
    have hnext := next?_feed hpending
    exact ⟨_, mem_ofLexemes_iff.mpr (.inl ⟨ys, _, zs, hxs, hnext⟩), rfl, byte_of_next? hnext⟩

theorem newline_iff_endsLine (hsource : spelling xs = source.toList) (hjoined : Joined xs none)
    (hnest : nest [] xs = some []) :
    (∃ t ∈ ofLexemes xs, t.kind = .newline ∧ t.start.byte = n) ↔
      EndsLine (Utf8.encode source) (ofLexemes xs) n := by
  rw [newline_iff hjoined]
  constructor
  · rintro ⟨ys, zs, hxs, hpending, rfl⟩
    have hends := (endsLine_iff (a := []) hsource hjoined hnest hxs rfl).mpr ⟨rfl, hpending⟩
    rwa [List.append_nil] at hends
  · intro h
    obtain ⟨front, rest, hfront, rfl⟩ := (Utf8.getElem?_bytes_iff (a := '\n') (by decide)).mp h.feed
    rw [← hsource] at hfront
    obtain ⟨ys, x, zs, a, b, hxs, hx, rfl⟩ := exists_of_spelling hfront
    obtain ⟨rfl, hpending⟩ := (endsLine_iff hsource hjoined hnest hxs hx).mp h
    rw [nil_of_chars_feed hx, List.append_nil]
    exact ⟨ys, zs, hxs, hpending, rfl⟩

/-- What brackets do to the tokens of a file. -/
structure Bracketed (bytes : List UInt8) (ts : List Token) : Prop where
  nested : Nested (brackets ts)
  symbol : ∀ t ∈ ts, ∀ kind c, Kind.symbol kind = some c → (t.kind = kind ↔ t.text.toList = [c])
  ordered : (ts.filter (·.kind = .newline)).Pairwise (·.start.byte < ·.start.byte)
  newline : ∀ n, (∃ t ∈ ts, t.kind = .newline ∧ t.start.byte = n) ↔ EndsLine bytes ts n

theorem bracketed_of_source {ts : List Token} (h : ofSource source = .ok ts) :
    Bracketed (Utf8.encode source) ts := by
  have htiles := (tiles_of_source h).2.pairwise
  obtain ⟨xs, hsource, hjoined, hnest, rfl⟩ := lexemes_of_scan h
  change Bracketed _ (ofLexemes xs)
  refine ⟨?_, fun t ht kind c hc => symbol_iff hjoined ht hc, ?_, fun n => newline_iff_endsLine hsource hjoined hnest⟩
  · rw [brackets_ofLexemes]
    exact nested_of_nest hnest
  · refine (htiles.filter _).imp_of_mem fun {t u} ht hu htu => ?_
    obtain ⟨ht, hkind⟩ := List.mem_filter.mp ht
    have htext := (symbol_iff hjoined ht rfl).mp (of_decide_eq_true hkind)
    rw [stop_eq, htext] at htu
    exact htu

theorem brackets_of_source (source : String) :
    (∀ ts, ofSource source = .ok ts → Bracketed (Utf8.encode source) ts) ∧
      ∀ e, (ofSource source = .error e ∧ e.fault.isNesting = true) ↔ Misnested source e :=
  ⟨fun _ => bracketed_of_source, fun _ =>
    ⟨fun h => misnested_of_source h.1 h.2, fun h => ⟨source_of_misnested h, isNesting_of_misnested h⟩⟩⟩

def spreadTokens : List Token := [
  ⟨"", .ident, "f", ⟨0, 1, 0⟩⟩,
  ⟨"", .opening .round, "(", ⟨1, 1, 1⟩⟩,
  ⟨"", .string "(\n", "'''(\n'''", ⟨2, 1, 2⟩⟩,
  ⟨"", .operator, ",", ⟨10, 2, 3⟩⟩,
  ⟨" \\\n", .opening .square, "[", ⟨14, 3, 0⟩⟩,
  ⟨"", .closing .square, "]", ⟨15, 3, 1⟩⟩,
  ⟨"\n", .closing .round, ")", ⟨17, 4, 0⟩⟩,
  ⟨"", .newline, "\n", ⟨18, 4, 1⟩⟩,
  ⟨"", .endOfText, "", ⟨19, 5, 0⟩⟩]

theorem brackets_of_source_spread :
    (ofSource "f('''(\n''', \\\n[]\n)\n" = .ok spreadTokens ∧
        Bracketed (Utf8.encode "f('''(\n''', \\\n[]\n)\n") spreadTokens) ∧
      Misnested "f(\n]" ⟨2, 1, .mismatchedClosing .square .round⟩ := by
  have h : ofSource "f('''(\n''', \\\n[]\n)\n" = .ok spreadTokens := by decide +kernel
  have hfails : ofSource "f(\n]" = .error ⟨2, 1, .mismatchedClosing .square .round⟩ := by decide +kernel
  exact ⟨⟨h, (brackets_of_source _).1 _ h⟩, ((brackets_of_source _).2 _).mp ⟨hfails, rfl⟩⟩

end Token

end BuildSync
