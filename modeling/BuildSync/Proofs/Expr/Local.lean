import BuildSync.Proofs.Expr.Clear
import BuildSync.Proofs.Expr.Sound

/-!
Steps in front of more tokens. A step goes on there as it does without them, as long as it has a token
of its own ahead. Where it has none it can only stop, and leaves behind it a stub, from which nothing
is read that asks for more.
-/

namespace BuildSync

namespace Token

def Stub (ts : List Token) : Prop := ∀ t ∈ ts, t.isComment = true ∨ t.isKeyword "not" = true

def lastLine (line : Nat) (ts : List Token) : Nat :=
  ts.foldl (fun line t => if t.isComment then line else t.endLine) line

theorem lastLine_append (line : Nat) (ts us : List Token) :
    lastLine line (ts ++ us) = lastLine (lastLine line ts) us :=
  List.foldl_append

theorem lastLine_comments {ts : List Token} (h : ∀ t ∈ ts, t.isComment = true) (line : Nat) :
    lastLine line ts = line := by
  induction ts with
  | nil => rfl
  | cons t ts ih =>
    obtain ⟨ht, hts⟩ := List.forall_mem_cons.mp h
    rw [lastLine, List.foldl_cons, if_pos ht]
    exact ih hts

theorem lastLine_singleton {t : Token} (h : t.isComment = false) (line : Nat) : lastLine line [t] = t.endLine := by
  simp [lastLine, h]

theorem Stub.of_suffix {ts us : List Token} (h : Stub ts) (hsuffix : us <:+ ts) : Stub us :=
  fun t ht => h t (hsuffix.subset ht)

end Token

open Token

def Cursor.Passes (c d : Cursor) : Prop :=
  ∃ read, c.rest = read ++ d.rest ∧ d.line = lastLine c.line read

theorem Cursor.Passes.refl (c : Cursor) : c.Passes c := ⟨[], rfl, rfl⟩

theorem Cursor.Passes.trans {c d e : Cursor} (h : c.Passes d) (h' : d.Passes e) : c.Passes e := by
  obtain ⟨read, hc, hline⟩ := h
  obtain ⟨read', hd, hline'⟩ := h'
  exact ⟨read ++ read', by rw [hc, hd, List.append_assoc], by rw [hline', hline, lastLine_append]⟩

theorem Cursor.Passes.suffix {c d : Cursor} (h : c.Passes d) : d.rest <:+ c.rest := by
  obtain ⟨read, hc, -⟩ := h
  exact ⟨read, hc.symm⟩

def Cursor.before (c : Cursor) (more : List Token) : Cursor := ⟨c.line, c.rest ++ more⟩

namespace Reading

variable {α β : Type} {more : List Token} {tight tight' : Prop}

def Local (more : List Token) (tight : Prop) (r : Reading α) : Prop :=
  ∀ c v d, r c = .done v d → c.Passes d ∧ (r (c.before more) = .done v (d.before more) ∨ ¬tight ∧ Stub d.rest)

def Fails (r : Reading α) : Prop := ∀ c, Stub c.rest → ∀ v d, r c ≠ .done v d

theorem Local.mono {r : Reading α} (h : Local more tight r) (ht : tight' → tight) : Local more tight' r := by
  intro c v d hr
  obtain ⟨hpasses, hsame | ⟨hloose, hstub⟩⟩ := h c v d hr
  · exact ⟨hpasses, .inl hsame⟩
  · exact ⟨hpasses, .inr ⟨fun h => hloose (ht h), hstub⟩⟩

theorem local_pure (v : α) : Local more tight (Pure.pure v) := by
  rintro c _ _ ⟨⟩
  exact ⟨.refl c, .inl rfl⟩

theorem local_unsupported : Local more tight (unsupported : Reading α) := nofun

theorem local_exhausted : Local more tight (exhausted : Reading α) := nofun

theorem fails_exhausted : Fails (exhausted : Reading α) := nofun

theorem Local.followed {r : Reading α} {f : α → Reading β} (h : Local more tight' r)
    (hf : ∀ v, Local more tight (f v)) (htight : (tight → tight') ∨ ∀ v, Fails (f v)) :
    Local more tight (r >>= f) := by
  intro c w d hw
  obtain ⟨v, e, hv, hw⟩ := bind_done_iff.mp hw
  obtain ⟨hpasses, hr⟩ := h c v e hv
  obtain ⟨hpasses', hf⟩ := hf v e w d hw
  refine ⟨hpasses.trans hpasses', ?_⟩
  rcases hr with hr | ⟨hloose, hstub⟩
  · exact hf.imp_left fun hf => bind_done_iff.mpr ⟨v, _, hr, hf⟩
  -- The first step has left a stub, on which what follows may not be done at all.
  rcases htight with htight | hfails
  · exact .inr ⟨fun h => hloose (htight h), hstub.of_suffix hpasses'.suffix⟩
  · exact absurd hw (hfails v e hstub w d)

theorem Local.bind {r : Reading α} {f : α → Reading β} (h : Local more tight r)
    (hf : ∀ v, Local more tight (f v)) : Local more tight (r >>= f) :=
  h.followed hf (.inl id)

theorem Local.closed {r : Reading α} {f : α → Reading β} (h : Local more tight' r)
    (hf : ∀ v, Local more tight (f v)) (hfails : ∀ v, Fails (f v)) : Local more tight (r >>= f) :=
  h.followed hf (.inr hfails)

theorem Fails.bind {r : Reading α} (h : Fails r) (f : α → Reading β) : Fails (r >>= f) := by
  intro c hc w d hw
  obtain ⟨v, e, hv, -⟩ := bind_done_iff.mp hw
  exact h c hc v e hv

theorem Fails.after {r : Reading α} {f : α → Reading β} (hf : ∀ v, Fails (f v)) (h : Local [] tight r) :
    Fails (r >>= f) := by
  intro c hc w d hw
  obtain ⟨v, e, hv, hw⟩ := bind_done_iff.mp hw
  exact hf v e (hc.of_suffix (h c v e hv).1.suffix) w d hw

theorem local_token : Local more tight token := by
  rintro ⟨line, ts⟩ t ⟨line', us⟩ h
  obtain ⟨rfl, ht, rfl⟩ := token_eq_done h
  exact ⟨⟨[t], rfl, (lastLine_singleton ht line).symm⟩, .inl (token_cons ht line (us ++ more))⟩

theorem local_expect (accept : Token → Bool) : Local more tight (expect accept) := by
  apply local_token.bind
  intro t
  split_ifs
  · exact local_pure _
  · exact local_unsupported

def Sober (accept : Token → Bool) : Prop := ∀ t, t.isKeyword "not" = true → accept t = false

theorem sober_closing (b : Bracket) : Sober (closing b) := fun t ht => by
  have : t.kind = .ident := by simpa using (Bool.and_eq_true_iff.mp ht).1
  simp [closing, this]

theorem sober_symbol (op : String) : Sober (symbol op) := fun t ht => by
  have : t.kind = .ident := by simpa using (Bool.and_eq_true_iff.mp ht).1
  simp [symbol, Token.isOperator, this]

theorem fails_expect {accept : Token → Bool} (h : Sober accept) : Fails (expect accept) := by
  intro c hc v d hv
  obtain ⟨t, e, ht, hv⟩ := bind_done_iff.mp hv
  obtain ⟨hrest, hcomment, -⟩ := token_eq_done ht
  rcases hc t (by rw [hrest]; exact List.mem_cons_self) with hnot | hnot
  · rw [hcomment] at hnot
    cases hnot
  · rw [h t hnot] at hv
    cases hv

theorem stub_comments {ts : List Token} (h : ∀ t ∈ ts, t.isComment = true) : Stub ts := fun t ht => .inl (h t ht)

theorem local_comments : Local more False comments := by
  rintro ⟨line, ts⟩ v d ⟨⟩
  have hcomments : ∀ t ∈ ts.takeWhile Token.isComment, t.isComment = true := fun t ht =>
    List.all_eq_true.mp List.all_takeWhile t ht
  refine ⟨⟨_, List.takeWhile_append_dropWhile.symm, (lastLine_comments hcomments line).symm⟩, ?_⟩
  cases hdrop : ts.dropWhile Token.isComment with
  | nil => exact .inr ⟨id, nofun⟩
  | cons t us =>
    left
    have hts : ts = ts.takeWhile Token.isComment ++ t :: us := by
      rw [← hdrop, List.takeWhile_append_dropWhile]
    have ht : t.isComment = false := by
      have := List.head?_dropWhile_not Token.isComment ts
      rw [hdrop] at this
      simpa using this
    generalize ts.takeWhile Token.isComment = cs at hts hcomments
    subst hts
    have happend (rest : List Token) :
        comments ⟨line, cs ++ t :: rest⟩ = .done (cs.map Token.text) ⟨line, t :: rest⟩ :=
      comments_append hcomments (by simpa using ht) line
    rw [Cursor.before, List.append_assoc, List.cons_append, happend (us ++ more)]
    rfl

theorem local_suffix? : Local more False suffix? := by
  rintro ⟨line, ts⟩ v d h
  cases ts with
  | nil =>
    cases h
    exact ⟨.refl _, .inr ⟨id, nofun⟩⟩
  | cons t ts =>
    unfold suffix? at h
    dsimp only at h
    split_ifs at h with ht
    · cases h
      have hcomment := (Bool.and_eq_true_iff.mp ht).1
      refine ⟨⟨[t], rfl, (lastLine_comments (by simpa using hcomment) line).symm⟩, .inl ?_⟩
      simp [suffix?, Cursor.before, ht]
    · cases h
      refine ⟨.refl _, .inl ?_⟩
      simp [suffix?, Cursor.before, ht]

theorem local_suffixAfter? (before : Option String) : Local more False (suffixAfter? before) := by
  cases before with
  | some text => exact local_pure _
  | none => exact local_suffix?

theorem ahead_first (c : Cursor) : ∃ second, ahead c = .done (c.rest.find? (!·.isComment), second) c := by
  rw [List.find?_not_eq_head?_dropWhile]
  unfold ahead
  cases c.rest.dropWhile Token.isComment <;> exact ⟨_, rfl⟩

theorem find?_before (c : Cursor) : (c.before more).rest.find? (!·.isComment) =
    (c.rest.find? (!·.isComment)).or (more.find? (!·.isComment)) :=
  List.find?_append

theorem token?_eq (accept : Token → Bool) (c : Cursor) :
    token? accept c =
      if (c.rest.find? (!·.isComment)).any accept then (some <$> token) c else .done none c := by
  obtain ⟨second, hahead⟩ := ahead_first c
  rw [token?, bind_done hahead]
  split_ifs <;> rfl

theorem token?_before (more : List Token) {accept : Token → Bool} {c d : Cursor} {o : Option Token}
    (h : token? accept c = .done o d) : c.Passes d ∧ (token? accept (c.before more) = .done o (d.before more) ∨
      o = none ∧ d = c ∧ c.rest.find? (!·.isComment) = none) := by
  have hlocal : Local more True (some <$> token) := local_token.bind (f := Pure.pure ∘ some) fun t => local_pure _
  rw [token?_eq] at h ⊢
  rw [find?_before]
  cases hc : c.rest.find? (!·.isComment) with
  | none =>
    rw [hc] at h
    cases h
    exact ⟨.refl _, .inr ⟨rfl, rfl, rfl⟩⟩
  | some t =>
    rw [hc] at h
    rw [Option.some_or]
    split_ifs at h ⊢
    · obtain ⟨hpasses, hsame | hloose⟩ := hlocal c o d h
      · exact ⟨hpasses, .inl hsame⟩
      · exact absurd trivial hloose.1
    · cases h
      exact ⟨.refl _, .inl rfl⟩

theorem stub_of_find?_none {ts : List Token} (h : ts.find? (!·.isComment) = none) : Stub ts := fun t ht => by
  have := List.find?_eq_none.mp h t ht
  exact .inl (by simpa using this)

theorem local_token? {accept : Token → Bool}
    (h : tight → ∀ t ∈ more.find? (!·.isComment), accept t = false) : Local more tight (token? accept) := by
  intro c o d hd
  obtain ⟨hpasses, hsame | ⟨rfl, rfl, hnone⟩⟩ := token?_before more hd
  · exact ⟨hpasses, .inl hsame⟩
  refine ⟨hpasses, ?_⟩
  by_cases ht : tight
  · left
    have hno : (more.find? (!·.isComment)).any accept = false := by
      cases hmore : more.find? (!·.isComment) with
      | none => rfl
      | some t => exact h ht t hmore
    rw [token?_eq, find?_before, hnone, Option.none_or, hno]
    rfl
  · exact .inr ⟨ht, stub_of_find?_none hnone⟩

theorem Local.found {accept : Token → Bool} {f : Option Token → Reading β}
    (hf : ∀ o, Local more tight (f o)) (hfails : Fails (f none)) : Local more tight (token? accept >>= f) := by
  intro c w d h
  obtain ⟨o, e, ho, hw⟩ := bind_done_iff.mp h
  obtain ⟨hpasses, hsame | ⟨rfl, rfl, hnone⟩⟩ := token?_before more ho
  · obtain ⟨hpasses', hf⟩ := hf o e w d hw
    exact ⟨hpasses.trans hpasses', hf.imp_left fun hf => bind_done_iff.mpr ⟨o, _, hsame, hf⟩⟩
  · exact absurd hw (hfails _ (stub_of_find?_none hnone) w d)

theorem Fails.missed {accept : Token → Bool} {f : Option Token → Reading β} (hs : Sober accept)
    (hf : Fails (f none)) : Fails (token? accept >>= f) := by
  intro c hc w d hw
  obtain ⟨o, e, ho, hw⟩ := bind_done_iff.mp hw
  have hno : (c.rest.find? (!·.isComment)).any accept = false := by
    cases hfind : c.rest.find? (!·.isComment) with
    | none => rfl
    | some t =>
      have hcomment : t.isComment = false := by simpa using List.find?_some hfind
      have hnot := (hc t (List.mem_of_find?_eq_some hfind)).resolve_left (by simp [hcomment])
      exact hs t hnot
  rw [token?_eq, hno] at ho
  cases ho
  exact hf _ hc w d hw

theorem ahead_none {c : Cursor} (h : c.rest.dropWhile Token.isComment = []) : ahead c = .done (none, none) c := by
  unfold ahead
  rw [h]

theorem ahead_some {c : Cursor} {t : Token} {ts : List Token} (h : c.rest.dropWhile Token.isComment = t :: ts) :
    ahead c = .done (some t, ts.find? (!·.isComment)) c := by
  unfold ahead
  rw [h]

theorem comments_of_dropWhile {ts : List Token} (h : ts.dropWhile Token.isComment = []) :
    ∀ t ∈ ts, t.isComment = true :=
  List.dropWhile_eq_nil_iff.mp h

theorem dropWhile_before (more : List Token) (c : Cursor) : (c.before more).rest.dropWhile Token.isComment =
    if c.rest.dropWhile Token.isComment = [] then more.dropWhile Token.isComment
    else c.rest.dropWhile Token.isComment ++ more := by
  rw [Cursor.before, List.dropWhile_append]
  simp [List.isEmpty_iff]

variable {n : Nat}

theorem operator?_next {level : Level} {t : Token} (ht : t.isKeyword "not" = false) (o p : Option Token) :
    level.operator? t o = level.operator? t p := by
  simp [Level.operator?, ht]

theorem operator?_not {level : Level} {t : Token} (ht : t.isKeyword "not" = true) :
    level.operator? t none = none := by
  obtain ⟨hk, htext⟩ : t.kind = .ident ∧ t.text = "not" := by simpa [Token.isKeyword] using ht
  have hwords : "not" ∉ level.words := by cases level <;> decide
  simp [Level.operator?, hk, htext, hwords]

theorem operator?_not_some {level : Level} {t u : Token} {next : Option Token} (ht : t.isKeyword "not" = true)
    (hu : level.operator? u next = none) : level.operator? t (some u) = none := by
  obtain ⟨hk, htext⟩ : t.kind = .ident ∧ t.text = "not" := by simpa [Token.isKeyword] using ht
  have hwords : "not" ∉ level.words := by cases level <;> decide
  have hboth : "not in" ∈ level.words → "in" ∈ level.words := by cases level <;> decide
  have hno : u.isKeyword "in" = true → "not in" ∉ level.words := by
    intro hin hmem
    obtain ⟨hk, htext⟩ : u.kind = .ident ∧ u.text = "in" := by simpa [Token.isKeyword] using hin
    simp [Level.operator?, hk, htext, hboth hmem] at hu
  simpa [Level.operator?, hk, htext, hwords] using fun _ : t.isKeyword "not" = true => hno

theorem stub_append {ts us : List Token} (h : Stub ts) (h' : Stub us) : Stub (ts ++ us) :=
  List.forall_mem_append.mpr ⟨h, h'⟩

theorem operator?_before (hmore : Clear n (more.dropWhile Token.isComment)) {c : Cursor} {t : Token}
    {ts : List Token} (hc : c.rest.dropWhile Token.isComment = t :: ts) (level : Level) :
    level.operator? t ((ts ++ more).find? (!·.isComment)) = level.operator? t (ts.find? (!·.isComment)) ∨
      level.operator? t (ts.find? (!·.isComment)) = none ∧ ¬n ≤ level.rank ∧ Stub c.rest := by
  rw [List.find?_append]
  cases hts : ts.find? (!·.isComment) with
  | some u => exact .inl (by rw [Option.some_or])
  | none =>
    rw [Option.none_or]
    cases hnot : t.isKeyword "not" with
    | false => exact .inl (operator?_next hnot _ _)
    | true =>
      rw [operator?_not hnot]
      by_cases hn : n ≤ level.rank
      · left
        rw [List.find?_not_eq_head?_dropWhile]
        cases hdrop : more.dropWhile Token.isComment with
        | nil => exact operator?_not hnot
        | cons u us =>
          rw [hdrop] at hmore
          exact operator?_not_some hnot ((hmore u rfl).operator level hn)
      · refine .inr ⟨rfl, hn, ?_⟩
        have hrest : c.rest = c.rest.takeWhile Token.isComment ++ t :: ts := by
          rw [← hc, List.takeWhile_append_dropWhile]
        rw [hrest]
        refine stub_append (stub_comments fun u hu => List.all_eq_true.mp List.all_takeWhile u hu) ?_
        exact List.forall_mem_cons.mpr ⟨.inr hnot, stub_of_find?_none hts⟩

theorem local_operator? (hmore : Clear n (more.dropWhile Token.isComment)) (level : Level) :
    Local more (n ≤ level.rank) (operator? level) := by
  intro c o d h
  have hbefore := dropWhile_before more c
  cases hc : c.rest.dropWhile Token.isComment with
  | nil =>
    rw [if_pos hc] at hbefore
    rw [operator?, bind_done (ahead_none hc)] at h
    cases h
    refine ⟨.refl c, ?_⟩
    by_cases hn : n ≤ level.rank
    · left
      cases hdrop : more.dropWhile Token.isComment with
      | nil =>
        rw [operator?, bind_done (ahead_none (hbefore.trans hdrop))]
        rfl
      | cons u us =>
        rw [hdrop] at hmore
        have hnone := (hmore u rfl).operator level hn
        rw [operator?, bind_done (ahead_some (hbefore.trans hdrop))]
        simp only [Option.bind_some]
        rw [List.tail_cons] at hnone
        rw [hnone]
        rfl
    · exact .inr ⟨hn, stub_comments (comments_of_dropWhile hc)⟩
  | cons t ts =>
    rw [hc, if_neg (List.cons_ne_nil t ts), List.cons_append] at hbefore
    rw [operator?, bind_done (ahead_some hc)] at h
    rw [operator?, bind_done (ahead_some hbefore)]
    simp only [Option.bind_some] at h ⊢
    rcases operator?_before hmore hc level with hsame | ⟨hnone, hn, hstub⟩
    · rw [hsame]
      cases hop : level.operator? t (ts.find? (!·.isComment)) with
      | none =>
        rw [hop] at h
        cases h
        exact ⟨.refl c, .inl rfl⟩
      | some op =>
        rw [hop] at h
        have htaken : Local more (n ≤ level.rank) (token >>= fun _ => if op = "not in" then
            (token >>= fun _ => (Pure.pure (some op) : Reading (Option String))) else Pure.pure (some op)) := by
          apply local_token.bind
          intro _
          split_ifs
          · exact local_token.bind fun _ => local_pure _
          · exact local_pure _
        exact htaken c o d h
    · rw [hnone] at h
      cases h
      exact ⟨.refl c, .inr ⟨hn, hstub⟩⟩

theorem equals_of_clear (hmore : Clear n (more.dropWhile Token.isComment)) :
    (more.find? (!·.isComment)).any (·.isOperator "=") = false := by
  rw [List.find?_not_eq_head?_dropWhile]
  cases hdrop : more.dropWhile Token.isComment with
  | nil => rfl
  | cons u us =>
    rw [hdrop] at hmore
    exact (hmore u rfl).equals

theorem local_argumentLabel (hmore : Clear n (more.dropWhile Token.isComment)) :
    Local more False argumentLabel := by
  intro c label d h
  have hbefore := dropWhile_before more c
  cases hc : c.rest.dropWhile Token.isComment with
  | nil =>
    rw [argumentLabel, bind_done (ahead_none hc)] at h
    cases h
    exact ⟨.refl c, .inr ⟨id, stub_comments (comments_of_dropWhile hc)⟩⟩
  | cons t ts =>
    rw [hc, if_neg (List.cons_ne_nil t ts), List.cons_append] at hbefore
    have hsecond : ((ts ++ more).find? (!·.isComment)).any (·.isOperator "=") =
        (ts.find? (!·.isComment)).any (·.isOperator "=") := by
      rw [List.find?_append]
      cases ts.find? (!·.isComment) with
      | some u => rfl
      | none => exact equals_of_clear hmore
    rw [argumentLabel, bind_done (ahead_some hc)] at h
    rw [argumentLabel, bind_done (ahead_some hbefore)]
    dsimp only at h ⊢
    rw [hsecond]
    have hrest : Local more False (if ((some t).any (·.kind == .ident) &&
        (ts.find? (!·.isComment)).any (·.isOperator "=")) = true then
        (token >>= fun name => expect (symbol "=") >>= fun _ => (Pure.pure (Label.name name.text) : Reading Label))
        else Pure.pure Label.bare) := by
      split_ifs
      · exact local_token.bind fun name => (local_expect _).bind fun _ => local_pure _
      · exact local_pure _
    exact hrest c label d h

theorem string_of_clear (hmore : Clear n (more.dropWhile Token.isComment)) :
    (more.find? (!·.isComment)).any Token.isString = false := by
  rw [List.find?_not_eq_head?_dropWhile]
  cases hdrop : more.dropWhile Token.isComment with
  | nil => rfl
  | cons u us =>
    rw [hdrop] at hmore
    exact (hmore u rfl).string

theorem Local.unlessString (hmore : Clear n (more.dropWhile Token.isComment)) {r : Reading β}
    (h : Local more tight r) :
    Local more tight (ahead >>= fun x => if x.1.any Token.isString then unsupported else r) := by
  intro c v d hv
  obtain ⟨second, hahead⟩ := ahead_first c
  obtain ⟨second', hahead'⟩ := ahead_first (c.before more)
  rw [bind_done hahead] at hv
  rw [bind_done hahead', find?_before]
  have hsame : ((c.rest.find? (!·.isComment)).or (more.find? (!·.isComment))).any Token.isString =
      (c.rest.find? (!·.isComment)).any Token.isString := by
    cases c.rest.find? (!·.isComment) with
    | some t => rfl
    | none => exact string_of_clear hmore
  dsimp only at hv ⊢
  rw [hsame]
  split_ifs at hv ⊢
  · cases hv
  · exact h c v d hv

theorem clear_access (hmore : Clear n (more.dropWhile Token.isComment)) (hn : n ≤ Level.access.rank) :
    ∀ t ∈ more.find? (!·.isComment), opening .round t = false ∧ opening .square t = false ∧ symbol "." t = false := by
  intro t ht
  rw [List.find?_not_eq_head?_dropWhile, Option.mem_def] at ht
  exact (hmore t ht).access hn

end Reading
end BuildSync
