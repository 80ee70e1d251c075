import BuildSync.Proofs.Expr.Reads

namespace BuildSync

def Token.Spelled (t : Token) : Prop := t.kind ≠ .endOfText → Token.Spells t.kind t.text

theorem Token.Spelled.notIn {t : Token} (h : t.Spelled) : t.isKeyword "not in" = false := by
  rw [← Bool.not_eq_true, isKeyword, Bool.and_eq_true, beq_iff_eq, beq_iff_eq]
  rintro ⟨hkind, htext⟩
  have hword := h (by simp [hkind])
  rw [hkind, htext] at hword
  exact absurd hword.identifier (by decide)

namespace Reading

def Yields {α : Type} (r : Reading α) (Q : α → Prop) : Prop :=
  ∀ c v c', (∀ t ∈ c.rest, t.Spelled) → r c = .done v c' → Q v ∧ ∀ t ∈ c'.rest, t.Spelled

section

variable {α β : Type} {P Q : α → Prop}

theorem yields_pure {v : α} (h : Q v) : Yields (Pure.pure v) Q := by
  rintro c _ _ hc ⟨⟩
  exact ⟨h, hc⟩

theorem yields_unsupported : Yields (unsupported : Reading α) Q := nofun

theorem yields_exhausted : Yields (exhausted : Reading α) Q := nofun

theorem Yields.mono {r : Reading α} (h : Yields r P) (hPQ : ∀ v, P v → Q v) : Yields r Q :=
  fun c v c' hc hr => ⟨hPQ v (h c v c' hc hr).1, (h c v c' hc hr).2⟩

theorem Yields.bind {r : Reading α} {f : α → Reading β} {R : β → Prop} (hr : Yields r P)
    (hf : ∀ v, P v → Yields (f v) R) : Yields (r >>= f) R := by
  intro c v c' hc h
  obtain ⟨u, d, hu, h⟩ := bind_done_iff.mp h
  obtain ⟨hP, hd⟩ := hr c u d hc hu
  exact hf u hP d v c' hd h

end

theorem bind_unsupported {α β : Type} {r : Reading α} {f : α → Reading β} {c : Cursor}
    (h : r c = .unsupported) : (r >>= f) c = .unsupported := by
  change Reading.bind r f c = _
  rw [Reading.bind, h]

theorem yields_ahead : Yields ahead fun _ => True := by
  intro c v c' hc h
  unfold ahead at h
  split at h <;> cases h <;> exact ⟨trivial, hc⟩

theorem yields_token : Yields token fun t => t.Spelled ∧ t.isComment = false := by
  intro c t c' hc h
  obtain ⟨hcons, ht, -⟩ := token_eq_done h
  rw [hcons] at hc
  obtain ⟨hspelled, hrest⟩ := List.forall_mem_cons.mp hc
  exact ⟨⟨hspelled, ht⟩, hrest⟩

theorem ahead_done (c : Cursor) : ∃ x, ahead c = .done x c := by
  unfold ahead
  split <;> exact ⟨_, rfl⟩

theorem token_comment {t : Token} (ht : t.isComment = true) (line : Nat) (rest : List Token) :
    token ⟨line, t :: rest⟩ = .unsupported := by
  simp [token, ht]

theorem token?_comment {accept : Token → Bool} {t : Token} (ht : t.isComment = true) (line : Nat)
    (rest : List Token) : token? accept ⟨line, t :: rest⟩ = .unsupported ∨
      token? accept ⟨line, t :: rest⟩ = .done none ⟨line, t :: rest⟩ := by
  obtain ⟨x, hx⟩ := ahead_done ⟨line, t :: rest⟩
  rw [token?, bind_done hx]
  split_ifs
  · exact .inl (bind_unsupported (f := Pure.pure ∘ some) (token_comment ht line rest))
  · exact .inr rfl

theorem yields_token? (accept : Token → Bool) :
    Yields (token? accept) fun o => ∀ t ∈ o, t.Spelled ∧ accept t = true := by
  rintro ⟨line, rest⟩ v c' hc h
  cases rest with
  | nil =>
    cases h
    exact ⟨nofun, hc⟩
  | cons t rest =>
    obtain ⟨hspelled, hrest⟩ := List.forall_mem_cons.mp hc
    cases ht : t.isComment with
    | true =>
      rcases token?_comment ht line rest with h' | h' <;> rw [h'] at h <;> cases h
      exact ⟨nofun, hc⟩
    | false =>
      cases ha : accept t with
      | true =>
        rw [token?_cons ht ha] at h
        cases h
        exact ⟨by rintro _ ⟨⟩; exact ⟨hspelled, ha⟩, hrest⟩
      | false =>
        rw [token?_none (by rintro _ ⟨⟩; exact ⟨ht, ha⟩)] at h
        cases h
        exact ⟨nofun, hc⟩

theorem yields_expect (accept : Token → Bool) : Yields (expect accept) fun _ => True := by
  refine yields_token.bind fun t _ => ?_
  split_ifs
  · exact yields_pure trivial
  · exact yields_unsupported

theorem remark_of_spelled {t : Token} (h : t.Spelled) (ht : t.isComment = true) : Remark t.text := by
  have hk : t.kind = .comment := by simpa [Token.isComment] using ht
  have := h (by rw [hk]; decide)
  rw [hk] at this
  exact this.remark

theorem yields_comments : Yields comments fun cs => ∀ c ∈ cs, Remark c := by
  rintro ⟨line, rest⟩ v c' hc ⟨⟩
  refine ⟨?_, fun t ht => hc t ((List.dropWhile_sublist _).subset ht)⟩
  intro c hmem
  obtain ⟨t, ht, rfl⟩ := List.mem_map.mp hmem
  exact remark_of_spelled (hc t ((List.takeWhile_sublist _).subset ht))
    (List.all_eq_true.mp List.all_takeWhile t ht)

theorem yields_suffix? : Yields suffix? fun s => ∀ c ∈ s, Remark c := by
  intro c v c' hc h
  rcases suffix?_cases c with hnone | ⟨t, rest, hcons, ht, hsome⟩
  · cases hnone.symm.trans h
    exact ⟨nofun, hc⟩
  · cases hsome.symm.trans h
    rw [hcons] at hc
    obtain ⟨hspelled, hrest⟩ := List.forall_mem_cons.mp hc
    exact ⟨by rintro _ ⟨⟩; exact remark_of_spelled hspelled ht, hrest⟩

theorem yields_suffixAfter? {s : Option String} (h : ∀ c ∈ s, Remark c) :
    Yields (suffixAfter? s) fun s => ∀ c ∈ s, Remark c := by
  cases s with
  | some c => exact yields_pure h
  | none => exact yields_suffix?

theorem mem_operators {level : Level} {t : Token} {next : Option Token} {op : String}
    (h : level.operator? t next = some op) : op ∈ level.operators := by
  unfold Level.operator? at h
  split_ifs at h with hs hw hn
  · cases h
    exact List.mem_append_left _ (of_decide_eq_true (Bool.and_eq_true_iff.mp hs).2)
  · cases h
    exact List.mem_append_right _ (of_decide_eq_true (Bool.and_eq_true_iff.mp hw).2)
  · cases h
    exact List.mem_append_right _ (of_decide_eq_true (Bool.and_eq_true_iff.mp hn).2)

theorem yields_operator? (level : Level) :
    Yields (operator? level) fun o => ∀ op ∈ o, op ∈ level.operators := by
  refine yields_ahead.bind fun x _ => ?_
  obtain ⟨first, second⟩ := x
  dsimp only
  split
  · exact yields_pure nofun
  · rename_i op hop
    obtain ⟨t, -, ht⟩ := Option.bind_eq_some_iff.mp hop
    have hmem : ∀ o ∈ some op, o ∈ level.operators := by
      rintro _ ⟨⟩
      exact mem_operators ht
    refine yields_token.bind fun _ _ => ?_
    split_ifs
    · exact yields_token.bind fun _ _ => yields_pure hmem
    · exact yields_pure hmem

theorem yields_argumentLabel : Yields argumentLabel (Label.Suits .round) := by
  rintro ⟨line, rest⟩ v c' hc h
  cases rest with
  | nil =>
    cases h
    exact ⟨trivial, hc⟩
  | cons t rest =>
    obtain ⟨hspelled, hrest⟩ := List.forall_mem_cons.mp hc
    cases ht : t.isComment with
    | true =>
      obtain ⟨x, hx⟩ := ahead_done ⟨line, t :: rest⟩
      rw [argumentLabel, bind_done hx] at h
      dsimp only at h
      split_ifs at h
      · rw [bind_unsupported (token_comment ht line rest)] at h
        cases h
      · cases h
        exact ⟨trivial, hc⟩
    | false =>
      rw [argumentLabel, bind_done (ahead_cons ht line rest)] at h
      dsimp only at h
      split_ifs at h with hcond
      · have hk : t.kind = .ident := by simpa using (Bool.and_eq_true_iff.mp hcond).1
        have hname := hspelled (by rw [hk]; decide)
        rw [hk] at hname
        rw [bind_done (token_cons ht line rest)] at h
        have hlabel : (Label.name t.text).Suits .round := hname.identifier
        exact ((yields_expect (symbol "=")).bind fun _ _ => yields_pure hlabel) _ v c' hrest h
      · cases h
        exact ⟨trivial, hc⟩

def FitsIn (b : Bracket) (x : Label × Expr) : Prop :=
  x.1.Suits b ∧ x.2.Fits false ∧ ∀ k, x.1 = .key k → k.Fits false

theorem yields_sequence {item : Reading (Label × Expr)} {b : Bracket} (h : Yields item (FitsIn b))
    (fuel : Nat) :
    Yields (sequence item b fuel) fun s => s.Framed b ∧ ∀ i ∈ s.items, i.All (Expr.Fits false) := by
  induction fuel with
  | zero => exact yields_exhausted
  | succ fuel ih =>
    refine yields_comments.bind fun comments hcomments => (yields_token? _).bind fun close _ => ?_
    split_ifs
    · exact yields_pure ⟨⟨nofun, nofun, nofun, hcomments⟩, nofun⟩
    · refine h.bind fun x hx => ?_
      obtain ⟨label, value⟩ := x
      obtain ⟨hlabel, hvalue, hkey⟩ := hx
      refine yields_suffix?.bind fun before hbefore => (yields_token? _).bind fun comma _ => ?_
      split_ifs
      · refine (yields_suffixAfter? hbefore).bind fun suffix hsuffix => ih.bind fun others hothers => ?_
        obtain ⟨hframed, hfits⟩ := hothers
        refine yields_pure ⟨⟨?_, ?_, ?_, hframed.trailing⟩, ?_⟩
        · exact List.forall_mem_cons.mpr ⟨hlabel, hframed.labels⟩
        · exact List.forall_mem_cons.mpr ⟨hcomments, hframed.comments⟩
        · exact List.forall_mem_cons.mpr ⟨hsuffix, hframed.suffixes⟩
        · exact List.forall_mem_cons.mpr ⟨⟨hvalue, hkey⟩, hfits⟩
      · refine yields_comments.bind fun trailing htrailing => (yields_expect _).bind fun _ _ => ?_
        refine yields_pure ⟨⟨?_, ?_, ?_, htrailing⟩, ?_⟩
        · exact List.forall_mem_singleton.mpr hlabel
        · exact List.forall_mem_singleton.mpr hcomments
        · exact List.forall_mem_singleton.mpr hbefore
        · exact List.forall_mem_singleton.mpr ⟨hvalue, hkey⟩

theorem yields_tupleRest {item : Reading Expr} (h : Yields item (Expr.Fits false)) (fuel : Nat) :
    Yields (tupleRest item fuel) fun es => ∀ e ∈ es, e.Fits false := by
  induction fuel with
  | zero => exact yields_exhausted
  | succ fuel ih =>
    refine (yields_expect _).bind fun _ _ => (yields_token? _).bind fun close _ => ?_
    split_ifs
    · exact yields_pure nofun
    · refine h.bind fun value hvalue => (yields_token? _).bind fun close _ => ?_
      split_ifs
      · exact yields_pure (List.forall_mem_singleton.mpr hvalue)
      · exact ih.bind fun others hothers => yields_pure (List.forall_mem_cons.mpr ⟨hvalue, hothers⟩)

def FitsAt (level : Level) (e : Expr) : Prop := e.Fits false ∧ level.rank ≤ e.level.rank

structure Sound (fuel : Nat) : Prop where
  expr : ∀ level, Yields (expr fuel level) (FitsAt level)
  operations : ∀ level ∈ Level.binary, ∀ lhs, FitsAt level lhs →
    Yields (operations fuel level lhs) (FitsAt level)
  accesses : ∀ base, FitsAt .access base → Yields (accesses fuel base) (FitsAt .access)
  operand : Yields (operand fuel) (FitsAt .access)
  parenthesized : Yields (parenthesized fuel) (FitsAt .access)
  element : Yields (element fuel) (FitsIn .square)
  entry : Yields (entry fuel) (FitsIn .curly)
  argument : Yields (argument fuel) (FitsIn .round)

theorem sound_zero : Sound 0 where
  expr _ := yields_exhausted
  operations _ _ _ _ := yields_exhausted
  accesses _ _ := yields_exhausted
  operand := yields_exhausted
  parenthesized := yields_exhausted
  element := yields_exhausted
  entry := yields_exhausted
  argument := yields_exhausted

namespace Sound

variable {fuel : Nat}

theorem expr_succ (h : Sound fuel) (level : Level) : Yields (Reading.expr (fuel + 1) level) (FitsAt level) := by
  by_cases hbin : level ∈ Level.binary
  · rw [expr_binary hbin]
    refine (h.expr level.tighter).bind fun lhs hlhs => h.operations level hbin lhs ⟨hlhs.1, ?_⟩
    have := hlhs.2
    rw [Level.rank_tighter (by rintro rfl; exact absurd hbin (by decide))] at this
    omega
  cases level with
  | negation =>
    refine (yields_token? _).bind fun word _ => ?_
    split_ifs
    · refine (h.expr .negation).bind fun operand hoperand => yields_pure ⟨.negation hoperand.1 hoperand.2, ?_⟩
      rw [Expr.level_negation]
    · exact (h.expr .comparison).mono fun e he => ⟨he.1, Nat.le_of_succ_le he.2⟩
  | sign =>
    refine (yields_token? _).bind fun op hop => ?_
    cases op with
    | none => exact (h.expr .access).mono fun e he => ⟨he.1, Nat.le_of_succ_le he.2⟩
    | some t =>
      have ht : t.text ∈ Expr.signs := by simpa [Expr.signs] using (Bool.and_eq_true_iff.mp (hop t rfl).2).2
      refine (h.expr .sign).bind fun operand hoperand => yields_pure ⟨.sign ht hoperand.1 hoperand.2, ?_⟩
      rw [Expr.level_sign ht]
  | access => exact h.operand.bind fun base hbase => h.accesses base hbase
  | _ => exact absurd (by decide) hbin

theorem operations_succ (h : Sound fuel) (level : Level) (hbin : level ∈ Level.binary) (lhs : Expr)
    (hlhs : FitsAt level lhs) : Yields (Reading.operations (fuel + 1) level lhs) (FitsAt level) := by
  refine (yields_operator? level).bind fun op hop => ?_
  cases op with
  | none => exact yields_pure hlhs
  | some op =>
    refine (h.expr level.tighter).bind fun rhs hrhs => h.operations level hbin _ ?_
    have hrank := hrhs.2
    rw [Level.rank_tighter (by rintro rfl; exact absurd hbin (by decide))] at hrank
    refine ⟨.binary (hop op rfl) hlhs.1 hlhs.2 hrhs.1 (by omega), ?_⟩
    rw [Expr.level_binary (hop op rfl)]

theorem fitsAt_access {e : Expr} (h : e.Fits false) (hl : e.level = .access) : FitsAt .access e :=
  ⟨h, by rw [hl]⟩

theorem level_eq {e : Expr} (h : FitsAt .access e) : e.level = .access :=
  Level.rank_inj (Nat.le_antisymm e.level.rank_le h.2)

theorem fitsAt_call {callee : Expr} {s : Sequence} (hc : FitsAt .access callee)
    (hs : s.Framed .round ∧ ∀ i ∈ s.items, i.All (Expr.Fits false)) : FitsAt .access (.call callee s) :=
  fitsAt_access (.call hc.1 (level_eq hc) hs.1 fun i hi => (hs.2 i hi).1) rfl

theorem accesses_succ (h : Sound fuel) (base : Expr) (hb : FitsAt .access base) :
    Yields (Reading.accesses (fuel + 1) base) (FitsAt .access) := by
  refine (yields_token? _).bind fun _ _ => ?_
  split_ifs
  · exact (yields_sequence h.argument fuel).bind fun args hargs => h.accesses _ (fitsAt_call hb hargs)
  refine (yields_token? _).bind fun _ _ => ?_
  split_ifs
  · refine (h.expr .disjunction).bind fun index hindex => (yields_expect _).bind fun _ _ => h.accesses _ ?_
    exact fitsAt_access (.index hb.1 (level_eq hb) hindex.1) rfl
  refine (yields_token? _).bind fun _ _ => ?_
  split_ifs
  · refine yields_token.bind fun name hname => ?_
    split_ifs with hisName
    · refine h.accesses _ (fitsAt_access (.dot hb.1 (level_eq hb) nofun ?_ ?_) rfl)
      · have hk : name.kind = .ident := by simpa using (Bool.and_eq_true_iff.mp hisName).1
        have := hname.1 (by rw [hk]; decide)
        rw [hk] at this
        exact this.identifier
      · exact of_decide_eq_true (Bool.and_eq_true_iff.mp hisName).2
    · exact yields_unsupported
  · exact yields_pure hb

theorem operand_succ (h : Sound fuel) : Yields (Reading.operand (fuel + 1)) (FitsAt .access) := by
  refine yields_token.bind fun t ht => ?_
  have hspells (hne : t.kind ≠ .endOfText) : Token.Spells t.kind t.text := ht.1 hne
  split
  · rename_i hk
    rw [hk] at hspells
    split_ifs with hisName
    · exact yields_pure (fitsAt_access
        (.ident (hspells (by decide)).identifier (of_decide_eq_true (Bool.and_eq_true_iff.mp hisName).2)) rfl)
    · exact yields_unsupported
  · rename_i hk
    rw [hk] at hspells
    exact yields_pure (fitsAt_access (.number (hspells (by decide))) rfl)
  · rename_i value hk
    rw [hk] at hspells
    refine yields_ahead.bind fun _ _ => ?_
    split_ifs
    · exact yields_unsupported
    · exact yields_pure (fitsAt_access (.string (hspells (by simp))) rfl)
  · exact (yields_sequence h.element fuel).bind fun s hs =>
      yields_pure (fitsAt_access (.list hs.1 fun i hi => (hs.2 i hi).1) rfl)
  · exact (yields_sequence h.entry fuel).bind fun s hs =>
      yields_pure (fitsAt_access (.dict hs.1 (fun i hi => (hs.2 i hi).2) fun i hi => (hs.2 i hi).1) rfl)
  · exact h.parenthesized
  · exact yields_unsupported

theorem parenthesized_succ (h : Sound fuel) :
    Yields (Reading.parenthesized (fuel + 1)) (FitsAt .access) := by
  refine (yields_token? _).bind fun _ _ => ?_
  split_ifs
  · exact yields_pure (fitsAt_access (.tuple nofun) rfl)
  refine (h.expr .disjunction).bind fun first hfirst => (yields_token? _).bind fun _ _ => ?_
  split_ifs
  · exact yields_pure (fitsAt_access (.paren hfirst.1) rfl)
  · refine (yields_tupleRest ((h.expr .disjunction).mono fun _ he => he.1) fuel).bind fun others hothers => ?_
    exact yields_pure (fitsAt_access (.tuple (List.forall_mem_cons.mpr ⟨hfirst.1, hothers⟩)) rfl)

theorem element_succ (h : Sound fuel) : Yields (Reading.element (fuel + 1)) (FitsIn .square) :=
  (h.expr .disjunction).bind fun _ hvalue => yields_pure ⟨trivial, hvalue.1, nofun⟩

theorem entry_succ (h : Sound fuel) : Yields (Reading.entry (fuel + 1)) (FitsIn .curly) :=
  (h.expr .disjunction).bind fun _ hkey => (yields_expect _).bind fun _ _ =>
    (h.expr .disjunction).bind fun _ hvalue =>
      yields_pure ⟨trivial, hvalue.1, by rintro _ ⟨⟩; exact hkey.1⟩

theorem argument_succ (h : Sound fuel) : Yields (Reading.argument (fuel + 1)) (FitsIn .round) :=
  yields_argumentLabel.bind fun label hlabel => (h.expr .disjunction).bind fun _ hvalue =>
    yields_pure ⟨hlabel, hvalue.1, by rintro k rfl; exact hlabel.elim⟩

theorem succ (h : Sound fuel) : Sound (fuel + 1) where
  expr := h.expr_succ
  operations := h.operations_succ
  accesses := h.accesses_succ
  operand := h.operand_succ
  parenthesized := h.parenthesized_succ
  element := h.element_succ
  entry := h.entry_succ
  argument := h.argument_succ

end Sound

theorem sound (fuel : Nat) : Sound fuel := by
  induction fuel with
  | zero => exact sound_zero
  | succ fuel ih => exact ih.succ

end Reading

theorem Expr.fits_of_ofTokens? {tokens : List Token} {e : Expr} (ht : ∀ t ∈ tokens, t.Spelled)
    (h : ofTokens? tokens = some e) : e.Fits false := by
  obtain ⟨line, hread⟩ := exists_expr_of_ofTokens? h
  exact ((Reading.sound _).expr .disjunction _ _ _ ht hread).1.1

theorem Call.fits_of_ofTokens? {tokens : List Token} {c : Call} (ht : ∀ t ∈ tokens, t.Spelled)
    (h : ofTokens? tokens = some c) :
    (Expr.call c.callee c.args).Fits false ∧ c.callee.dottedName?.isSome = true := by
  unfold ofTokens? at h
  split at h
  · rename_i callee args hexpr
    split_ifs at h with hname
    cases h
    exact ⟨Expr.fits_of_ofTokens? ht hexpr, hname⟩
  · cases h

end BuildSync
