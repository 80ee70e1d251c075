import BuildSync.Proofs.Expr.Sequences

namespace BuildSync

open Reading Lexeme

namespace Level

theorem ne_access_of_lt {a b : Level} (h : a.rank < b.rank) : a ≠ access := by
  rintro rfl
  exact Nat.not_lt.mpr b.rank_le h

def continued (level : Level) (e : Expr) (fuel : Nat) : Reading Expr :=
  match level with
  | .negation | .sign => Pure.pure e
  | .access => accesses fuel e
  | level => operations fuel level e

def enough (level : Level) (tokens : List Token) : Nat := 20 * tokens.length + (16 - level.rank)

theorem enough_tighter {level : Level} (h : level ≠ access) (tokens : List Token) :
    level.enough tokens = level.tighter.enough tokens + 1 := by
  have := rank_tighter h
  have := level.rank_le
  unfold enough
  omega

end Level

namespace Reading

theorem expr_binary {level : Level} (h : level ∈ Level.binary) (fuel : Nat) :
    expr (fuel + 1) level = (expr fuel level.tighter >>= fun lhs => operations fuel level lhs) := by
  simp only [Level.binary, List.mem_cons, List.not_mem_nil, or_false] at h
  rcases h with rfl | rfl | rfl | rfl | rfl | rfl | rfl | rfl | rfl <;> rfl

theorem continued_binary {level : Level} (h : level ∈ Level.binary) (e : Expr) (fuel : Nat) :
    level.continued e fuel = operations fuel level e := by
  simp only [Level.binary, List.mem_cons, List.not_mem_nil, or_false] at h
  rcases h with rfl | rfl | rfl | rfl | rfl | rfl | rfl | rfl | rfl <;> rfl

theorem operator?_none {level : Level} {rest : List Token} (h : Token.Clear level.rank rest) (line : Nat) :
    operator? level ⟨line, rest⟩ = .done none ⟨line, rest⟩ := by
  cases rest with
  | nil => rfl
  | cons t rest =>
    rw [operator?, bind_done (ahead_cons (h t rfl).comment line rest)]
    have := (h t rfl).operator level (Nat.le_refl _)
    simp only [List.tail_cons] at this
    simp only [Option.bind_some, this]
    rfl

theorem operations_stop {level : Level} {rest : List Token} (h : Token.Clear level.rank rest) (e : Expr)
    (fuel line : Nat) : operations (fuel + 1) level e ⟨line, rest⟩ = .done e ⟨line, rest⟩ := by
  rw [operations, bind_done (operator?_none h line)]
  rfl

theorem accesses_stop {rest : List Token} (h : Token.Clear Level.access.rank rest) (e : Expr)
    (fuel line : Nat) : accesses (fuel + 1) e ⟨line, rest⟩ = .done e ⟨line, rest⟩ := by
  have hno {accept : Token → Bool} (ha : ∀ t ∈ rest.head?, accept t = false) :=
    token?_none (fun t ht => ⟨(h t ht).comment, ha t ht⟩) line
  rw [accesses, bind_done (hno fun t ht => ((h t ht).access (Nat.le_refl _)).1)]
  simp only [Option.isSome_none, Bool.false_eq_true, if_false]
  rw [bind_done (hno fun t ht => ((h t ht).access (Nat.le_refl _)).2.1)]
  simp only [Option.isSome_none, Bool.false_eq_true, if_false]
  rw [bind_done (hno fun t ht => ((h t ht).access (Nat.le_refl _)).2.2)]
  rfl

theorem continued_stop {level : Level} {rest : List Token} (h : Token.Clear level.rank rest) (e : Expr)
    {fuel : Nat} (hf : 1 ≤ fuel) (line : Nat) :
    level.continued e fuel ⟨line, rest⟩ = .done e ⟨line, rest⟩ := by
  obtain ⟨fuel, rfl⟩ : ∃ k, fuel = k + 1 := ⟨fuel - 1, by omega⟩
  cases level with
  | negation => rfl
  | sign => rfl
  | access => exact accesses_stop h e fuel line
  | _ => exact operations_stop h e fuel line

theorem expr_looser {level base : Level} {e : Expr} {t : Token} {ts rest : List Token} {fuel line line' : Nat}
    (h : expr fuel level.tighter ⟨line, t :: ts⟩ = .done e ⟨line', rest⟩) (hl : level.rank < base.rank)
    (ht : t.Begins base.rank) :
    expr (fuel + 1) level ⟨line, t :: ts⟩ = level.continued e fuel ⟨line', rest⟩ := by
  have hno (accept : Token → Bool) (ha : accept t = false) :
      token? accept ⟨line, t :: ts⟩ = .done none ⟨line, _⟩ :=
    token?_none (by rintro _ ⟨⟩; exact ⟨ht.comment, ha⟩) line
  by_cases hneg : level = .negation
  · subst hneg
    rw [expr, bind_done (hno (·.isKeyword "not") ?_)]
    · exact h
    · rw [← Bool.not_eq_true]
      exact fun hk => absurd (ht.negation hk) (by simpa using hl)
  by_cases hsign : level = .sign
  · subst hsign
    rw [expr, bind_done (hno (fun t => t.kind == .operator && t.text ∈ ["-", "+", "~"]) ?_)]
    · exact h
    · rw [← Bool.not_eq_true]
      intro hk
      have : t.kind = .operator := by simp_all
      exact absurd (ht.sign this) (by simpa using hl)
  have hne := Level.ne_access_of_lt hl
  have hbin : level ∈ Level.binary := by cases level <;> simp_all [Level.binary]
  rw [expr_binary hbin, bind_done h, continued_binary hbin]

end Reading

namespace Expr

def LeadsOver (e : Expr) (ts : List Token) (level : Level) : Prop :=
  ∀ (line : Nat) (rest : List Token) (fuel : Nat),
    Token.Clear (level.rank + 1) rest → level.enough (ts ++ rest) ≤ fuel →
    ∃ line' fuel', 20 * rest.length + 1 ≤ fuel' ∧
      expr fuel level ⟨line, ts ++ rest⟩ = level.continued e fuel' ⟨line', rest⟩

def BeginsAt (level : Level) (ts : List Token) : Prop := ∃ t us, ts = t :: us ∧ t.Begins level.rank

theorem exists_expr_of_ofTokens? {ts : List Token} {e : Expr} (h : ofTokens? ts = some e) :
    ∃ line, expr (fuel ts) .disjunction ⟨0, ts⟩ = .done e ⟨line, []⟩ := by
  unfold ofTokens? at h
  split at h
  · rename_i e' line hread
    cases h
    exact ⟨line, hread⟩
  · cases h

namespace LeadsOver

variable {e lhs rhs : Expr} {ts us : List Token} {level : Level}

theorem reads (h : e.LeadsOver ts level) (line : Nat) (rest : List Token) (fuel : Nat)
    (hc : Token.Clear level.rank rest) (hf : level.enough (ts ++ rest) ≤ fuel) :
    ∃ line', expr fuel level ⟨line, ts ++ rest⟩ = .done e ⟨line', rest⟩ := by
  obtain ⟨line', fuel', hfuel, h⟩ := h line rest fuel (hc.mono (Nat.le_succ _)) hf
  exact ⟨line', h.trans (continued_stop hc e (by omega) line')⟩

theorem loosen (h : e.LeadsOver ts level.tighter) (hl : level.rank < e.level.rank)
    (hfirst : BeginsAt e.level ts) : e.LeadsOver ts level := by
  intro line rest fuel hc hf
  have hne := Level.ne_access_of_lt hl
  rw [Level.enough_tighter hne] at hf
  obtain ⟨fuel, rfl⟩ : ∃ k, fuel = k + 1 := ⟨fuel - 1, by omega⟩
  rw [← Level.rank_tighter hne] at hc
  obtain ⟨line', hread⟩ := h.reads line rest fuel hc (Nat.le_of_succ_le_succ hf)
  refine ⟨line', fuel, ?_, ?_⟩
  · simp only [Level.enough, List.length_append] at hf
    have := level.tighter.rank_le
    omega
  obtain ⟨t, us, rfl, hb⟩ := hfirst
  exact expr_looser hread hl hb

theorem of_le {base : Level} (h : e.LeadsOver ts base) (hbase : base.rank ≤ e.level.rank)
    (hfirst : BeginsAt e.level ts) (hl : level.rank ≤ base.rank) : e.LeadsOver ts level := by
  obtain ⟨n, hn⟩ : ∃ n, n = base.rank - level.rank := ⟨_, rfl⟩
  induction n generalizing level with
  | zero =>
    have : level = base := Level.rank_inj (by omega)
    rwa [this]
  | succ n ih =>
    have hlt : level.rank < e.level.rank := by omega
    have := Level.rank_tighter (Level.ne_access_of_lt hlt)
    exact (ih (by omega) (by omega)).loosen hlt hfirst

theorem ofTokens? (h : e.LeadsOver ts .disjunction) : Expr.ofTokens? ts = some e := by
  obtain ⟨line, hread⟩ := h.reads 0 [] (fuel ts) (Token.clear_nil _)
    (by simp only [Level.enough, Level.rank, fuel, List.append_nil]; omega)
  rw [List.append_nil] at hread
  rw [Expr.ofTokens?, hread]

end LeadsOver

def LeadsFrom (e : Expr) (xs : List Lexeme) (level : Level) : Prop :=
  ∀ (p : Progress) (line : Nat) (rest : List Token) (fuel : Nat),
    Token.Clear (level.rank + 1) rest → level.enough (p.tokens xs ++ rest) ≤ fuel →
    ∃ line' fuel', 20 * rest.length + 1 ≤ fuel' ∧
      expr fuel level ⟨line, p.tokens xs ++ rest⟩ = level.continued e fuel' ⟨line', rest⟩

def Leads (e : Expr) (level : Level) : Prop :=
  ∀ (depth : Nat) (spread : Bool), e.LeadsFrom (e.lexemes depth spread) level

namespace LeadsFrom

variable {e : Expr} {xs : List Lexeme} {level : Level}

theorem leadsOver (h : e.LeadsFrom xs level) (p : Progress) : e.LeadsOver (p.tokens xs) level := h p

theorem reads (h : e.LeadsFrom xs level) (p : Progress) (line : Nat) (rest : List Token) (fuel : Nat)
    (hc : Token.Clear level.rank rest) (hf : level.enough (p.tokens xs ++ rest) ≤ fuel) :
    ∃ line', expr fuel level ⟨line, p.tokens xs ++ rest⟩ = .done e ⟨line', rest⟩ :=
  (h.leadsOver p).reads line rest fuel hc hf

theorem of_le (h : e.LeadsFrom xs e.level)
    (hfirst : ∀ p : Progress, ∃ t ts, p.tokens xs = t :: ts ∧ t.Begins e.level.rank)
    (hl : level.rank ≤ e.level.rank) : e.LeadsFrom xs level :=
  fun p => (h.leadsOver p).of_le (Nat.le_refl _) (hfirst p) hl

theorem ofTokens? (h : e.LeadsFrom xs e.level)
    (hfirst : ∀ p : Progress, ∃ t ts, p.tokens xs = t :: ts ∧ t.Begins e.level.rank) (p : Progress) :
    Expr.ofTokens? (p.tokens xs) = some e :=
  ((h.leadsOver p).of_le (Nat.le_refl _) (hfirst p) (Nat.zero_le _)).ofTokens?

end LeadsFrom

theorem leads_of_le {e : Expr} (he : e.Fits true) (h : e.Leads e.level) {level : Level}
    (hl : level.rank ≤ e.level.rank) : e.Leads level :=
  fun depth spread => (h depth spread).of_le (tokens_first he depth spread) hl

end Expr
end BuildSync
