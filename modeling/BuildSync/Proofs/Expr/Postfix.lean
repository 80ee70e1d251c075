import BuildSync.Proofs.Expr.Beginning
import BuildSync.Proofs.Expr.Grouping
import BuildSync.Proofs.Expr.Seam

/-!
What is neither unary nor binary is read alike at every level, and by each up to the operator behind
it.
-/

namespace BuildSync

open Reading

theorem Token.Clear.dropWhile {n : Nat} {ts : List Token} (h : Clear n ts) : ts.dropWhile isComment = ts := by
  cases ts with
  | nil => rfl
  | cons t ts => exact List.dropWhile_cons_of_neg (by simp [(h t rfl).comment])

theorem Token.Clear.sign {ts : List Token} (h : Clear Level.access.rank ts) : Clear Level.sign.rank ts := by
  intro t ht
  refine { h t ht with operator := fun level hl => ?_, access := fun _ => (h t ht).access (Nat.le_refl _) }
  rcases Nat.eq_or_lt_of_le hl with heq | hlt
  · rw [← Level.rank_inj heq]
    simp [Level.operator?, Level.symbols, Level.words]
  · exact (h t ht).operator level hlt

namespace Expr

def Postfix : Expr → Prop
  | .unary _ _ => False
  | .binary _ _ _ => False
  | _ => True

variable {e : Expr}

theorem Postfix.top? (h : e.Postfix) : e.top? = none := by
  cases e <;> first | rfl | exact h.elim

theorem Postfix.level_eq (h : e.Postfix) : e.level = .access := by
  cases e <;> first | rfl | exact h.elim

end Expr

namespace Reading

open BuildSync.Expr

variable {e lhs : Expr} {level : Level} {c d : Cursor} {fuel : Nat}

theorem operator?_eq_none (h : operator? level c = .done none d) : d = c := by
  obtain ⟨second, hahead⟩ := ahead_first c
  rw [operator?, bind_done hahead] at h
  dsimp only at h
  cases hop : (c.rest.find? (!·.isComment)).bind (level.operator? · second) with
  | none =>
    rw [hop] at h
    cases h
    rfl
  | some op =>
    rw [hop] at h
    obtain ⟨_, _, -, h⟩ := bind_done_iff.mp h
    split_ifs at h
    · obtain ⟨_, _, -, h⟩ := bind_done_iff.mp h
      cases h
    · cases h

theorem operations_eq_done (h : operations fuel level lhs c = .done e d) :
    e.top?.isSome = true ∨ e = lhs ∧ d = c := by
  induction fuel generalizing lhs c with
  | zero => cases h
  | succ fuel ih =>
    obtain ⟨op, c', hop, h⟩ := bind_done_iff.mp h
    cases op with
    | none =>
      cases h
      exact .inr ⟨rfl, operator?_eq_none hop⟩
    | some op =>
      obtain ⟨rhs, c'', -, h⟩ := bind_done_iff.mp h
      rcases ih h with htop | ⟨rfl, -⟩
      · exact .inl htop
      · exact .inl rfl

theorem expr_tighter (h : expr (fuel + 1) level c = .done e d) (he : e.Postfix) (hl : level ≠ .access) :
    expr fuel level.tighter c = .done e d := by
  by_cases hbin : level ∈ Level.binary
  · rw [expr_binary hbin] at h
    obtain ⟨lhs, c', hlhs, h⟩ := bind_done_iff.mp h
    rcases operations_eq_done h with htop | ⟨rfl, rfl⟩
    · rw [he.top?] at htop
      cases htop
    · exact hlhs
  cases level with
  | negation =>
    obtain ⟨o, c', ho, h⟩ := bind_done_iff.mp h
    cases o with
    | some t =>
      obtain ⟨operand, _, -, h⟩ := bind_done_iff.mp h
      cases h
      exact he.elim
    | none => rwa [token?_eq_none ho] at h
  | sign =>
    obtain ⟨o, c', ho, h⟩ := bind_done_iff.mp h
    cases o with
    | some t =>
      obtain ⟨operand, _, -, h⟩ := bind_done_iff.mp h
      cases h
      exact he.elim
    | none => rwa [token?_eq_none ho] at h
  | access => exact absurd rfl hl
  | _ => exact absurd (by decide) hbin

theorem exists_looser {level : Level} (h : level ≠ .disjunction) : ∃ looser : Level, looser ≠ .access ∧
    looser.tighter = level := by
  have hall : ∃ looser ∈ ([.disjunction, .conjunction, .negation, .sign] ++ Level.binary : List Level),
      looser ≠ .access ∧ looser.tighter = level := by
    revert h
    cases level <;> decide
  obtain ⟨looser, -, hlooser⟩ := hall
  exact ⟨looser, hlooser⟩

theorem expr_at (h : expr fuel .disjunction c = .done e d) (he : e.Postfix) (level : Level) :
    ∃ fuel', expr fuel' level c = .done e d := by
  obtain ⟨n, hn⟩ : ∃ n, n = level.rank := ⟨_, rfl⟩
  induction n generalizing level with
  | zero => exact ⟨fuel, by rwa [Level.rank_inj (a := level) (b := .disjunction) hn.symm]⟩
  | succ n ih =>
    obtain ⟨looser, hne, rfl⟩ : ∃ looser : Level, looser ≠ .access ∧ looser.tighter = level := by
      apply exists_looser
      rintro rfl
      cases hn
    rw [Level.rank_tighter hne] at hn
    obtain ⟨fuel', h⟩ := ih looser (Nat.succ.inj hn)
    cases fuel' with
    | zero => cases h
    | succ fuel' => exact ⟨fuel', expr_tighter h he hne⟩

theorem ofTokens?_of_access {ts : List Token} {line line' : Nat}
    (h : expr fuel .access ⟨line, ts⟩ = .done e ⟨line', []⟩) : Expr.ofTokens? ts = some e := by
  obtain ⟨t, us, rfl, ht⟩ := begins_access h
  have hall (n : Nat) (level : Level) (hn : level.rank + n = Level.access.rank) :
      ∃ fuel', expr fuel' level ⟨line, t :: us⟩ = .done e ⟨line', []⟩ := by
    induction n generalizing level with
    | zero => exact ⟨fuel, by rwa [Level.rank_inj (a := level) (b := .access) hn]⟩
    | succ n ih =>
      have hlt : level.rank < Level.access.rank := by omega
      have htighter := Level.rank_tighter (Level.ne_access_of_lt hlt)
      obtain ⟨fuel', hread⟩ := ih level.tighter (by omega)
      cases fuel' with
      | zero => cases hread
      | succ fuel' =>
        refine ⟨fuel' + 2, (expr_looser hread hlt ht).trans ?_⟩
        exact continued_stop (Token.clear_nil _) e (Nat.le_add_left 1 fuel') line'
  obtain ⟨fuel', hread⟩ := hall Level.access.rank .disjunction (Nat.zero_add _)
  rw [fresh_expr _ _ line 0] at hread
  have henough : Level.disjunction.enough (t :: us) ≤ Expr.fuel (t :: us) := by
    simp only [Level.enough, Level.rank, Expr.fuel]
    omega
  rw [Expr.ofTokens?, expr_of_enough hread henough]

end Reading

namespace Expr

variable {e : Expr} {ts : List Token}

theorem Postfix.beginsAt (he : e.Postfix) (h : ofTokens? ts = some e) : BeginsAt .access ts := by
  obtain ⟨line, hread⟩ := exists_expr_of_ofTokens? h
  obtain ⟨fuel, haccess⟩ := expr_at hread he .access
  exact begins_access haccess

theorem Postfix.leadsOver (he : e.Postfix) (h : ofTokens? ts = some e) : e.LeadsOver ts .sign := by
  intro line rest fuel hc hf
  obtain ⟨end', hread⟩ := exists_expr_of_ofTokens? h
  obtain ⟨fuel', hsign⟩ := expr_at hread he .sign
  have hclear : Token.Clear Level.sign.rank rest := Token.Clear.sign hc
  refine ⟨Token.lastLine line ts, 20 * rest.length + 1, Nat.le_refl _, ?_⟩
  exact expr_before hsign (by rwa [hclear.dropWhile]) hf line

end Expr
end BuildSync
