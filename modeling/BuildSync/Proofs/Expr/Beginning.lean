import BuildSync.Proofs.Expr.Local
import BuildSync.Proofs.Expr.Reads

/-!
What the first token of an expression can be, and that none begins as a named argument does.
-/

namespace BuildSync

open Reading

theorem Token.Begins.mono {m n : Nat} {t : Token} (h : t.Begins n) (hle : m ≤ n) : t.Begins m :=
  { h with
    negation := fun hn => hle.trans (h.negation hn)
    sign := fun hk => hle.trans (h.sign hk) }

namespace Reading

variable {e lhs : Expr} {level : Level} {c d : Cursor} {fuel : Nat}

theorem token?_eq_none {accept : Token → Bool} (h : token? accept c = .done none d) : d = c := by
  rw [token?_eq] at h
  split_ifs at h
  · obtain ⟨_, _, -, h⟩ := bind_done_iff.mp h
    cases h
  · cases h
    rfl

theorem token?_eq_some {accept : Token → Bool} {t : Token} (h : token? accept c = .done (some t) d) :
    accept t = true ∧ c.rest = t :: d.rest ∧ t.isComment = false := by
  rw [token?_eq] at h
  split_ifs at h with haccept
  · obtain ⟨u, c', hu, h⟩ := bind_done_iff.mp h
    cases h
    obtain ⟨hrest, hcomment, -⟩ := token_eq_done hu
    rw [hrest, List.find?_cons_of_pos (by simp [hcomment])] at haccept
    exact ⟨haccept, hrest, hcomment⟩
  · cases h

theorem begins_operand {line : Nat} {ts : List Token} (h : operand fuel ⟨line, ts⟩ = .done e d) :
    Expr.BeginsAt .access ts := by
  cases fuel with
  | zero => cases h
  | succ fuel =>
    obtain ⟨t, c, ht, h⟩ := bind_done_iff.mp h
    obtain ⟨hrest, hcomment, -⟩ := token_eq_done ht
    have hother {kind : Token.Kind} (hkind : t.kind = kind) :
        kind ≠ .operator ∧ ∀ b, kind ≠ .closing b := by
      rw [hkind] at h
      refine ⟨?_, fun b => ?_⟩ <;> rintro rfl <;> cases h
    have hnot : t.isKeyword "not" = false := by
      by_contra hk
      obtain ⟨hkind, htext⟩ : t.kind = .ident ∧ t.text = "not" := by simpa [Token.isKeyword] using hk
      have hname : isName t = false := by simp [isName, hkind, htext, reserved]
      simp only [hkind, hname, Bool.false_eq_true, if_false] at h
      cases h
    have hop := (hother rfl).1
    refine ⟨t, c.rest, hrest, ?_⟩
    exact {
      comment := hcomment
      closing := fun b => by simpa [closing] using (hother rfl).2 b
      equals := by simp [Token.isOperator, hop]
      negation := by simp [hnot]
      sign := fun hk => absurd hk hop }

theorem begins_access {line : Nat} {ts : List Token} (h : expr fuel .access ⟨line, ts⟩ = .done e d) :
    Expr.BeginsAt .access ts := by
  cases fuel with
  | zero => cases h
  | succ fuel =>
    obtain ⟨base, c, hbase, -⟩ := bind_done_iff.mp h
    exact begins_operand hbase

theorem begins_expr {line : Nat} {ts : List Token} (h : expr fuel level ⟨line, ts⟩ = .done e d) :
    Expr.BeginsAt .disjunction ts := by
  induction fuel generalizing level e d with
  | zero => cases h
  | succ fuel ih =>
    by_cases hbin : level ∈ Level.binary
    · rw [expr_binary hbin] at h
      obtain ⟨lhs, c, hlhs, -⟩ := bind_done_iff.mp h
      exact ih hlhs
    have hprefix {t : Token} {us : List Token} (hts : ts = t :: us) (hcomment : t.isComment = false)
        (hkind : ∀ b, t.kind ≠ .closing b) (hequals : t.isOperator "=" = false) :
        Expr.BeginsAt .disjunction ts :=
      ⟨t, us, hts, hcomment, fun b => by simpa [closing] using hkind b, hequals,
        fun _ => Nat.zero_le _, fun _ => Nat.zero_le _⟩
    cases level with
    | negation =>
      obtain ⟨o, c, ho, h⟩ := bind_done_iff.mp h
      cases o with
      | some t =>
        obtain ⟨hnot, hts, hcomment⟩ := token?_eq_some ho
        have hkind : t.kind = .ident := by simpa using (Bool.and_eq_true_iff.mp hnot).1
        exact hprefix hts hcomment (by simp [hkind]) (by simp [Token.isOperator, hkind])
      | none =>
        rw [token?_eq_none ho] at h
        exact ih h
    | sign =>
      obtain ⟨o, c, ho, h⟩ := bind_done_iff.mp h
      cases o with
      | some t =>
        obtain ⟨hsign, hts, hcomment⟩ := token?_eq_some ho
        obtain ⟨hkind, htext⟩ : t.kind = .operator ∧ t.text ∈ ["-", "+", "~"] := by
          simpa only [Bool.and_eq_true, beq_iff_eq, decide_eq_true_eq] using hsign
        refine hprefix hts hcomment (by simp [hkind]) ?_
        have hne : t.text ≠ "=" := fun heq => absurd (heq ▸ htext) (by decide)
        simp [Token.isOperator, hne]
      | none =>
        rw [token?_eq_none ho] at h
        exact ih h
    | access =>
      obtain ⟨t, us, hts, ht⟩ := begins_access h
      exact ⟨t, us, hts, ht.mono (Nat.zero_le _)⟩
    | _ => exact absurd (by decide) hbin

section

variable {u : Token} (hu : c.rest.find? (!·.isComment) = some u) (hequals : u.isOperator "=" = true)

include hu

theorem token?_rejects {accept : Token → Bool} (h : accept u = false) : token? accept c = .done none c := by
  rw [token?_eq, hu, Option.any_some, h]
  rfl

include hequals

theorem operations_assigned : operations (fuel + 1) level lhs c = .done lhs c := by
  obtain ⟨hkind, htext⟩ : u.kind = .operator ∧ u.text = "=" := by simpa [Token.isOperator] using hequals
  have hop (next : Option Token) : level.operator? u next = none := by
    rw [Level.operator?_symbol hkind, htext, if_neg]
    cases level <;> decide
  obtain ⟨second, hahead⟩ := ahead_first c
  have : operator? level c = .done none c := by
    rw [operator?, bind_done hahead, hu]
    simp only [Option.bind_some, hop]
    rfl
  rw [operations, bind_done this]
  rfl

theorem accesses_assigned : accesses (fuel + 1) lhs c = .done lhs c := by
  obtain ⟨hkind, htext⟩ : u.kind = .operator ∧ u.text = "=" := by simpa [Token.isOperator] using hequals
  rw [accesses, bind_done (token?_rejects hu (by simp [opening, hkind]))]
  simp only [Option.isSome_none, Bool.false_eq_true, if_false]
  rw [bind_done (token?_rejects hu (by simp [opening, hkind]))]
  simp only [Option.isSome_none, Bool.false_eq_true, if_false]
  rw [bind_done (token?_rejects hu (by simp [symbol, Token.isOperator, htext]))]
  rfl

end

theorem expr_assigned {line : Nat} {t u : Token} {us : List Token} (ht : t.kind = .ident)
    (hu : us.find? (!·.isComment) = some u) (hequals : u.isOperator "=" = true)
    (h : expr fuel level ⟨line, t :: us⟩ = .done e d) : d.rest = us := by
  have hcomment : t.isComment = false := by simp [Token.isComment, ht]
  induction fuel generalizing level e d with
  | zero => cases h
  | succ fuel ih =>
    by_cases hbin : level ∈ Level.binary
    · rw [expr_binary hbin] at h
      obtain ⟨lhs, c, hlhs, h⟩ := bind_done_iff.mp h
      have hrest := ih hlhs
      cases fuel with
      | zero => cases h
      | succ fuel =>
        rw [operations_assigned (hrest ▸ hu) hequals] at h
        cases h
        exact hrest
    cases level with
    | negation =>
      obtain ⟨o, c, ho, hnext⟩ := bind_done_iff.mp h
      cases o with
      | some t =>
        obtain ⟨-, hts, -⟩ := token?_eq_some ho
        obtain ⟨operand, _, hoperand, -⟩ := bind_done_iff.mp hnext
        obtain ⟨v, vs, hvs, hv⟩ := begins_expr hoperand
        rw [(List.cons.inj hts).2, hvs, List.find?_cons_of_pos (by simp [hv.comment])] at hu
        cases hu
        rw [hv.equals] at hequals
        cases hequals
      | none =>
        rw [token?_eq_none ho] at hnext
        exact ih hnext
    | sign =>
      rw [expr, bind_done (token?_none (by rintro _ ⟨⟩; exact ⟨hcomment, by simp [ht]⟩) _)] at h
      exact ih h
    | access =>
      obtain ⟨base, c, hbase, h⟩ := bind_done_iff.mp h
      cases fuel with
      | zero => cases hbase
      | succ fuel =>
        rw [operand, bind_done (token_cons hcomment _ _)] at hbase
        simp only [ht] at hbase
        split_ifs at hbase
        · cases hbase
          rw [accesses_assigned hu hequals] at h
          cases h
          rfl
        · cases hbase
    | _ => exact absurd (by decide) hbin

end Reading
end BuildSync
