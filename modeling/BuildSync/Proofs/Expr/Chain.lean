import BuildSync.Proofs.Expr.Postfix
import BuildSync.Proofs.Expr.RoundTrip

/-!
Operands with binary operators between them are read as the one tree that the operators group them
into.
-/

namespace BuildSync

open BuildSync.Expr

inductive Token.Joins : String → List Token → Prop
  | word {op : String} {t : Token} (hop : op ∈ ["or", "and", "in"]) (ht : t.isKeyword op = true) :
      Joins op [t]
  | notIn {t u : Token} (ht : t.isKeyword "not" = true) (hu : u.isKeyword "in" = true) :
      Joins "not in" [t, u]
  | symbol {op : String} {t : Token} (hop : op ∈ binaryOperators)
      (hword : op ∉ ["or", "and", "in", "not in"]) (ht : t.isOperator op = true) : Joins op [t]

structure Infix where
  op : String
  tokens : List Token
  joins : Token.Joins op tokens

structure Operand where
  tokens : List Token
  value : Expr
  single : value.Postfix
  reads : Expr.ofTokens? tokens = some value

structure Chain where
  first : Operand
  rest : List (Infix × Operand)

namespace Chain

def tokens (c : Chain) : List Token := c.first.tokens ++ c.rest.flatMap fun x => x.1.tokens ++ x.2.tokens

def reading (c : Chain) : Expr × List (String × Expr) :=
  (c.first.value, c.rest.map fun x => (x.1.op, x.2.value))

end Chain

namespace Token.Joins

variable {op : String} {ts : List Token}

theorem mem (h : Joins op ts) : op ∈ binaryOperators := by
  cases h with
  | word hop =>
    have hall : ∀ op ∈ ["or", "and", "in"], op ∈ binaryOperators := by decide
    exact hall op hop
  | notIn => decide
  | symbol hop => exact hop

theorem joint (h : Joins op ts) : ∃ t js, ts = t :: js ∧ Joint (.ofOperator op) op t js := by
  have hlevel := (rank_ofOperator h.mem).1
  cases h with
  | @word _ t hop ht =>
    obtain ⟨hkind, htext⟩ : t.kind = .ident ∧ t.text = op := by simpa [isKeyword] using ht
    refine ⟨t, [], rfl, Level.joint_word hlevel ?_ hop hkind htext⟩
    rintro rfl
    exact absurd hop (by decide)
  | @notIn t u ht hu =>
    obtain ⟨hkind, htext⟩ : t.kind = .ident ∧ t.text = "not" := by simpa [isKeyword] using ht
    obtain ⟨hukind, hutext⟩ : u.kind = .ident ∧ u.text = "in" := by simpa [isKeyword] using hu
    refine ⟨t, [u], rfl, ?_⟩
    have hcomparison : "not in" ∈ Level.comparison.operators := by decide
    rw [Level.ofOperator_eq hcomparison]
    exact Level.joint_notIn hkind htext hukind hutext
  | @symbol _ t hop hword ht =>
    obtain ⟨hkind, htext⟩ : t.kind = .operator ∧ t.text = op := by simpa [isOperator] using ht
    simp only [List.mem_cons, List.not_mem_nil, or_false, not_or] at hword
    exact ⟨t, [], rfl, Level.joint_symbol hlevel hword.2.2.2 (by simp [hword]) hkind htext⟩

end Token.Joins

theorem Level.tighter_ne_access {level : Level} (h : level ∈ binary) : level.tighter ≠ access := by
  revert h
  cases level <;> decide

namespace Chain

variable {c : Chain} {e : Expr} {op : String}

theorem level_of_inorder (hread : e.inorder = c.reading) :
    e.top? = none ∧ e.level = .access ∨
      ∃ o ∈ binaryOperators, e.top? = some o ∧ e.level = .ofOperator o := by
  cases htop : e.top? with
  | none =>
    rw [inorder_operand htop, reading, Prod.mk.injEq] at hread
    exact .inl ⟨rfl, hread.1 ▸ c.first.single.level_eq⟩
  | some o =>
    obtain ⟨lhs, rhs, rfl⟩ : ∃ lhs rhs, e = .binary o lhs rhs := by
      cases e <;> cases htop
      exact ⟨_, _, rfl⟩
    rw [inorder, reading, Prod.mk.injEq] at hread
    have hmem : (o, rhs.inorder.1) ∈ c.rest.map fun x => (x.1.op, x.2.value) := by
      rw [← hread.2]
      simp
    obtain ⟨x, -, hx⟩ := List.mem_map.mp hmem
    obtain ⟨rfl, -⟩ := Prod.mk.inj hx
    exact .inr ⟨x.1.op, x.1.joins.mem, rfl, rfl⟩

theorem rank_le_level (hread : e.inorder = c.reading) (hop : op ∈ binaryOperators)
    (h : ∀ o ∈ e.top?, tightness op ≤ tightness o) : (Level.ofOperator op).rank ≤ e.level.rank := by
  rcases level_of_inorder hread with ⟨-, hlevel⟩ | ⟨o, ho, htop, hlevel⟩ <;> rw [hlevel]
  · exact Level.rank_le _
  · exact (tightness_le_iff hop ho).mp (h o htop)

theorem rank_lt_level (hread : e.inorder = c.reading) (hop : op ∈ binaryOperators)
    (h : ∀ o ∈ e.top?, tightness op < tightness o) : (Level.ofOperator op).rank < e.level.rank := by
  rcases level_of_inorder hread with ⟨-, hlevel⟩ | ⟨o, ho, htop, hlevel⟩ <;> rw [hlevel]
  · have hne := Level.ne_access_of_mem (rank_ofOperator hop).1
    exact lt_of_le_of_ne (Level.rank_le _) fun heq => hne (Level.rank_inj heq)
  · exact Nat.not_le.mp fun hle => Nat.not_le.mpr (h o htop) ((tightness_le_iff ho hop).mpr hle)

theorem leadsOver (he : e.Grouped) (hread : e.inorder = c.reading) :
    BeginsAt e.level c.tokens ∧
      ∀ level : Level, level.rank ≤ e.level.rank → level ≠ .access → e.LeadsOver c.tokens level := by
  induction he generalizing c with
  | @operand e htop =>
    obtain ⟨a, rest⟩ := c
    rw [inorder_operand htop, reading, Prod.mk.injEq] at hread
    obtain ⟨rfl, hrest⟩ := hread
    obtain rfl := List.map_eq_nil_iff.mp hrest.symm
    have hfirst : BeginsAt a.value.level a.tokens := by
      rw [a.single.level_eq]
      exact a.single.beginsAt a.reads
    rw [tokens, List.flatMap_nil, List.append_nil]
    refine ⟨hfirst, fun level hl hne => (a.single.leadsOver a.reads).of_le ?_ hfirst ?_⟩
    · rw [a.single.level_eq]
      decide
    · have := Level.rank_tighter hne
      have := level.tighter.rank_le
      change _ ≤ 10
      omega
  | @binary op lhs rhs _ _ hleft hright ihl ihr =>
    obtain ⟨first, rest⟩ := c
    rw [inorder, reading, Prod.mk.injEq] at hread
    obtain ⟨hfirst, hrest⟩ := hread
    obtain ⟨before, others, rfl, hbefore, hothers⟩ := List.map_eq_append_iff.mp hrest.symm
    obtain ⟨⟨j, a⟩, after, rfl, hj, hafter⟩ := List.map_eq_cons_iff.mp hothers
    obtain ⟨rfl, ha⟩ := Prod.mk.inj hj
    have hl : lhs.inorder = (⟨first, before⟩ : Chain).reading := Prod.ext hfirst hbefore.symm
    have hr : rhs.inorder = (⟨a, after⟩ : Chain).reading := Prod.ext ha.symm hafter.symm
    obtain ⟨t, js, hjs, hjoint⟩ := j.joins.joint
    have htokens : (⟨first, before ++ (j, a) :: after⟩ : Chain).tokens =
        (⟨first, before⟩ : Chain).tokens ++ (t :: js ++ (⟨a, after⟩ : Chain).tokens) := by
      simp [tokens, hjs]
    have hmem := (rank_ofOperator j.joins.mem).1
    have hne := Level.ne_access_of_mem hmem
    have hle := rank_le_level hl j.joins.mem hleft
    have hlt := Nat.succ_le_of_lt (rank_lt_level hr j.joins.mem hright)
    have hnext := Level.tighter_ne_access (Level.mem_binary hmem)
    obtain ⟨u, us, hu, hbegins⟩ := (ihl hl).1
    have hfirst : BeginsAt (Level.ofOperator j.op) ((⟨first, before⟩ : Chain).tokens ++
        (t :: js ++ (⟨a, after⟩ : Chain).tokens)) :=
      ⟨u, _, by rw [hu]; rfl, hbegins.mono hle⟩
    rw [htokens]
    refine ⟨hfirst, fun level hlevel _ => LeadsOver.of_le ?_ (Nat.le_refl _) hfirst hlevel⟩
    exact .binary hmem hjoint ((ihl hl).2 _ hle hne)
      ((ihr hr).2 _ ((Level.rank_tighter hne).trans_le hlt) hnext)

theorem ofTokens?_tokens (he : e.Grouped) (hread : e.inorder = c.reading) :
    Expr.ofTokens? c.tokens = some e :=
  ((leadsOver he hread).2 .disjunction (Nat.zero_le _) (by decide)).ofTokens?

theorem existsUnique_grouped (c : Chain) : ∃! e : Expr, e.Grouped ∧ e.inorder = c.reading := by
  obtain ⟨e, he⟩ := exists_grouped c.first.value (c.rest.map fun x => (x.1.op, x.2.value))
    c.first.single.top? (by
      intro x hx
      obtain ⟨y, -, rfl⟩ := List.mem_map.mp hx
      exact y.2.single.top?)
  refine ⟨e, he, fun e' he' => ?_⟩
  have := (ofTokens?_tokens he'.1 he'.2).symm.trans (ofTokens?_tokens he.1 he.2)
  exact Option.some.inj this

theorem ofTokens?_tokens_iff {c : Chain} {e : Expr} :
    Expr.ofTokens? c.tokens = some e ↔ e.Grouped ∧ e.inorder = c.reading := by
  constructor
  · intro h
    obtain ⟨e', he', -⟩ := c.existsUnique_grouped
    rw [ofTokens?_tokens he'.1 he'.2] at h
    cases h
    exact he'
  · exact fun h => ofTokens?_tokens h.1 h.2

end Chain
end BuildSync
