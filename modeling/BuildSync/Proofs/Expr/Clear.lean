import BuildSync.Proofs.Expr.Steps

namespace BuildSync

open Reading

namespace Token

structure Stops (rank : Nat) (t : Token) (next : Option Token) : Prop where
  comment : t.isComment = false
  string : t.isString = false
  equals : t.isOperator "=" = false
  operator : ∀ level : Level, rank ≤ level.rank → level.operator? t next = none
  access : rank ≤ Level.access.rank →
    opening .round t = false ∧ opening .square t = false ∧ symbol "." t = false

def Clear (rank : Nat) (rest : List Token) : Prop :=
  ∀ t ∈ rest.head?, t.Stops rank (rest.tail.find? (!·.isComment))

theorem Clear.mono {m n : Nat} {rest : List Token} (h : Clear m rest) (hle : m ≤ n) : Clear n rest :=
  fun t ht => { h t ht with
    operator := fun level hl => (h t ht).operator level (hle.trans hl)
    access := fun hl => (h t ht).access (hle.trans hl) }

theorem clear_nil (rank : Nat) : Clear rank [] := by
  intro t ht
  cases ht

theorem clear_closing {t : Token} {b : Bracket} (ht : t.kind = .closing b) (rest : List Token) :
    Clear 0 (t :: rest) := by
  rintro _ ⟨⟩
  exact {
    comment := by simp [isComment, ht]
    string := by simp [isString, ht]
    equals := by simp [isOperator, ht]
    operator := fun level _ => by simp [Level.operator?, isKeyword, ht]
    access := fun _ => by simp [opening, symbol, isOperator, ht] }

theorem not_mem_symbols {level : Level} {text : String} (h : text ∈ [",", ":"]) :
    text ∉ level.symbols := by
  revert text
  cases level <;> decide

theorem clear_symbol {t : Token} {text : String} (ht : t.kind = .operator) (htext : t.text = text)
    (h : text ∈ [",", ":"]) (rest : List Token) : Clear 0 (t :: rest) := by
  rintro _ ⟨⟩
  have hne : text ≠ "." ∧ text ≠ "=" := by
    revert h
    exact (by decide : ∀ text ∈ [",", ":"], text ≠ "." ∧ text ≠ "=") text
  exact {
    comment := by simp [isComment, ht]
    string := by simp [isString, ht]
    equals := by simp [isOperator, htext, hne]
    operator := fun level _ => by
      simp [Level.operator?, isKeyword, ht, htext, not_mem_symbols h]
    access := fun _ => by simp [opening, symbol, isOperator, ht, htext, hne] }

theorem clear_comma {t : Token} (ht : t.kind = .operator) (htext : t.text = ",") (rest : List Token) :
    Clear 0 (t :: rest) :=
  clear_symbol ht htext (by decide) rest

theorem clear_colon {t : Token} (ht : t.kind = .operator) (htext : t.text = ":") (rest : List Token) :
    Clear 0 (t :: rest) :=
  clear_symbol ht htext (by decide) rest

end Token

namespace Level

theorem eq_of_mem {level level' : Level} {op : String} (h : op ∈ level.operators)
    (h' : op ∈ level'.operators) : level = level' :=
  (ofOperator_eq h).symm.trans (ofOperator_eq h')

theorem operator?_symbol {level : Level} {t : Token} (ht : t.kind = .operator) (next : Option Token) :
    level.operator? t next = if t.text ∈ level.symbols then some t.text else none := by
  simp [operator?, ht, Token.isKeyword]

theorem operator?_word {level : Level} {t : Token} (ht : t.kind = .ident) (next : Option Token)
    (hn : t.text ≠ "not") :
    level.operator? t next = if t.text ∈ level.words then some t.text else none := by
  simp [operator?, ht, Token.isKeyword, hn]

theorem keywords_of_notIn {level : Level} {t : Token} {next : Option Token}
    (h : level.operator? t next = some "not in") (ht : t.isKeyword "not in" = false) :
    t.isKeyword "not" = true ∧ next.any (·.isKeyword "in") = true := by
  unfold operator? at h
  split_ifs at h with hs hw hn
  · rw [Bool.and_eq_true, decide_eq_true_iff, Option.some.inj h] at hs
    cases level <;> exact absurd hs.2 (by decide)
  · rw [Bool.and_eq_true, beq_iff_eq] at hw
    simp [Token.isKeyword, hw.1, Option.some.inj h] at ht
  · rw [Bool.and_eq_true, Bool.and_eq_true] at hn
    exact hn.1

theorem mem_words {level : Level} {op : String} (h : op ∈ level.operators) (hn : op ≠ "not in") :
    op ∈ level.words ↔ op ∈ ["or", "and", "in"] := by
  have hall : ∀ op ∈ level.operators, op = "not in" ∨
      (op ∈ level.words ↔ op ∈ ["or", "and", "in"]) := by
    cases level <;> decide
  exact (hall op h).resolve_left hn

end Level

structure Token.Joint (level : Level) (op : String) (t : Token) (ts : List Token) : Prop where
  comment : t.isComment = false
  string : t.isString = false
  equals : t.isOperator "=" = false
  access : opening .round t = false ∧ opening .square t = false ∧ symbol "." t = false
  here : ∀ rest, level.operator? t ((ts ++ rest).find? (!·.isComment)) = some op
  elsewhere : ∀ level' : Level, level'.rank ≠ level.rank → ∀ next, level'.operator? t next = none
  behind : if op = "not in" then ∃ u, ts = [u] ∧ u.isComment = false else ts = []

theorem Token.Joint.clear {level : Level} {op : String} {t : Token} {ts : List Token}
    (h : Joint level op t ts) (rest : List Token) : Clear (level.rank + 1) (t :: ts ++ rest) := by
  rintro _ ⟨⟩
  exact ⟨h.comment, h.string, h.equals, fun level' hl => h.elsewhere level' (by omega) _, fun _ => h.access⟩

namespace Level

theorem joint_notIn {t u : Token} (ht : t.kind = .ident) (htext : t.text = "not")
    (hu : u.kind = .ident) (hutext : u.text = "in") : Token.Joint comparison "not in" t [u] where
  comment := by simp [Token.isComment, ht]
  string := by simp [Token.isString, ht]
  equals := by simp [Token.isOperator, ht]
  access := by simp [opening, symbol, Token.isOperator, ht]
  here rest := by
    simp [Token.isComment, operator?, Token.isKeyword, symbols, words, ht, htext, hu, hutext]
  elsewhere level hl next := by
    have hw : "not" ∉ level.words ∧ "not in" ∉ level.words := by
      cases level <;> first | decide | exact absurd rfl hl
    simp [operator?, Token.isKeyword, ht, htext, hw]
  behind := ⟨u, rfl, by simp [Token.isComment, hu]⟩

theorem joint_word {level : Level} {op : String} {t : Token} (h : op ∈ level.operators)
    (hn : op ≠ "not in") (hw : op ∈ ["or", "and", "in"]) (ht : t.kind = .ident) (htext : t.text = op) :
    Token.Joint level op t [] := by
  have hnot : t.text ≠ "not" := by
    rw [htext]
    rintro rfl
    exact absurd hw (by decide)
  refine ⟨?_, ?_, ?_, ?_, fun rest => ?_, fun level' hl next => ?_, ?_⟩
  · simp [Token.isComment, ht]
  · simp [Token.isString, ht]
  · simp [Token.isOperator, ht]
  · simp [opening, symbol, Token.isOperator, ht]
  · rw [operator?_word ht _ hnot, htext, if_pos ((mem_words h hn).mpr hw)]
  · rw [operator?_word ht _ hnot, htext, if_neg]
    exact fun hm => hl (congrArg rank (eq_of_mem (List.mem_append_right _ hm) h))
  · simp [hn]

theorem joint_symbol {level : Level} {op : String} {t : Token} (h : op ∈ level.operators)
    (hn : op ≠ "not in") (hw : op ∉ ["or", "and", "in"]) (ht : t.kind = .operator)
    (htext : t.text = op) : Token.Joint level op t [] := by
  have hs : op ∈ level.symbols :=
    (List.mem_append.mp h).resolve_right fun hm => hw ((mem_words h hn).mp hm)
  have hne : op ≠ "." ∧ op ≠ "=" := by
    have : ∀ op ∈ level.symbols, op ≠ "." ∧ op ≠ "=" := by cases level <;> decide
    exact this op hs
  refine ⟨?_, ?_, ?_, ?_, fun rest => ?_, fun level' hl next => ?_, ?_⟩
  · simp [Token.isComment, ht]
  · simp [Token.isString, ht]
  · simp [Token.isOperator, htext, hne]
  · simp [opening, symbol, Token.isOperator, ht, htext, hne]
  · rw [operator?_symbol ht, htext, if_pos hs]
  · rw [operator?_symbol ht, htext, if_neg]
    exact fun hm => hl (congrArg rank (eq_of_mem (List.mem_append_left _ hm) h))
  · simp [hn]

end Level

theorem Progress.tokens_joint {level : Level} {op : String} (h : op ∈ level.operators) (p : Progress)
    (xs : List Lexeme) :
    ∃ t ts q, p.tokens (Lexeme.joint op ++ xs) = t :: ts ++ Progress.tokens q xs ∧
      Token.Joint level op t ts := by
  have hident : Token.Kind.ident ≠ .newline := by decide
  unfold Lexeme.joint
  by_cases hn : op = "not in"
  · subst hn
    rw [Level.eq_of_mem h (by decide : "not in" ∈ Level.comparison.operators), if_pos rfl]
    simp only [List.cons_append, List.nil_append, tokens_of hident, tokens_space]
    exact ⟨_, [_], _, rfl, Level.joint_notIn rfl rfl rfl rfl⟩
  · rw [if_neg hn]
    by_cases hw : op ∈ ["or", "and", "in"]
    · rw [if_pos hw, List.singleton_append, tokens_of hident]
      exact ⟨_, [], _, rfl, Level.joint_word h hn hw rfl (by simp)⟩
    · rw [if_neg hw, List.singleton_append, tokens_of (by decide)]
      exact ⟨_, [], _, rfl, Level.joint_symbol h hn hw rfl (by simp)⟩

end BuildSync
