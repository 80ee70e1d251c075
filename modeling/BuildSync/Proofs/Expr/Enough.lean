import BuildSync.Proofs.Expr.Sound

/-!
Reading an expression always comes to an answer: the fuel that it starts with is enough, since every
step that is done leaves a part of the tokens, and every round of a loop one with less code.
-/

namespace BuildSync

def Token.codeLength (ts : List Token) : Nat := ts.countP (!·.isComment)

theorem Token.codeLength_append (ts us : List Token) : codeLength (ts ++ us) = codeLength ts + codeLength us :=
  List.countP_append

def Outcome.Spends {α : Type} (k : α → Nat) (ts : List Token) : Outcome α → Prop
  | .done v c => c.rest <:+ ts ∧ Token.codeLength c.rest + k v ≤ Token.codeLength ts
  | .unsupported => True
  | .exhausted => False

namespace Reading

open Token

def Spends {α : Type} (n : Nat) (k : α → Nat) (r : Reading α) : Prop :=
  ∀ c, codeLength c.rest ≤ n → (r c).Spends k c.rest

variable {α β : Type} {m n : Nat} {k l : α → Nat} {j : β → Nat}

theorem Spends.mono {r : Reading α} (h : Spends n k r) (hn : m ≤ n) (hk : ∀ v, l v ≤ k v) : Spends m l r := by
  intro c hc
  have hr := h c (hc.trans hn)
  generalize r c = x at hr ⊢
  cases x with
  | done v d => exact ⟨hr.1, (Nat.add_le_add_left (hk v) _).trans hr.2⟩
  | unsupported => trivial
  | exhausted => exact hr

theorem spends_pure {v : α} (h : k v = 0) : Spends n k (Pure.pure v) := by
  intro c _
  exact ⟨List.suffix_rfl, by rw [h, Nat.add_zero]⟩

theorem spends_unsupported : Spends n k unsupported := fun _ _ => trivial

theorem Spends.bind {r : Reading α} {f : α → Reading β} (h : Spends n k r)
    (hf : ∀ v, k v ≤ n → Spends (n - k v) (fun w => j w - k v) (f v)) : Spends n j (r >>= f) := by
  intro c hc
  have hr := h c hc
  change (Reading.bind r f c).Spends j c.rest
  unfold Reading.bind
  generalize r c = x at hr ⊢
  cases x with
  | done v d =>
    obtain ⟨hsuffix, hlength⟩ := hr
    have hs := hf v (by omega) d (by omega)
    dsimp only
    generalize f v d = y at hs ⊢
    cases y with
    | done w e =>
      have hle : codeLength e.rest + (j w - k v) ≤ codeLength d.rest := hs.2
      exact ⟨hs.1.trans hsuffix, by omega⟩
    | unsupported => trivial
    | exhausted => exact hs
  | unsupported => trivial
  | exhausted => exact hr

theorem Spends.then {r : Reading α} {f : α → Reading β} (h : Spends n (fun _ => 0) r)
    (hf : ∀ v, Spends n j (f v)) : Spends n j (r >>= f) :=
  h.bind fun v _ => hf v

theorem spends_ahead : Spends n (fun _ => 0) ahead := by
  intro c _
  obtain ⟨x, hx⟩ := ahead_done c
  rw [hx]
  exact ⟨List.suffix_rfl, Nat.le_refl _⟩

theorem spends_token : Spends n (fun _ => 1) token := by
  rintro ⟨line, rest⟩ _
  cases rest with
  | nil => trivial
  | cons t rest =>
    unfold token
    dsimp only
    split_ifs with ht
    · trivial
    · exact ⟨List.suffix_cons t rest, by simp [codeLength, ht]⟩

theorem spends_token? (accept : Token → Bool) : Spends n (fun o => if o.isSome then 1 else 0) (token? accept) := by
  apply spends_ahead.then
  intro next
  split_ifs
  · exact spends_token.bind (f := Pure.pure ∘ some) fun t _ => spends_pure rfl
  · exact spends_pure rfl

theorem spends_expect (accept : Token → Bool) : Spends n (fun _ => 1) (expect accept) := by
  apply spends_token.bind
  intro t _
  split_ifs
  · exact spends_pure rfl
  · exact spends_unsupported

theorem spends_comments : Spends n (fun _ => 0) comments := by
  intro c _
  exact ⟨List.dropWhile_suffix _, (List.dropWhile_suffix _).sublist.countP_le⟩

theorem spends_suffix? : Spends n (fun _ => 0) suffix? := by
  rintro ⟨line, rest⟩ _
  cases rest with
  | nil => exact ⟨List.suffix_rfl, Nat.le_refl _⟩
  | cons t rest =>
    unfold suffix?
    dsimp only
    split_ifs
    · exact ⟨List.suffix_cons t rest, (List.sublist_cons_self t rest).countP_le⟩
    · exact ⟨List.suffix_rfl, Nat.le_refl _⟩

theorem spends_suffixAfter? (before : Option String) : Spends n (fun _ => 0) (suffixAfter? before) := by
  cases before with
  | some text => exact spends_pure rfl
  | none => exact spends_suffix?

theorem Spends.ifToken? {accept : Token → Bool} {yes no : Reading β}
    (hyes : 1 ≤ n → Spends (n - 1) (fun w => j w - 1) yes) (hno : Spends n j no) :
    Spends n j (token? accept >>= fun o => if o.isSome then yes else no) := by
  apply (spends_token? accept).bind
  intro o ho
  cases o with
  | some t => exact hyes ho
  | none => exact hno

theorem spends_operator? (level : Level) :
    Spends n (fun o => if o.isSome then 1 else 0) (operator? level) := by
  apply spends_ahead.then
  rintro ⟨first, second⟩
  dsimp only
  split
  · exact spends_pure rfl
  · apply spends_token.bind
    intro t _
    split_ifs
    · exact (spends_token.mono (l := fun _ => 0) (Nat.le_refl _) fun _ => Nat.zero_le _).then
        fun _ => spends_pure rfl
    · exact spends_pure rfl

theorem spends_argumentLabel : Spends n (fun _ => 0) argumentLabel := by
  apply spends_ahead.then
  rintro ⟨first, second⟩
  dsimp only
  split_ifs
  · apply spends_token.bind
    intro t _
    apply (spends_expect _).bind
    intro _ _
    exact spends_pure rfl
  · exact spends_pure rfl

theorem spends_sequence {item : Reading (Label × Expr)} (h : Spends n (fun _ => 1) item) (close : Bracket)
    {fuel : Nat} (hfuel : n + 1 ≤ fuel) : Spends n (fun _ => 1) (sequence item close fuel) := by
  induction fuel generalizing n with
  | zero => omega
  | succ fuel ih =>
    apply spends_comments.then
    intro comments
    apply Spends.ifToken?
    · intro _
      exact spends_pure rfl
    apply h.bind
    rintro ⟨label, value⟩ hn
    apply spends_suffix?.then
    intro before
    apply Spends.ifToken?
    · intro hn'
      apply (spends_suffixAfter? before).then
      intro suffix
      have hrest := h.mono (m := n - 1 - 1) (by omega) fun _ => Nat.le_refl _
      exact (ih hrest (by omega)).bind fun others _ => spends_pure rfl
    · apply spends_comments.then
      intro trailing
      exact (spends_expect _).bind fun _ _ => spends_pure rfl

theorem spends_tupleRest {item : Reading Expr} (h : Spends n (fun _ => 1) item) {fuel : Nat}
    (hfuel : n + 1 ≤ fuel) : Spends n (fun _ => 1) (tupleRest item fuel) := by
  induction fuel generalizing n with
  | zero => omega
  | succ fuel ih =>
    apply (spends_expect _).bind
    intro _ hn
    apply Spends.ifToken?
    · intro _
      exact spends_pure rfl
    apply (h.mono (m := n - 1) (by omega) fun _ => Nat.le_refl _).bind
    intro value hn'
    apply Spends.ifToken?
    · intro _
      exact spends_pure rfl
    · have hrest := h.mono (m := n - 1 - 1) (by omega) fun _ => Nat.le_refl _
      exact (ih hrest (by omega)).bind fun others _ => spends_pure rfl

structure Answers (fuel : Nat) : Prop where
  expr : ∀ level n, 20 * n + (16 - level.rank) ≤ fuel → Spends n (fun _ => 1) (expr fuel level)
  operations : ∀ level ∈ Level.binary, ∀ lhs n, 20 * n + 1 ≤ fuel →
    Spends n (fun _ => 0) (operations fuel level lhs)
  accesses : ∀ base n, 20 * n + 1 ≤ fuel → Spends n (fun _ => 0) (accesses fuel base)
  operand : ∀ n, 20 * n + 1 ≤ fuel → Spends n (fun _ => 1) (operand fuel)
  parenthesized : ∀ n, 20 * n + 17 ≤ fuel → Spends n (fun _ => 1) (parenthesized fuel)
  element : ∀ n, 20 * n + 17 ≤ fuel → Spends n (fun _ => 1) (element fuel)
  entry : ∀ n, 20 * n + 17 ≤ fuel → Spends n (fun _ => 1) (entry fuel)
  argument : ∀ n, 20 * n + 17 ≤ fuel → Spends n (fun _ => 1) (argument fuel)

namespace Answers

theorem zero : Answers 0 where
  expr level n h := by
    have := level.rank_le
    omega
  operations := by omega
  accesses := by omega
  operand := by omega
  parenthesized := by omega
  element := by omega
  entry := by omega
  argument := by omega

variable {fuel : Nat}

theorem disjunction (h : Answers fuel) (hfuel : 20 * n + 16 ≤ fuel) :
    Spends n (fun _ => 1) (Reading.expr fuel .disjunction) :=
  h.expr .disjunction n hfuel

theorem expr_succ (h : Answers fuel) (level : Level) (hfuel : 20 * n + (16 - level.rank) ≤ fuel + 1) :
    Spends n (fun _ => 1) (Reading.expr (fuel + 1) level) := by
  by_cases hbin : level ∈ Level.binary
  · have hrank := level.tighter.rank_le
    have htighter : level.tighter.rank = level.rank + 1 := by
      apply Level.rank_tighter
      rintro rfl
      exact absurd hbin (by decide)
    rw [expr_binary hbin]
    apply (h.expr level.tighter n (by omega)).bind
    intro lhs hn
    exact h.operations level hbin lhs (n - 1) (by omega)
  cases level with
  | negation =>
    simp only [Level.rank] at hfuel
    apply Spends.ifToken?
    · intro hn
      apply (h.expr .negation (n - 1) (by simp only [Level.rank]; omega)).bind
      intro operand _
      exact spends_pure rfl
    · exact h.expr .comparison n (by simp only [Level.rank]; omega)
  | sign =>
    simp only [Level.rank] at hfuel
    apply (spends_token? _).bind
    intro o hn
    cases o with
    | some t =>
      simp only [Option.isSome_some, if_true] at hn ⊢
      apply (h.expr .sign (n - 1) (by simp only [Level.rank]; omega)).bind
      intro operand _
      exact spends_pure rfl
    | none => exact h.expr .access n (by simp only [Level.rank]; omega)
  | access =>
    simp only [Level.rank] at hfuel
    apply (h.operand n (by omega)).bind
    intro base hn
    exact h.accesses base (n - 1) (by omega)
  | _ => exact absurd (by decide) hbin

theorem operations_succ (h : Answers fuel) {level : Level} (hbin : level ∈ Level.binary) (lhs : Expr)
    (hfuel : 20 * n + 1 ≤ fuel + 1) :
    Spends n (fun _ => 0) (Reading.operations (fuel + 1) level lhs) := by
  apply (spends_operator? level).bind
  intro op hn
  cases op with
  | none => exact spends_pure rfl
  | some op =>
    simp only [Option.isSome_some, if_true] at hn ⊢
    apply (h.expr level.tighter (n - 1) (by omega)).bind
    intro rhs hn'
    exact h.operations level hbin _ (n - 1 - 1) (by omega)

theorem accesses_succ (h : Answers fuel) (base : Expr) (hfuel : 20 * n + 1 ≤ fuel + 1) :
    Spends n (fun _ => 0) (Reading.accesses (fuel + 1) base) := by
  apply Spends.ifToken?
  · intro hn
    apply (spends_sequence (h.argument (n - 1) (by omega)) .round (by omega)).bind
    intro args hn'
    exact h.accesses _ (n - 1 - 1) (by omega)
  apply Spends.ifToken?
  · intro hn
    apply (h.disjunction (n := n - 1) (by omega)).bind
    intro index hn'
    apply (spends_expect _).bind
    intro _ hn''
    exact h.accesses _ (n - 1 - 1 - 1) (by omega)
  apply Spends.ifToken?
  · intro hn
    apply spends_token.bind
    intro t hn'
    split_ifs
    · exact h.accesses _ (n - 1 - 1) (by omega)
    · exact spends_unsupported
  · exact spends_pure rfl

theorem operand_succ (h : Answers fuel) (hfuel : 20 * n + 1 ≤ fuel + 1) :
    Spends n (fun _ => 1) (Reading.operand (fuel + 1)) := by
  apply spends_token.bind
  intro t hn
  split
  · split_ifs
    · exact spends_pure rfl
    · exact spends_unsupported
  · exact spends_pure rfl
  · apply spends_ahead.then
    intro next
    split_ifs
    · exact spends_unsupported
    · exact spends_pure rfl
  · apply (spends_sequence (h.element (n - 1) (by omega)) .square (by omega)).bind
    intro elements _
    exact spends_pure rfl
  · apply (spends_sequence (h.entry (n - 1) (by omega)) .curly (by omega)).bind
    intro entries _
    exact spends_pure rfl
  · exact (h.parenthesized (n - 1) (by omega)).mono (Nat.le_refl _) fun _ => by omega
  · exact spends_unsupported

theorem parenthesized_succ (h : Answers fuel) (hfuel : 20 * n + 17 ≤ fuel + 1) :
    Spends n (fun _ => 1) (Reading.parenthesized (fuel + 1)) := by
  apply Spends.ifToken?
  · intro _
    exact spends_pure rfl
  apply (h.disjunction (n := n) (by omega)).bind
  intro first hn
  apply Spends.ifToken?
  · intro _
    exact spends_pure rfl
  · apply (spends_tupleRest (h.disjunction (n := n - 1) (by omega)) (by omega)).bind
    intro others _
    exact spends_pure rfl

theorem element_succ (h : Answers fuel) (hfuel : 20 * n + 17 ≤ fuel + 1) :
    Spends n (fun _ => 1) (Reading.element (fuel + 1)) := by
  apply (h.disjunction (n := n) (by omega)).bind
  intro value _
  exact spends_pure rfl

theorem entry_succ (h : Answers fuel) (hfuel : 20 * n + 17 ≤ fuel + 1) :
    Spends n (fun _ => 1) (Reading.entry (fuel + 1)) := by
  apply (h.disjunction (n := n) (by omega)).bind
  intro key hn
  apply (spends_expect _).bind
  intro _ hn'
  apply (h.disjunction (n := n - 1 - 1) (by omega)).bind
  intro value _
  exact spends_pure rfl

theorem argument_succ (h : Answers fuel) (hfuel : 20 * n + 17 ≤ fuel + 1) :
    Spends n (fun _ => 1) (Reading.argument (fuel + 1)) := by
  apply spends_argumentLabel.then
  intro label
  apply (h.disjunction (n := n) (by omega)).bind
  intro value _
  exact spends_pure rfl

theorem succ (h : Answers fuel) : Answers (fuel + 1) where
  expr level _ hfuel := h.expr_succ level hfuel
  operations _ hbin lhs _ hfuel := h.operations_succ hbin lhs hfuel
  accesses base _ hfuel := h.accesses_succ base hfuel
  operand _ hfuel := h.operand_succ hfuel
  parenthesized _ hfuel := h.parenthesized_succ hfuel
  element _ hfuel := h.element_succ hfuel
  entry _ hfuel := h.entry_succ hfuel
  argument _ hfuel := h.argument_succ hfuel

end Answers

theorem answers (fuel : Nat) : Answers fuel := by
  induction fuel with
  | zero => exact .zero
  | succ fuel ih => exact ih.succ

theorem spends_expr (ts : List Token) (line : Nat) :
    (expr (Expr.fuel ts) .disjunction ⟨line, ts⟩).Spends (fun _ => 1) ts :=
  (answers (Expr.fuel ts)).disjunction (n := ts.length) (by rw [Expr.fuel]; omega) ⟨line, ts⟩
    List.countP_le_length

end Reading
end BuildSync
