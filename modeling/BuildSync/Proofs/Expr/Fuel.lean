import BuildSync.Proofs.Expr.Enough

/-!
More fuel changes no answer. With the fuel that is enough for its tokens an expression is therefore
read as with any other amount that leads to an answer.
-/

namespace BuildSync

namespace Reading

def Grows {α : Type} (r s : Reading α) : Prop := ∀ c, r c = .exhausted ∨ s c = r c

variable {α β : Type} {r s : Reading α}

theorem Grows.refl (r : Reading α) : Grows r r := fun _ => .inr rfl

theorem grows_exhausted (s : Reading α) : Grows exhausted s := fun _ => .inl rfl

theorem Grows.bind {f g : α → Reading β} (h : Grows r s) (hf : ∀ v, Grows (f v) (g v)) :
    Grows (r >>= f) (s >>= g) := by
  intro c
  change Reading.bind r f c = .exhausted ∨ Reading.bind s g c = Reading.bind r f c
  unfold Reading.bind
  rcases h c with h | h
  · exact .inl (by rw [h])
  · rw [h]
    cases r c with
    | done v c => exact hf v c
    | unsupported => exact .inr rfl
    | exhausted => exact .inl rfl

theorem Grows.then {f g : α → Reading β} (hf : ∀ v, Grows (f v) (g v)) : Grows (r >>= f) (r >>= g) :=
  (Grows.refl r).bind hf

theorem Grows.ite {p : Prop} [Decidable p] {r' s' : Reading α} (hyes : Grows r s) (hno : Grows r' s') :
    Grows (if p then r else r') (if p then s else s') := by
  split_ifs
  · exact hyes
  · exact hno

theorem grows_sequence {item item' : Reading (Label × Expr)} (h : Grows item item') (close : Bracket)
    {fuel fuel' : Nat} (hf : fuel ≤ fuel') : Grows (sequence item close fuel) (sequence item' close fuel') := by
  induction fuel generalizing fuel' with
  | zero => exact grows_exhausted _
  | succ fuel ih =>
    obtain ⟨fuel', rfl⟩ : ∃ k, fuel' = k + 1 := ⟨fuel' - 1, by omega⟩
    refine Grows.then fun comments => Grows.then fun closed => Grows.ite (.refl _) ?_
    refine h.bind fun x => Grows.then fun before => Grows.then fun comma => Grows.ite ?_ (.refl _)
    exact Grows.then fun suffix => (ih (by omega)).bind fun others => .refl _

theorem grows_tupleRest {item item' : Reading Expr} (h : Grows item item') {fuel fuel' : Nat}
    (hf : fuel ≤ fuel') : Grows (tupleRest item fuel) (tupleRest item' fuel') := by
  induction fuel generalizing fuel' with
  | zero => exact grows_exhausted _
  | succ fuel ih =>
    obtain ⟨fuel', rfl⟩ : ∃ k, fuel' = k + 1 := ⟨fuel' - 1, by omega⟩
    refine Grows.then fun comma => Grows.then fun closed => Grows.ite (.refl _) ?_
    refine h.bind fun value => Grows.then fun closed => Grows.ite (.refl _) ?_
    exact (ih (by omega)).bind fun others => .refl _

structure Growing (fuel fuel' : Nat) : Prop where
  le : fuel ≤ fuel'
  expr : ∀ level, Grows (expr fuel level) (expr fuel' level)
  operations : ∀ level lhs, Grows (operations fuel level lhs) (operations fuel' level lhs)
  accesses : ∀ base, Grows (accesses fuel base) (accesses fuel' base)
  operand : Grows (operand fuel) (operand fuel')
  parenthesized : Grows (parenthesized fuel) (parenthesized fuel')
  element : Grows (element fuel) (element fuel')
  entry : Grows (entry fuel) (entry fuel')
  argument : Grows (argument fuel) (argument fuel')

namespace Growing

variable {fuel fuel' : Nat}

theorem zero (fuel' : Nat) : Growing 0 fuel' where
  le := Nat.zero_le _
  expr _ := grows_exhausted _
  operations _ _ := grows_exhausted _
  accesses _ := grows_exhausted _
  operand := grows_exhausted _
  parenthesized := grows_exhausted _
  element := grows_exhausted _
  entry := grows_exhausted _
  argument := grows_exhausted _

theorem expr_succ (h : Growing fuel fuel') (level : Level) :
    Grows (Reading.expr (fuel + 1) level) (Reading.expr (fuel' + 1) level) := by
  by_cases hbin : level ∈ Level.binary
  · rw [expr_binary hbin, expr_binary hbin]
    exact (h.expr level.tighter).bind fun lhs => h.operations level lhs
  cases level with
  | negation =>
    exact Grows.then fun word => Grows.ite ((h.expr .negation).bind fun operand => .refl _) (h.expr .comparison)
  | sign =>
    refine Grows.then fun sign => ?_
    cases sign with
    | some t => exact (h.expr .sign).bind fun operand => .refl _
    | none => exact h.expr .access
  | access => exact h.operand.bind fun base => h.accesses base
  | _ => exact absurd (by decide) hbin

theorem operations_succ (h : Growing fuel fuel') (level : Level) (lhs : Expr) :
    Grows (Reading.operations (fuel + 1) level lhs) (Reading.operations (fuel' + 1) level lhs) := by
  refine Grows.then fun op => ?_
  cases op with
  | none => exact .refl _
  | some op => exact (h.expr level.tighter).bind fun rhs => h.operations level _

theorem accesses_succ (h : Growing fuel fuel') (base : Expr) :
    Grows (Reading.accesses (fuel + 1) base) (Reading.accesses (fuel' + 1) base) := by
  refine Grows.then fun round => Grows.ite ?_ (Grows.then fun square => Grows.ite ?_
    (Grows.then fun dot => Grows.ite (Grows.then fun name => Grows.ite (h.accesses _) (.refl _)) (.refl _)))
  · exact (grows_sequence h.argument .round h.le).bind fun args => h.accesses _
  · exact (h.expr .disjunction).bind fun index => Grows.then fun _ => h.accesses _

theorem operand_succ (h : Growing fuel fuel') :
    Grows (Reading.operand (fuel + 1)) (Reading.operand (fuel' + 1)) := by
  refine Grows.then fun t => ?_
  split
  · exact .refl _
  · exact .refl _
  · exact .refl _
  · exact (grows_sequence h.element .square h.le).bind fun elements => .refl _
  · exact (grows_sequence h.entry .curly h.le).bind fun entries => .refl _
  · exact h.parenthesized
  · exact .refl _

theorem parenthesized_succ (h : Growing fuel fuel') :
    Grows (Reading.parenthesized (fuel + 1)) (Reading.parenthesized (fuel' + 1)) := by
  refine Grows.then fun closed => Grows.ite (.refl _) ?_
  refine (h.expr .disjunction).bind fun first => Grows.then fun closed => Grows.ite (.refl _) ?_
  exact (grows_tupleRest (h.expr .disjunction) h.le).bind fun others => .refl _

theorem element_succ (h : Growing fuel fuel') :
    Grows (Reading.element (fuel + 1)) (Reading.element (fuel' + 1)) :=
  (h.expr .disjunction).bind fun _ => .refl _

theorem entry_succ (h : Growing fuel fuel') : Grows (Reading.entry (fuel + 1)) (Reading.entry (fuel' + 1)) :=
  (h.expr .disjunction).bind fun _ => Grows.then fun _ => (h.expr .disjunction).bind fun _ => .refl _

theorem argument_succ (h : Growing fuel fuel') :
    Grows (Reading.argument (fuel + 1)) (Reading.argument (fuel' + 1)) :=
  Grows.then fun _ => (h.expr .disjunction).bind fun _ => .refl _

theorem succ (h : Growing fuel fuel') : Growing (fuel + 1) (fuel' + 1) where
  le := Nat.succ_le_succ h.le
  expr := h.expr_succ
  operations := h.operations_succ
  accesses := h.accesses_succ
  operand := h.operand_succ
  parenthesized := h.parenthesized_succ
  element := h.element_succ
  entry := h.entry_succ
  argument := h.argument_succ

end Growing

theorem growing {fuel fuel' : Nat} (h : fuel ≤ fuel') : Growing fuel fuel' := by
  induction fuel generalizing fuel' with
  | zero => exact .zero fuel'
  | succ fuel ih =>
    obtain ⟨fuel', rfl⟩ : ∃ k, fuel' = k + 1 := ⟨fuel' - 1, by omega⟩
    exact (ih (by omega)).succ

theorem expr_ne_exhausted {fuel : Nat} {level : Level} {ts : List Token} (h : level.enough ts ≤ fuel) (line : Nat) :
    expr fuel level ⟨line, ts⟩ ≠ .exhausted := by
  intro hexhausted
  have hspends := (answers fuel).expr level ts.length h ⟨line, ts⟩ List.countP_le_length
  rw [hexhausted] at hspends
  exact hspends

theorem expr_of_enough {fuel fuel' line : Nat} {level : Level} {ts : List Token} {e : Expr} {c : Cursor}
    (h : expr fuel level ⟨line, ts⟩ = .done e c) (hf : level.enough ts ≤ fuel') :
    expr fuel' level ⟨line, ts⟩ = .done e c := by
  rcases Nat.le_total fuel fuel' with hle | hle
  · rcases (growing hle).expr level ⟨line, ts⟩ with hnone | hsame
    · rw [h] at hnone
      cases hnone
    · rw [hsame, h]
  · rcases (growing hle).expr level ⟨line, ts⟩ with hnone | hsame
    · exact absurd hnone (expr_ne_exhausted hf line)
    · rw [← hsame, h]

end Reading
end BuildSync
