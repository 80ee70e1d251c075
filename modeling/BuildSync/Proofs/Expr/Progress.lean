import BuildSync.Proofs.Expr.Fuel
import BuildSync.Proofs.Expr.Local

/-!
Readings end and move on. Reading an expression comes to the same answer with any fuel from a bound on, which
grows with the number of tokens, and whatever the fuel is, all that is read lies between two places of the
tokens: no reading goes back or past their end, and none is done without a token that is no comment. The
loops are taken apart into rounds, of which each one that another follows reads such a token.
-/

namespace BuildSync

open Token

def Outcome.call? : Outcome Expr → Option Call
  | .done (.call callee args) ⟨_, []⟩ => if callee.dottedName?.isSome then some ⟨callee, args⟩ else none
  | _ => none

theorem Call.ofTokens?_eq_call? (ts : List Token) :
    Call.ofTokens? ts = (Reading.expr (Expr.fuel ts) .disjunction ⟨0, ts⟩).call? := by
  unfold Call.ofTokens? Expr.ofTokens?
  generalize Reading.expr _ _ _ = x
  cases x with
  | done e c =>
    obtain ⟨line, rest⟩ := c
    cases rest <;> cases e <;> rfl
  | unsupported => rfl
  | exhausted => rfl

namespace Reading

variable {α β σ : Type} {k l : α → Nat} {j : β → Nat}

def Consumes (k : α → Nat) (r : Reading α) : Prop :=
  ∀ c v d, r c = .done v d → ∃ read, c.rest = read ++ d.rest ∧ k v ≤ codeLength read

theorem Consumes.mono {r : Reading α} (h : Consumes k r) (hk : ∀ v, l v ≤ k v) : Consumes l r := by
  intro c v d hr
  obtain ⟨read, hread, hlength⟩ := h c v d hr
  exact ⟨read, hread, (hk v).trans hlength⟩

theorem consumes_pure {v : α} (h : k v = 0) : Consumes k (Pure.pure v) := by
  rintro c _ _ ⟨⟩
  exact ⟨[], rfl, by rw [h]; exact Nat.zero_le _⟩

theorem consumes_unsupported : Consumes k unsupported := nofun

theorem Consumes.bind {r : Reading α} {f : α → Reading β} (h : Consumes k r)
    (hf : ∀ v, Consumes (fun w => j w - k v) (f v)) : Consumes j (r >>= f) := by
  intro c w d hw
  obtain ⟨v, e, hv, hw⟩ := bind_done_iff.mp hw
  obtain ⟨read, hread, hk⟩ := h c v e hv
  obtain ⟨read', hread', hj⟩ := hf v e w d hw
  refine ⟨read ++ read', by rw [hread, hread', List.append_assoc], ?_⟩
  rw [codeLength_append]
  dsimp only at hj
  omega

theorem Consumes.then {r : Reading α} {f : α → Reading β} (h : Consumes (fun _ => 0) r)
    (hf : ∀ v, Consumes j (f v)) : Consumes j (r >>= f) :=
  h.bind hf

theorem consumes_of_spends {r : Reading α} (h : ∀ n, ∃ s, Grows r s ∧ Spends n k s) : Consumes k r := by
  intro c v d hr
  obtain ⟨s, hgrows, hspends⟩ := h (codeLength c.rest)
  have hs := hspends c (Nat.le_refl _)
  rcases hgrows c with hnone | hsame
  · rw [hr] at hnone
    cases hnone
  rw [hsame, hr] at hs
  obtain ⟨⟨read, hread⟩, hlength⟩ := hs
  refine ⟨read, hread.symm, ?_⟩
  rw [← hread, codeLength_append] at hlength
  omega

theorem consumes_step {r : Reading α} (h : ∀ n, Spends n k r) : Consumes k r :=
  consumes_of_spends fun n => ⟨r, .refl r, h n⟩

theorem Consumes.ifToken? {accept : Token → Bool} {yes no : Reading β} (hyes : Consumes (fun w => j w - 1) yes)
    (hno : Consumes j no) : Consumes j (token? accept >>= fun o => if o.isSome then yes else no) := by
  apply (consumes_step fun _ => spends_token? accept).bind
  intro o
  cases o with
  | some t => exact hyes
  | none => exact hno

theorem consumes_of_enough {r : Nat → Reading α} {least : Nat}
    (hgrows : ∀ {fuel fuel'}, fuel ≤ fuel' → Grows (r fuel) (r fuel'))
    (hspends : ∀ {fuel n}, 20 * n + least ≤ fuel → Spends n k (r fuel)) (fuel : Nat) : Consumes k (r fuel) :=
  consumes_of_spends fun n =>
    ⟨r (max fuel (20 * n + least)), hgrows (Nat.le_max_left ..), hspends (Nat.le_max_right ..)⟩

theorem consumes_expr (level : Level) (fuel : Nat) : Consumes (fun _ => 1) (expr fuel level) :=
  consumes_of_enough (fun h => (growing h).expr level) (fun h => (answers _).expr level _ h) fuel

theorem consumes_operand (fuel : Nat) : Consumes (fun _ => 1) (operand fuel) :=
  consumes_of_enough (fun h => (growing h).operand) (fun h => (answers _).operand _ h) fuel

theorem consumes_parenthesized (fuel : Nat) : Consumes (fun _ => 1) (parenthesized fuel) :=
  consumes_of_enough (fun h => (growing h).parenthesized) (fun h => (answers _).parenthesized _ h) fuel

theorem consumes_element (fuel : Nat) : Consumes (fun _ => 1) (element fuel) :=
  consumes_of_enough (fun h => (growing h).element) (fun h => (answers _).element _ h) fuel

theorem consumes_entry (fuel : Nat) : Consumes (fun _ => 1) (entry fuel) :=
  consumes_of_enough (fun h => (growing h).entry) (fun h => (answers _).entry _ h) fuel

theorem consumes_argument (fuel : Nat) : Consumes (fun _ => 1) (argument fuel) :=
  consumes_of_enough (fun h => (growing h).argument) (fun h => (answers _).argument _ h) fuel

section

variable {γ δ : Type} {r : Reading α} {f : α → Reading β}

theorem bind_assoc (r : Reading α) (f : α → Reading β) (g : β → Reading γ) :
    (r >>= f) >>= g = r >>= fun v => f v >>= g := by
  funext c
  change Reading.bind (Reading.bind r f) g c = Reading.bind r (fun v => Reading.bind (f v) g) c
  unfold Reading.bind
  cases r c <;> rfl

theorem bind_eq_bind_bind {f' : α → Reading γ} {g : γ → Reading β} (h : ∀ v, f v = f' v >>= g) :
    r >>= f = (r >>= f') >>= g :=
  (bind_congr h).trans (bind_assoc r f' g).symm

theorem bind_bind_congr {g : β → Reading δ} {f' : α → Reading γ} {g' : γ → Reading δ}
    (h : ∀ v, f v >>= g = f' v >>= g') : (r >>= f) >>= g = (r >>= f') >>= g' :=
  (bind_assoc r f g).trans (bind_eq_bind_bind h)

theorem bind_eq_self {f : α → α} (h : ∀ v, f v = v) : (r >>= fun v => Pure.pure (f v)) = r := by
  funext c
  change Reading.bind r (fun v => Reading.pure (f v)) c = r c
  unfold Reading.bind
  cases r c with
  | done v d => exact congrArg (Outcome.done · d) (h v)
  | unsupported => rfl
  | exhausted => rfl

end

def loop (round : Nat → σ → Reading (σ ⊕ α)) : Nat → σ → Reading α
  | 0, _ => exhausted
  | fuel + 1, s => round fuel s >>= fun
    | .inl s => loop round fuel s
    | .inr v => Pure.pure v

def consumed (going ending : Nat) : σ ⊕ α → Nat := Sum.elim (fun _ => going) fun _ => ending

theorem consumes_loop {round : Nat → σ → Reading (σ ⊕ α)} {going ending : Nat}
    (h : ∀ fuel s, Consumes (consumed going ending) (round fuel s)) (fuel : Nat) (s : σ) :
    Consumes (fun _ => ending) (loop round fuel s) := by
  induction fuel generalizing s with
  | zero => exact nofun
  | succ fuel ih =>
    apply (h fuel s).bind
    intro o
    cases o with
    | inl s => exact (ih s).mono fun _ => Nat.sub_le _ _
    | inr v => exact consumes_pure (Nat.sub_self _)

def operatorRound (level : Level) (fuel : Nat) (lhs : Expr) : Reading (Expr ⊕ Expr) := do
  match ← operator? level with
  | none => return .inr lhs
  | some op => return .inl (.binary op lhs (← expr fuel level.tighter))

def accessRound (fuel : Nat) (base : Expr) : Reading (Expr ⊕ Expr) := do
  if (← token? (opening .round)).isSome then
    return .inl (.call base (← sequence (argument fuel) .round fuel))
  else if (← token? (opening .square)).isSome then
    let index ← expr fuel .disjunction
    expect (closing .square)
    return .inl (.index base index)
  else if (← token? (symbol ".")).isSome then
    let name ← token
    if isName name then return .inl (.dot base name.text) else unsupported
  else return .inr base

def itemRound (item : Reading (Label × Expr)) (close : Bracket) (items : List Item) :
    Reading (List Item ⊕ Sequence) := do
  let comments ← comments
  if (← token? (closing close)).isSome then return .inr ⟨items, comments⟩
  let (label, value) ← item
  let before ← suffix?
  if (← token? (symbol ",")).isSome then
    let suffix ← suffixAfter? before
    return .inl (items ++ [⟨comments, label, value, suffix⟩])
  else
    let trailing ← Reading.comments
    expect (closing close)
    return .inr ⟨items ++ [⟨comments, label, value, before⟩], trailing⟩

def tupleRound (item : Reading Expr) (items : List Expr) : Reading (List Expr ⊕ List Expr) := do
  expect (symbol ",")
  if (← token? (closing .round)).isSome then return .inr items
  let value ← item
  if (← token? (closing .round)).isSome then return .inr (items ++ [value])
  return .inl (items ++ [value])

theorem operations_eq_loop (level : Level) (fuel : Nat) (lhs : Expr) :
    operations fuel level lhs = loop (operatorRound level) fuel lhs := by
  induction fuel generalizing lhs with
  | zero => rfl
  | succ fuel ih =>
    rw [operations, loop, operatorRound]
    refine bind_eq_bind_bind fun op => ?_
    cases op with
    | none => rfl
    | some op => exact bind_eq_bind_bind fun rhs => ih _

theorem accesses_eq_loop (fuel : Nat) (base : Expr) : accesses fuel base = loop accessRound fuel base := by
  induction fuel generalizing base with
  | zero => rfl
  | succ fuel ih =>
    rw [accesses, loop, accessRound]
    refine bind_eq_bind_bind fun called => ?_
    split_ifs
    · exact bind_eq_bind_bind fun args => ih _
    refine bind_eq_bind_bind fun indexed => ?_
    split_ifs
    · exact bind_eq_bind_bind fun index => bind_eq_bind_bind fun _ => ih _
    refine bind_eq_bind_bind fun dotted => ?_
    split_ifs
    · refine bind_eq_bind_bind fun name => ?_
      split_ifs
      · exact ih _
      · rfl
    · rfl

theorem loop_itemRound (item : Reading (Label × Expr)) (close : Bracket) (fuel : Nat) (items : List Item) :
    loop (fun _ => itemRound item close) fuel items =
      sequence item close fuel >>= fun s => Pure.pure ⟨items ++ s.items, s.trailing⟩ := by
  induction fuel generalizing items with
  | zero => rfl
  | succ fuel ih =>
    rw [sequence, loop, itemRound]
    refine bind_bind_congr fun comments => bind_bind_congr fun closed => ?_
    split_ifs
    · exact congrArg (fun is => (Pure.pure ⟨is, comments⟩ : Reading Sequence)) (List.append_nil items).symm
    refine bind_bind_congr fun x => bind_bind_congr fun before => bind_bind_congr fun comma => ?_
    split_ifs
    · refine bind_bind_congr fun suffix => (ih _).trans (bind_eq_bind_bind fun others => ?_)
      rw [List.append_assoc]
      rfl
    · exact bind_bind_congr fun trailing => bind_bind_congr fun _ => rfl

theorem sequence_eq_loop (item : Reading (Label × Expr)) (close : Bracket) (fuel : Nat) :
    sequence item close fuel = loop (fun _ => itemRound item close) fuel [] := by
  rw [loop_itemRound]
  exact (bind_eq_self fun s => by cases s; rfl).symm

theorem loop_tupleRound (item : Reading Expr) (fuel : Nat) (items : List Expr) :
    loop (fun _ => tupleRound item) fuel items =
      tupleRest item fuel >>= fun others => Pure.pure (items ++ others) := by
  induction fuel generalizing items with
  | zero => rfl
  | succ fuel ih =>
    rw [tupleRest, loop, tupleRound]
    refine bind_bind_congr fun _ => bind_bind_congr fun closed => ?_
    split_ifs
    · exact congrArg (Pure.pure : List Expr → Reading (List Expr)) (List.append_nil items).symm
    refine bind_bind_congr fun value => bind_bind_congr fun closed => ?_
    split_ifs
    · rfl
    · refine (ih _).trans (bind_eq_bind_bind fun others => ?_)
      rw [List.append_assoc]
      rfl

theorem tupleRest_eq_loop (item : Reading Expr) (fuel : Nat) :
    tupleRest item fuel = loop (fun _ => tupleRound item) fuel [] := by
  rw [loop_tupleRound]
  exact (bind_eq_self fun others => List.nil_append others).symm

theorem consumes_operatorRound (level : Level) (fuel : Nat) (lhs : Expr) :
    Consumes (consumed 1 0) (operatorRound level fuel lhs) := by
  apply (consumes_step fun _ => spends_operator? level).bind
  intro op
  cases op with
  | none => exact consumes_pure rfl
  | some op => exact (consumes_expr level.tighter fuel).bind fun rhs => consumes_pure rfl

theorem consumes_itemRound {item : Reading (Label × Expr)} (h : Consumes (fun _ => 1) item) (close : Bracket)
    (items : List Item) : Consumes (consumed 1 1) (itemRound item close items) := by
  apply (consumes_step fun _ => spends_comments).then
  intro comments
  apply Consumes.ifToken?
  · exact consumes_pure rfl
  apply h.bind
  rintro ⟨label, value⟩
  apply (consumes_step fun _ => spends_suffix?).then
  intro before
  apply Consumes.ifToken?
  · apply (consumes_step fun _ => spends_suffixAfter? before).then
    intro suffix
    exact consumes_pure rfl
  · apply (consumes_step fun _ => spends_comments).then
    intro trailing
    exact (consumes_step fun _ => spends_expect _).bind fun _ => consumes_pure rfl

theorem consumes_tupleRound {item : Reading Expr} (h : Consumes (fun _ => 1) item) (items : List Expr) :
    Consumes (consumed 1 1) (tupleRound item items) := by
  apply (consumes_step fun _ => spends_expect _).bind
  intro _
  apply Consumes.ifToken?
  · exact consumes_pure rfl
  apply h.bind
  intro value
  apply Consumes.ifToken?
  · exact consumes_pure rfl
  · exact consumes_pure rfl

theorem consumes_sequence {item : Reading (Label × Expr)} (h : Consumes (fun _ => 1) item) (close : Bracket)
    (fuel : Nat) : Consumes (fun _ => 1) (sequence item close fuel) := by
  rw [sequence_eq_loop]
  exact consumes_loop (fun _ items => consumes_itemRound h close items) fuel []

theorem consumes_tupleRest {item : Reading Expr} (h : Consumes (fun _ => 1) item) (fuel : Nat) :
    Consumes (fun _ => 1) (tupleRest item fuel) := by
  rw [tupleRest_eq_loop]
  exact consumes_loop (fun _ items => consumes_tupleRound h items) fuel []

theorem consumes_accessRound (fuel : Nat) (base : Expr) : Consumes (consumed 1 0) (accessRound fuel base) := by
  apply Consumes.ifToken?
  · exact (consumes_sequence (consumes_argument fuel) .round fuel).bind fun args => consumes_pure rfl
  apply Consumes.ifToken?
  · apply (consumes_expr .disjunction fuel).bind
    intro index
    exact (consumes_step fun _ => spends_expect _).bind fun _ => consumes_pure rfl
  apply Consumes.ifToken?
  · apply (consumes_step fun _ => spends_token).bind
    intro name
    split_ifs
    · exact consumes_pure rfl
    · exact consumes_unsupported
  · exact consumes_pure rfl

theorem consumes_operations (level : Level) (fuel : Nat) (lhs : Expr) :
    Consumes (fun _ => 0) (operations fuel level lhs) := by
  rw [operations_eq_loop]
  exact consumes_loop (consumes_operatorRound level) fuel lhs

theorem consumes_accesses (fuel : Nat) (base : Expr) : Consumes (fun _ => 0) (accesses fuel base) := by
  rw [accesses_eq_loop]
  exact consumes_loop consumes_accessRound fuel base

def Advances (k : α → Nat) (r : Reading α) : Prop :=
  ∀ (ts : List Token) (p line : Nat) (v : α) (d : Cursor), p ≤ ts.length → r ⟨line, ts.drop p⟩ = .done v d →
    ∃ q, p + k v ≤ q ∧ q ≤ ts.length ∧ d.rest = ts.drop q ∧
      k v ≤ codeLength ((ts.drop p).take (q - p))

theorem Consumes.advances {r : Reading α} (h : Consumes k r) : Advances k r := by
  intro ts p line v d hp hr
  obtain ⟨read, hread, hk⟩ := h _ v d hr
  dsimp only at hread
  have hlength : ts.length - p = read.length + d.rest.length := by
    rw [← List.length_drop, hread, List.length_append]
  have hcode : codeLength read ≤ read.length := List.countP_le_length
  refine ⟨p + read.length, by omega, by omega, ?_, ?_⟩
  · rw [← List.drop_drop, hread, List.drop_left]
  · rw [Nat.add_sub_cancel_left, hread, List.take_left]
    exact hk

/-- The steps, the readings that are made of them, and the rounds of their loops, all with the same fuel. -/
structure Onward (fuel : Nat) : Prop where
  ahead : Advances (fun _ => 0) ahead
  token : Advances (fun _ => 1) token
  comments : Advances (fun _ => 0) comments
  suffix? : Advances (fun _ => 0) suffix?
  expr : ∀ level, Advances (fun _ => 1) (expr fuel level)
  operand : Advances (fun _ => 1) (operand fuel)
  list : Advances (fun _ => 1) (sequence (element fuel) .square fuel)
  dict : Advances (fun _ => 1) (sequence (entry fuel) .curly fuel)
  call : Advances (fun _ => 1) (sequence (argument fuel) .round fuel)
  parenthesized : Advances (fun _ => 1) (parenthesized fuel)
  tupleRest : Advances (fun _ => 1) (tupleRest (Reading.expr fuel .disjunction) fuel)
  element : Advances (fun _ => 1) (element fuel)
  entry : Advances (fun _ => 1) (entry fuel)
  argument : Advances (fun _ => 1) (argument fuel)
  operations : ∀ level lhs, Advances (fun _ => 0) (operations fuel level lhs)
  accesses : ∀ base, Advances (fun _ => 0) (accesses fuel base)
  operatorRound : ∀ level lhs, Advances (consumed 1 0) (operatorRound level fuel lhs)
  accessRound : ∀ base, Advances (consumed 1 0) (accessRound fuel base)
  elementRound : ∀ items, Advances (consumed 1 1) (itemRound (Reading.element fuel) .square items)
  entryRound : ∀ items, Advances (consumed 1 1) (itemRound (Reading.entry fuel) .curly items)
  argumentRound : ∀ items, Advances (consumed 1 1) (itemRound (Reading.argument fuel) .round items)
  tupleRound : ∀ items, Advances (consumed 1 1) (tupleRound (Reading.expr fuel .disjunction) items)

theorem onward (fuel : Nat) : Onward fuel where
  ahead := (consumes_step fun _ => spends_ahead).advances
  token := (consumes_step fun _ => spends_token).advances
  comments := (consumes_step fun _ => spends_comments).advances
  suffix? := (consumes_step fun _ => spends_suffix?).advances
  expr level := (consumes_expr level fuel).advances
  operand := (consumes_operand fuel).advances
  list := (consumes_sequence (consumes_element fuel) .square fuel).advances
  dict := (consumes_sequence (consumes_entry fuel) .curly fuel).advances
  call := (consumes_sequence (consumes_argument fuel) .round fuel).advances
  parenthesized := (consumes_parenthesized fuel).advances
  tupleRest := (consumes_tupleRest (consumes_expr .disjunction fuel) fuel).advances
  element := (consumes_element fuel).advances
  entry := (consumes_entry fuel).advances
  argument := (consumes_argument fuel).advances
  operations level lhs := (consumes_operations level fuel lhs).advances
  accesses base := (consumes_accesses fuel base).advances
  operatorRound level lhs := (consumes_operatorRound level fuel lhs).advances
  accessRound base := (consumes_accessRound fuel base).advances
  elementRound items := (consumes_itemRound (consumes_element fuel) .square items).advances
  entryRound items := (consumes_itemRound (consumes_entry fuel) .curly items).advances
  argumentRound items := (consumes_itemRound (consumes_argument fuel) .round items).advances
  tupleRound items := (consumes_tupleRound (consumes_expr .disjunction fuel) items).advances

structure Looped (fuel : Nat) : Prop where
  operations : ∀ level lhs, operations fuel level lhs = loop (operatorRound level) fuel lhs
  accesses : ∀ base, accesses fuel base = loop accessRound fuel base
  sequence : ∀ item close, sequence item close fuel = loop (fun _ => itemRound item close) fuel []
  tupleRest : ∀ item, tupleRest item fuel = loop (fun _ => tupleRound item) fuel []

/-- Whatever the tokens are, reading an expression or a call comes to an answer, which is the same with any
more fuel, and with any fuel at all every reading and every round of a loop moves on inside the tokens. -/
theorem reading_ends_and_advances :
    (∀ (ts : List Token) (line fuel : Nat) (level : Level), Expr.fuel ts ≤ fuel →
      expr fuel level ⟨line, ts⟩ ≠ .exhausted ∧
        expr fuel level ⟨line, ts⟩ = expr (Expr.fuel ts) level ⟨line, ts⟩) ∧
    (∀ (ts : List Token) (fuel : Nat), Expr.fuel ts ≤ fuel →
      (expr fuel .disjunction ⟨0, ts⟩).call? = Call.ofTokens? ts) ∧
    ∀ fuel, Looped fuel ∧ Onward fuel := by
  have hends (ts : List Token) (line : Nat) {fuel : Nat} (level : Level) (h : Expr.fuel ts ≤ fuel) :
      expr fuel level ⟨line, ts⟩ ≠ .exhausted ∧
        expr fuel level ⟨line, ts⟩ = expr (Expr.fuel ts) level ⟨line, ts⟩ := by
    have henough : level.enough ts ≤ Expr.fuel ts := by
      rw [Level.enough, Expr.fuel]
      omega
    refine ⟨expr_ne_exhausted (henough.trans h) line, ?_⟩
    exact ((growing h).expr level ⟨line, ts⟩).resolve_left (expr_ne_exhausted henough line)
  refine ⟨fun ts line fuel level => hends ts line level, fun ts fuel h => ?_, fun fuel => ⟨?_, onward fuel⟩⟩
  · rw [(hends ts 0 .disjunction h).2, Call.ofTokens?_eq_call?]
  · exact ⟨fun level => operations_eq_loop level fuel, accesses_eq_loop fuel,
      fun item close => sequence_eq_loop item close fuel, fun item => tupleRest_eq_loop item fuel⟩

end Reading
end BuildSync
