import BuildSync.Proofs.Expr.Sound
import BuildSync.Proofs.Expr.Steady
import BuildSync.Proofs.Token.Relaid

/-!
Steps that are taken side by side, on tokens that are the same but for spare commas. The second run may end
for want of fuel, and else has to do what the first one does.
-/

namespace BuildSync

structure Token.Bare (t : Token) : Prop where
  comment : t.isComment = false
  notIn : t.isKeyword "not in" = false

structure Cursor.Relaid (s : Setting) (c d : Cursor) : Prop where
  tokens : Token.Relaid s c.rest d.rest
  left : ∀ t ∈ c.rest, t.Bare
  right : ∀ t ∈ d.rest, t.Bare

def Outcome.Follows {α : Type} (Q : α → α → Setting → Prop) : Outcome α → Outcome α → Prop
  | .done v c, .done w d => ∃ s, Q v w s ∧ c.Relaid s d
  | .done _ _, .unsupported => False
  | _, _ => True

namespace Reading

def Traces {α : Type} (s : Setting) (Q : α → α → Setting → Prop) (r r' : Reading α) : Prop :=
  ∀ c d, c.Relaid s d → (r c).Follows Q (r' d)

def Ends {α : Type} (s : Setting) (v w : α) (s' : Setting) : Prop := v = w ∧ s' = s

variable {α β : Type} {s : Setting} {Q : α → α → Setting → Prop} {R : β → β → Setting → Prop}

theorem follows_unsupported (y : Outcome α) : Outcome.Follows Q .unsupported y := by
  cases y <;> trivial

theorem follows_exhausted_left (y : Outcome α) : Outcome.Follows Q .exhausted y := by
  cases y <;> trivial

theorem follows_exhausted (x : Outcome α) : x.Follows Q .exhausted := by
  cases x <;> trivial

theorem traces_pure {v w : α} (h : Q v w s) : Traces s Q (Pure.pure v) (Pure.pure w) :=
  fun _ _ hc => ⟨s, h, hc⟩

theorem traces_ends {v : α} : Traces s (Ends s) (Pure.pure v) (Pure.pure v) :=
  traces_pure ⟨rfl, rfl⟩

theorem traces_unsupported (r : Reading α) : Traces s Q unsupported r := fun _ _ _ => follows_unsupported _

theorem traces_exhausted_left (r : Reading α) : Traces s Q exhausted r := fun _ _ _ => follows_exhausted_left _

theorem traces_exhausted (r : Reading α) : Traces s Q r exhausted := fun _ _ _ => follows_exhausted _

theorem Traces.bind {r r' : Reading α} {f g : α → Reading β} (h : Traces s Q r r')
    (hf : ∀ v w s', Q v w s' → Traces s' R (f v) (g w)) : Traces s R (r >>= f) (r' >>= g) := by
  intro c d hc
  have hrr := h c d hc
  change (Reading.bind r f c).Follows R (Reading.bind r' g d)
  unfold Reading.bind
  generalize r c = x at hrr ⊢
  generalize r' d = y at hrr ⊢
  cases x with
  | unsupported => exact follows_unsupported _
  | exhausted => exact follows_exhausted_left _
  | done v c =>
    cases y with
    | unsupported => exact hrr.elim
    | exhausted => exact follows_exhausted _
    | done w d =>
      obtain ⟨s', hQ, hc⟩ := hrr
      exact hf v w s' hQ c d hc

theorem Traces.next {s' : Setting} {r r' : Reading α} {f g : α → Reading β} (h : Traces s (Ends s') r r')
    (hf : ∀ v, Traces s' R (f v) (g v)) : Traces s R (r >>= f) (r' >>= g) := by
  apply h.bind
  rintro v _ _ ⟨rfl, rfl⟩
  exact hf v

def Lockstep (s : Setting) (accept : Token → Bool) : Prop :=
  (∀ t, ¬ s.Spares t) ∨
    ∀ t, accept t = true → (∀ b, t.kind ≠ .closing b) ∧ t.isOperator "," = false

theorem Lockstep.rejects {accept : Token → Bool} (h : Lockstep s accept) {t comma : Token} (hs : s.Spares t)
    (hcomma : comma.isOperator "," = true) : accept t = false ∧ accept comma = false := by
  rcases h with hno | hseam
  · exact absurd hs (hno t)
  obtain ⟨-, e, -, -, hkind⟩ := hs
  constructor
  · rw [← Bool.not_eq_true]
    exact fun ht => (hseam t ht).1 _ hkind
  · rw [← Bool.not_eq_true]
    intro hc
    rw [(hseam comma hc).2] at hcomma
    cases hcomma

theorem bare_comma {comma : Token} (h : comma.isOperator "," = true) : comma.Bare := by
  have hkind : comma.kind = .operator := (by simpa [Token.isOperator] using h : _ ∧ comma.text = ",").1
  exact ⟨by simp [Token.isComment, hkind], by simp [Token.isKeyword, hkind]⟩

def Takes (s : Setting) (accept : Token → Bool) (o p : Option Token) (s' : Setting) : Prop :=
  (o = none ∧ p = none ∧ s' = s) ∨
    ∃ t u, o = some t ∧ p = some u ∧ t.Same u ∧ accept t = true ∧ s' = s.next t

theorem traces_token? {accept : Token → Bool} (ha : Blind accept) (h : Lockstep s accept) :
    Traces s (Takes s accept) (token? accept) (token? accept) := by
  rintro ⟨line, ts⟩ ⟨line', us⟩ ⟨htokens, hts, hus⟩
  dsimp only at htokens hts hus
  have hnone {ts us : List Token} {t u : Token} (hr : Token.Relaid s (t :: ts) (u :: us))
      (hts : ∀ x ∈ t :: ts, x.Bare) (hus : ∀ x ∈ u :: us, x.Bare) (ht : accept t = false)
      (hu : accept u = false) :
      (token? accept ⟨line, t :: ts⟩).Follows (Takes s accept) (token? accept ⟨line', u :: us⟩) := by
    rw [token?_none (by rintro _ ⟨⟩; exact ⟨(hts t List.mem_cons_self).comment, ht⟩),
      token?_none (by rintro _ ⟨⟩; exact ⟨(hus u List.mem_cons_self).comment, hu⟩)]
    exact ⟨s, .inl ⟨rfl, rfl, rfl⟩, hr, hts, hus⟩
  cases htokens with
  | nil => exact ⟨s, .inl ⟨rfl, rfl, rfl⟩, .nil, nofun, nofun⟩
  | @cons _ t u ts us hsame hrest =>
    have haccept := ha t u hsame.kind hsame.text
    by_cases ht : accept t = true
    · obtain ⟨htbare, hts⟩ := List.forall_mem_cons.mp hts
      obtain ⟨hubare, hus⟩ := List.forall_mem_cons.mp hus
      rw [token?_cons htbare.comment ht, token?_cons hubare.comment (haccept.symm.trans ht)]
      exact ⟨s.next t, .inr ⟨t, u, rfl, rfl, hsame, ht, rfl⟩, hrest, hts, hus⟩
    · rw [Bool.not_eq_true] at ht
      exact hnone (.cons hsame hrest) hts hus ht (haccept.symm.trans ht)
  | added hs hcomma hsame hrest =>
    obtain ⟨ht, hc⟩ := h.rejects hs hcomma
    exact hnone (.added hs hcomma hsame hrest) hts hus ht hc
  | dropped hs hcomma hsame hrest =>
    obtain ⟨ht, hc⟩ := h.rejects hs hcomma
    exact hnone (.dropped hs hcomma hsame hrest) hts hus hc ((ha _ _ hsame.kind hsame.text).symm.trans ht)

theorem Traces.ifToken? {accept : Token → Bool} (ha : Blind accept) (h : Lockstep s accept)
    {yes no yes' no' : Reading β} (hyes : ∀ t, accept t = true → Traces (s.next t) R yes yes')
    (hno : Traces s R no no') :
    Traces s R (token? accept >>= fun o => if o.isSome then yes else no)
      (token? accept >>= fun o => if o.isSome then yes' else no') := by
  apply (traces_token? ha h).bind
  rintro o p s' (⟨rfl, rfl, rfl⟩ | ⟨t, u, rfl, rfl, -, ht, rfl⟩)
  · exact hno
  · exact hyes t ht

theorem traces_token (h : ∀ t, ¬ s.Spares t) :
    Traces s (fun t u s' => t.Same u ∧ s' = s.next t) token token := by
  rintro ⟨line, ts⟩ ⟨line', us⟩ ⟨htokens, hts, hus⟩
  dsimp only at htokens hts hus
  cases htokens with
  | nil => exact follows_unsupported _
  | @cons _ t u ts us hsame hrest =>
    obtain ⟨htbare, hts⟩ := List.forall_mem_cons.mp hts
    obtain ⟨hubare, hus⟩ := List.forall_mem_cons.mp hus
    rw [token_cons htbare.comment, token_cons hubare.comment]
    exact ⟨s.next t, ⟨hsame, rfl⟩, hrest, hts, hus⟩
  | added hs => exact absurd hs (h _)
  | dropped hs => exact absurd hs (h _)

theorem expect_cons_false {accept : Token → Bool} {t : Token} (ha : accept t = false) (line : Nat)
    (rest : List Token) : expect accept ⟨line, t :: rest⟩ = .unsupported := by
  cases ht : t.isComment with
  | true => exact bind_unsupported (token_comment ht line rest)
  | false =>
    rw [expect, bind_done (token_cons ht line rest), ha]
    rfl

theorem Traces.expect {accept : Token → Bool} (ha : Blind accept) (h : Lockstep s accept)
    {f g : Unit → Reading β} (hf : ∀ t, accept t = true → Traces (s.next t) R (f ()) (g ())) :
    Traces s R (Reading.expect accept >>= f) (Reading.expect accept >>= g) := by
  have hexpect : Traces s (fun _ _ s' => ∃ t, accept t = true ∧ s' = s.next t) (Reading.expect accept)
      (Reading.expect accept) := by
    rintro ⟨line, ts⟩ ⟨line', us⟩ ⟨htokens, hts, hus⟩
    dsimp only at htokens hts hus
    have hreject {t : Token} {ts us : List Token} (ht : accept t = false) :
        (Reading.expect accept ⟨line, t :: ts⟩).Follows (fun _ _ s' => ∃ t, accept t = true ∧ s' = s.next t)
          (Reading.expect accept ⟨line', us⟩) := by
      rw [expect_cons_false ht]
      exact follows_unsupported _
    cases htokens with
    | nil => exact follows_unsupported _
    | @cons _ t u ts us hsame hrest =>
      by_cases ht : accept t = true
      · obtain ⟨htbare, hts⟩ := List.forall_mem_cons.mp hts
        obtain ⟨hubare, hus⟩ := List.forall_mem_cons.mp hus
        rw [expect_cons htbare.comment ht,
          expect_cons hubare.comment ((ha t u hsame.kind hsame.text).symm.trans ht)]
        exact ⟨s.next t, ⟨t, ht, rfl⟩, hrest, hts, hus⟩
      · exact hreject (by simpa using ht)
    | added hs hcomma => exact hreject (h.rejects hs hcomma).1
    | dropped hs hcomma => exact hreject (h.rejects hs hcomma).2
  apply hexpect.bind
  rintro _ _ _ ⟨t, ht, rfl⟩
  exact hf t ht

theorem head?_comment {ts : List Token} (h : ∀ t ∈ ts, t.Bare) : ts.head?.any Token.isComment = false := by
  cases ts with
  | nil => rfl
  | cons t ts => exact (h t List.mem_cons_self).comment

theorem traces_comments : Traces s (fun v w s' => v = [] ∧ w = [] ∧ s' = s) comments comments := by
  rintro ⟨line, ts⟩ ⟨line', us⟩ hc
  rw [comments_nil (head?_comment hc.left), comments_nil (head?_comment hc.right)]
  exact ⟨s, ⟨rfl, rfl, rfl⟩, hc⟩

theorem suffix?_bare {ts : List Token} (h : ∀ t ∈ ts, t.Bare) (line : Nat) :
    suffix? ⟨line, ts⟩ = .done none ⟨line, ts⟩ :=
  suffix?_none fun t ht => .inl (h t (List.mem_of_mem_head? ht)).comment

theorem traces_suffix? : Traces s (fun v w s' => v = none ∧ w = none ∧ s' = s) suffix? suffix? := by
  rintro ⟨line, ts⟩ ⟨line', us⟩ hc
  rw [suffix?_bare hc.left, suffix?_bare hc.right]
  exact ⟨s, ⟨rfl, rfl, rfl⟩, hc⟩

/-! Behind an item a comma and a closing bracket are asked for in one way or another. -/

theorem closing_of_spares {t : Token} {e : Enclosure} {around : List Enclosure}
    (h : (⟨true, e :: around⟩ : Setting).Spares t) : closing e.bracket t = true := by
  obtain ⟨-, _, ⟨⟩, -, hkind⟩ := h
  rw [closing, hkind, beq_self_eq_true]

theorem comma_closing {t : Token} {b : Bracket} (h : closing b t = true) : symbol "," t = false := by
  rw [closing, beq_iff_eq] at h
  simp [symbol, Token.isOperator, h]

theorem closing_comma {t : Token} (h : symbol "," t = true) (b : Bracket) : closing b t = false := by
  have hkind : t.kind = .operator := (by simpa [symbol, Token.isOperator] using h : _ ∧ t.text = ",").1
  simp [closing, hkind]

theorem next_closing {t : Token} {b : Bracket} (h : closing b t = true) (s : Setting) :
    s.next t = ⟨true, s.around.tail⟩ := by
  rw [closing, beq_iff_eq] at h
  rw [Setting.next, h]

theorem next_comma {t : Token} (h : symbol "," t = true) (s : Setting) :
    s.next t = ⟨false, Enclosure.separate s.around⟩ := by
  obtain ⟨hkind, htext⟩ : t.kind = .operator ∧ t.text = "," := by simpa [symbol, Token.isOperator] using h
  rw [Setting.next, hkind]
  dsimp only
  rw [if_pos htext]

theorem sequence_closing {t : Token} {b : Bracket} (ht : t.Bare) (h : closing b t = true)
    (item : Reading (Label × Expr)) (fuel line : Nat) (rest : List Token) :
    sequence item b (fuel + 1) ⟨line, t :: rest⟩ = .done ⟨[], []⟩ ⟨t.endLine, rest⟩ := by
  rw [sequence, bind_done (@comments_nil (t :: rest) ht.comment line), bind_done (token?_cons ht.comment h line rest)]
  rfl

def sequenceAfter (item : Reading (Label × Expr)) (close : Bracket) (fuel : Nat) (label : Label)
    (value : Expr) : Reading Sequence := do
  if (← token? (symbol ",")).isSome then
    let suffix ← suffixAfter? none
    let others ← sequence item close fuel
    return ⟨⟨[], label, value, suffix⟩ :: others.items, others.trailing⟩
  else
    let trailing ← comments
    expect (closing close)
    return ⟨[⟨[], label, value, none⟩], trailing⟩

variable {item item' : Reading (Label × Expr)} {label : Label} {value : Expr} {close : Bracket}
  {t u : Token} {fuel : Nat}

theorem sequenceAfter_comma (ht : t.Bare) (h : symbol "," t = true) {rest : List Token}
    (hrest : ∀ t ∈ rest, t.Bare) (line : Nat) : sequenceAfter item close fuel label value ⟨line, t :: rest⟩ =
      (sequence item close fuel >>= fun others =>
        (Pure.pure ⟨⟨[], label, value, none⟩ :: others.items, others.trailing⟩ : Reading Sequence))
        ⟨t.endLine, rest⟩ := by
  rw [sequenceAfter, bind_done (token?_cons ht.comment h line rest)]
  simp only [Option.isSome_some, if_true]
  have hsuffix : suffixAfter? none ⟨t.endLine, rest⟩ = .done none ⟨t.endLine, rest⟩ := suffix?_bare hrest t.endLine
  rw [bind_done hsuffix]

theorem sequenceAfter_closing (ht : t.Bare) (h : closing close t = true) (line : Nat) (rest : List Token) :
    sequenceAfter item close fuel label value ⟨line, t :: rest⟩ =
      .done ⟨[⟨[], label, value, none⟩], []⟩ ⟨t.endLine, rest⟩ := by
  rw [sequenceAfter, bind_done (token?_none (by rintro _ ⟨⟩; exact ⟨ht.comment, comma_closing h⟩) line)]
  simp only [Option.isSome_none, Bool.false_eq_true, if_false]
  rw [bind_done (@comments_nil (t :: rest) ht.comment line), bind_done (expect_cons ht.comment h line rest)]
  rfl

theorem sequenceAfter_unsupported (ht : t.Bare) (hcomma : symbol "," t = false) (h : closing close t = false)
    (line : Nat) (rest : List Token) :
    sequenceAfter item close fuel label value ⟨line, t :: rest⟩ = .unsupported := by
  rw [sequenceAfter, bind_done (token?_none (by rintro _ ⟨⟩; exact ⟨ht.comment, hcomma⟩) line)]
  simp only [Option.isSome_none, Bool.false_eq_true, if_false]
  rw [bind_done (@comments_nil (t :: rest) ht.comment line), bind_unsupported (expect_cons_false h line rest)]

theorem sequenceAfter_spare {comma : Token} (hcomma : symbol "," comma = true) (ht : t.Bare)
    (h : closing close t = true) {rest : List Token} (hrest : ∀ t ∈ rest, t.Bare) (line : Nat) :
    sequenceAfter item close (fuel + 1) label value ⟨line, comma :: t :: rest⟩ =
      .done ⟨[⟨[], label, value, none⟩], []⟩ ⟨t.endLine, rest⟩ := by
  rw [sequenceAfter_comma (bare_comma hcomma) hcomma (List.forall_mem_cons.mpr ⟨ht, hrest⟩),
    bind_done (sequence_closing ht h item fuel _ rest)]
  rfl

theorem sequenceAfter_zero {comma : Token} (hcomma : symbol "," comma = true) {rest : List Token}
    (hrest : ∀ t ∈ rest, t.Bare) (line : Nat) :
    sequenceAfter item close 0 label value ⟨line, comma :: rest⟩ = .exhausted := by
  rw [sequenceAfter_comma (bare_comma hcomma) hcomma hrest]
  rfl

theorem traces_sequenceAfter {e : Enclosure} {around : List Enclosure} (he : e.trails = true) {fuel fuel' : Nat}
    (h : Traces ⟨false, e :: around⟩ (Ends ⟨true, around⟩) (sequence item e.bracket fuel)
      (sequence item' e.bracket fuel')) :
    Traces ⟨true, e :: around⟩ (Ends ⟨true, around⟩) (sequenceAfter item e.bracket fuel label value)
      (sequenceAfter item' e.bracket fuel' label value) := by
  rintro ⟨line, ts⟩ ⟨line', us⟩ ⟨htokens, hts, hus⟩
  dsimp only at htokens hts hus
  cases htokens with
  | nil => exact follows_unsupported _
  | @cons _ t u ts us hsame hrest =>
    obtain ⟨ht, hts⟩ := List.forall_mem_cons.mp hts
    obtain ⟨hu, hus⟩ := List.forall_mem_cons.mp hus
    have hcomma := blind_isOperator "," t u hsame.kind hsame.text
    have hclosing := blind_closing e.bracket t u hsame.kind hsame.text
    by_cases htcomma : symbol "," t = true
    · rw [sequenceAfter_comma ht htcomma hts, sequenceAfter_comma hu (hcomma.symm.trans htcomma) hus]
      rw [next_comma htcomma, Enclosure.separate_of_trails he] at hrest
      exact h.next (fun others => traces_ends) _ _ ⟨hrest, hts, hus⟩
    rw [Bool.not_eq_true] at htcomma
    by_cases htclosing : closing e.bracket t = true
    · rw [sequenceAfter_closing ht htclosing, sequenceAfter_closing hu (hclosing.symm.trans htclosing)]
      exact ⟨_, ⟨rfl, next_closing htclosing _⟩, hrest, hts, hus⟩
    · rw [sequenceAfter_unsupported ht htcomma (by simpa using htclosing)]
      exact follows_unsupported _
  | @added _ t u comma ts us hs hcomma hsame hrest =>
    obtain ⟨ht, hts⟩ := List.forall_mem_cons.mp hts
    obtain ⟨-, hus⟩ := List.forall_mem_cons.mp hus
    obtain ⟨hu, husrest⟩ := List.forall_mem_cons.mp hus
    have htclosing := closing_of_spares hs
    have huclosing := (blind_closing e.bracket t u hsame.kind hsame.text).symm.trans htclosing
    rw [sequenceAfter_closing ht htclosing]
    cases fuel' with
    | zero =>
      rw [sequenceAfter_zero hcomma hus]
      exact follows_exhausted _
    | succ fuel' =>
      rw [sequenceAfter_spare hcomma hu huclosing husrest]
      exact ⟨_, ⟨rfl, next_closing htclosing _⟩, hrest, hts, husrest⟩
  | @dropped _ t u comma ts us hs hcomma hsame hrest =>
    obtain ⟨-, hts⟩ := List.forall_mem_cons.mp hts
    obtain ⟨ht, htsrest⟩ := List.forall_mem_cons.mp hts
    obtain ⟨hu, hus⟩ := List.forall_mem_cons.mp hus
    have htclosing := closing_of_spares hs
    have huclosing := (blind_closing e.bracket t u hsame.kind hsame.text).symm.trans htclosing
    rw [sequenceAfter_closing hu huclosing]
    cases fuel with
    | zero =>
      rw [sequenceAfter_zero hcomma hts]
      exact follows_exhausted_left _
    | succ fuel =>
      rw [sequenceAfter_spare hcomma ht htclosing htsrest]
      exact ⟨_, ⟨rfl, next_closing htclosing _⟩, hrest, htsrest, hus⟩

theorem traces_sequence {e : Enclosure} {around : List Enclosure} (he : e.trails = true)
    (h : Traces ⟨false, e :: around⟩ (Ends ⟨true, e :: around⟩) item item') (fuel fuel' : Nat) :
    Traces ⟨false, e :: around⟩ (Ends ⟨true, around⟩) (sequence item e.bracket fuel)
      (sequence item' e.bracket fuel') := by
  induction fuel generalizing fuel' with
  | zero => exact traces_exhausted_left _
  | succ fuel ih =>
    cases fuel' with
    | zero => exact traces_exhausted _
    | succ fuel' =>
      apply traces_comments.bind
      rintro _ _ _ ⟨rfl, rfl, rfl⟩
      apply Traces.ifToken? (blind_closing _) (.inl (Setting.not_spares_false _))
      · intro t ht
        rw [next_closing ht]
        exact traces_ends
      apply h.next
      rintro ⟨label, value⟩
      apply traces_suffix?.bind
      rintro _ _ _ ⟨rfl, rfl, rfl⟩
      exact traces_sequenceAfter he (ih fuel')

def tupleItems (item : Reading Expr) (fuel : Nat) : Reading (List Expr) := do
  if (← token? (closing .round)).isSome then return []
  let value ← item
  if (← token? (closing .round)).isSome then return [value]
  return value :: (← tupleRest item fuel)

theorem tupleRest_succ (item : Reading Expr) (fuel : Nat) :
    tupleRest item (fuel + 1) = (expect (symbol ",") >>= fun _ => tupleItems item fuel) := rfl

def tupleAfter (item : Reading Expr) (fuel : Nat) (value : Expr) : Reading (List Expr) := do
  if (← token? (closing .round)).isSome then return [value]
  return value :: (← tupleRest item fuel)

section

variable {item item' : Reading Expr} {value : Expr} {t : Token} {fuel : Nat}

theorem tupleAfter_closing (ht : t.Bare) (h : closing .round t = true) (line : Nat) (rest : List Token) :
    tupleAfter item fuel value ⟨line, t :: rest⟩ = .done [value] ⟨t.endLine, rest⟩ := by
  rw [tupleAfter, bind_done (token?_cons ht.comment h line rest)]
  rfl

theorem tupleAfter_cons (ht : t.Bare) (h : closing .round t = false) (line : Nat) (rest : List Token) :
    tupleAfter item fuel value ⟨line, t :: rest⟩ =
      (tupleRest item fuel >>= fun others => (Pure.pure (value :: others) : Reading (List Expr)))
        ⟨line, t :: rest⟩ := by
  rw [tupleAfter, bind_done (token?_none (by rintro _ ⟨⟩; exact ⟨ht.comment, h⟩) line)]
  rfl

theorem tupleAfter_comma (h : symbol "," t = true) (line : Nat) (rest : List Token) :
    tupleAfter item (fuel + 1) value ⟨line, t :: rest⟩ =
      (tupleItems item fuel >>= fun others => (Pure.pure (value :: others) : Reading (List Expr)))
        ⟨t.endLine, rest⟩ := by
  have ht := bare_comma h
  rw [tupleAfter_cons ht (closing_comma h _), tupleRest_succ]
  change Reading.bind (Reading.bind (expect (symbol ",")) fun _ => tupleItems item fuel) _ _ = _
  rw [Reading.bind, Reading.bind, expect_cons ht.comment h line rest]
  rfl

theorem tupleAfter_unsupported (ht : t.Bare) (hcomma : symbol "," t = false)
    (h : closing .round t = false) (line : Nat) (rest : List Token) :
    tupleAfter item (fuel + 1) value ⟨line, t :: rest⟩ = .unsupported := by
  rw [tupleAfter_cons ht h, tupleRest_succ]
  exact bind_unsupported (bind_unsupported (expect_cons_false hcomma line rest))

theorem tupleAfter_zero (h : symbol "," t = true) (line : Nat) (rest : List Token) :
    tupleAfter item 0 value ⟨line, t :: rest⟩ = .exhausted := by
  rw [tupleAfter_cons (bare_comma h) (closing_comma h _)]
  rfl

theorem tupleAfter_spare {comma : Token} (hcomma : symbol "," comma = true) (ht : t.Bare)
    (h : closing .round t = true) (line : Nat) (rest : List Token) :
    tupleAfter item (fuel + 1) value ⟨line, comma :: t :: rest⟩ = .done [value] ⟨t.endLine, rest⟩ := by
  have hitems : tupleItems item fuel ⟨comma.endLine, t :: rest⟩ = .done [] ⟨t.endLine, rest⟩ := by
    rw [tupleItems, bind_done (token?_cons ht.comment h _ rest)]
    rfl
  rw [tupleAfter_comma hcomma, bind_done hitems]
  rfl

theorem traces_tupleAfter {around : List Enclosure} {fuel fuel' : Nat}
    (h : ∀ n n', fuel = n + 1 → fuel' = n' + 1 → Traces ⟨false, .tuple :: around⟩ (Ends ⟨true, around⟩)
      (tupleItems item n) (tupleItems item' n')) :
    Traces ⟨true, .tuple :: around⟩ (Ends ⟨true, around⟩) (tupleAfter item fuel value)
      (tupleAfter item' fuel' value) := by
  rintro ⟨line, ts⟩ ⟨line', us⟩ ⟨htokens, hts, hus⟩
  dsimp only at htokens hts hus
  cases htokens with
  | nil => cases fuel <;> first | exact follows_unsupported _ | exact follows_exhausted_left _
  | @cons _ t u ts us hsame hrest =>
    obtain ⟨ht, hts⟩ := List.forall_mem_cons.mp hts
    obtain ⟨hu, hus⟩ := List.forall_mem_cons.mp hus
    have hcomma := blind_isOperator "," t u hsame.kind hsame.text
    have hclosing := blind_closing .round t u hsame.kind hsame.text
    by_cases htclosing : closing .round t = true
    · rw [tupleAfter_closing ht htclosing, tupleAfter_closing hu (hclosing.symm.trans htclosing)]
      exact ⟨_, ⟨rfl, next_closing htclosing _⟩, hrest, hts, hus⟩
    rw [Bool.not_eq_true] at htclosing
    cases fuel with
    | zero =>
      rw [tupleAfter_cons ht htclosing]
      exact follows_exhausted_left _
    | succ fuel =>
      by_cases htcomma : symbol "," t = true
      · have hucomma := hcomma.symm.trans htcomma
        rw [next_comma htcomma] at hrest
        rw [tupleAfter_comma htcomma]
        cases fuel' with
        | zero =>
          rw [tupleAfter_zero hucomma]
          exact follows_exhausted _
        | succ fuel' =>
          rw [tupleAfter_comma hucomma]
          exact (h fuel fuel' rfl rfl).next (fun others => traces_ends) _ _ ⟨hrest, hts, hus⟩
      · rw [tupleAfter_unsupported ht (by simpa using htcomma) htclosing]
        exact follows_unsupported _
  | @added _ t u comma ts us hs hcomma hsame hrest =>
    obtain ⟨ht, hts⟩ := List.forall_mem_cons.mp hts
    obtain ⟨hu, hus⟩ := List.forall_mem_cons.mp (List.forall_mem_cons.mp hus).2
    have htclosing := closing_of_spares hs
    have huclosing := (blind_closing .round t u hsame.kind hsame.text).symm.trans htclosing
    rw [tupleAfter_closing ht htclosing]
    cases fuel' with
    | zero =>
      rw [tupleAfter_zero hcomma]
      exact follows_exhausted _
    | succ fuel' =>
      rw [tupleAfter_spare hcomma hu huclosing]
      exact ⟨_, ⟨rfl, next_closing htclosing _⟩, hrest, hts, hus⟩
  | @dropped _ t u comma ts us hs hcomma hsame hrest =>
    obtain ⟨ht, hts⟩ := List.forall_mem_cons.mp (List.forall_mem_cons.mp hts).2
    obtain ⟨hu, hus⟩ := List.forall_mem_cons.mp hus
    have htclosing := closing_of_spares hs
    have huclosing := (blind_closing .round t u hsame.kind hsame.text).symm.trans htclosing
    rw [tupleAfter_closing hu huclosing]
    cases fuel with
    | zero =>
      rw [tupleAfter_zero hcomma]
      exact follows_exhausted_left _
    | succ fuel =>
      rw [tupleAfter_spare hcomma ht htclosing]
      exact ⟨_, ⟨rfl, next_closing htclosing _⟩, hrest, hts, hus⟩

theorem traces_tupleItems {around : List Enclosure}
    (h : Traces ⟨false, .tuple :: around⟩ (Ends ⟨true, .tuple :: around⟩) item item') (fuel fuel' : Nat) :
    Traces ⟨false, .tuple :: around⟩ (Ends ⟨true, around⟩) (tupleItems item fuel) (tupleItems item' fuel') := by
  induction fuel using Nat.strong_induction_on generalizing fuel' with
  | _ fuel ih =>
    apply Traces.ifToken? (blind_closing _) (.inl (Setting.not_spares_false _))
    · intro t ht
      rw [next_closing ht]
      exact traces_ends
    apply h.next
    intro value
    apply traces_tupleAfter
    rintro n n' rfl rfl
    exact ih n (Nat.lt_succ_self n) n'

theorem traces_tupleRest {around : List Enclosure}
    (h : Traces ⟨false, .tuple :: around⟩ (Ends ⟨true, .tuple :: around⟩) item item') (fuel fuel' : Nat) :
    Traces ⟨true, .parenthesis :: around⟩ (Ends ⟨true, around⟩) (tupleRest item fuel) (tupleRest item' fuel') := by
  cases fuel with
  | zero => exact traces_exhausted_left _
  | succ fuel =>
    cases fuel' with
    | zero => exact traces_exhausted _
    | succ fuel' =>
      apply Traces.expect (blind_isOperator ",") (.inl (Setting.not_spares_of_trails rfl _ _))
      intro t ht
      rw [next_comma ht]
      exact traces_tupleItems h fuel fuel'

end

end Reading
end BuildSync
