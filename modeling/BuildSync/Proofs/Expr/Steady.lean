import BuildSync.Proofs.Expr.Reads
import BuildSync.Proofs.Expr.Resemblance
import Mathlib.Data.List.Forall2

/-!
What an expression is read as depends on kinds and texts of tokens, and on lines only as far as
two tokens stand on the same one.
-/

namespace BuildSync

structure Token.Echoes (a b : Nat) (t u : Token) : Prop where
  kind : t.kind = u.kind
  text : t.text = u.text
  line : t.start.line + b = u.start.line + a

theorem Token.Echoes.endLine {a b : Nat} {t u : Token} (h : Echoes a b t u) :
    t.endLine + b = u.endLine + a := by
  have := h.line
  simp only [Token.endLine, h.text]
  omega

structure Token.Mirrors (S : String → String → String → String → Prop) (a b : Nat) (t u : Token) : Prop where
  looks : t.Resembles S u
  line : t.start.line + b = u.start.line + a
  endLine : t.endLine + b = u.endLine + a

theorem Token.Echoes.mirrors {a b : Nat} {t u : Token} (h : Echoes a b t u) : Mirrors SameLiteral a b t u where
  looks := by
    cases hstring : t.isString with
    | false => exact .same h.kind h.text hstring
    | true =>
      cases hk : t.kind with
      | string v => exact .string hk (h.kind ▸ hk) ⟨rfl, h.text⟩
      | _ => simp [isString, hk] at hstring
  line := h.line
  endLine := h.endLine

structure Cursor.Mirrors (S : String → String → String → String → Prop) (a b : Nat) (c d : Cursor) : Prop where
  line : c.line + b = d.line + a
  rest : List.Forall₂ (Token.Mirrors S a b) c.rest d.rest

inductive Outcome.Mirrors {α : Type} (S : String → String → String → String → Prop) (a b : Nat) (V : α → α → Prop) :
    Outcome α → Outcome α → Prop
  | done {v w : α} {c d : Cursor} (hv : V v w) (hc : c.Mirrors S a b d) : Mirrors S a b V (.done v c) (.done w d)
  | unsupported : Mirrors S a b V .unsupported .unsupported
  | exhausted : Mirrors S a b V .exhausted .exhausted

namespace Reading

def Steady {α : Type} (S : String → String → String → String → Prop) (a b : Nat) (V : α → α → Prop)
    (r s : Reading α) : Prop :=
  ∀ c d, c.Mirrors S a b d → (r c).Mirrors S a b V (s d)

variable {α β : Type} {S : String → String → String → String → Prop} {a b : Nat} {V : α → α → Prop}
  {W : β → β → Prop}

theorem steady_pure {v w : α} (h : V v w) : Steady S a b V (Pure.pure v) (Pure.pure w) :=
  fun _ _ hc => .done h hc

theorem steady_unsupported : Steady S a b V unsupported unsupported := fun _ _ _ => .unsupported

theorem steady_exhausted : Steady S a b V exhausted exhausted := fun _ _ _ => .exhausted

theorem Steady.bind {r s : Reading α} {f g : α → Reading β} (h : Steady S a b V r s)
    (hf : ∀ v w, V v w → Steady S a b W (f v) (g w)) : Steady S a b W (r >>= f) (s >>= g) := by
  intro c d hc
  have hrs := h c d hc
  change (Reading.bind r f c).Mirrors S a b W (Reading.bind s g d)
  unfold Reading.bind
  generalize r c = x at hrs ⊢
  generalize s d = y at hrs ⊢
  cases hrs with
  | done hv hc => exact hf _ _ hv _ _ hc
  | unsupported => exact .unsupported
  | exhausted => exact .exhausted

def Blind (accept : Token → Bool) : Prop := ∀ t u : Token, t.kind = u.kind → t.text = u.text → accept t = accept u

theorem blind_isComment : Blind Token.isComment := fun t u hk _ => by simp [Token.isComment, hk]

theorem blind_isOperator (op : String) : Blind (·.isOperator op) := fun t u hk ht => by
  simp [Token.isOperator, hk, ht]

theorem blind_isKeyword (word : String) : Blind (·.isKeyword word) := fun t u hk ht => by
  simp [Token.isKeyword, hk, ht]

theorem blind_opening (b : Bracket) : Blind (opening b) := fun t u hk _ => by simp [opening, hk]

theorem blind_closing (b : Bracket) : Blind (closing b) := fun t u hk _ => by simp [closing, hk]

theorem blind_isString : Blind Token.isString := fun t u hk _ => by simp [Token.isString, hk]

theorem blind_isName : Blind isName := fun t u hk ht => by simp [isName, hk, ht]

def Dull (accept : Token → Bool) : Prop := ∀ S t u, Token.Resembles S t u → accept t = accept u

theorem dull_of_blind {accept : Token → Bool} (h : Blind accept) (answer : Bool)
    (hstring : ∀ t v, t.kind = .string v → accept t = answer) : Dull accept := by
  intro S t u htu
  cases htu with
  | string ht hu => rw [hstring t _ ht, hstring u _ hu]
  | same hkind htext => exact h t u hkind htext

theorem dull_isComment : Dull Token.isComment :=
  dull_of_blind blind_isComment false fun t v ht => by simp [Token.isComment, ht]

theorem dull_isOperator (op : String) : Dull (·.isOperator op) :=
  dull_of_blind (blind_isOperator op) false fun t v ht => by simp [Token.isOperator, ht]

theorem dull_isKeyword (word : String) : Dull (·.isKeyword word) :=
  dull_of_blind (blind_isKeyword word) false fun t v ht => by simp [Token.isKeyword, ht]

theorem dull_opening (b : Bracket) : Dull (opening b) :=
  dull_of_blind (blind_opening b) false fun t v ht => by simp [opening, ht]

theorem dull_closing (b : Bracket) : Dull (closing b) :=
  dull_of_blind (blind_closing b) false fun t v ht => by simp [closing, ht]

theorem dull_isString : Dull Token.isString :=
  dull_of_blind blind_isString true fun t v ht => by simp [Token.isString, ht]

theorem dull_isName : Dull isName :=
  dull_of_blind blind_isName false fun t v ht => by simp [isName, ht]

def OptionMirrors (S : String → String → String → String → Prop) (a b : Nat) : Option Token → Option Token → Prop :=
  Option.Rel (Token.Mirrors S a b)

theorem OptionMirrors.any {o p : Option Token} (h : OptionMirrors S a b o p) {accept : Token → Bool}
    (ha : Dull accept) : o.any accept = p.any accept := by
  cases h with
  | some h => exact ha S _ _ h.looks
  | none => rfl

theorem dropWhile_mirrors {ts us : List Token} (h : List.Forall₂ (Token.Mirrors S a b) ts us) :
    List.Forall₂ (Token.Mirrors S a b) (ts.dropWhile Token.isComment) (us.dropWhile Token.isComment) := by
  induction h with
  | nil => exact .nil
  | @cons t u ts us htu htus ih =>
    have hc : t.isComment = u.isComment := dull_isComment S t u htu.looks
    rw [List.dropWhile_cons, List.dropWhile_cons, hc]
    split_ifs
    · exact ih
    · exact .cons htu htus

theorem isString_of_isComment {t : Token} (h : t.isComment = true) : t.isString = false := by
  simp only [Token.isComment, beq_iff_eq] at h
  simp [Token.isString, h]

theorem takeWhile_mirrors {ts us : List Token} (h : List.Forall₂ (Token.Mirrors S a b) ts us) :
    (ts.takeWhile Token.isComment).map Token.text = (us.takeWhile Token.isComment).map Token.text := by
  induction h with
  | nil => rfl
  | @cons t u ts us htu htus ih =>
    have hc : t.isComment = u.isComment := dull_isComment S t u htu.looks
    rw [List.takeWhile_cons, List.takeWhile_cons, ← hc]
    split_ifs with hcomment
    · rw [List.map_cons, List.map_cons, ih, (htu.looks.text_eq (isString_of_isComment hcomment)).2]
    · rfl

theorem find?_mirrors {ts us : List Token} (h : List.Forall₂ (Token.Mirrors S a b) ts us) :
    OptionMirrors S a b (ts.find? (!·.isComment)) (us.find? (!·.isComment)) := by
  induction h with
  | nil => exact .none
  | @cons t u ts us htu htus ih =>
    have hc : t.isComment = u.isComment := dull_isComment S t u htu.looks
    rw [List.find?_cons, List.find?_cons, hc]
    split
    · exact .some htu
    · exact ih

theorem steady_ahead :
    Steady S a b (fun x y => OptionMirrors S a b x.1 y.1 ∧ OptionMirrors S a b x.2 y.2) ahead ahead := by
  rintro ⟨line, ts⟩ ⟨line', us⟩ hc
  have hdrop := dropWhile_mirrors hc.rest
  unfold ahead
  dsimp only at hdrop ⊢
  cases hts : ts.dropWhile Token.isComment with
  | nil =>
    rw [hts] at hdrop
    cases hus : us.dropWhile Token.isComment with
    | nil => exact .done ⟨.none, .none⟩ hc
    | cons u us => rw [hus] at hdrop; cases hdrop
  | cons t ts =>
    rw [hts] at hdrop
    cases hus : us.dropWhile Token.isComment with
    | nil => rw [hus] at hdrop; cases hdrop
    | cons u us =>
      rw [hus] at hdrop
      cases hdrop with
      | cons htu htus => exact .done ⟨.some htu, find?_mirrors htus⟩ hc

theorem steady_token : Steady S a b (Token.Mirrors S a b) token token := by
  rintro ⟨line, ts⟩ ⟨line', us⟩ hc
  cases hc.rest with
  | nil => exact .unsupported
  | @cons t u ts us htu htus =>
    have hcomment : t.isComment = u.isComment := dull_isComment S t u htu.looks
    unfold token
    dsimp only
    rw [hcomment]
    split_ifs
    · exact .unsupported
    · exact .done htu ⟨htu.endLine, htus⟩

theorem token_of_ahead {c c' c'' : Cursor} {x : Option Token × Option Token} {t : Token}
    (hahead : ahead c = .done x c') (htoken : token c = .done t c'') : x.1 = some t := by
  obtain ⟨line, ts⟩ := c
  obtain ⟨rfl, hcomment, -⟩ := token_eq_done htoken
  rw [ahead_cons hcomment] at hahead
  cases hahead
  rfl

theorem steady_ahead_token {f g : Option Token × Option Token → Reading β} {r s : Token → Reading β}
    {accept : Option Token × Option Token → Bool}
    (haccept : ∀ x y, OptionMirrors S a b x.1 y.1 → OptionMirrors S a b x.2 y.2 → accept x = accept y)
    (hr : ∀ t u o, Token.Mirrors S a b t u → accept (some t, o) = true → Steady S a b W (r t) (s u))
    (hf : ∀ x y, OptionMirrors S a b x.1 y.1 → OptionMirrors S a b x.2 y.2 → Steady S a b W (f x) (g y)) :
    Steady S a b W (ahead >>= fun x => if accept x then token >>= r else f x)
      (ahead >>= fun y => if accept y then token >>= s else g y) := by
  intro c d hc
  have hahead := steady_ahead c d hc
  obtain ⟨x, hx⟩ : ∃ x, ahead c = .done x c := by
    unfold ahead
    split <;> exact ⟨_, rfl⟩
  obtain ⟨y, hy⟩ : ∃ y, ahead d = .done y d := by
    unfold ahead
    split <;> exact ⟨_, rfl⟩
  rw [hx, hy] at hahead
  obtain ⟨⟨hfirst, hsecond⟩, -⟩ := hahead
  rw [bind_done hx, bind_done hy, haccept x y hfirst hsecond]
  split_ifs with hyes
  · have htoken := steady_token c d hc
    change (Reading.bind token r c).Mirrors S a b W (Reading.bind token s d)
    unfold Reading.bind
    cases htc : token c with
    | done t c' =>
      rw [htc] at htoken
      generalize token d = z at htoken ⊢
      cases htoken with
      | done htu hc' =>
        refine hr _ _ x.2 htu ?_ _ _ hc'
        rw [← token_of_ahead hx htc, haccept x y hfirst hsecond]
        exact hyes
    | unsupported =>
      rw [htc] at htoken
      generalize token d = z at htoken ⊢
      cases htoken
      exact .unsupported
    | exhausted =>
      rw [htc] at htoken
      generalize token d = z at htoken ⊢
      cases htoken
      exact .exhausted
  · exact hf x y hfirst hsecond c d hc

def Passes (S : String → String → String → String → Prop) (a b : Nat) (accept : Token → Bool) :
    Option Token → Option Token → Prop :=
  Option.Rel fun t u => t.Mirrors S a b u ∧ accept t = true

theorem steady_token? {accept : Token → Bool} (ha : Dull accept) :
    Steady S a b (Passes S a b accept) (token? accept) (token? accept) := by
  refine steady_ahead_token (fun x y hfirst _ => hfirst.any ha) (fun t u _ htu ht => ?_)
    fun _ _ _ _ => steady_pure .none
  exact steady_pure (.some ⟨htu, by simpa using ht⟩)

theorem steady_expect {accept : Token → Bool} (ha : Dull accept) :
    Steady S a b Eq (expect accept) (expect accept) := by
  refine steady_token.bind fun t u htu => ?_
  rw [ha S t u htu.looks]
  split_ifs
  · exact steady_pure rfl
  · exact steady_unsupported

theorem steady_comments : Steady S a b Eq comments comments := by
  rintro ⟨line, ts⟩ ⟨line', us⟩ hc
  exact .done (takeWhile_mirrors hc.rest) ⟨hc.line, dropWhile_mirrors hc.rest⟩

theorem steady_suffix? : Steady S a b Eq suffix? suffix? := by
  rintro ⟨line, ts⟩ ⟨line', us⟩ hc
  have hline := hc.line
  cases hc.rest with
  | nil => exact .done rfl ⟨hline, .nil⟩
  | @cons t u ts us htu htus =>
    have hcomment : t.isComment = u.isComment := dull_isComment S t u htu.looks
    have hsame : (t.start.line == line) = (u.start.line == line') := by
      have := htu.line
      dsimp only at hline
      rw [Bool.eq_iff_iff, beq_iff_eq, beq_iff_eq]
      omega
    unfold suffix?
    dsimp only
    rw [← hcomment, hsame]
    split_ifs with hsuffix
    · have hstring := isString_of_isComment (Bool.and_eq_true_iff.mp hsuffix).1
      exact .done (congrArg some (htu.looks.text_eq hstring).2) ⟨hline, htus⟩
    · exact .done rfl ⟨hline, .cons htu htus⟩

theorem steady_suffixAfter? (s : Option String) : Steady S a b Eq (suffixAfter? s) (suffixAfter? s) := by
  cases s with
  | some c => exact steady_pure rfl
  | none => exact steady_suffix?

theorem operator?_string {level : Level} {t : Token} {v : String} (ht : t.kind = .string v) (o : Option Token) :
    level.operator? t o = none := by
  simp [Level.operator?, Token.isKeyword, ht]

theorem operator?_mirrors {level : Level} {t u : Token} {o p : Option Token} (ht : Token.Mirrors S a b t u)
    (ho : OptionMirrors S a b o p) : level.operator? t o = level.operator? u p := by
  cases ht.looks with
  | string ht hu => rw [operator?_string ht, operator?_string hu]
  | same hkind htext =>
    have hnot : t.isKeyword "not" = u.isKeyword "not" := blind_isKeyword "not" t u hkind htext
    have hin := ho.any (dull_isKeyword "in")
    unfold Level.operator?
    rw [hkind, htext, hnot, hin]

theorem steady_operator? (level : Level) : Steady S a b Eq (operator? level) (operator? level) := by
  refine steady_ahead.bind fun x y hxy => ?_
  obtain ⟨x₁, x₂⟩ := x
  obtain ⟨y₁, y₂⟩ := y
  obtain ⟨h₁, h₂⟩ := hxy
  have hop : x₁.bind (level.operator? · x₂) = y₁.bind (level.operator? · y₂) := by
    cases h₁ with
    | some h => exact operator?_mirrors h h₂
    | none => rfl
  dsimp only
  rw [hop]
  split
  · exact steady_pure rfl
  · refine steady_token.bind fun _ _ _ => ?_
    split_ifs
    · exact steady_token.bind fun _ _ _ => steady_pure rfl
    · exact steady_pure rfl

theorem Passes.isSome {accept : Token → Bool} {o p : Option Token} (h : Passes S a b accept o p) :
    o.isSome = p.isSome := by
  cases h <;> rfl

def Labelled (S : String → String → String → String → Prop) (x y : Label × Expr) : Prop :=
  x.1.Resembles S y.1 ∧ x.2.Resembles S y.2

theorem steady_sequence {item : Reading (Label × Expr)} (h : Steady S a b (Labelled S) item item) (close : Bracket)
    (fuel : Nat) : Steady S a b (Sequence.Resembles S) (sequence item close fuel) (sequence item close fuel) := by
  induction fuel with
  | zero => exact steady_exhausted
  | succ fuel ih =>
    apply steady_comments.bind
    rintro comments _ rfl
    refine (steady_token? (dull_closing close)).bind fun o p hop => ?_
    rw [hop.isSome]
    split_ifs
    · exact steady_pure ⟨trivial, rfl⟩
    apply h.bind
    rintro ⟨label, value⟩ ⟨label', value'⟩ ⟨hlabel, hvalue⟩
    refine steady_suffix?.bind ?_
    rintro before _ rfl
    refine (steady_token? (dull_isOperator ",")).bind fun o p hop => ?_
    rw [hop.isSome]
    split_ifs
    · refine (steady_suffixAfter? before).bind ?_
      rintro suffix _ rfl
      apply ih.bind
      rintro ⟨items, trailing⟩ ⟨items', trailing'⟩ ⟨hitems, htrailing⟩
      exact steady_pure ⟨⟨⟨rfl, hlabel, hvalue, rfl⟩, hitems⟩, htrailing⟩
    · apply steady_comments.bind
      rintro trailing _ rfl
      refine (steady_expect (dull_closing close)).bind fun _ _ _ => ?_
      exact steady_pure ⟨⟨⟨rfl, hlabel, hvalue, rfl⟩, trivial⟩, rfl⟩

theorem steady_tupleRest {item : Reading Expr} (h : Steady S a b (Expr.Resembles S) item item) (fuel : Nat) :
    Steady S a b (Expr.AllResemble S) (tupleRest item fuel) (tupleRest item fuel) := by
  induction fuel with
  | zero => exact steady_exhausted
  | succ fuel ih =>
    refine (steady_expect (dull_isOperator ",")).bind fun _ _ _ =>
      (steady_token? (dull_closing .round)).bind fun o p hop => ?_
    rw [hop.isSome]
    split_ifs
    · exact steady_pure trivial
    refine h.bind fun _ _ hvalue => (steady_token? (dull_closing .round)).bind fun o p hop => ?_
    rw [hop.isSome]
    split_ifs
    · exact steady_pure ⟨hvalue, trivial⟩
    · exact ih.bind fun _ _ hothers => steady_pure ⟨hvalue, hothers⟩

theorem steady_argumentLabel : Steady S a b (Label.Resembles S) argumentLabel argumentLabel := by
  have hident : Dull (·.kind == .ident) :=
    dull_of_blind (fun t u hk _ => by simp [hk]) false fun t v ht => by simp [ht]
  refine steady_ahead_token (fun x y hfirst hsecond => ?_) (fun t u o htu ht => ?_) fun _ _ _ _ => steady_pure trivial
  · rw [hfirst.any hident, hsecond.any (dull_isOperator "=")]
  · have hstring : t.isString = false := by
      have hk : t.kind = .ident := by simpa using (Bool.and_eq_true_iff.mp ht).1
      simp [Token.isString, hk]
    exact (steady_expect (dull_isOperator "=")).bind fun _ _ _ => steady_pure (htu.looks.text_eq hstring).2

variable (S a b) in
structure EvenlySteady (fuel : Nat) : Prop where
  expr : ∀ level, Steady S a b (Expr.Resembles S) (expr fuel level) (expr fuel level)
  operations : ∀ level ∈ Level.binary, ∀ lhs lhs', Expr.Resembles S lhs lhs' →
    Steady S a b (Expr.Resembles S) (operations fuel level lhs) (operations fuel level lhs')
  accesses : ∀ base base', Expr.Resembles S base base' →
    Steady S a b (Expr.Resembles S) (accesses fuel base) (accesses fuel base')
  operand : Steady S a b (Expr.Resembles S) (operand fuel) (operand fuel)
  parenthesized : Steady S a b (Expr.Resembles S) (parenthesized fuel) (parenthesized fuel)
  element : Steady S a b (Labelled S) (element fuel) (element fuel)
  entry : Steady S a b (Labelled S) (entry fuel) (entry fuel)
  argument : Steady S a b (Labelled S) (argument fuel) (argument fuel)

namespace EvenlySteady

theorem zero : EvenlySteady S a b 0 where
  expr _ := steady_exhausted
  operations _ _ _ _ _ := steady_exhausted
  accesses _ _ _ := steady_exhausted
  operand := steady_exhausted
  parenthesized := steady_exhausted
  element := steady_exhausted
  entry := steady_exhausted
  argument := steady_exhausted

variable {fuel : Nat}

theorem expr_succ (h : EvenlySteady S a b fuel) (level : Level) :
    Steady S a b (Expr.Resembles S) (Reading.expr (fuel + 1) level) (Reading.expr (fuel + 1) level) := by
  by_cases hbin : level ∈ Level.binary
  · rw [expr_binary hbin]
    exact (h.expr level.tighter).bind fun _ _ hlhs => h.operations level hbin _ _ hlhs
  cases level with
  | negation =>
    refine (steady_token? (dull_isKeyword "not")).bind fun o p hop => ?_
    rw [hop.isSome]
    split_ifs
    · exact (h.expr .negation).bind fun _ _ hoperand => steady_pure ⟨rfl, hoperand⟩
    · exact h.expr .comparison
  | sign =>
    have hsign : Dull fun t => t.kind == .operator && t.text ∈ ["-", "+", "~"] :=
      dull_of_blind (fun t u hk ht => by simp only [hk, ht]) false fun t v ht => by simp [ht]
    refine (steady_token? hsign).bind fun o p hop => ?_
    cases hop with
    | none => exact h.expr .access
    | @some t u htu =>
      have hstring : t.isString = false := by
        have hk : t.kind = .operator := by simpa using (Bool.and_eq_true_iff.mp htu.2).1
        simp [Token.isString, hk]
      exact (h.expr .sign).bind fun _ _ hoperand =>
        steady_pure ⟨(htu.1.looks.text_eq hstring).2, hoperand⟩
  | access => exact h.operand.bind fun _ _ hbase => h.accesses _ _ hbase
  | _ => exact absurd (by decide) hbin

theorem operations_succ (h : EvenlySteady S a b fuel) (level : Level) (hbin : level ∈ Level.binary)
    (lhs lhs' : Expr) (hlhs : lhs.Resembles S lhs') : Steady S a b (Expr.Resembles S)
      (Reading.operations (fuel + 1) level lhs) (Reading.operations (fuel + 1) level lhs') := by
  refine (steady_operator? level).bind ?_
  rintro op _ rfl
  cases op with
  | none => exact steady_pure hlhs
  | some op =>
    exact (h.expr level.tighter).bind fun _ _ hrhs => h.operations level hbin _ _ ⟨rfl, hlhs, hrhs⟩

theorem accesses_succ (h : EvenlySteady S a b fuel) (base base' : Expr) (hbase : base.Resembles S base') :
    Steady S a b (Expr.Resembles S) (Reading.accesses (fuel + 1) base) (Reading.accesses (fuel + 1) base') := by
  refine (steady_token? (dull_opening .round)).bind fun o p hop => ?_
  rw [hop.isSome]
  split_ifs
  · exact (steady_sequence h.argument .round fuel).bind fun _ _ hargs => h.accesses _ _ ⟨hbase, hargs⟩
  refine (steady_token? (dull_opening .square)).bind fun o p hop => ?_
  rw [hop.isSome]
  split_ifs
  · exact (h.expr .disjunction).bind fun _ _ hindex =>
      (steady_expect (dull_closing .square)).bind fun _ _ _ => h.accesses _ _ ⟨hbase, hindex⟩
  refine (steady_token? (dull_isOperator ".")).bind fun o p hop => ?_
  rw [hop.isSome]
  split_ifs
  · refine steady_token.bind fun t u htu => ?_
    rw [← dull_isName S t u htu.looks]
    split_ifs with hname
    · have hstring : t.isString = false := by
        have hk : t.kind = .ident := by simpa using (Bool.and_eq_true_iff.mp hname).1
        simp [Token.isString, hk]
      exact h.accesses _ _ ⟨hbase, (htu.looks.text_eq hstring).2⟩
    · exact steady_unsupported
  · exact steady_pure hbase

theorem operand_string {t u : Token} {v w : String} (hs : S v t.text w u.text) :
    Steady S a b (Expr.Resembles S)
      (do if (← ahead).1.any Token.isString then unsupported else return .string v (some t.text))
      (do if (← ahead).1.any Token.isString then unsupported else return .string w (some u.text)) := by
  refine steady_ahead.bind fun x y hxy => ?_
  rw [hxy.1.any dull_isString]
  split_ifs
  · exact steady_unsupported
  · exact steady_pure hs

theorem operand_succ (h : EvenlySteady S a b fuel) :
    Steady S a b (Expr.Resembles S) (Reading.operand (fuel + 1)) (Reading.operand (fuel + 1)) := by
  refine steady_token.bind fun t u htu => ?_
  cases htu.looks with
  | string ht hu hs =>
    rw [ht, hu]
    exact operand_string hs
  | same hkind htext hstring =>
    rw [← hkind, ← htext, ← blind_isName t u hkind htext]
    split
    · split_ifs
      · exact steady_pure rfl
      · exact steady_unsupported
    · exact steady_pure rfl
    · rename_i v hk
      simp [Token.isString, hk] at hstring
    · exact (steady_sequence h.element .square fuel).bind fun _ _ hs => steady_pure hs
    · exact (steady_sequence h.entry .curly fuel).bind fun _ _ hs => steady_pure hs
    · exact h.parenthesized
    · exact steady_unsupported

theorem parenthesized_succ (h : EvenlySteady S a b fuel) :
    Steady S a b (Expr.Resembles S) (Reading.parenthesized (fuel + 1)) (Reading.parenthesized (fuel + 1)) := by
  refine (steady_token? (dull_closing .round)).bind fun o p hop => ?_
  rw [hop.isSome]
  split_ifs
  · exact steady_pure trivial
  refine (h.expr .disjunction).bind fun _ _ hfirst =>
    (steady_token? (dull_closing .round)).bind fun o p hop => ?_
  rw [hop.isSome]
  split_ifs
  · exact steady_pure hfirst
  · exact (steady_tupleRest (h.expr .disjunction) fuel).bind fun _ _ hothers =>
      steady_pure ⟨hfirst, hothers⟩

theorem element_succ (h : EvenlySteady S a b fuel) :
    Steady S a b (Labelled S) (Reading.element (fuel + 1)) (Reading.element (fuel + 1)) :=
  (h.expr .disjunction).bind fun _ _ hvalue => steady_pure ⟨trivial, hvalue⟩

theorem entry_succ (h : EvenlySteady S a b fuel) :
    Steady S a b (Labelled S) (Reading.entry (fuel + 1)) (Reading.entry (fuel + 1)) :=
  (h.expr .disjunction).bind fun _ _ hkey => (steady_expect (dull_isOperator ":")).bind fun _ _ _ =>
    (h.expr .disjunction).bind fun _ _ hvalue => steady_pure ⟨hkey, hvalue⟩

theorem argument_succ (h : EvenlySteady S a b fuel) :
    Steady S a b (Labelled S) (Reading.argument (fuel + 1)) (Reading.argument (fuel + 1)) :=
  steady_argumentLabel.bind fun _ _ hlabel => (h.expr .disjunction).bind fun _ _ hvalue =>
    steady_pure ⟨hlabel, hvalue⟩

theorem succ (h : EvenlySteady S a b fuel) : EvenlySteady S a b (fuel + 1) where
  expr := h.expr_succ
  operations := h.operations_succ
  accesses := h.accesses_succ
  operand := h.operand_succ
  parenthesized := h.parenthesized_succ
  element := h.element_succ
  entry := h.entry_succ
  argument := h.argument_succ

end EvenlySteady

theorem evenlySteady (fuel : Nat) : EvenlySteady S a b fuel := by
  induction fuel with
  | zero => exact .zero
  | succ fuel ih => exact ih.succ

def Fresh (r : Reading α) : Prop := ∀ l l' ts, r ⟨l, ts⟩ = r ⟨l', ts⟩

theorem Fresh.bind {r : Reading α} (h : Fresh r) (f : α → Reading β) : Fresh (r >>= f) := by
  intro l l' ts
  change Reading.bind r f ⟨l, ts⟩ = Reading.bind r f ⟨l', ts⟩
  rw [Reading.bind, Reading.bind, h l l' ts]

theorem fresh_token : Fresh token := fun _ _ _ => rfl

theorem ahead_line (ts : List Token) : ∃ x, ∀ l, ahead ⟨l, ts⟩ = .done x ⟨l, ts⟩ := by
  unfold ahead
  dsimp only
  cases ts.dropWhile Token.isComment with
  | nil => exact ⟨_, fun _ => rfl⟩
  | cons t rest => exact ⟨_, fun _ => rfl⟩

theorem fresh_token? (accept : Token → Bool) {f : Option Token → Reading β} (h : Fresh (f none)) :
    Fresh (token? accept >>= f) := by
  intro l l' ts
  obtain ⟨x, hx⟩ := ahead_line ts
  cases haccept : x.1.any accept with
  | true =>
    have htoken (l : Nat) : token? accept ⟨l, ts⟩ = (some <$> token) ⟨l, ts⟩ := by
      rw [token?, bind_done (hx l), if_pos haccept]
    have hsome : Fresh (some <$> token) := fresh_token.bind (Pure.pure ∘ some)
    change Reading.bind (token? accept) f ⟨l, ts⟩ = Reading.bind (token? accept) f ⟨l', ts⟩
    rw [Reading.bind, Reading.bind, htoken, htoken, hsome l l' ts]
  | false =>
    have htoken (l : Nat) : token? accept ⟨l, ts⟩ = .done none ⟨l, ts⟩ := by
      rw [token?, bind_done (hx l), haccept]
      rfl
    rw [bind_done (htoken l), bind_done (htoken l'), h l l' ts]

theorem fresh_expr (fuel : Nat) (level : Level) : Fresh (expr fuel level) := by
  induction fuel generalizing level with
  | zero => exact fun _ _ _ => rfl
  | succ fuel ih =>
    by_cases hbin : level ∈ Level.binary
    · rw [expr_binary hbin]
      exact (ih level.tighter).bind _
    cases level with
    | negation => exact fresh_token? _ (ih .comparison)
    | sign => exact fresh_token? _ (ih .access)
    | access =>
      refine Fresh.bind ?_ (accesses fuel)
      cases fuel with
      | zero => exact fun _ _ _ => rfl
      | succ fuel => exact fresh_token.bind _
    | _ => exact absurd (by decide) hbin

end Reading

theorem Expr.ofTokens?_mirrors {S : String → String → String → String → Prop} {a b : Nat} {ts us : List Token}
    (h : List.Forall₂ (Token.Mirrors S a b) ts us) : Option.Rel (Resembles S) (ofTokens? ts) (ofTokens? us) := by
  have hfuel : fuel ts = fuel us := by rw [fuel, fuel, h.length_eq]
  have hread := (Reading.evenlySteady (fuel us)).expr .disjunction ⟨a, ts⟩ ⟨b, us⟩ ⟨Nat.add_comm a b, h⟩
  unfold ofTokens?
  rw [hfuel, Reading.fresh_expr _ _ 0 a, Reading.fresh_expr _ _ 0 b us]
  generalize Reading.expr (fuel us) .disjunction ⟨a, ts⟩ = x at hread ⊢
  generalize Reading.expr (fuel us) .disjunction ⟨b, us⟩ = y at hread ⊢
  cases hread with
  | @done v w c d hv hc =>
    obtain ⟨l, cs⟩ := c
    obtain ⟨l', ds⟩ := d
    cases hc.rest with
    | nil => exact .some hv
    | cons => exact .none
  | unsupported => exact .none
  | exhausted => exact .none

theorem Expr.ofTokens?_echoes {a b : Nat} {ts us : List Token}
    (h : List.Forall₂ (Token.Echoes a b) ts us) : ofTokens? ts = ofTokens? us := by
  have hread := ofTokens?_mirrors (h.imp fun _ _ htu => htu.mirrors)
  generalize ofTokens? ts = x at hread ⊢
  generalize ofTokens? us = y at hread ⊢
  cases hread with
  | none => rfl
  | some hxy => exact congrArg some (eq_of_resembles hxy)

theorem Call.ofTokens?_mirrors {S : String → String → String → String → Prop} {a b : Nat} {ts us : List Token}
    (h : List.Forall₂ (Token.Mirrors S a b) ts us) : Option.Rel (Resembles S) (ofTokens? ts) (ofTokens? us) := by
  have hread := Expr.ofTokens?_mirrors h
  unfold ofTokens?
  generalize Expr.ofTokens? ts = x at hread ⊢
  generalize Expr.ofTokens? us = y at hread ⊢
  cases hread with
  | none => exact .none
  | @some e f hef =>
    cases e with
    | call callee args =>
      cases f with
      | call callee' args' =>
        dsimp only
        rw [Expr.dottedName?_of_resembles hef.1]
        split_ifs
        · exact .some hef
        · exact .none
      | _ => exact hef.elim
    | string v s =>
      cases f with
      | call => cases s <;> exact hef.elim
      | _ => exact .none
    | _ =>
      cases f with
      | call => exact hef.elim
      | _ => exact .none

theorem Call.ofTokens?_echoes {a b : Nat} {ts us : List Token}
    (h : List.Forall₂ (Token.Echoes a b) ts us) : ofTokens? ts = ofTokens? us := by
  unfold ofTokens?
  rw [Expr.ofTokens?_echoes h]

end BuildSync
