import BuildSync.Proofs.Expr.Lexemes

namespace BuildSync

namespace Lexeme

def Balanced (xs : List Lexeme) : Prop := ∀ stack, nest stack xs = some stack

theorem balanced_nil : Balanced [] := fun _ => rfl

theorem Balanced.append {xs ys : List Lexeme} (hx : Balanced xs) (hy : Balanced ys) :
    Balanced (xs ++ ys) := fun stack => by
  rw [nest_append, hx, Option.bind_some, hy]

theorem balanced_of_turn {xs : List Lexeme} (h : ∀ x ∈ xs, ∀ stack, turn stack x = some stack) :
    Balanced xs := by
  induction xs with
  | nil => exact balanced_nil
  | cons x xs ih =>
    obtain ⟨hx, hxs⟩ := List.forall_mem_cons.mp h
    intro stack
    rw [nest, List.foldlM_cons, hx]
    exact ih hxs stack

theorem Balanced.bracket {xs : List Lexeme} (b : Bracket) (h : Balanced xs) :
    Balanced (opening b :: xs ++ [closing b]) := by
  intro stack
  rw [List.cons_append, nest, List.foldlM_cons]
  change nest (b :: stack) (xs ++ [closing b]) = some stack
  rw [nest_append, h, Option.bind_some, nest]
  simp [turn, closing]

theorem turn_of {kind : Token.Kind} (text : String) (stack : List Bracket)
    (ho : ∀ b, kind ≠ .opening b) (hc : ∀ b, kind ≠ .closing b) :
    turn stack (of kind text) = some stack := by
  cases kind <;> simp_all [turn, of]

theorem balanced_of {kind : Token.Kind} (text : String) (ho : ∀ b, kind ≠ .opening b)
    (hc : ∀ b, kind ≠ .closing b) : Balanced [of kind text] :=
  balanced_of_turn (by simpa using fun stack => turn_of text stack ho hc)

theorem balanced_margin (level : Nat) : Balanced (margin level) :=
  balanced_of_turn fun x hx stack => by rw [List.eq_of_mem_replicate hx]; rfl

theorem balanced_remarkLines (level : Nat) (lines : List String) : Balanced (remarkLines level lines) := by
  induction lines with
  | nil => exact balanced_nil
  | cons line lines ih =>
    exact ((balanced_margin level).append
      (balanced_of_turn (by simp [turn, of, feed]) : Balanced [of .comment line, feed])).append ih

theorem balanced_suffix (s : Option String) : Balanced (suffix s) := by
  cases s with
  | none => exact balanced_nil
  | some c => exact balanced_of_turn (by simp [suffix, turn, of, space])

theorem balanced_joint (op : String) : Balanced (joint op) := by
  unfold joint
  split_ifs <;> exact balanced_of_turn (by simp [turn, of, space])

theorem balanced_prefixed (op : String) : Balanced (prefixed op) := by
  unfold prefixed
  split_ifs <;> exact balanced_of_turn (by simp [turn, of, space])

theorem balanced_comma_space : Balanced [comma, space] :=
  balanced_of_turn (by simp [turn, of, space, comma])

end Lexeme

open Lexeme

def Expr.Closed (e : Expr) : Prop := ∀ level spread, Balanced (e.lexemes level spread)

namespace Item

theorem balanced_label {i : Item} (h : i.All Expr.Closed) (level : Nat) :
    Balanced (i.label.lexemes level) := by
  cases hl : i.label with
  | bare => exact balanced_nil
  | name name => exact balanced_of_turn (by simp [Label.lexemes, turn, of, space])
  | key key =>
    exact (h.2 key hl level false).append (balanced_of_turn (by simp [turn, of, space]))

theorem balanced_lines {items : List Item} (h : ∀ i ∈ items, i.All Expr.Closed) (level : Nat)
    (spread : Bool) : Balanced (lexemeLines level spread items) := by
  induction items with
  | nil => exact balanced_nil
  | cons i items ih =>
    obtain ⟨hi, his⟩ := List.forall_mem_cons.mp h
    have hlabel := balanced_label hi level
    have hvalue := hi.1 level spread
    obtain ⟨comments, label, value, suffix⟩ := i
    have hfeed : Balanced (feed :: lexemeLines level spread items) :=
      (balanced_of_turn (by simp [turn, feed]) : Balanced [feed]).append (ih his)
    have hcomma : Balanced (comma :: Lexeme.suffix suffix) :=
      (balanced_of _ (by simp) (by simp)).append (balanced_suffix suffix)
    exact (((((balanced_remarkLines level comments).append (balanced_margin level)).append hlabel).append
      hvalue).append hcomma).append hfeed

theorem balanced_inline {items : List Item} (h : ∀ i ∈ items, i.All Expr.Closed) (level : Nat) :
    Balanced (lexemesInline level items) := by
  induction items with
  | nil => exact balanced_nil
  | cons i items ih =>
    obtain ⟨hi, his⟩ := List.forall_mem_cons.mp h
    have hlabel := balanced_label hi level
    have hvalue := hi.1 level false
    obtain ⟨comments, label, value, suffix⟩ := i
    refine ((hlabel.append hvalue).append ?_).append (ih his)
    split_ifs
    · exact balanced_nil
    · exact balanced_comma_space

end Item

theorem Sequence.balanced_lexemes {s : Sequence} (h : ∀ i ∈ s.items, i.All Expr.Closed) (level : Nat)
    (lines spread : Bool) : Balanced (s.lexemes level lines spread) := by
  obtain ⟨items, trailing⟩ := s
  cases lines with
  | true =>
    have hfeed : Balanced [feed] := balanced_of_turn (by simp [turn, feed])
    exact ((hfeed.append (Item.balanced_lines h _ _)).append (balanced_remarkLines _ _)).append
      (balanced_margin _)
  | false => exact Item.balanced_inline h level

namespace Expr

theorem balanced_allLexemes {es : List Expr} (h : ∀ e ∈ es, e.Closed) (level : Nat) :
    Balanced (allLexemes level es) := by
  induction es with
  | nil => exact balanced_nil
  | cons e es ih =>
    obtain ⟨he, hes⟩ := List.forall_mem_cons.mp h
    refine ((he level false).append ?_).append (ih hes)
    split_ifs
    · exact balanced_nil
    · exact balanced_comma_space

theorem balanced_lexemes {strict : Bool} {e : Expr} (h : e.Fits strict) (level : Nat) (spread : Bool) :
    Balanced (e.lexemes level spread) := by
  induction h generalizing level spread with
  | ident => exact balanced_of _ (by simp) (by simp)
  | number => exact balanced_of _ (by simp) (by simp)
  | fresh => exact balanced_of _ (by simp) (by simp)
  | string => exact balanced_of _ (by simp) (by simp)
  | list hs _ ih =>
    exact (Sequence.balanced_lexemes (hs.all (by decide) fun i hi => ih i hi) _ _ _).bracket _
  | dict hs _ _ ihk ih =>
    exact (Sequence.balanced_lexemes (fun i hi => ⟨ih i hi, ihk i hi⟩) _ _ _).bracket _
  | @tuple items _ ih =>
    have hcomma : Balanced (if items.length = 1 then [comma] else []) := ?_
    · exact ((balanced_allLexemes ih level).append hcomma).bracket _
    split_ifs
    · exact balanced_of _ (by simp) (by simp)
    · exact balanced_nil
  | paren _ ih => exact (ih level false).bracket _
  | call _ _ hs _ ihc ih =>
    rw [lexemes, List.append_assoc]
    exact (ihc level false).append
      ((Sequence.balanced_lexemes (hs.all (by decide) fun i hi => ih i hi) _ _ _).bracket _)
  | dot _ _ _ _ _ ih => exact (ih level false).append (balanced_of_turn (by simp [turn, of]))
  | index _ _ _ ihb ihi =>
    rw [lexemes, List.append_assoc]
    exact (ihb level false).append ((ihi level false).bracket _)
  | negation _ _ ih => exact (balanced_prefixed _).append (ih level false)
  | sign _ _ _ ih => exact (balanced_prefixed _).append (ih level false)
  | binary _ _ _ _ _ ihl ihr =>
    have hspace : Balanced [space] := balanced_of_turn (by simp [turn, space])
    exact ((ihl level spread).append (hspace.append (balanced_joint _))).append
      (hspace.append (ihr level spread))

end Expr

end BuildSync
