import BuildSync.Proofs.Token.Places

/-!
Brackets. Those of a text that has tokens are well nested, and a text that has none because of its brackets
is told from the first closing bracket that has no partner or, if all have one, from the innermost bracket that
stays open.
-/

namespace BuildSync

namespace Token

def Kind.isBracket : Kind → Bool
  | .opening _ | .closing _ => true
  | _ => false

inductive Nested : List Kind → Prop
  | nil : Nested []
  | pair (b : Bracket) {inner after : List Kind} (hinner : Nested inner) (hafter : Nested after) :
    Nested (.opening b :: inner ++ .closing b :: after)

def Nestable (word : List Kind) : Prop := ∃ more, Nested (word ++ more)

def brackets (ts : List Token) : List Kind := (ts.map kind).filter Kind.isBracket

theorem Nested.append {v w : List Kind} (hv : Nested v) (hw : Nested w) : Nested (v ++ w) := by
  induction hv with
  | nil => exact hw
  | pair b hinner _ _ ih =>
    have := Nested.pair b hinner ih
    simpa using this

end Token

namespace Lexeme

open Token

def brackets (xs : List Lexeme) : List Kind := (xs.filterMap kind).filter Kind.isBracket

theorem brackets_append (xs ys : List Lexeme) : brackets (xs ++ ys) = brackets xs ++ brackets ys := by
  simp [brackets]

theorem brackets_cons (x : Lexeme) (xs : List Lexeme) :
    brackets (x :: xs) = x.kind.toList.filter Kind.isBracket ++ brackets xs := by
  cases hx : x.kind with
  | none => simp [brackets, hx]
  | some kind => cases hb : kind.isBracket <;> simp [brackets, hx, hb]

theorem brackets_opening {x : Lexeme} {b : Bracket} (hx : x.kind = some (.opening b)) (xs : List Lexeme) :
    brackets (x :: xs) = .opening b :: brackets xs := by
  rw [brackets_cons, hx]
  rfl

def close (stack : List Bracket) (kind : Kind) : Option (List Bracket) := turn stack ⟨some kind, [], []⟩

theorem nest_eq_foldlM (stack : List Bracket) (xs : List Lexeme) :
    nest stack xs = (brackets xs).foldlM close stack := by
  induction xs generalizing stack with
  | nil => rfl
  | cons x xs ih =>
    have hturn : turn stack x = (x.kind.toList.filter Kind.isBracket).foldlM close stack := by
      cases hx : x.kind with
      | none => simp [turn, hx]
      | some kind =>
        have hclose : turn stack x = close stack kind := by simp [turn, close, hx]
        rw [hclose, Option.toList_some]
        cases hb : kind.isBracket with
        | true => rw [List.filter_cons_of_pos hb, List.filter_nil, List.foldlM_cons]; simp
        | false =>
          rw [List.filter_cons_of_neg (by simp [hb]), List.filter_nil, List.foldlM_nil]
          cases kind <;> first | rfl | cases hb
    rw [brackets_cons, List.foldlM_append, ← hturn, nest, List.foldlM_cons]
    exact congrArg _ (funext ih)

theorem foldlM_close_of_nested {word : List Kind} (h : Nested word) (stack : List Bracket) :
    word.foldlM close stack = some stack := by
  induction h generalizing stack with
  | nil => rfl
  | pair b _ _ hinner hafter =>
    rw [List.cons_append, List.foldlM_cons]
    change (_ ++ _ :: _).foldlM close (b :: stack) = some stack
    rw [List.foldlM_append, hinner, Option.bind_eq_bind, Option.bind_some, List.foldlM_cons]
    have hclose : close (b :: stack) (.closing b) = some stack := if_pos rfl
    rw [hclose]
    exact hafter stack

theorem nest_of_nested {xs : List Lexeme} (h : Nested (brackets xs)) (stack : List Bracket) :
    nest stack xs = some stack := by
  rw [nest_eq_foldlM, foldlM_close_of_nested h]

theorem exists_nest_of_nestable {xs : List Lexeme} (h : Nestable (brackets xs)) :
    ∃ stack, nest [] xs = some stack := by
  obtain ⟨more, h⟩ := h
  have := foldlM_close_of_nested h []
  rw [List.foldlM_append] at this
  obtain ⟨stack, hstack, -⟩ := Option.bind_eq_some_iff.mp this
  exact ⟨stack, by rw [nest_eq_foldlM, hstack]⟩

inductive Opened : List (Bracket × Position) → List Lexeme → Prop
  | nil {xs : List Lexeme} (h : Nested (brackets xs)) : Opened [] xs
  | cons {pending : List (Bracket × Position)} {ys zs : List Lexeme} {x : Lexeme} {b : Bracket}
    (h : Opened pending ys) (hx : x.kind = some (.opening b)) (hzs : Nested (brackets zs)) :
    Opened ((b, Position.start.past (spelling ys)) :: pending) (ys ++ x :: zs)

theorem Opened.append {pending : List (Bracket × Position)} {xs us : List Lexeme} (h : Opened pending xs)
    (hus : Nested (brackets us)) : Opened pending (xs ++ us) := by
  cases h with
  | nil h => exact .nil (by rw [brackets_append]; exact h.append hus)
  | cons h hx hzs =>
    rw [List.append_assoc]
    refine .cons h hx (?_ : Nested (brackets (_ ++ us)))
    rw [brackets_append]
    exact hzs.append hus

theorem opened_after {xs : List Lexeme} {stack : List Bracket} (h : nest [] xs = some stack) :
    Opened (Progress.start.after xs).pending xs := by
  -- From the end: the last lexeme opens a bracket, closes the innermost one, or does neither.
  induction xs using List.reverseRecOn generalizing stack with
  | nil => exact .nil .nil
  | append_singleton xs x ih =>
    rw [nest_append] at h
    obtain ⟨middle, hmiddle, hx⟩ := Option.bind_eq_some_iff.mp h
    have hopened := ih hmiddle
    have hbrackets : (Progress.start.after xs).brackets = middle := Progress.brackets_after_nest hmiddle
    have hplace := Progress.start.place_after xs
    rw [Progress.after_append]
    change Opened ((Progress.start.after xs).next x).pending _
    have hplain (hk : x.kind.toList.filter Kind.isBracket = []) (hp : ((Progress.start.after xs).next x).pending =
        (Progress.start.after xs).pending) : Opened ((Progress.start.after xs).next x).pending (xs ++ [x]) := by
      rw [hp]
      exact hopened.append (by rw [brackets_cons, hk]; exact .nil)
    cases hkind : x.kind with
    | none => exact hplain (by rw [hkind]; rfl) (by simp [Progress.next, hkind])
    | some kind =>
      cases kind with
      | opening b =>
        have hpending : ((Progress.start.after xs).next x).pending =
            (b, Position.start.past (spelling xs)) :: (Progress.start.after xs).pending := by
          simp only [Progress.next, hkind]
          rw [hplace]
          rfl
        rw [hpending]
        exact .cons hopened hkind .nil
      | closing b =>
        have hturn : turn middle x = some stack := by
          rw [nest, List.foldlM_cons] at hx
          obtain ⟨top, hturn, htop⟩ := Option.bind_eq_some_iff.mp hx
          obtain rfl := Option.some.inj htop
          exact hturn
        simp only [turn, hkind] at hturn
        split_ifs at hturn with htop
        rw [← hbrackets, Progress.brackets, List.head?_map, Option.map_eq_some_iff] at htop
        obtain ⟨⟨_, place⟩, htop, rfl⟩ := htop
        obtain ⟨outer, hpending⟩ := List.head?_eq_some_iff.mp htop
        have hnext : ((Progress.start.after xs).next x).pending = outer := by
          simp [Progress.next, hkind, hpending]
        rw [hnext]
        rw [hpending] at hopened
        cases hopened with
        | @cons _ ys zs y _ hys hy hzs =>
          rw [List.append_assoc]
          refine hys.append (?_ : Nested (brackets (y :: (zs ++ [x]))))
          rw [brackets_opening hy, brackets_append, brackets_cons, hkind]
          exact .pair _ hzs .nil
      | _ => exact hplain (by rw [hkind]; rfl) (by simp [Progress.next, hkind])

theorem nested_of_nest {xs : List Lexeme} (h : nest [] xs = some []) : Nested (brackets xs) := by
  have hopened := opened_after h
  have hpending : (Progress.start.after xs).pending = [] := List.map_eq_nil_iff.mp (Progress.brackets_after_nest h)
  rw [hpending] at hopened
  cases hopened with
  | nil h => exact h

theorem nestable_of_nest {xs : List Lexeme} {stack : List Bracket} (h : nest [] xs = some stack) :
    Nestable (brackets xs) := by
  have hclose (stack : List Bracket) : nest stack (stack.map closing) = some [] := by
    induction stack with
    | nil => rfl
    | cons b stack ih =>
      rw [List.map_cons, nest, List.foldlM_cons]
      have hturn : turn (b :: stack) (closing b) = some stack := if_pos rfl
      rw [hturn]
      exact ih
  refine ⟨brackets (stack.map closing), ?_⟩
  rw [← brackets_append]
  apply nested_of_nest
  rw [nest_append, h]
  exact hclose stack

end Lexeme

namespace Progress

open Lexeme

theorem pending_after {p : Progress} {xs : List Lexeme} {inner outer : List (Bracket × Position)}
    {stack : List Bracket} (hp : p.pending = inner ++ outer)
    (h : Lexeme.nest (inner.map Prod.fst) xs = some stack) :
    ∃ inner', (p.after xs).pending = inner' ++ outer ∧ inner'.map Prod.fst = stack := by
  induction xs generalizing p inner with
  | nil => exact ⟨inner, hp, Option.some.inj h⟩
  | cons x xs ih =>
    rw [Lexeme.nest, List.foldlM_cons] at h
    obtain ⟨middle, hturn, h⟩ := Option.bind_eq_some_iff.mp h
    suffices ∃ inner', (p.next x).pending = inner' ++ outer ∧ inner'.map Prod.fst = middle by
      obtain ⟨inner', hpending, rfl⟩ := this
      exact ih hpending h
    unfold turn at hturn
    unfold next
    dsimp only
    rw [hp]
    split at hturn
    · cases hturn
      exact ⟨_ :: inner, rfl, rfl⟩
    · split_ifs at hturn with htop
      cases hturn
      cases inner with
      | nil => cases htop
      | cons top inner => exact ⟨inner, rfl, rfl⟩
    · cases hturn
      exact ⟨inner, rfl, rfl⟩

theorem pending_after_nested {xs : List Lexeme} (h : Token.Nested (Lexeme.brackets xs)) (p : Progress) :
    (p.after xs).pending = p.pending := by
  obtain ⟨inner, hpending, hinner⟩ := pending_after (List.nil_append p.pending).symm (nest_of_nested h [])
  rw [hpending, List.map_eq_nil_iff.mp hinner, List.nil_append]

inductive Fails (p : Progress) : List Char → SyntaxError → Prop
  | finish {e : SyntaxError} (h : p.finish = .error e) : Fails p [] e
  | read {c : Char} {rest : List Char} {failure : Failure} (h : read c rest = .error failure) :
    Fails p (c :: rest) (.at (p.place.past failure.skipped) failure.fault)
  | past {c : Char} {rest : List Char} {x : Lexeme} {e : SyntaxError} (hread : Lexeme.read c rest = .ok x)
    (h : p.past x = .error e) : Fails p (c :: rest) e

end Progress

namespace Token

open Lexeme

theorem scan_of_fails {p : Progress} {rest : List Char} {e : SyntaxError} (h : p.Fails rest e) :
    scan p rest = .error e := by
  cases h with
  | finish h => rw [scan, h]
  | read h => rw [scan, h]
  | past hread h => rw [scan, hread]; dsimp only; rw [h]

theorem scan_eq_error_iff {p : Progress} {cs : List Char} {e : SyntaxError} : scan p cs = .error e ↔
    ∃ xs rest, spelling xs ++ rest = cs ∧ Joined xs rest.head? ∧ (∃ stack, nest p.brackets xs = some stack) ∧
      (p.after xs).Fails rest e := by
  constructor
  · intro h
    fun_induction scan p cs with
    | case1 p e' hfinish =>
      cases h
      exact ⟨[], [], rfl, trivial, ⟨_, rfl⟩, .finish hfinish⟩
    | case2 => cases h
    | case3 p c rest failure hread =>
      cases h
      exact ⟨[], _, rfl, trivial, ⟨_, rfl⟩, .read hread⟩
    | case4 p c rest x hread e' hpast =>
      cases h
      exact ⟨[], _, rfl, trivial, ⟨_, rfl⟩, .past hread hpast⟩
    | case5 p c rest x hread t q hpast e' hscan ih =>
      obtain ⟨r, tail, hx, rfl, hstands⟩ := stands_of_read hread
      obtain ⟨stack, hstack⟩ := Progress.turn_of_past hpast
      rw [p.past_eq hstack] at hpast
      cases hpast
      rw [length_sub_one hx, List.drop_left] at hscan ih
      obtain ⟨xs, rest, rfl, hjoined, ⟨stack', hnest⟩, hfails⟩ := ih (hscan.trans h)
      refine ⟨x :: xs, rest, ?_, ⟨?_, hjoined⟩, ⟨stack', ?_⟩, hfails⟩
      · rw [spelling_cons, hx]
        simp
      · rwa [front_head?]
      · rw [p.brackets_next hstack] at hnest
        rw [nest, List.foldlM_cons, hstack]
        exact hnest
    | case6 => cases h
  · rintro ⟨xs, rest, rfl, hjoined, ⟨stack, hnest⟩, hfails⟩
    rw [scan_append hjoined hnest, scan_of_fails hfails]
    rfl

end Token

def SyntaxFault.isNesting : SyntaxFault → Bool
  | .unexpectedClosing _ | .mismatchedClosing _ _ | .unclosed _ => true
  | _ => false

def SyntaxError.atByte (bytes : List UInt8) (index : Nat) (fault : SyntaxFault) : SyntaxError :=
  ⟨Document.lineOf bytes index, Document.columnOf bytes index + 1, fault⟩

theorem SyntaxError.at_past_start {source : String} {front rest : List Char} (h : source.toList = front ++ rest)
    (fault : SyntaxFault) : SyntaxError.at (Position.start.past front) fault =
      .atByte (Utf8.encode source) (utf8Length front) fault := by
  rw [Position.past_start_eq h]
  rfl

namespace Lexeme

theorem isNesting_of_literal {mark rest : List Char} {quote : Char} {raw : Bool} {failure : Failure}
    (h : literal mark quote rest raw = .error failure) : failure.fault.isNesting = false := by
  unfold literal at h
  dsimp only at h
  split at h <;> cases h <;> rfl

theorem isNesting_of_read {c : Char} {rest : List Char} {failure : Failure} (h : read c rest = .error failure) :
    failure.fault.isNesting = false := by
  unfold read at h
  split_ifs at h with _ _ _ _ _ hquote hword
  · exact isNesting_of_literal h
  · dsimp only at h
    split at h
    · split_ifs at h
      exact isNesting_of_literal h
    · cases h
  · split at h
    · cases h
    · split at h <;> cases h
      rfl

end Lexeme

namespace Token

open Lexeme

/-- A text whose brackets do not fit together, and the fault in it. -/
inductive Misnested (source : String) : SyntaxError → Prop
  | unexpected {xs : List Lexeme} {b : Bracket} {rest : List Char}
    (h : source.toList = spelling xs ++ b.closing :: rest) (hjoined : Joined xs (some b.closing))
    (hxs : Nested (Lexeme.brackets xs)) :
    Misnested source (.atByte (Utf8.encode source) (utf8Length (spelling xs)) (.unexpectedClosing b))
  | mismatched {ys zs : List Lexeme} {x : Lexeme} {b o : Bracket} {rest : List Char}
    (h : source.toList = spelling (ys ++ x :: zs) ++ b.closing :: rest)
    (hjoined : Joined (ys ++ x :: zs) (some b.closing)) (hys : Nestable (Lexeme.brackets ys))
    (hx : x.kind = some (.opening o)) (hzs : Nested (Lexeme.brackets zs)) (hb : b ≠ o) :
    Misnested source (.atByte (Utf8.encode source) (utf8Length (spelling (ys ++ x :: zs))) (.mismatchedClosing b o))
  | unclosed {ys zs : List Lexeme} {x : Lexeme} {o : Bracket} (h : source.toList = spelling (ys ++ x :: zs))
    (hjoined : Joined (ys ++ x :: zs) none) (hys : Nestable (Lexeme.brackets ys))
    (hx : x.kind = some (.opening o)) (hzs : Nested (Lexeme.brackets zs)) :
    Misnested source (.atByte (Utf8.encode source) (utf8Length (spelling ys)) (.unclosed o))

theorem isNesting_of_misnested {source : String} {e : SyntaxError} (h : Misnested source e) :
    e.fault.isNesting = true := by
  cases h <;> rfl

end Token

namespace Lexeme

open Token

theorem nestable_left {ys zs : List Lexeme} {stack : List Bracket} (h : nest [] (ys ++ zs) = some stack) :
    Nestable (brackets ys) := by
  rw [nest_append] at h
  obtain ⟨middle, hmiddle, -⟩ := Option.bind_eq_some_iff.mp h
  exact nestable_of_nest hmiddle

theorem read_closing {c : Char} {rest : List Char} {x : Lexeme} {b : Bracket} (h : read c rest = .ok x)
    (hx : x.kind = some (.closing b)) : c = b.closing := by
  obtain ⟨r, tail, hchars, -, hstands⟩ := stands_of_read h
  cases hstands.form with
  | closing b' =>
    cases hx
    exact (List.cons.inj hchars).1.symm
  | code hkind _ _ _ => rcases hkind with rfl | rfl | rfl <;> cases hx
  | _ => cases hx

theorem read_closing_eq (b : Bracket) (rest : List Char) : read b.closing rest = .ok (closing b) :=
  read_bracket rest ((bracket?_iff _ _).mpr ⟨b, .inr ⟨rfl, rfl⟩⟩)

end Lexeme

namespace Progress

open Lexeme

theorem innermost_after {ys zs : List Lexeme} {x : Lexeme} {o : Bracket} (hys : Token.Nestable (Lexeme.brackets ys))
    (hx : x.kind = some (.opening o)) (hzs : Token.Nested (Lexeme.brackets zs)) :
    (∃ stack, Lexeme.nest [] (ys ++ x :: zs) = some stack) ∧
      (Progress.start.after (ys ++ x :: zs)).pending =
        (o, Position.start.past (spelling ys)) :: (Progress.start.after ys).pending := by
  obtain ⟨stack, hstack⟩ := exists_nest_of_nestable hys
  have hturn : turn stack x = some (o :: stack) := by rw [turn, hx]
  constructor
  · refine ⟨o :: stack, ?_⟩
    rw [nest_append, hstack, Option.bind_some, Lexeme.nest, List.foldlM_cons, hturn]
    exact nest_of_nested hzs _
  · have hplace := Progress.start.place_after ys
    rw [after_append]
    change (((Progress.start.after ys).next x).after zs).pending = _
    rw [pending_after_nested hzs]
    simp only [next, hx]
    rw [hplace]
    rfl

theorem past_eq_error {p : Progress} {x : Lexeme} {e : SyntaxError} (h : p.past x = .error e) :
    ∃ b, x.kind = some (.closing b) ∧ ((p.pending = [] ∧ e = .at p.place (.unexpectedClosing b)) ∨
      ∃ o place outer, p.pending = (o, place) :: outer ∧ b ≠ o ∧ e = .at p.place (.mismatchedClosing b o)) := by
  unfold past at h
  dsimp only at h
  split at h
  · cases h
  · rename_i kind hkind
    split at h
    · rename_i fault hnest
      obtain rfl := Except.error.inj h
      unfold nest at hnest
      split at hnest
      · cases hnest
      · rename_i b
        refine ⟨b, token?_eq_some hkind, ?_⟩
        split at hnest
        · rename_i hpending
          cases hnest
          exact .inl ⟨hpending, rfl⟩
        · rename_i o place outer hpending
          split_ifs at hnest with hb
          cases hnest
          exact .inr ⟨o, place, outer, hpending, hb, rfl⟩
      · cases hnest
    · cases h

theorem past_closing {p : Progress} (b : Bracket) (h : p.pending = []) :
    p.past (.closing b) = .error (.at p.place (.unexpectedClosing b)) := by
  simp [past, token?, Lexeme.closing, nest, h]

theorem past_closing_ne {p : Progress} {b o : Bracket} {place : Position} {outer : List (Bracket × Position)}
    (h : p.pending = (o, place) :: outer) (hb : b ≠ o) :
    p.past (.closing b) = .error (.at p.place (.mismatchedClosing b o)) := by
  simp [past, token?, Lexeme.closing, nest, h, hb]

end Progress

namespace Token

open Lexeme

theorem misnested_of_source {source : String} {e : SyntaxError} (h : ofSource source = .error e)
    (hnesting : e.fault.isNesting = true) : Misnested source e := by
  obtain ⟨xs, rest, hspelling, hjoined, ⟨stack, hnest⟩, hfails⟩ := scan_eq_error_iff.mp h
  have hopened := opened_after hnest
  have hplace := Progress.start.place_after xs
  cases hfails with
  | finish hfinish =>
    unfold Progress.finish at hfinish
    split at hfinish
    · cases hfinish
    · rename_i o place outer hpending
      cases hfinish
      rw [hpending] at hopened
      cases hopened with
      | @cons _ ys zs x _ _ hx hzs =>
        have hsource : source.toList = spelling ys ++ spelling (x :: zs) := by
          rw [← hspelling, spelling_append, List.append_nil]
        rw [SyntaxError.at_past_start hsource]
        exact .unclosed (by rw [hsource, spelling_append]) hjoined (nestable_left hnest) hx hzs
  | read hread =>
    exact absurd ((isNesting_of_read hread).symm.trans hnesting) Bool.false_ne_true
  | @past c rest x _ hread hpast =>
    obtain ⟨b, hkind, hcase⟩ := Progress.past_eq_error hpast
    obtain rfl := read_closing hread hkind
    have hat : (Progress.start.after xs).place = Position.start.past (spelling xs) := hplace
    rcases hcase with ⟨hpending, rfl⟩ | ⟨o, place, outer, hpending, hb, rfl⟩
    · rw [hpending] at hopened
      cases hopened with
      | nil hxs =>
        rw [hat, SyntaxError.at_past_start hspelling.symm]
        exact .unexpected hspelling.symm hjoined hxs
    · rw [hpending] at hopened
      rw [hat, SyntaxError.at_past_start hspelling.symm]
      cases hopened with
      | cons _ hx hzs => exact .mismatched hspelling.symm hjoined (nestable_left hnest) hx hzs hb

theorem source_of_misnested {source : String} {e : SyntaxError} (h : Misnested source e) :
    ofSource source = .error e := by
  refine scan_eq_error_iff.mpr ?_
  cases h with
  | @unexpected xs b rest h hjoined hxs =>
    have hpending : (Progress.start.after xs).pending = [] := Progress.pending_after_nested hxs .start
    have hpast := Progress.past_closing b hpending
    have hplace : (Progress.start.after xs).place = Position.start.past (spelling xs) :=
      Progress.start.place_after xs
    rw [hplace, SyntaxError.at_past_start h] at hpast
    exact ⟨xs, _, h.symm, hjoined, ⟨[], nest_of_nested hxs []⟩, .past (read_closing_eq b rest) hpast⟩
  | @mismatched ys zs x b o rest h hjoined hys hx hzs hb =>
    obtain ⟨hnest, hpending⟩ := Progress.innermost_after hys hx hzs
    have hpast := Progress.past_closing_ne hpending hb
    have hplace : (Progress.start.after (ys ++ x :: zs)).place = Position.start.past (spelling (ys ++ x :: zs)) :=
      Progress.start.place_after _
    rw [hplace, SyntaxError.at_past_start h] at hpast
    exact ⟨_, _, h.symm, hjoined, hnest, .past (read_closing_eq b rest) hpast⟩
  | @unclosed ys zs x o h hjoined hys hx hzs =>
    obtain ⟨hnest, hpending⟩ := Progress.innermost_after hys hx hzs
    have hfinish : (Progress.start.after (ys ++ x :: zs)).finish =
        .error (.at (Position.start.past (spelling ys)) (.unclosed o)) := by
      rw [Progress.finish, hpending]
    rw [spelling_append] at h
    rw [SyntaxError.at_past_start h] at hfinish
    exact ⟨_, [], by rw [h, spelling_append, List.append_nil], hjoined, hnest, .finish hfinish⟩

end Token

end BuildSync
