import BuildSync.Proofs.Text.Checked
import BuildSync.Proofs.Token.Lexemes

/-!
The gaps and texts of the tokens, one behind the other, are the source, and each token begins at
the byte where it stands in them.
-/

namespace BuildSync

theorem Position.byte_past (p : Position) (cs : List Char) : (p.past cs).byte = p.byte + utf8Length cs := by
  induction cs generalizing p with
  | nil => rfl
  | cons c cs ih =>
    have hstep : (p.step c).byte = p.byte + c.utf8Size := by
      unfold Position.step
      split_ifs <;> rfl
    change ((p.step c).past cs).byte = _
    rw [ih, hstep, utf8Length_cons, Nat.add_assoc]

namespace Token

def covered (ts : List Token) : List Char := ts.flatMap fun t => t.gap.toList ++ t.text.toList

def Tiles (n : Nat) : List Token → Prop
  | [] => True
  | t :: ts => t.start.byte = n + utf8Length t.gap.toList ∧ Tiles (t.start.byte + utf8Length t.text.toList) ts

theorem covered_cons (t : Token) (ts : List Token) :
    covered (t :: ts) = t.gap.toList ++ t.text.toList ++ covered ts := List.flatMap_cons

theorem covered_append (ts us : List Token) : covered (ts ++ us) = covered ts ++ covered us := List.flatMap_append

theorem tiles_append {n : Nat} {ts us : List Token} :
    Tiles n (ts ++ us) ↔ Tiles n ts ∧ Tiles (n + utf8Length (covered ts)) us := by
  induction ts generalizing n with
  | nil => simp [Tiles, covered]
  | cons t ts ih =>
    rw [List.cons_append, Tiles, Tiles, ih, and_assoc]
    refine and_congr_right fun hstart => and_congr_right fun _ => ?_
    rw [hstart, covered_cons, utf8Length_append, utf8Length_append]
    simp only [Nat.add_assoc]

end Token

namespace Progress

open Lexeme

theorem covered_tokens (p : Progress) (xs : List Lexeme) :
    Token.covered (p.tokens xs) ++ (p.after xs).gap = p.gap ++ spelling xs := by
  induction xs generalizing p with
  | nil => simp [Token.covered, tokens, after, spelling]
  | cons x xs ih =>
    have hafter : p.after (x :: xs) = (p.next x).after xs := rfl
    rw [tokens, hafter, Token.covered_append, List.append_assoc, ih, next?]
    cases hx : p.token? x <;> simp [next, hx, Token.covered, token, chars, spelling]

theorem place_after (p : Progress) (xs : List Lexeme) : (p.after xs).place = p.place.past (spelling xs) := by
  induction xs generalizing p with
  | nil => rfl
  | cons x xs ih =>
    change ((p.next x).after xs).place = _
    rw [ih, spelling_cons, Position.past_append]
    rfl

theorem tiles_tokens {p : Progress} {n : Nat} (h : p.place.byte = n + utf8Length p.gap) (xs : List Lexeme) :
    Token.Tiles n (p.tokens xs) := by
  induction xs generalizing p n with
  | nil => trivial
  | cons x xs ih =>
    have hbyte : (p.next x).place.byte = p.place.byte + utf8Length x.chars := p.place.byte_past x.chars
    rw [tokens, next?]
    cases hx : p.token? x with
    | none =>
      apply ih
      have hgap : (p.next x).gap = p.gap ++ x.chars := by simp [next, hx]
      rw [hbyte, hgap, h, utf8Length_append, Nat.add_assoc]
    | some kind =>
      have hgap : (p.next x).gap = x.after := by simp [next, hx]
      refine ⟨by simpa [token] using h, ih ?_⟩
      rw [hbyte, hgap, chars, utf8Length_append, Nat.add_assoc]
      simp [token]

end Progress

namespace Token

open Lexeme

theorem tiles_of_source {source : String} {ts : List Token} (h : ofSource source = .ok ts) :
    covered ts = source.toList ∧ Tiles 0 ts := by
  obtain ⟨xs, hspelling, -, -, rfl⟩ := lexemes_of_scan h
  have hcovered : covered (Progress.start.tokens xs) ++ (Progress.start.after xs).gap = spelling xs :=
    Progress.start.covered_tokens xs
  constructor
  · rw [covered_append, ← hspelling, ← hcovered]
    simp [covered, Progress.token]
  · refine tiles_append.mpr ⟨Progress.tiles_tokens rfl xs, ?_, trivial⟩
    change (Progress.start.after xs).place.byte = _ + utf8Length (String.ofList (Progress.start.after xs).gap).toList
    rw [Progress.place_after, Position.byte_past, ← hcovered, utf8Length_append, String.toList_ofList]
    exact Nat.add_assoc _ _ _ |>.symm

theorem source_cons (t : Token) (ts : List Token) :
    (Token.source (t :: ts)).toList = t.text.toList ++ covered ts := by
  unfold source
  dsimp only
  generalize t.text = text
  induction ts generalizing text with
  | nil => exact (List.append_nil _).symm
  | cons u us ih =>
    rw [List.foldl_cons, ih, covered_cons]
    simp [String.toList_append, List.append_assoc]

theorem Tiles.last {n : Nat} {ts : List Token} {u : Token} (h : Tiles n ts) (hu : ts.getLast? = some u) :
    u.start.byte + utf8Length u.text.toList = n + utf8Length (covered ts) := by
  obtain ⟨init, rfl⟩ := List.getLast?_eq_some_iff.mp hu
  obtain ⟨-, hstart, -⟩ := tiles_append.mp h
  rw [hstart, covered_append, covered_cons]
  simp only [utf8Length_append, covered, List.flatMap_nil, utf8Length_nil]
  omega

theorem slice_of_source {source : String} {before ts after : List Token} {t u : Token}
    (h : ofSource source = .ok (before ++ t :: ts ++ after)) (hu : (t :: ts).getLast? = some u) :
    slice? source.toList t.start.byte (u.start.byte + utf8Length u.text.toList) =
      some (Token.source (t :: ts)).toList := by
  obtain ⟨hcovered, htiles⟩ := tiles_of_source h
  obtain ⟨hbefore, -⟩ := tiles_append.mp htiles
  obtain ⟨-, hts⟩ := tiles_append.mp hbefore
  refine slice?_eq_some.mpr ⟨covered before ++ t.gap.toList, covered after, ?_, ?_, ?_⟩
  · rw [← hcovered, source_cons, covered_append, covered_append, covered_cons]
    simp only [List.append_assoc]
  · rw [hts.1, utf8Length_append, Nat.zero_add]
  · rw [hts.last hu, source_cons, covered_cons]
    simp only [utf8Length_append]
    omega

end Token

end BuildSync
