import BuildSync.Proofs.Token.Lexemes
import BuildSync.Text.Digits
import Mathlib.Data.Char
import Mathlib.Data.List.Basic
import Mathlib.Order.Basic
import Mathlib.Tactic.SplitIfs

/-! Integers, and what stands right behind them. -/

namespace BuildSync

namespace Lexeme

def integerMarks : List (List Char × Nat) :=
  [([], 10), (['0', 'x'], 16), (['0', 'X'], 16), (['0', 'o'], 8), (['0', 'O'], 8)]

def IsInteger (n : List Char) : Prop :=
  ∃ mark base digits, (mark, base) ∈ integerMarks ∧ digits ≠ [] ∧ (∀ d ∈ digits, BuildSync.isDigit base d = true) ∧
    n = mark ++ digits

/-- Whether a sign stands behind a number that ends like the mantissa of a float. -/
def signed (n t : List Char) : Bool :=
  n.getLast?.any (fun c => c == 'e' || c == 'E') && t.head?.any fun c => c == '+' || c == '-'

variable {n t ds cs : List Char} {c : Char}

theorem numberTail_words (h : ∀ d ∈ ds, isWordChar d = true) :
    numberTail c (ds ++ cs) = ds ++ numberTail ((c :: ds).getLast (List.cons_ne_nil _ _)) cs := by
  induction ds generalizing c with
  | nil => rfl
  | cons d ds ih =>
    obtain ⟨hd, hds⟩ := List.forall_mem_cons.mp h
    rw [List.cons_append, numberTail, hd, Bool.true_or, Bool.true_or, if_pos rfl, ih hds]
    rfl

theorem digits_of_isDigit {base : Nat} (h : BuildSync.isDigit base c = true) :
    isWordChar c = true ∧ (base ≤ 10 → isDigit c = true) := by
  obtain ⟨v, hv, hlt⟩ : ∃ v, hexDigit c = some v ∧ v < base := by
    simpa [BuildSync.isDigit, Option.any_eq_true] using h
  unfold hexDigit at hv
  split_ifs at hv with hdigit hlower hupper
  · have : isDigit c = true := by simpa [isDigit] using hdigit
    exact ⟨by simp [isWordChar, this], fun _ => this⟩
  · refine ⟨?_, fun hbase => by have := Option.some.inj hv; omega⟩
    have hz : c ≤ 'z' := hlower.2.trans (by decide)
    simp [isWordChar, isLetter, hlower.1, hz]
  · refine ⟨?_, fun hbase => by have := Option.some.inj hv; omega⟩
    have hz : c ≤ 'Z' := hupper.2.trans (by decide)
    simp [isWordChar, isLetter, hupper.1, hz]

theorem IsInteger.words (h : IsInteger n) : ∃ c r, n = c :: r ∧ isDigit c = true ∧ ∀ d ∈ n, isWordChar d = true := by
  obtain ⟨mark, base, digits, hmark, hne, hall, rfl⟩ := h
  have hdigits : ∀ d ∈ digits, isWordChar d = true := fun d hd => (digits_of_isDigit (hall d hd)).1
  have hmark' : mark = [] ∧ base = 10 ∨ mark.head? = some '0' ∧ ∀ d ∈ mark, isWordChar d = true := by
    simp only [integerMarks, List.mem_cons, Prod.mk.injEq, List.not_mem_nil, or_false] at hmark
    rcases hmark with h | ⟨rfl, -⟩ | ⟨rfl, -⟩ | ⟨rfl, -⟩ | ⟨rfl, -⟩
    · exact .inl h
    all_goals exact .inr ⟨rfl, List.all_eq_true.mp (by decide)⟩
  rcases hmark' with ⟨rfl, rfl⟩ | ⟨hhead, hwords⟩
  · obtain ⟨c, r, rfl⟩ := List.exists_cons_of_ne_nil hne
    exact ⟨c, r, rfl, (digits_of_isDigit (hall c List.mem_cons_self)).2 (Nat.le_refl _), hdigits⟩
  · obtain ⟨r, rfl⟩ := List.head?_eq_some_iff.mp hhead
    exact ⟨'0', r ++ digits, rfl, by decide, List.forall_mem_append.mpr ⟨hwords, hdigits⟩⟩

theorem IsInteger.base_of_signed (h : IsInteger n) (hs : signed n t = true) :
    ['0', 'x'] <+: n ∨ ['0', 'X'] <+: n := by
  obtain ⟨mark, base, digits, hmark, hne, hall, rfl⟩ := h
  have hbase : base ≤ 10 ∨ mark = ['0', 'x'] ∨ mark = ['0', 'X'] := by
    simp only [integerMarks, List.mem_cons, Prod.mk.injEq, List.not_mem_nil, or_false] at hmark
    rcases hmark with ⟨-, rfl⟩ | ⟨rfl, -⟩ | ⟨rfl, -⟩ | ⟨-, rfl⟩ | ⟨-, rfl⟩
    · exact .inl (by decide)
    · exact .inr (.inl rfl)
    · exact .inr (.inr rfl)
    all_goals exact .inl (by decide)
  rcases hbase with hbase | rfl | rfl
  · have hlast : (mark ++ digits).getLast? = some (digits.getLast hne) := by
      rw [List.getLast?_append, List.getLast?_eq_some_getLast hne]
      rfl
    have hdigit := (digits_of_isDigit (hall _ (List.getLast_mem hne))).2 hbase
    simp only [signed, hlast, Option.any_some, Bool.and_eq_true, Bool.or_eq_true, beq_iff_eq] at hs
    rcases hs.1 with he | he <;> rw [he] at hdigit <;> cases hdigit
  · exact .inl (List.prefix_append _ _)
  · exact .inr (List.prefix_append _ _)

theorem IsInteger.read_append (h : IsInteger n) (ht : t.head?.any (fun c => isWordChar c || c == '.') = false) :
    ∃ c r more tail, n = c :: r ∧ t = more ++ tail ∧ read c (r ++ t) = .ok ⟨some .number, n ++ more, []⟩ ∧
      (more = [] ↔ signed n t = false) := by
  obtain ⟨c, r, rfl, hc, hwords⟩ := h.words
  obtain ⟨tail, hsplit, -⟩ := numberTail_append ((c :: r).getLast (List.cons_ne_nil _ _)) t
  refine ⟨c, r, _, tail, rfl, hsplit, ?_, ?_⟩
  · rw [read_number _ (.inl hc), numberTail_words (List.forall_mem_cons.mp hwords).2]
    rfl
  · cases t with
    | nil => simp [numberTail, signed]
    | cons d t =>
      have ht : (isWordChar d || d == '.') = false := by simpa using ht
      simp only [numberTail, ht, Bool.false_or, signed, List.getLast?_eq_some_getLast (List.cons_ne_nil c r),
        Option.any_some, List.head?_cons, ite_eq_right_iff, reduceCtorEq, imp_false, Bool.not_eq_true]
      rw [Bool.and_comm]

end Lexeme

namespace Token

open Lexeme

theorem operator_of_scan {p : Progress} {op cs : List Char} {ts : List Token} (hop : op ∈ operators) (hcs : op <+: cs)
    (hdot : cs.head? ≠ some '.') (h : scan p cs = .ok ts) :
    ∃ o rest, ts = p.token .operator o :: rest ∧ op <+: o ∧ o <+: cs := by
  obtain ⟨o, hfind⟩ : ∃ o, operators.find? (·.isPrefixOf cs) = some o :=
    Option.isSome_iff_exists.mp (List.find?_isSome.mpr ⟨op, hop, List.isPrefixOf_iff_prefix.mpr hcs⟩)
  obtain ⟨ho, ⟨tail, rfl⟩, hlong⟩ := (find?_operators_iff cs o).mp hfind
  have hne : o ≠ [] := by
    rintro rfl
    exact absurd ho (by decide +kernel)
  obtain ⟨c, r, rfl⟩ := List.exists_cons_of_ne_nil hne
  have hread := read_operator ho hfind fun hc => hdot (by rw [hc.1]; rfl)
  rw [List.cons_append, scan_read tail hread (by simp [chars]) rfl] at h
  cases hrest : scan (p.next ⟨some .operator, c :: r, []⟩) tail with
  | error e => rw [hrest] at h; cases h
  | ok rest =>
    rw [hrest] at h
    obtain rfl := Except.ok.inj h
    exact ⟨c :: r, rest, rfl, List.prefix_of_prefix_length_le hcs (List.prefix_append _ _) (hlong op hop hcs),
      List.prefix_append _ _⟩

/-- An integer ends where its digits do, but for a sign behind one in base sixteen whose last digit is an `e`. -/
theorem integer_of_source {n t : List Char} {ts : List Token} (hn : IsInteger n)
    (ht : t.head?.any (fun c => isWordChar c || c == '.') = false) (h : ofSource (String.ofList (n ++ t)) = .ok ts) :
    (signed n t = false → ∃ rest, ts = ⟨"", .number, String.ofList n, .start⟩ :: rest ∧
      scan ⟨Position.start.past n, [], []⟩ t = .ok rest ∧
      ∀ op ∈ operators, op <+: t → ∃ o rest',
        rest = ⟨"", .operator, String.ofList o, Position.start.past n⟩ :: rest' ∧ op <+: o ∧ o <+: t) ∧
    (signed n t = true → (['0', 'x'] <+: n ∨ ['0', 'X'] <+: n) ∧ ∃ more rest, more ≠ [] ∧ more <+: t ∧
      ts = ⟨"", .number, String.ofList (n ++ more), .start⟩ :: rest) := by
  obtain ⟨c, r, more, tail, rfl, rfl, hread, hmore⟩ := hn.read_append ht
  rw [ofSource, String.toList_ofList, List.cons_append, scan_read tail hread (by simp [chars]) rfl] at h
  cases hrest : scan (Progress.start.next ⟨some .number, c :: r ++ more, []⟩) tail with
  | error e => rw [hrest] at h; cases h
  | ok rest =>
    rw [hrest] at h
    obtain rfl := Except.ok.inj h
    refine ⟨fun hsigned => ?_, fun hsigned => ⟨hn.base_of_signed hsigned, more, rest, fun hnil => ?_,
      List.prefix_append _ _, rfl⟩⟩
    · obtain rfl := hmore.mpr hsigned
      have hnext : Progress.start.next ⟨some .number, c :: r ++ [], []⟩ = ⟨Position.start.past (c :: r), [], []⟩ := by
        simp [Progress.next, Progress.token?, chars, Progress.start]
      rw [hnext] at hrest
      refine ⟨rest, by simp [Progress.next?, Progress.token?, Progress.token, Progress.start], hrest,
        fun op hop hprefix => ?_⟩
      have hdot : tail.head? ≠ some '.' := by
        rintro hdot
        simp [hdot] at ht
      obtain ⟨o, rest', rfl, hlong, htail⟩ := operator_of_scan hop hprefix hdot hrest
      exact ⟨o, rest', rfl, hlong, htail⟩
    · rw [hmore.mp hnil] at hsigned
      cases hsigned

def addedTokens : List Token := [
  ⟨"", .number, "0x1f", .start⟩,
  ⟨"", .operator, "+=", ⟨4, 1, 4⟩⟩,
  ⟨"", .number, "2", ⟨6, 1, 6⟩⟩,
  ⟨"", .endOfText, "", ⟨7, 1, 7⟩⟩]

theorem integer_of_source_added : ofSource "0x1f+=2" = .ok addedTokens ∧ ∃ rest,
    addedTokens = ⟨"", .number, "0x1f", .start⟩ :: rest ∧ ∀ op ∈ operators, op <+: ['+', '=', '2'] →
      ∃ o rest', rest = ⟨"", .operator, String.ofList o, ⟨4, 1, 4⟩⟩ :: rest' ∧ op <+: o ∧ o <+: ['+', '=', '2'] := by
  have hn : IsInteger ['0', 'x', '1', 'f'] :=
    ⟨['0', 'x'], 16, ['1', 'f'], by decide, by decide, List.all_eq_true.mp (by decide), rfl⟩
  have h : ofSource "0x1f+=2" = .ok addedTokens := by decide +kernel
  obtain ⟨rest, htokens, -, hop⟩ := (integer_of_source (t := ['+', '=', '2']) hn rfl h).1 rfl
  exact ⟨h, rest, htokens, hop⟩

def swallowedTokens : List Token := [⟨"", .number, "0x1e+2", .start⟩, ⟨"", .endOfText, "", ⟨6, 1, 6⟩⟩]

/-- A digit of base sixteen is taken for the mark of an exponent. -/
theorem sign_swallowed : IsInteger ['0', 'x', '1', 'e'] ∧
    ['+', '2'].head?.any (fun c => isWordChar c || c == '.') = false ∧
    ofSource (String.ofList (['0', 'x', '1', 'e'] ++ ['+', '2'])) = .ok swallowedTokens ∧
    ¬ ∃ t rest, swallowedTokens = t :: rest ∧ t.kind = .number ∧ t.text = String.ofList ['0', 'x', '1', 'e'] := by
  refine ⟨⟨['0', 'x'], 16, ['1', 'e'], by decide, by decide, List.all_eq_true.mp (by decide), rfl⟩, rfl, by decide +kernel, ?_⟩
  rintro ⟨t, rest, htokens, -, htext⟩
  obtain ⟨rfl, -⟩ := List.cons.inj htokens
  exact absurd htext (by decide)

end Token

end BuildSync
