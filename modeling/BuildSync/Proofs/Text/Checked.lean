import Mathlib.Data.List.Basic
import Mathlib.Tactic.Common

/-!
Operations that are not defined everywhere, kept apart from errors that are reported: subtraction
of natural numbers, items by index, and slices of a text by byte offsets.
-/

namespace BuildSync

/-- What a computation comes to: a value, an error that it reports, or a fault, where it asked for
something that does not exist. -/
inductive Checked (ε α : Type) where
  | done (value : α)
  | error (e : ε)
  | fault

namespace Checked

variable {ε α β : Type}

def bind (r : Checked ε α) (f : α → Checked ε β) : Checked ε β :=
  match r with
  | done value => f value
  | error e => error e
  | fault => fault

instance : Monad (Checked ε) where
  pure := done
  bind := bind

def ofOption : Option α → Checked ε α
  | some value => done value
  | none => fault

def ofExcept : Except ε α → Checked ε α
  | .ok value => done value
  | .error e => error e

def minus (m n : Nat) : Checked ε Nat := if n ≤ m then done (m - n) else fault

def item (xs : List α) (i : Nat) : Checked ε α := ofOption xs[i]?

def range (xs : List α) (start stop : Nat) : Checked ε (List α) :=
  if start ≤ stop ∧ stop ≤ xs.length then done ((xs.take stop).drop start) else fault

@[simp]
theorem pure_eq (value : α) : (pure value : Checked ε α) = done value := rfl

@[simp]
theorem done_bind (value : α) (f : α → Checked ε β) : done value >>= f = f value := rfl

@[simp]
theorem error_bind (e : ε) (f : α → Checked ε β) : error e >>= f = error e := rfl

@[simp]
theorem fault_bind (f : α → Checked ε β) : fault >>= f = fault := rfl

@[simp]
theorem ofOption_some (value : α) : (ofOption (some value) : Checked ε α) = done value := rfl

@[simp]
theorem ofExcept_ok (value : α) : ofExcept (.ok value : Except ε α) = done value := rfl

@[simp]
theorem ofExcept_error (e : ε) : (ofExcept (.error e) : Checked ε α) = error e := rfl

@[simp]
theorem minus_of_le {m n : Nat} (h : n ≤ m) : (minus m n : Checked ε Nat) = done (m - n) := if_pos h

@[simp]
theorem item_append (front : List α) (x : α) (rest : List α) :
    (item (front ++ x :: rest) front.length : Checked ε α) = done x := by
  simp [item]

theorem range_append (front mid rest : List α) :
    (range (front ++ mid ++ rest) front.length (front.length + mid.length) : Checked ε (List α)) = done mid := by
  rw [range, if_pos ⟨Nat.le_add_right .., by simp⟩, ← List.length_append, List.take_left, List.drop_left]

theorem ofExcept_ne_fault (r : Except ε α) : ofExcept r ≠ fault := by
  cases r <;> nofun

end Checked

def utf8Length : List Char → Nat
  | [] => 0
  | c :: cs => c.utf8Size + utf8Length cs

@[simp]
theorem utf8Length_nil : utf8Length [] = 0 := rfl

@[simp]
theorem utf8Length_cons (c : Char) (cs : List Char) : utf8Length (c :: cs) = c.utf8Size + utf8Length cs := rfl

@[simp]
theorem utf8Length_append (cs ds : List Char) : utf8Length (cs ++ ds) = utf8Length cs + utf8Length ds := by
  induction cs with
  | nil => exact (Nat.zero_add _).symm
  | cons c cs ih => rw [List.cons_append, utf8Length_cons, utf8Length_cons, ih, Nat.add_assoc]

def split? : List Char → Nat → Option (List Char × List Char)
  | cs, 0 => some ([], cs)
  | [], _ + 1 => none
  | c :: cs, n + 1 =>
    if c.utf8Size ≤ n + 1 then (split? cs (n + 1 - c.utf8Size)).map fun parts => (c :: parts.1, parts.2)
    else none

theorem split?_eq_some {cs front rest : List Char} {n : Nat} :
    split? cs n = some (front, rest) ↔ cs = front ++ rest ∧ utf8Length front = n := by
  fun_induction split? cs n generalizing front with
  | case1 cs =>
    constructor
    · rintro ⟨⟩
      exact ⟨rfl, rfl⟩
    · rintro ⟨rfl, h⟩
      cases front with
      | nil => rfl
      | cons c front =>
        have := c.utf8Size_pos
        simp only [utf8Length_cons] at h
        omega
  | case2 n =>
    constructor
    · nofun
    · rintro ⟨hnil, h⟩
      obtain ⟨rfl, -⟩ := List.append_eq_nil_iff.mp hnil.symm
      cases h
  | case3 n c cs hle ih =>
    rw [Option.map_eq_some_iff]
    constructor
    · rintro ⟨⟨a, b⟩, hparts, heq⟩
      cases heq
      obtain ⟨rfl, hlength⟩ := ih.mp hparts
      exact ⟨rfl, by simp only [utf8Length_cons]; omega⟩
    · rintro ⟨hcs, h⟩
      cases front with
      | nil => cases h
      | cons d front =>
        obtain ⟨rfl, rfl⟩ := List.cons.inj hcs
        simp only [utf8Length_cons] at h
        exact ⟨(front, rest), ih.mpr ⟨rfl, by omega⟩, rfl⟩
  | case4 n c cs hlt =>
    constructor
    · nofun
    · rintro ⟨hcs, h⟩
      cases front with
      | nil => cases h
      | cons d front =>
        obtain ⟨rfl, rfl⟩ := List.cons.inj hcs
        simp only [utf8Length_cons] at h
        omega

def slice? (cs : List Char) (start stop : Nat) : Option (List Char) :=
  if start ≤ stop then
    (split? cs start).bind fun parts => (split? parts.2 (stop - start)).map Prod.fst
  else none

theorem slice?_eq_some {cs text : List Char} {start stop : Nat} :
    slice? cs start stop = some text ↔
      ∃ front rest, cs = front ++ text ++ rest ∧ utf8Length front = start ∧ utf8Length (front ++ text) = stop := by
  unfold slice?
  constructor
  · intro h
    split_ifs at h with hle
    obtain ⟨⟨front, behind⟩, hfront, h⟩ := Option.bind_eq_some_iff.mp h
    obtain ⟨⟨text, rest⟩, htext, rfl⟩ := Option.map_eq_some_iff.mp h
    obtain ⟨rfl, rfl⟩ := split?_eq_some.mp hfront
    obtain ⟨rfl, hlength⟩ := split?_eq_some.mp htext
    refine ⟨front, rest, by rw [List.append_assoc], rfl, ?_⟩
    rw [utf8Length_append, hlength]
    omega
  · rintro ⟨front, rest, rfl, rfl, rfl⟩
    have hfront : split? (front ++ text ++ rest) (utf8Length front) = some (front, text ++ rest) :=
      split?_eq_some.mpr ⟨List.append_assoc .., rfl⟩
    have htext : split? (text ++ rest) (utf8Length (front ++ text) - utf8Length front) = some (text, rest) :=
      split?_eq_some.mpr ⟨rfl, by rw [utf8Length_append]; omega⟩
    rw [if_pos (by rw [utf8Length_append]; omega), hfront, Option.bind_some, htext]
    rfl

end BuildSync
