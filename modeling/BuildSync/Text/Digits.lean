namespace BuildSync

def hexDigit (c : Char) : Option Nat :=
  if '0' ≤ c ∧ c ≤ '9' then some (c.toNat - '0'.toNat)
  else if 'a' ≤ c ∧ c ≤ 'f' then some (c.toNat - 'a'.toNat + 10)
  else if 'A' ≤ c ∧ c ≤ 'F' then some (c.toNat - 'A'.toNat + 10)
  else none

def isDigit (base : Nat) (c : Char) : Bool := (hexDigit c).any (· < base)

def ofDigits (base : Nat) (digits : List Nat) : Nat :=
  digits.foldl (fun n d => n * base + d) 0

def numeral? (base : Nat) (cs : List Char) : Option Nat :=
  if cs ≠ [] ∧ cs.all (isDigit base) then some (ofDigits base (cs.filterMap hexDigit)) else none

def charOf? (n : Nat) : Option Char :=
  if n.isValidChar then some (Char.ofNat n) else none

end BuildSync
