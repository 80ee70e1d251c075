import BuildSync.Text.Digits
import BuildSync.Text.Scan
import BuildSync.Toml

/-!
Integers, floats and times. They begin alike, so each is tried where the one before it does not
fit.
-/

namespace BuildSync.Toml

def sign : Scan (List Char) := do
  if ← Scan.next fun c => c == '+' || c == '-' then return [← Scan.char] else return []

def wellSpaced : List Char → Bool
  | [] => false
  | ['_'] => false
  | '_' :: '_' :: _ => false
  | [_] => true
  | _ :: rest => wellSpaced rest

def digits (base : Nat) : Scan (List Char) := do
  let cs ← Scan.span fun c => isDigit base c || c == '_'
  if cs.head? = some '_' ∨ !wellSpaced cs then failure
  return cs.filter (· ≠ '_')

def whole : Scan (List Char) := do
  let cs ← digits 10
  if cs.head? = some '0' ∧ cs.length > 1 then failure
  return cs

def integerOf (n : Int) : Scan Item :=
  if -0x8000000000000000 ≤ n ∧ n < 0x8000000000000000 then return .integer n else failure

def based (mark : String) (base : Nat) : Scan Item := do
  Scan.expect mark
  integerOf (ofDigits base ((← digits base).filterMap hexDigit))

def decimal : Scan Item := do
  let s ← sign
  let n := ofDigits 10 ((← whole).filterMap hexDigit)
  integerOf (if s = ['-'] then -n else n)

/-- The least number that is nearer to two to the power of 1024 than to any float. -/
def overflow : Nat := (Nat.pow 2 54 - 1) * Nat.pow 2 970

def tooLarge (significand : List Char) (scale : Int) : Bool :=
  let significand := significand.dropWhile (· = '0')
  let n := ofDigits 10 (significand.filterMap hexDigit)
  let magnitude := significand.length + scale
  if significand = [] ∨ magnitude < 0 then false
  else if magnitude > 400 then true
  else if scale < 0 then overflow * Nat.pow 10 scale.natAbs ≤ n
  else overflow ≤ n * Nat.pow 10 scale.toNat

def exponent : Scan Int := do
  discard (Scan.one fun c => c == 'e' || c == 'E')
  let s ← sign
  let n := ofDigits 10 ((← digits 10).filterMap hexDigit)
  return if s = ['-'] then -n else n

def float : Scan Item := do
  let s ← sign
  let w ← whole
  let f ← if ← Scan.skip "." then digits 10 else pure []
  let marked ← Scan.next fun c => c == 'e' || c == 'E'
  if f.isEmpty && !marked then failure
  let e ← if marked then exponent else pure 0
  if s ≠ ['-'] ∧ tooLarge (w ++ f) (e - f.length) then failure
  return .other

def specialFloat : Scan Item := do
  discard sign
  unless ← Scan.skip "inf" do Scan.expect "nan"
  return .other

def bounded (count low high : Nat) : Scan Nat := do
  let n ← numeral? 10 (← Scan.exactly count)
  if low ≤ n ∧ n ≤ high then return n else failure

def isLeap (year : Nat) : Bool :=
  year % 4 = 0 && (year % 100 ≠ 0 || year % 400 = 0)

def daysIn (year month : Nat) : Nat :=
  if month = 2 then (if isLeap year then 29 else 28)
  else if month = 4 ∨ month = 6 ∨ month = 9 ∨ month = 11 then 30
  else 31

def date : Scan Unit := do
  let year ← bounded 4 0 9999
  Scan.expect "-"
  let month ← bounded 2 1 12
  Scan.expect "-"
  discard (bounded 2 1 (daysIn year month))

def clock : Scan Unit := do
  discard (bounded 2 0 23)
  Scan.expect ":"
  discard (bounded 2 0 59)

def time : Scan Unit := do
  clock
  Scan.expect ":"
  discard (bounded 2 0 60)
  (do Scan.expect "."; discard (Scan.spanOne (isDigit 10))) <|> pure ()

def offset : Scan Unit := do
  if ← Scan.next fun c => c == 'Z' || c == 'z' then discard Scan.char
  else
    discard (Scan.one fun c => c == '+' || c == '-')
    clock

def dateTime : Scan Item :=
  (do
    date
    (do
      discard (Scan.one fun c => c == 'T' || c == 't' || c == ' ')
      time
      offset <|> pure ()) <|> pure ()
    return .other) <|>
  (do time; return .other)

def number : Scan Item :=
  dateTime <|> float <|> specialFloat <|> based "0x" 16 <|> based "0o" 8 <|> based "0b" 2 <|> decimal

end BuildSync.Toml
