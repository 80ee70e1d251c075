/-!
Steps that read text from the front and fail where it is not as expected.
-/

namespace BuildSync

abbrev Scan := StateT (List Char) Option

namespace Scan

def next (accept : Char → Bool) : Scan Bool := do
  return (← get).head?.any accept

def starts (word : String) : Scan Bool := do
  return word.toList.isPrefixOf (← get)

def char : Scan Char := do
  match ← get with
  | [] => failure
  | c :: rest => set rest; return c

def one (accept : Char → Bool) : Scan Char := do
  let c ← char
  if accept c then return c else failure

def expect (word : String) : Scan Unit := do
  if ← starts word then modify (·.drop word.length) else failure

def skip (word : String) : Scan Bool := do
  if ← starts word then
    modify (·.drop word.length)
    return true
  else return false

def span (accept : Char → Bool) : Scan (List Char) := do
  let text ← get
  set (text.dropWhile accept)
  return text.takeWhile accept

def spanOne (accept : Char → Bool) : Scan (List Char) := do
  match ← span accept with
  | [] => failure
  | cs => return cs

def exactly (count : Nat) : Scan (List Char) := do
  let text ← get
  if text.length < count then failure
  set (text.drop count)
  return text.take count

def done : Scan Bool := do return (← get).isEmpty

end Scan

end BuildSync
