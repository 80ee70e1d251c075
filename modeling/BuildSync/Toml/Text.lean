import BuildSync.Text.Digits
import BuildSync.Text.Scan
import BuildSync.Toml

/-!
Strings: in double quotes with escapes or in single quotes without, on one line or, in three
quotes, on many.
-/

namespace BuildSync.Toml

def lineBreak : Scan Unit := do
  unless ← Scan.skip "\n" do Scan.expect "\r\n"

def escape : List Char → Option (Char × Nat)
  | 'u' :: rest => do
    if rest.length < 4 then none
    return (← charOf? (← numeral? 16 (rest.take 4)), 5)
  | 'U' :: rest => do
    if rest.length < 8 then none
    return (← charOf? (← numeral? 16 (rest.take 8)), 9)
  | c :: _ =>
    if c = '"' ∨ c = '\\' then some (c, 1)
    else if c = 'b' then some ('\x08', 1)
    else if c = 'f' then some ('\x0c', 1)
    else if c = 'n' then some ('\n', 1)
    else if c = 'r' then some ('\r', 1)
    else if c = 't' then some ('\t', 1)
    else none
  | [] => none

def basicBody : List Char → Option (List Char × List Char)
  | [] => none
  | c :: rest =>
    if c = '"' then some ([], rest)
    else if c = '\\' then
      match escape rest with
      | none => none
      | some (e, count) => (basicBody (rest.drop count)).map fun (cs, rest) => (e :: cs, rest)
    else if isPlain c then (basicBody rest).map fun (cs, rest) => (c :: cs, rest)
    else none
termination_by text => text.length
decreasing_by all_goals simp only [List.length_drop, List.length_cons]; omega

def skipLines : List Char → List Char
  | '\r' :: '\n' :: rest => skipLines rest
  | c :: rest => if isBlank c ∨ c = '\n' then skipLines rest else c :: rest
  | [] => []

theorem length_skipLines_le (cs : List Char) : (skipLines cs).length ≤ cs.length := by
  fun_induction skipLines cs <;> simp_all <;> omega

def joinLines (behind : List Char) : Option (List Char) :=
  match behind.dropWhile isBlank with
  | '\n' :: rest => some (skipLines rest)
  | '\r' :: '\n' :: rest => some (skipLines rest)
  | _ => none

def lastQuotes (quote : Char) (rest : List Char) : List Char × List Char :=
  let quotes := (rest.take 2).takeWhile (· = quote)
  (quotes, rest.drop quotes.length)

theorem length_joinLines_le {behind rest : List Char} (h : joinLines behind = some rest) :
    rest.length ≤ behind.length := by
  have hd := (List.dropWhile_sublist isBlank (l := behind)).length_le
  unfold joinLines at h
  split at h
  · next r hr =>
    cases h
    have := length_skipLines_le r
    simp [hr] at hd
    omega
  · next r hr =>
    cases h
    have := length_skipLines_le r
    simp [hr] at hd
    omega
  · cases h

def longBasicBody : List Char → Option (List Char × List Char)
  | [] => none
  | '"' :: '"' :: '"' :: rest => some (lastQuotes '"' rest)
  | '\r' :: '\n' :: rest => (longBasicBody rest).map fun (cs, rest) => ('\n' :: cs, rest)
  | c :: rest =>
    if c = '\\' then
      match _h : joinLines rest with
      | some rest => longBasicBody rest
      | none =>
        match escape rest with
        | none => none
        | some (e, count) => (longBasicBody (rest.drop count)).map fun (cs, rest) => (e :: cs, rest)
    else if isPlain c ∨ c = '\n' then (longBasicBody rest).map fun (cs, rest) => (c :: cs, rest)
    else none
termination_by text => text.length
decreasing_by
  · simp only [List.length_cons]; omega
  · have := length_joinLines_le _h; simp only [List.length_cons]; omega
  · simp only [List.length_drop, List.length_cons]; omega
  · simp only [List.length_cons]; omega

def longLiteralBody : List Char → Option (List Char × List Char)
  | [] => none
  | '\'' :: '\'' :: '\'' :: rest => some (lastQuotes '\'' rest)
  | '\r' :: '\n' :: rest => (longLiteralBody rest).map fun (cs, rest) => ('\n' :: cs, rest)
  | c :: rest =>
    if isPlain c ∨ c = '\n' then (longLiteralBody rest).map fun (cs, rest) => (c :: cs, rest)
    else none

def long (quotes : String) (body : List Char → Option (List Char × List Char)) : Scan String := do
  Scan.expect quotes
  unless ← Scan.skip "\n" do discard (Scan.skip "\r\n")
  let cs ← body
  return String.ofList cs

def basic : Scan String := do
  Scan.expect "\""
  let cs ← basicBody
  return String.ofList cs

def literal : Scan String := do
  Scan.expect "'"
  let cs ← Scan.span fun c => isPlain c && c ≠ '\''
  Scan.expect "'"
  return String.ofList cs

def text : Scan String := do
  if ← Scan.starts "\"\"\"" then long "\"\"\"" longBasicBody
  else if ← Scan.starts "'''" then long "'''" longLiteralBody
  else if ← Scan.starts "\"" then basic
  else literal

end BuildSync.Toml
