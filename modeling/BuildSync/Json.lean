import BuildSync.Text.Digits

namespace BuildSync.Json

/-- A value with its numbers as they are spelled. Escapes may leave a string with one half of a
surrogate pair: it is then no text. -/
inductive Value where
  | null
  | bool (value : Bool)
  | number (spelling : List Char)
  | string (text : Option String)
  | array (items : List Value)
  | object (members : List (Option String × Value))

def joined : List Nat → Option (List Char)
  | [] => some []
  | [n] => (charOf? n).map ([·])
  | m :: n :: rest =>
    if 0xD800 ≤ m ∧ m < 0xDC00 ∧ 0xDC00 ≤ n ∧ n < 0xE000 then
      (joined rest).map (Char.ofNat (0x10000 + (m - 0xD800) * 0x400 + (n - 0xDC00)) :: ·)
    else
      match charOf? m with
      | none => none
      | some c => (joined (n :: rest)).map (c :: ·)

end BuildSync.Json
