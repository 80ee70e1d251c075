import BuildSync.Text.Printable

namespace BuildSync

def escapedChar (quote c : Char) : List Char :=
  if c = Char.ofNat 0 then ['\\', '0']
  else if c = '\t' then ['\\', 't']
  else if c = '\r' then ['\\', 'r']
  else if c = '\n' then ['\\', 'n']
  else if c = '\\' ∨ c = quote then ['\\', c]
  else if joinsPrevious c || !isPrintable c then
    ['\\', 'u', '{'] ++ Nat.toDigits 16 c.toNat ++ ['}']
  else [c]

/-- A text in quotes, with everything a reader could not see spelled out. -/
def escaped (quote : Char) (text : String) : String :=
  String.ofList (quote :: text.toList.flatMap (escapedChar quote) ++ [quote])

end BuildSync
