import BuildSync.Json.Reading
import BuildSync.Manifest

namespace BuildSync.Json

def Value.text? : Value → Option String
  | string text => text
  | _ => none

def Value.count? : Value → Option UInt32
  | number spelling =>
    (numeral? 10 spelling).bind fun n => if n < UInt32.size then some (UInt32.ofNat n) else none
  | _ => none

def Value.items? : Value → Option (List Value)
  | array items => some items
  | _ => none

def Value.parts? : Value → Option (Manifest.Parts Value)
  | object members =>
    (members.mapM fun (m : Option String × Value) => m.1.map (·, m.2)).map .named
  | array items => some (.inOrder items false)
  | _ => none

def Value.given : Value → Option (Option Value)
  | null => some none
  | v => some (some v)

instance : Manifest.Readable Option Value := ⟨Value.text?, Value.count?, Value.items?, Value.parts?, Value.given⟩

def manifest? (text : String) : Option Manifest :=
  (Value.ofText? text).bind Manifest.ofValue

end BuildSync.Json
