/-!
Bytes and the text they spell in UTF-8.
-/

namespace BuildSync.Utf8

def encode (text : String) : List UInt8 :=
  text.toList.flatMap String.utf8EncodeChar

/-- Where bytes stop being text: `rejected` is the length of the sequence that spells no
character, and `none` when the bytes end inside a character. -/
structure Fault where
  index : Nat
  rejected : Option Nat
  deriving DecidableEq, Repr

def Fault.message (fault : Fault) : String :=
  match fault.rejected with
  | some n => "invalid utf-8 sequence of " ++ toString n ++ " bytes from index " ++ toString fault.index
  | none => "incomplete utf-8 byte sequence from index " ++ toString fault.index

structure Following where
  count : Nat
  low : Nat
  high : Nat
  deriving DecidableEq, Repr

def following (first : Nat) : Option Following :=
  if first < 0x80 then some ⟨0, 0x80, 0xBF⟩
  else if first < 0xC2 then none
  else if first < 0xE0 then some ⟨1, 0x80, 0xBF⟩
  else if first = 0xE0 then some ⟨2, 0xA0, 0xBF⟩
  else if first = 0xED then some ⟨2, 0x80, 0x9F⟩
  else if first < 0xF0 then some ⟨2, 0x80, 0xBF⟩
  else if first = 0xF0 then some ⟨3, 0x90, 0xBF⟩
  else if first < 0xF4 then some ⟨3, 0x80, 0xBF⟩
  else if first = 0xF4 then some ⟨3, 0x80, 0x8F⟩
  else none

def leadingBits (first count : Nat) : Nat :=
  match count with
  | 0 => first
  | 1 => first - 0xC0
  | 2 => first - 0xE0
  | _ => first - 0xF0

def continuation (low high seen value : Nat) : Nat → List UInt8 → Except (Option Nat) Nat
  | 0, _ => .ok value
  | _ + 1, [] => .error none
  | count + 1, b :: rest =>
    if low ≤ b.toNat ∧ b.toNat ≤ high then
      continuation 0x80 0xBF (seen + 1) (value * 64 + (b.toNat - 0x80)) count rest
    else .error (some seen)

def character (first : UInt8) (rest : List UInt8) : Except (Option Nat) (Char × Nat) :=
  match following first.toNat with
  | none => .error (some 1)
  | some f =>
    match continuation f.low f.high 1 (leadingBits first.toNat f.count) f.count rest with
    | .error rejected => .error rejected
    | .ok value => .ok (Char.ofNat value, f.count)

def decodeFrom (index : Nat) : List UInt8 → Except Fault (List Char)
  | [] => .ok []
  | first :: rest =>
    match character first rest with
    | .error rejected => .error ⟨index, rejected⟩
    | .ok (c, count) =>
      match decodeFrom (index + count + 1) (rest.drop count) with
      | .error fault => .error fault
      | .ok cs => .ok (c :: cs)
termination_by bytes => bytes.length
decreasing_by simp only [List.length_drop, List.length_cons]; omega

def decode (bytes : List UInt8) : Except Fault String :=
  (decodeFrom 0 bytes).map String.ofList

end BuildSync.Utf8
