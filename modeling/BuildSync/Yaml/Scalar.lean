import BuildSync.Text.Digits
import BuildSync.Yaml.Cursor

/-!
The text of scalars: plain, in single or double quotes, and in blocks of lines.
-/

namespace BuildSync.Yaml

def isFlowMark (c : Char) : Bool :=
  c == ',' || c == '[' || c == ']' || c == '\x7b' || c == '\x7d'

def plainLength (flow : Bool) : List Char → Option Nat
  | [] => some 0
  | c :: rest =>
    if isBlank c ∨ isBreak c then some 0
    else if flow ∧ c = ':' ∧ rest.head?.any (fun d => isFlowMark d || d == '?') then none
    else if (c = ':' ∧ atGap rest) ∨ (flow ∧ isFlowMark c) then some 0
    else (plainLength flow rest).map (· + 1)

structure Plain where
  text : List Char
  broken : Bool
  cursor : Cursor

def plain (flow : Bool) (margin : Int) : Nat → Gap → Cursor → Option Plain
  | 0, _, _ => none
  | fuel + 1, gap, c =>
    if c.atDocumentMark ∨ c.starts "#" then some ⟨[], gap.broken, c⟩
    else
      match plainLength flow c.rest with
      | none => none
      | some 0 => some ⟨[], gap.broken, c⟩
      | some (count + 1) =>
        let text := gap.folded ++ c.rest.take (count + 1)
        match Gap.read margin (c.rest.length + 1) .empty (c.skip (count + 1)) with
        | none => none
        | some (gap, c) =>
          if !flow ∧ (c.column : Int) < margin then some ⟨text, gap.broken, c⟩
          else (plain flow margin fuel gap c).map fun p => { p with text := text ++ p.text }

def escape (behind : List Char) : Option (Char × Nat) :=
  let code (count : Nat) (digits : List Char) : Option (Char × Nat) := do
    if digits.length < count then none
    return (← charOf? (← numeral? 16 (digits.take count)), count + 1)
  match behind with
  | [] => none
  | '0' :: _ => some ('\x00', 1)
  | 'a' :: _ => some ('\x07', 1)
  | 'b' :: _ => some ('\x08', 1)
  | 't' :: _ => some ('\t', 1)
  | '\t' :: _ => some ('\t', 1)
  | 'n' :: _ => some ('\n', 1)
  | 'v' :: _ => some ('\x0b', 1)
  | 'f' :: _ => some ('\x0c', 1)
  | 'r' :: _ => some ('\r', 1)
  | 'e' :: _ => some ('\x1b', 1)
  | ' ' :: _ => some (' ', 1)
  | '"' :: _ => some ('"', 1)
  | '/' :: _ => some ('/', 1)
  | '\\' :: _ => some ('\\', 1)
  | 'N' :: _ => some ('\x85', 1)
  | '_' :: _ => some ('\xa0', 1)
  | 'L' :: _ => some ('\u2028', 1)
  | 'P' :: _ => some ('\u2029', 1)
  | 'x' :: digits => code 2 digits
  | 'u' :: digits => code 4 digits
  | 'U' :: digits => code 8 digits
  | _ => none

structure QuotedWord where
  text : List Char
  count : Nat
  joins : Bool

def QuotedWord.after (text : List Char) (count : Nat) (w : QuotedWord) : QuotedWord :=
  ⟨text ++ w.text, count + w.count, w.joins⟩

def singleQuotedWord : List Char → QuotedWord
  | [] => ⟨[], 0, false⟩
  | '\'' :: '\'' :: rest => (singleQuotedWord rest).after ['\''] 2
  | c :: rest =>
    if c = '\'' ∨ isBlank c ∨ isBreak c then ⟨[], 0, false⟩
    else (singleQuotedWord rest).after [c] 1

def doubleQuotedWord : List Char → Option QuotedWord
  | [] => some ⟨[], 0, false⟩
  | c :: rest =>
    if c = '"' ∨ isBlank c ∨ isBreak c then some ⟨[], 0, false⟩
    else if c = '\\' then
      if rest.head?.any isBreak then some ⟨[], 1, true⟩
      else
        match escape rest with
        | none => none
        | some (e, count) => (doubleQuotedWord (rest.drop count)).map (·.after [e] (count + 1))
    else (doubleQuotedWord rest).map (·.after [c] 1)
termination_by text => text.length
decreasing_by all_goals simp only [List.length_drop, List.length_cons]; omega

def quotedWord (double : Bool) (text : List Char) : Option QuotedWord :=
  if double then doubleQuotedWord text else some (singleQuotedWord text)

def quoted (double : Bool) : Nat → Cursor → Option (List Char × Cursor)
  | 0, _ => none
  | fuel + 1, c =>
    if c.atDocumentMark ∨ c.rest = [] then none
    else
      match quotedWord double c.rest with
      | none => none
      | some word =>
        let c := c.skip word.count
        let c := if word.joins then (c.break?.map Prod.snd).getD c else c
        if c.starts (if double then "\"" else "'") then some (word.text, c.skip 1)
        else
          match Gap.read 0 (c.rest.length + 1) (if word.joins then .joined else .empty) c with
          | none => none
          | some (gap, c) =>
            (quoted double fuel c).map fun (text, c) => (word.text ++ gap.folded ++ text, c)

inductive Chomp where
  | strip
  | clip
  | keep
  deriving DecidableEq, Repr

def Chomp.ofMark? (c : Char) : Option Chomp :=
  if c = '+' then some keep else if c = '-' then some strip else none

def increment? (c : Char) : Option Nat :=
  if '1' ≤ c ∧ c ≤ '9' then some (c.toNat - '0'.toNat) else none

structure BlockHeader where
  chomp : Chomp
  increment : Option Nat
  count : Nat

def BlockHeader.read (text : List Char) : BlockHeader :=
  match text with
  | a :: rest =>
    match Chomp.ofMark? a, increment? a with
    | some chomp, _ =>
      match rest.head?.bind increment? with
      | some n => ⟨chomp, some n, 2⟩
      | none => ⟨chomp, none, 1⟩
    | none, some n =>
      match rest.head?.bind Chomp.ofMark? with
      | some chomp => ⟨chomp, some n, 2⟩
      | none => ⟨.clip, some n, 1⟩
    | none, none => ⟨.clip, none, 0⟩
  | [] => ⟨.clip, none, 0⟩

structure EmptyLines where
  breaks : List Char
  widest : Nat
  cursor : Cursor

def emptyLines (indent : Option Nat) : Nat → EmptyLines → Option EmptyLines
  | 0, _ => none
  | fuel + 1, lines =>
    let c := lines.cursor
    let limit := indent.elim c.rest.length (· - c.column)
    let c := c.skip ((c.rest.take limit).takeWhile (· = ' ')).length
    let widest := max lines.widest c.column
    if indent.all (c.column < ·) ∧ c.starts "\t" then none
    else
      match c.break? with
      | none => some ⟨lines.breaks, widest, c⟩
      | some (b, c) => emptyLines indent fuel ⟨lines.breaks ++ b, widest, c⟩

structure BlockLines where
  text : List Char
  first : List Char
  more : List Char
  cursor : Cursor

def blockLines (literal : Bool) (indent : Nat) : Nat → Bool → BlockLines → Option BlockLines
  | 0, _, _ => none
  | fuel + 1, afterBlank, lines =>
    let c := lines.cursor
    if c.column ≠ indent ∨ c.rest = [] then some lines
    else
      let blank := c.rest.head?.any isBlank
      let first :=
        if !literal ∧ lines.first = ['\n'] ∧ !afterBlank ∧ !blank then
          (if lines.more = [] then [' '] else [])
        else lines.first
      let line := c.rest.takeWhile (!isBreak ·)
      let c := c.skip line.length
      let (first', c) := c.break?.getD ([], c)
      match emptyLines (some indent) (c.rest.length + 1) ⟨[], 0, c⟩ with
      | none => none
      | some empty =>
        blockLines literal indent fuel blank
          ⟨lines.text ++ first ++ lines.more ++ line, first', empty.breaks, empty.cursor⟩

def block (literal : Bool) (outer : Int) (c : Cursor) : Option (List Char × Cursor) := do
  let header := BlockHeader.read c.rest
  let c ← (c.skip header.count).lineEnd?
  let stated := header.increment.map fun n => (max outer 0).toNat + n
  let empty ← emptyLines stated (c.rest.length + 1) ⟨[], 0, c⟩
  let indent := stated.getD (max empty.widest (max (outer + 1).toNat 1))
  let lines ← blockLines literal indent (c.rest.length + 1) false ⟨[], [], empty.breaks, empty.cursor⟩
  return (lines.text ++ (if header.chomp = .strip then [] else lines.first) ++
    (if header.chomp = .keep then lines.more else []), lines.cursor)

end BuildSync.Yaml
