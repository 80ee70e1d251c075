import BuildSync.Patch.Script

namespace BuildSync

structure Block where
  kept : Bool
  old : Nat
  oldLength : Nat
  new : Nat
  newLength : Nat
  deriving DecidableEq, Repr

namespace Block

def ofEdit (e : Edit) : Block := ⟨e.tag = .keep, e.old, e.oldLength, e.new, e.newLength⟩

def join (b c : Block) : Block :=
  { b with
    oldLength := b.oldLength + c.oldLength
    newLength := b.newLength + c.newLength
    old := if b.oldLength = 0 ∧ 0 < c.oldLength then c.old else b.old
    new := if b.newLength = 0 ∧ 0 < c.newLength then c.new else b.new }

def cons (b : Block) : List Block → List Block
  | [] => [b]
  | c :: rest => if b.kept = c.kept then b.join c :: rest else b :: c :: rest

def ofScript (script : List Edit) : List Block := script.foldr (fun e => (ofEdit e).cons) []

def dropFront (b : Block) (n : Nat) : Block :=
  { b with old := b.old + n, oldLength := b.oldLength - n, new := b.new + n
           newLength := b.newLength - n }

def take (b : Block) (n : Nat) : Block :=
  { b with oldLength := min b.oldLength n, newLength := min b.newLength n }

def takeBack (b : Block) (n : Nat) : Block := b.dropFront (b.oldLength - n)

end Block

abbrev Hunk := List Block

namespace Hunk

def context : Nat := 3

def trimFirst : List Block → List Block
  | b :: rest => (if b.kept then b.takeBack context else b) :: rest
  | [] => []

def trimLast (blocks : List Block) : List Block :=
  match blocks.reverse with
  | b :: rest => ((if b.kept then b.take context else b) :: rest).reverse
  | [] => []

def changes (h : Hunk) : Bool := h.any (!·.kept) || decide (h.length > 1)

def split (hunk : Hunk) : List Block → List Hunk
  | [] => if changes hunk then [hunk] else []
  | b :: rest =>
    if b.kept ∧ 2 * context < b.oldLength then
      (hunk ++ [b.take context]) :: split [b.takeBack context] rest
    else split (hunk ++ [b]) rest

def ofBlocks (blocks : List Block) : List Hunk := split [] (trimLast (trimFirst blocks))

def range (first length : Nat) : String :=
  if length = 1 then toString (first + 1)
  else if length = 0 then toString first ++ ",0"
  else toString (first + 1) ++ "," ++ toString length

def header (h : Hunk) : String :=
  match h, h.getLast? with
  | first :: _, some last =>
    "@@ -" ++ range first.old (last.old + last.oldLength - first.old) ++
      " +" ++ range first.new (last.new + last.newLength - first.new) ++ " @@\n"
  | _, _ => ""

end Hunk

end BuildSync
