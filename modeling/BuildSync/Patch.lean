import BuildSync.Patch.Compact
import BuildSync.Patch.Hunk
import BuildSync.Patch.Lines
import BuildSync.Patch.Shortest

namespace BuildSync.Patch

def line (mark : String) (text : String) : String :=
  mark ++ text ++ if endsLine text then "" else "\n\\ No newline at end of file\n"

def lines (mark : String) (texts : List String) : String :=
  texts.foldr (fun text rest => line mark text ++ rest) ""

def slice (texts : Array String) (start length : Nat) : List String :=
  ((texts.toList.drop start).take length)

def block (t : Texts) (b : Block) : String :=
  if b.kept then lines " " (slice t.old b.old b.oldLength)
  else lines "-" (slice t.old b.old b.oldLength) ++ lines "+" (slice t.new b.new b.newLength)

def hunk (t : Texts) (h : Hunk) : String :=
  h.header ++ h.foldr (fun b rest => block t b ++ rest) ""

/-- The unified diff of two texts, nothing at all when they are the same. -/
def unified (old new oldLabel newLabel : String) : String :=
  if old = new then ""
  else
    let t : Texts := ⟨(linesOf old).toArray, (linesOf new).toArray⟩
    match Hunk.ofBlocks (Block.ofScript (t.compact t.script)) with
    | [] => ""
    | hunks =>
      "--- " ++ oldLabel ++ "\n+++ " ++ newLabel ++ "\n" ++
        hunks.foldr (fun h rest => hunk t h ++ rest) ""

end BuildSync.Patch
