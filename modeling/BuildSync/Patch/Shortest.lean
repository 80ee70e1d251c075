import BuildSync.Patch.Script

/-!
A shortest way from one text to another by deleting and inserting lines. The search goes from both
ends at once, one edit further in each round; where the two sides meet, the texts are split.
-/

namespace BuildSync

structure Region where
  old : Nat
  oldLength : Nat
  new : Nat
  newLength : Nat
  deriving DecidableEq, Repr

namespace Region

def size (r : Region) : Nat := r.oldLength + r.newLength

def dropFront (r : Region) (n : Nat) : Region :=
  ⟨r.old + n, r.oldLength - n, r.new + n, r.newLength - n⟩

def dropBack (r : Region) (n : Nat) : Region :=
  ⟨r.old, r.oldLength - n, r.new, r.newLength - n⟩

def before (r : Region) (x y : Nat) : Region := ⟨r.old, x, r.new, y⟩

def behind (r : Region) (x y : Nat) : Region :=
  ⟨r.old + x, r.oldLength - x, r.new + y, r.newLength - y⟩

end Region

/-- How far each side has come on each diagonal; `middle` is the index of diagonal 0. -/
structure Frontier where
  middle : Nat
  forward : Array Nat
  backward : Array Nat

namespace Frontier

def slot (f : Frontier) (k : Int) : Nat := (k + f.middle).toNat

def forwardAt (f : Frontier) (k : Int) : Nat := f.forward.getD (f.slot k) 0

def backwardAt (f : Frontier) (k : Int) : Nat := f.backward.getD (f.slot k) 0

def start (size : Nat) : Frontier :=
  ⟨size + 1, Array.replicate (2 * size + 3) 0, Array.replicate (2 * size + 3) 0⟩

def enter (reached : Int → Nat) (d k : Int) : Nat :=
  if k = -d ∨ (k ≠ d ∧ reached (k - 1) < reached (k + 1)) then reached (k + 1)
  else reached (k - 1) + 1

end Frontier

abbrev Meeting := Option (Nat × Nat)

namespace Region

def surplus (r : Region) : Int := (r.oldLength : Int) - r.newLength

def advance (t : Texts) (r : Region) (d k : Int) (f : Frontier) : Frontier × Meeting :=
  let x := Frontier.enter f.forwardAt d k
  let y := ((x : Int) - k).toNat
  let run :=
    if x < r.oldLength ∧ y < r.newLength then
      t.sameFrom (r.old + x) (r.new + y) (min (r.oldLength - x) (r.newLength - y))
    else 0
  let f := { f with forward := f.forward.setIfInBounds (f.slot k) (x + run) }
  -- After equally many edits the sides are on diagonals of one parity only if the surplus is even.
  -- If it is odd, they meet when this side is an edit ahead.
  let met :=
    r.surplus % 2 ≠ 0 ∧ (k - r.surplus).natAbs < d ∧
      r.oldLength ≤ x + run + f.backwardAt (r.surplus - k)
  (f, if met then some (x, y) else none)

def retreat (t : Texts) (r : Region) (d k : Int) (f : Frontier) : Frontier × Meeting :=
  let x := Frontier.enter f.backwardAt d k
  let y := ((x : Int) - k).toNat
  let run :=
    if x < r.oldLength ∧ y < r.newLength then
      t.sameBefore (r.old + r.oldLength - x) (r.new + r.newLength - y)
        (min (r.oldLength - x) (r.newLength - y))
    else 0
  let f := { f with backward := f.backward.setIfInBounds (f.slot k) (x + run) }
  let met :=
    r.surplus % 2 = 0 ∧ (k - r.surplus).natAbs ≤ d ∧
      r.oldLength ≤ x + run + f.forwardAt (r.surplus - k)
  (f, if met then some (r.oldLength - (x + run), r.newLength - (y + run)) else none)

def sweep (step : Int → Frontier → Frontier × Meeting) (f : Frontier) :
    List Int → Frontier × Meeting
  | [] => (f, none)
  | k :: ks =>
    match step k f with
    | (f, none) => sweep step f ks
    | met => met

def diagonals (d : Nat) : List Int :=
  (List.range (d + 1)).map fun (i : Nat) => (d : Int) - 2 * i

def search (t : Texts) (r : Region) (d : Nat) (f : Frontier) : Nat → Meeting
  | 0 => none
  | rounds + 1 =>
    match sweep (r.advance t d) f (diagonals d) with
    | (_, some met) => some met
    | (f, none) =>
      match sweep (r.retreat t d) f (diagonals d) with
      | (_, some met) => some met
      | (f, none) => search t r (d + 1) f rounds

def meeting (t : Texts) (r : Region) : Meeting :=
  let rounds := (r.size + 1) / 2 + 1
  r.search t 0 (.start (rounds + 1)) rounds

def kept (old new length : Nat) : List Edit :=
  if length = 0 then [] else [⟨.keep, old, new, length⟩]

def front (t : Texts) (r : Region) : Nat :=
  t.sameFrom r.old r.new (min r.oldLength r.newLength)

def back (t : Texts) (r : Region) : Nat :=
  t.sameBefore (r.old + r.oldLength) (r.new + r.newLength) (min r.oldLength r.newLength)

def core (t : Texts) (r : Region) : Region :=
  let r := r.dropFront (r.front t)
  r.dropBack (r.back t)

theorem size_core_le (t : Texts) (r : Region) : (r.core t).size ≤ r.size := by
  simp only [core, dropBack, dropFront, size]
  omega

/-- A script for a region: the lines shared at the ends are kept, and what lies between is split
where the search says. -/
def script (t : Texts) (r : Region) : List Edit :=
  let core := r.core t
  let inner :=
    if core.newLength = 0 then
      if core.oldLength = 0 then [] else [⟨.delete, core.old, core.new, core.oldLength⟩]
    else if core.oldLength = 0 then [⟨.insert, core.old, core.new, core.newLength⟩]
    else
      let (x, y) := (core.meeting t).getD (0, 0)
      -- A point that leaves one part as large as the whole is no use, and nothing is kept then.
      if x ≤ core.oldLength ∧ y ≤ core.newLength ∧ 0 < x + y ∧ x + y < core.size then
        script t (core.before x y) ++ script t (core.behind x y)
      else
        [⟨.delete, core.old, core.new, core.oldLength⟩,
          ⟨.insert, core.old, core.new, core.newLength⟩]
  kept r.old r.new (r.front t) ++ inner ++
    kept (core.old + core.oldLength) (core.new + core.newLength) ((r.dropFront (r.front t)).back t)
termination_by r.size
decreasing_by
  all_goals
    have bound := size_core_le t r
    simp +zetaDelta only [size, before, behind] at *
    omega

end Region

namespace Texts

def whole (t : Texts) : Region := ⟨0, t.old.size, 0, t.new.size⟩

def script (t : Texts) : List Edit := t.whole.script t

end Texts

end BuildSync
