import BuildSync.Patch.Script

/-!
Where a run of deletions or insertions can stand in several places, it is moved up as far as it
goes, joining those it meets, and then down as far as it goes.
-/

namespace BuildSync

namespace Edit

def shiftDown (e : Edit) (n : Nat) : Edit := { e with old := e.old + n, new := e.new + n }

def shiftUp (e : Edit) (n : Nat) : Edit := { e with old := e.old - n, new := e.new - n }

def grow (e : Edit) (n : Nat) : Edit := { e with length := e.length + n }

def shrink (e : Edit) (n : Nat) : Edit := { e with length := e.length - n }

def consUnlessEmpty (e : Edit) (es : List Edit) : List Edit := if e.isEmpty then es else e :: es

def weight : List Edit → Nat
  | [] => 0
  | e :: es => e.length + 1 + weight es

theorem weight_consUnlessEmpty_le (e : Edit) (es : List Edit) :
    weight (e.consUnlessEmpty es) ≤ weight (e :: es) := by
  rw [consUnlessEmpty]
  split <;> simp [weight]

end Edit

structure Focus where
  before : List Edit
  here : Edit
  after : List Edit

namespace Focus

def slackUp (t : Texts) (keep e : Edit) : Nat :=
  t.sameBefore keep.oldEnd e.newEnd (min keep.oldLength e.newLength)

def slackDown (t : Texts) (keep e : Edit) : Nat :=
  t.sameFrom keep.old e.new (min keep.oldLength e.newLength)

def keepFront (old new n : Nat) : List Edit → List Edit
  | q :: rest =>
    if q.tag = .keep then (q.shiftUp n).grow n :: rest else ⟨.keep, old - n, new - n, n⟩ :: q :: rest
  | [] => [⟨.keep, old - n, new - n, n⟩]

def keepBack (old new n : Nat) : List Edit → List Edit
  | q :: rest => if q.tag = .keep then q.grow n :: rest else ⟨.keep, old, new, n⟩ :: q :: rest
  | [] => [⟨.keep, old, new, n⟩]

def up (t : Texts) (before : List Edit) (here : Edit) (after : List Edit) : Focus :=
  match before with
  | [] => ⟨[], here, after⟩
  | q :: rest =>
    if q.tag = .keep then
      let n := slackUp t q here
      -- What `q` ends with is what `here` ends with: those lines are kept behind `here` instead.
      if 0 < n ∧ n ≤ q.length then
        up t ((q.shrink n).consUnlessEmpty rest) (here.shiftUp n)
          (keepFront q.oldEnd here.newEnd n after)
      else if q.isEmpty then up t rest here after
      else ⟨q :: rest, here, after⟩
    -- Two edits with nothing kept between them: those of one tag are joined, others pass each other.
    else if q.tag = here.tag then up t rest (q.grow here.length) after
    else up t rest here (q :: after)
termination_by Edit.weight before
decreasing_by
  · have := Edit.weight_consUnlessEmpty_le (q.shrink n) rest
    simp +zetaDelta only [Edit.weight, Edit.shrink] at *
    omega
  all_goals
    simp only [Edit.weight]
    omega

def down (t : Texts) (before : List Edit) (here : Edit) (after : List Edit) : Focus :=
  match after with
  | [] => ⟨before, here, []⟩
  | q :: rest =>
    if q.tag = .keep then
      let n := slackDown t q here
      if 0 < n ∧ n ≤ q.length then
        down t (keepBack q.old here.new n before) (here.shiftDown n)
          (((q.shiftDown n).shrink n).consUnlessEmpty rest)
      else if q.isEmpty then down t before here rest
      else ⟨before, here, q :: rest⟩
    else if q.tag = here.tag then down t before (here.grow q.length) rest
    else down t (q :: before) here rest
termination_by Edit.weight after
decreasing_by
  · have := Edit.weight_consUnlessEmpty_le ((q.shiftDown n).shrink n) rest
    simp +zetaDelta only [Edit.weight, Edit.shrink, Edit.shiftDown] at *
    omega
  all_goals
    simp only [Edit.weight]
    omega

def settle (t : Texts) (tag : Edit.Tag) (before : List Edit) : Nat → List Edit → List Edit
  | 0, after => before.reverse ++ after
  | _ + 1, [] => before.reverse
  | steps + 1, e :: after =>
    if e.tag = tag then
      let raised := up t before e after
      let f := down t raised.before raised.here raised.after
      settle t tag (f.here :: f.before) steps f.after
    else settle t tag (e :: before) steps after

end Focus

namespace Texts

def compact (t : Texts) (script : List Edit) : List Edit :=
  let settle (tag : Edit.Tag) (es : List Edit) : List Edit :=
    Focus.settle t tag [] (2 * Edit.weight es + 2) es
  settle .insert (settle .delete script)

end Texts

end BuildSync
