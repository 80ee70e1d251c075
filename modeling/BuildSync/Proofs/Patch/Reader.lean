import BuildSync.Patch
import Mathlib.Data.List.Basic

namespace BuildSync

def Returns (cs : List Char) : Prop := ∀ i, cs[i]? = some '\r' → cs[i + 1]? = some '\n'

def Unbroken (cs : List Char) : Prop := '\n' ∉ cs ∧ '\r' ∉ cs

inductive Ended : List Char → Prop
  | feed {cs : List Char} (h : Unbroken cs) : Ended (cs ++ ['\n'])
  | returnFeed {cs : List Char} (h : Unbroken cs) : Ended (cs ++ ['\r', '\n'])

section Lines

variable {c : Char} {cs l rest : List Char}

theorem unbroken_cons : Unbroken (c :: cs) ↔ (c ≠ '\n' ∧ c ≠ '\r') ∧ Unbroken cs := by
  simp only [Unbroken, List.mem_cons, not_or]
  grind

theorem unbroken_nil : Unbroken [] := ⟨List.not_mem_nil, List.not_mem_nil⟩

theorem unbroken_append {ds : List Char} : Unbroken (cs ++ ds) ↔ Unbroken cs ∧ Unbroken ds := by
  simp only [Unbroken, List.mem_append, not_or]
  exact and_and_and_comm

theorem Returns.tail (h : Returns (c :: cs)) : Returns cs := fun i hi => h (i + 1) hi

theorem Ended.cons (h : Ended cs) (hc : c ≠ '\n' ∧ c ≠ '\r') : Ended (c :: cs) := by
  cases h with
  | feed h => exact .feed (unbroken_cons.mpr ⟨hc, h⟩)
  | returnFeed h => exact .returnFeed (unbroken_cons.mpr ⟨hc, h⟩)

theorem endsLine_ended {text : String} (h : Ended text.toList) : endsLine text = true := by
  rw [endsLine]
  generalize text.toList = cs at h
  cases h <;> simp

theorem endsLine_unbroken {text : String} (h : Unbroken text.toList) : endsLine text = false := by
  rw [endsLine]
  cases hlast : text.toList.getLast? with
  | none => rfl
  | some c =>
    have hc := List.mem_of_getLast? hlast
    have hfeed : c ≠ '\n' := fun heq => h.1 (heq ▸ hc)
    have hreturn : c ≠ '\r' := fun heq => h.2 (heq ▸ hc)
    simp [hfeed, hreturn]

theorem splitLines_unbroken_append (h : Unbroken cs) {line : List Char} {lines : List (List Char)}
    (hrest : splitLines rest = line :: lines) : splitLines (cs ++ rest) = (cs ++ line) :: lines := by
  induction cs with
  | nil => exact hrest
  | cons c cs ih =>
    obtain ⟨⟨hfeed, hreturn⟩, hcs⟩ := unbroken_cons.mp h
    rw [List.cons_append, splitLines, if_neg (by rintro (rfl | rfl) <;> contradiction), ih hcs]
    · rfl
    · rintro _ rfl
      exact absurd rfl hreturn

theorem splitLines_ended_append (h : Ended l) (rest : List Char) : splitLines (l ++ rest) = l :: splitLines rest := by
  cases h with
  | feed h =>
    rw [List.append_assoc]
    apply splitLines_unbroken_append h
    rw [List.singleton_append, splitLines, if_pos (.inl rfl)]
    nofun
  | returnFeed h =>
    rw [List.append_assoc]
    apply splitLines_unbroken_append h
    rfl

theorem splitLines_flatten {ls : List (List Char)} (h : ∀ l ∈ ls, Ended l) : splitLines ls.flatten = ls := by
  induction ls with
  | nil => rfl
  | cons l ls ih =>
    obtain ⟨hl, hls⟩ := List.forall_mem_cons.mp h
    rw [List.flatten_cons, splitLines_ended_append hl, ih hls]

theorem ended_or_unbroken (h : Returns cs) (hl : l ∈ splitLines cs) : Ended l ∨ Unbroken l := by
  fun_induction splitLines cs generalizing l with
  | case1 => cases hl
  | case2 rest ih =>
    rcases List.mem_cons.mp hl with rfl | hl
    · exact .inl (.returnFeed unbroken_nil)
    · exact ih h.tail.tail hl
  | case3 c rest hnext hbreak ih =>
    rcases List.mem_cons.mp hl with rfl | hl
    · rcases hbreak with rfl | rfl
      · exact .inl (.feed unbroken_nil)
      · have hfeed := h 0 rfl
        cases rest with
        | nil => cases hfeed
        | cons c rest => cases hfeed; exact absurd rfl (hnext rest rfl)
    · exact ih h.tail hl
  | case4 c rest hnext hbreak hrest ih =>
    obtain rfl := List.mem_singleton.mp hl
    exact .inr (unbroken_cons.mpr ⟨not_or.mp hbreak, unbroken_nil⟩)
  | case5 c rest hnext hbreak line lines hrest ih =>
    rw [hrest] at ih
    rcases List.mem_cons.mp hl with rfl | hl
    · rcases ih h.tail List.mem_cons_self with hline | hline
      · exact .inl (hline.cons (not_or.mp hbreak))
      · exact .inr (unbroken_cons.mpr ⟨not_or.mp hbreak, hline⟩)
    · exact ih h.tail (List.mem_cons_of_mem line hl)

end Lines

namespace Patch

inductive Mark where
  | kept
  | removed
  | added
  deriving DecidableEq, Repr

def Mark.char : Mark → Char
  | kept => ' '
  | removed => '-'
  | added => '+'

def Mark.ofChar? : Char → Option Mark
  | ' ' => some kept
  | '-' => some removed
  | '+' => some added
  | _ => none

structure Line where
  mark : Mark
  text : String
  deriving DecidableEq, Repr

structure Range where
  first : Nat
  length : Nat
  deriving DecidableEq, Repr

/-- A hunk as it reads: the ranges in its header, and the lines below it. -/
structure Passage where
  old : Range
  new : Range
  lines : List Line
  deriving DecidableEq, Repr

structure Diff where
  oldLabel : String
  newLabel : String
  passages : List Passage
  deriving DecidableEq, Repr

/-! A diff is read without regard to what its headers count: a hunk ends where the next one begins. -/

def number? (cs : List Char) : Option (Nat × List Char) :=
  match cs.takeWhile Char.isDigit with
  | [] => none
  | digits => some (Nat.ofDigitChars 10 digits 0, cs.dropWhile Char.isDigit)

def range? (cs : List Char) : Option (Range × List Char) :=
  match number? cs with
  | some (n, ',' :: rest) =>
    (number? rest).map fun (length, rest) => (⟨if length = 0 then n else n - 1, length⟩, rest)
  | some (n, rest) => some (⟨n - 1, 1⟩, rest)
  | none => none

def ranges? (line : List Char) : Option (Range × Range) := do
  let (old, rest) ← range? (← line.dropPrefix? "@@ -".toList)
  let (new, rest) ← range? (← rest.dropPrefix? " +".toList)
  if rest = " @@\n".toList then some (old, new) else none

def noEnd : String := "\\ No newline at end of file\n"

structure Tail where
  bare : Bool
  lines : List Line
  passages : List Passage

def Tail.read? (line : List Char) (tail : Tail) : Option Tail :=
  match line with
  | '\\' :: _ => if line = noEnd.toList ∧ tail.bare = false then some { tail with bare := true } else none
  | '@' :: _ =>
    match ranges? line with
    | some (old, new) =>
      if tail.bare = false ∧ tail.lines ≠ [] then
        some ⟨false, [], ⟨old, new, tail.lines⟩ :: tail.passages⟩
      else none
    | none => none
  | c :: text =>
    (Mark.ofChar? c).map fun mark =>
      { tail with bare := false, lines := ⟨mark, .ofList (if tail.bare then text.dropLast else text)⟩ :: tail.lines }
  | [] => none

def tail? : List (List Char) → Option Tail
  | [] => some ⟨false, [], []⟩
  | line :: lines => (tail? lines).bind (Tail.read? line)

def label? (before : String) (line : List Char) : Option String :=
  match line.dropPrefix? before.toList with
  | some rest => if rest.getLast? = some '\n' then some (.ofList rest.dropLast) else none
  | none => none

def Diff.read? (text : String) : Option Diff :=
  match splitLines text.toList with
  | first :: second :: rest =>
    match label? "--- " first, label? "+++ " second, tail? rest with
    | some oldLabel, some newLabel, some ⟨false, [], passages⟩ => some ⟨oldLabel, newLabel, passages⟩
    | _, _, _ => none
  | _ => none

def Line.spelling (l : Line) : List (List Char) :=
  if endsLine l.text then [l.mark.char :: l.text.toList]
  else [l.mark.char :: (l.text.toList ++ ['\n']), noEnd.toList]

def Range.text (r : Range) : String := Hunk.range r.first r.length

def Passage.header (p : Passage) : String := "@@ -" ++ p.old.text ++ " +" ++ p.new.text ++ " @@\n"

def Passage.spelling (p : Passage) : List (List Char) := p.header.toList :: p.lines.flatMap Line.spelling

def Diff.spelling (d : Diff) : List (List Char) :=
  ("--- ".toList ++ d.oldLabel.toList ++ ['\n']) :: ("+++ ".toList ++ d.newLabel.toList ++ ['\n']) ::
    d.passages.flatMap Passage.spelling

theorem number?_append (n : Nat) {c : Char} (hc : c.isDigit = false) (rest : List Char) :
    number? (Nat.toDigits 10 n ++ c :: rest) = some (n, c :: rest) := by
  have hdigits : ∀ d ∈ Nat.toDigits 10 n, d.isDigit = true := fun d hd =>
    Nat.isDigit_of_mem_toDigits (by decide) (by decide) hd
  rw [number?, List.takeWhile_append_of_pos hdigits, List.dropWhile_append_of_pos hdigits,
    List.takeWhile_cons_of_neg (by simp [hc]), List.dropWhile_cons_of_neg (by simp [hc]), List.append_nil]
  split
  · rename_i hnil
    exact absurd hnil Nat.toDigits_ne_nil
  · rw [Nat.ofDigitChars_ten_toDigits]

theorem range?_append (r : Range) (rest : List Char) :
    range? (r.text.toList ++ ' ' :: rest) = some (r, ' ' :: rest) := by
  obtain ⟨first, length⟩ := r
  have hblank (n : Nat) := number?_append n (c := ' ') rfl rest
  have hcomma (n : Nat) (rest : List Char) := number?_append n (c := ',') rfl rest
  rw [Range.text, Hunk.range]
  split_ifs with hone hzero
  · subst hone
    simp [range?, hblank]
  · subst hzero
    have hnone : number? ('0' :: ' ' :: rest) = some (0, ' ' :: rest) := hblank 0
    simp [range?, hcomma, hnone]
  · simp [range?, hcomma, hblank, hzero]

theorem toList_header (p : Passage) : p.header.toList =
    "@@ -".toList ++ (p.old.text.toList ++ (" +".toList ++ (p.new.text.toList ++ " @@\n".toList))) := by
  simp only [Passage.header, String.toList_append, List.append_assoc]

theorem ranges?_header (p : Passage) : ranges? p.header.toList = some (p.old, p.new) := by
  have hnew : range? (p.new.text.toList ++ " @@\n".toList) = some (p.new, " @@\n".toList) := range?_append p.new _
  have hold : range? (p.old.text.toList ++ (" +".toList ++ (p.new.text.toList ++ " @@\n".toList))) =
      some (p.old, " +".toList ++ (p.new.text.toList ++ " @@\n".toList)) := range?_append p.old _
  rw [toList_header, ranges?]
  simp only [List.dropPrefix?_append_of_beq, BEq.rfl, hold, hnew, Option.bind_eq_bind, Option.bind_some, if_true]

theorem tail?_line {l : Line} (h : Ended l.text.toList ∨ Unbroken l.text.toList) {rest : List (List Char)}
    {ls : List Line} {ps : List Passage} (hrest : tail? rest = some ⟨false, ls, ps⟩) :
    tail? (l.spelling ++ rest) = some ⟨false, l :: ls, ps⟩ := by
  have hread (tail : Tail) (text : List Char) : tail.read? (l.mark.char :: text) =
      some { tail with
        bare := false, lines := ⟨l.mark, .ofList (if tail.bare then text.dropLast else text)⟩ :: tail.lines } := by
    cases hmark : l.mark <;> rfl
  rw [Line.spelling]
  rcases h with h | h
  · rw [if_pos (endsLine_ended h)]
    simp [tail?, hrest, hread]
  · rw [if_neg (by simp [endsLine_unbroken h])]
    have hno : Tail.read? noEnd.toList ⟨false, ls, ps⟩ = some ⟨true, ls, ps⟩ := rfl
    simp [tail?, hrest, hread, hno]

theorem tail?_lines {ls : List Line} (h : ∀ l ∈ ls, Ended l.text.toList ∨ Unbroken l.text.toList)
    {rest : List (List Char)} {ps : List Passage} (hrest : tail? rest = some ⟨false, [], ps⟩) :
    tail? (ls.flatMap Line.spelling ++ rest) = some ⟨false, ls, ps⟩ := by
  induction ls with
  | nil => exact hrest
  | cons l ls ih =>
    obtain ⟨hl, hls⟩ := List.forall_mem_cons.mp h
    rw [List.flatMap_cons, List.append_assoc]
    exact tail?_line hl (ih hls)

theorem tail?_passages {ps : List Passage} (hne : ∀ p ∈ ps, p.lines ≠ [])
    (h : ∀ p ∈ ps, ∀ l ∈ p.lines, Ended l.text.toList ∨ Unbroken l.text.toList) :
    tail? (ps.flatMap Passage.spelling) = some ⟨false, [], ps⟩ := by
  induction ps with
  | nil => rfl
  | cons p ps ih =>
    obtain ⟨hp, hps⟩ := List.forall_mem_cons.mp hne
    obtain ⟨hl, hls⟩ := List.forall_mem_cons.mp h
    have hheader : Tail.read? p.header.toList ⟨false, p.lines, ps⟩ = some ⟨false, [], p :: ps⟩ := by
      obtain ⟨rest, hrest⟩ : ∃ rest, p.header.toList = '@' :: rest := ⟨_, toList_header p⟩
      have hranges := ranges?_header p
      rw [hrest] at hranges ⊢
      simp [Tail.read?, hranges, hp]
    rw [List.flatMap_cons, Passage.spelling, List.cons_append, tail?, tail?_lines hl (ih hps hls)]
    exact hheader

theorem label?_line (before label : String) :
    label? before (before.toList ++ label.toList ++ ['\n']) = some label := by
  rw [label?, List.append_assoc, List.dropPrefix?_append_of_beq _ BEq.rfl]
  simp

theorem unbroken_digits (n : Nat) : Unbroken (Nat.toDigits 10 n) := by
  have hdigit {c : Char} (hc : c ∈ Nat.toDigits 10 n) : c.isDigit = true :=
    Nat.isDigit_of_mem_toDigits (by decide) (by decide) hc
  constructor <;> intro hc <;> exact absurd (hdigit hc) (by decide)

theorem unbroken_range (r : Range) : Unbroken r.text.toList := by
  have hcomma : Unbroken [','] := ⟨by decide, by decide⟩
  have hzero : Unbroken [',', '0'] := ⟨by decide, by decide⟩
  rw [Range.text, Hunk.range]
  split_ifs
  · simpa using unbroken_digits (r.first + 1)
  · simpa using unbroken_append.mpr ⟨unbroken_digits r.first, hzero⟩
  · simpa using unbroken_append.mpr ⟨unbroken_append.mpr ⟨unbroken_digits (r.first + 1), hcomma⟩,
      unbroken_digits r.length⟩

theorem ended_header (p : Passage) : Ended p.header.toList := by
  have hopen : Unbroken "@@ -".toList := ⟨by decide, by decide⟩
  have hplus : Unbroken " +".toList := ⟨by decide, by decide⟩
  have hclose : Unbroken " @@".toList := ⟨by decide, by decide⟩
  have hline : " @@\n".toList = " @@".toList ++ ['\n'] := rfl
  rw [toList_header, hline]
  simp only [← List.append_assoc]
  apply Ended.feed
  simp only [unbroken_append]
  exact ⟨⟨⟨⟨hopen, unbroken_range p.old⟩, hplus⟩, unbroken_range p.new⟩, hclose⟩

theorem ended_line {l : Line} (h : Ended l.text.toList ∨ Unbroken l.text.toList) : ∀ cs ∈ l.spelling, Ended cs := by
  have hmark : l.mark.char ≠ '\n' ∧ l.mark.char ≠ '\r' := by
    cases l.mark <;> decide
  rw [Line.spelling]
  rcases h with h | h
  · rw [if_pos (endsLine_ended h)]
    exact List.forall_mem_singleton.mpr (h.cons hmark)
  · have hno : Ended noEnd.toList := @Ended.feed "\\ No newline at end of file".toList ⟨by decide, by decide⟩
    rw [if_neg (by simp [endsLine_unbroken h])]
    exact List.forall_mem_cons.mpr ⟨(Ended.feed h).cons hmark, List.forall_mem_singleton.mpr hno⟩

theorem ended_passage {p : Passage} (h : ∀ l ∈ p.lines, Ended l.text.toList ∨ Unbroken l.text.toList) :
    ∀ cs ∈ p.spelling, Ended cs := by
  refine List.forall_mem_cons.mpr ⟨ended_header p, ?_⟩
  intro cs hcs
  obtain ⟨l, hl, hcs⟩ := List.mem_flatMap.mp hcs
  exact ended_line (h l hl) cs hcs

theorem ended_label {before : String} {label : String} (hbefore : Unbroken before.toList) (h : Unbroken label.toList) :
    Ended (before.toList ++ label.toList ++ ['\n']) :=
  .feed (unbroken_append.mpr ⟨hbefore, h⟩)

theorem Diff.read?_spelling {d : Diff} (hold : Unbroken d.oldLabel.toList) (hnew : Unbroken d.newLabel.toList)
    (hne : ∀ p ∈ d.passages, p.lines ≠ [])
    (h : ∀ p ∈ d.passages, ∀ l ∈ p.lines, Ended l.text.toList ∨ Unbroken l.text.toList) :
    Diff.read? (.ofList d.spelling.flatten) = some d := by
  have hended : ∀ cs ∈ d.spelling, Ended cs := by
    refine List.forall_mem_cons.mpr ⟨ended_label ⟨by decide, by decide⟩ hold, ?_⟩
    refine List.forall_mem_cons.mpr ⟨ended_label ⟨by decide, by decide⟩ hnew, ?_⟩
    intro cs hcs
    obtain ⟨p, hp, hcs⟩ := List.mem_flatMap.mp hcs
    exact ended_passage (h p hp) cs hcs
  rw [Diff.read?, String.toList_ofList, splitLines_flatten hended, Diff.spelling]
  simp only [label?_line, tail?_passages hne h]

def oldTexts (ls : List Line) : List String := (ls.filter (·.mark ≠ .added)).map Line.text

def newTexts (ls : List Line) : List String := (ls.filter (·.mark ≠ .removed)).map Line.text

theorem oldTexts_append (ls ms : List Line) : oldTexts (ls ++ ms) = oldTexts ls ++ oldTexts ms := by
  simp only [oldTexts, List.filter_append, List.map_append]

theorem newTexts_append (ls ms : List Line) : newTexts (ls ++ ms) = newTexts ls ++ newTexts ms := by
  simp only [newTexts, List.filter_append, List.map_append]

theorem oldTexts_map (m : Mark) (texts : List String) :
    oldTexts (texts.map (Line.mk m)) = if m = .added then [] else texts := by
  induction texts with
  | nil => simp [oldTexts]
  | cons text texts ih => cases m <;> simp_all [oldTexts]

theorem newTexts_map (m : Mark) (texts : List String) :
    newTexts (texts.map (Line.mk m)) = if m = .removed then [] else texts := by
  induction texts with
  | nil => simp [newTexts]
  | cons text texts ih => cases m <;> simp_all [newTexts]

def edge (marks : List Mark) : List Mark := marks.takeWhile (· ≠ .kept)

def Shows (m : Mark) (marks : List Mark) : Prop := edge marks = [] ∨ m ∈ edge marks

def Passage.marks (x : Passage) : List Mark := x.lines.map Line.mark

end Patch
end BuildSync
