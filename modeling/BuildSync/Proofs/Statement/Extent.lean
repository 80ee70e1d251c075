import BuildSync.Statement.OfTokens
import Mathlib.Data.List.TakeWhile

namespace BuildSync

namespace Token

def Outer (ts : List Token) : Prop := ∀ held, indented held ts = []

theorem outer_filler {t : Token} {ts : List Token} (ht : t.isFiller = true) (h : Outer ts) :
    Outer (t :: ts) := by
  intro held
  rw [indented, if_pos ht]
  exact h _

theorem outer_first {t : Token} (ht : t.isFiller = false) (h : t.kind = .endOfText ∨ t.start.column = 0)
    (ts : List Token) : Outer (t :: ts) := by
  intro held
  rw [indented, if_neg (by simp [ht]), if_pos h]

theorem isFiller_of_newline {t : Token} (h : t.kind = .newline) : t.isFiller = true := by
  simp [isFiller, h]

theorem isFiller_eq_false {t : Token} (hnewline : t.kind ≠ .newline) (hcomment : t.kind ≠ .comment) :
    t.isFiller = false := by
  simp [isFiller, isComment, hnewline, hcomment]

theorem isCode_of_newline {t : Token} (h : t.kind = .newline) : t.isCode = false := by
  simp [isCode, endsLine, h]

inductive Block : List Token → Prop
  | nil : Block []
  | line {n t : Token} {held line more : List Token} (hn : n.kind = .newline)
    (hheld : ∀ u ∈ held, u.isFiller = true) (ht : t.isFiller = false)
    (hplace : ¬ (t.kind = .endOfText ∨ t.start.column = 0)) (hline : ∀ u ∈ line, u.isCode = true)
    (hmore : Block more) : Block (n :: held ++ t :: (line ++ more))

theorem Block.head {ts : List Token} (h : Block ts) : ∀ t ∈ ts.head?, t.kind = .newline := by
  cases h with
  | nil => nofun
  | line hn => rintro _ ⟨⟩; exact hn

theorem Block.head_append {ts : List Token} {n : Token} (h : Block ts) (hn : n.kind = .newline) (rest : List Token) :
    ∃ t us, ts ++ n :: rest = t :: us ∧ t.kind = .newline := by
  cases ts with
  | nil => exact ⟨n, rest, rfl, hn⟩
  | cons t ts => exact ⟨t, _, rfl, h.head t rfl⟩

theorem indented_append {held : List Token} (h : ∀ u ∈ held, u.isFiller = true) (before ts : List Token) :
    indented before (held ++ ts) = indented (before ++ held) ts := by
  induction held generalizing before with
  | nil => simp
  | cons u held ih =>
    obtain ⟨hu, hheld⟩ := List.forall_mem_cons.mp h
    rw [List.cons_append, indented, if_pos hu, ih hheld, List.append_assoc, List.singleton_append]

theorem indentedLine_append {line : List Token} (h : ∀ u ∈ line, u.isCode = true) (ts : List Token) :
    indentedLine (line ++ ts) = line ++ indentedLine ts := by
  induction line with
  | nil => rfl
  | cons u line ih =>
    obtain ⟨hu, hline⟩ := List.forall_mem_cons.mp h
    simp only [isCode, endsLine, Bool.not_eq_true', Bool.or_eq_false_iff, beq_eq_false_iff_ne] at hu
    rw [List.cons_append, indentedLine, if_neg hu.1, if_neg hu.2, ih hline, List.cons_append]

theorem indentedLine_newline {t : Token} (h : t.kind = .newline) (ts : List Token) :
    indentedLine (t :: ts) = indented [] (t :: ts) := by
  rw [indentedLine, if_pos h, indented, if_pos (isFiller_of_newline h)]
  rfl

theorem Block.indented {ts rest : List Token} {n : Token} (h : Block ts) (hn : n.kind = .newline)
    (hrest : Outer rest) : Token.indented [] (ts ++ n :: rest) = ts := by
  induction h with
  | nil => exact outer_filler (isFiller_of_newline hn) hrest []
  | @line m t held line more hm hheld ht hplace hline hmore ih =>
    obtain ⟨u, us, hu, hnewline⟩ := hmore.head_append hn rest
    have hfillers : ∀ u ∈ m :: held, u.isFiller = true :=
      List.forall_mem_cons.mpr ⟨isFiller_of_newline hm, hheld⟩
    rw [List.append_assoc, indented_append hfillers, List.nil_append, List.cons_append,
      List.append_assoc, Token.indented, if_neg (by simp [ht]), if_neg hplace, indentedLine_append hline]
    rw [hu] at ih ⊢
    rw [indentedLine_newline hnewline, ih]

def Ends (ts : List Token) : Prop := ∀ t ∈ ts.head?, t.endsLine = true

theorem Ends.cons {t : Token} {ts : List Token} (h : t.endsLine = true) : Ends (t :: ts) := by
  rintro _ ⟨⟩
  exact h

theorem block_indented (ts : List Token) :
    (∀ n held, n.kind = .newline → (∀ u ∈ held, u.isFiller = true) →
      ∃ rest, n :: held ++ ts = indented (n :: held) ts ++ rest ∧ Block (indented (n :: held) ts) ∧ Ends rest) ∧
    ∃ line more rest, ts = line ++ more ++ rest ∧ indentedLine ts = line ++ more ∧
      (∀ u ∈ line, u.isCode = true) ∧ Block more ∧ Ends rest := by
  induction ts with
  | nil =>
    exact ⟨fun n held hn _ => ⟨n :: held, by simp [indented], .nil, .cons (by simp [endsLine, hn])⟩,
      [], [], [], rfl, rfl, nofun, .nil, nofun⟩
  | cons t ts ih =>
    obtain ⟨ihBlock, ihLine⟩ := ih
    constructor
    · intro n held hn hheld
      rw [indented]
      split_ifs with hfiller hplace
      · obtain ⟨rest, hts, hblock, hends⟩ := ihBlock n (held ++ [t]) hn
          (by simpa [or_imp, forall_and, hfiller] using hheld)
        exact ⟨rest, by simpa using hts, hblock, hends⟩
      · exact ⟨n :: held ++ t :: ts, rfl, .nil, .cons (by simp [endsLine, hn])⟩
      · obtain ⟨line, more, rest, hts, hline, hcode, hblock, hends⟩ := ihLine
        rw [hline]
        refine ⟨rest, by simp [hts], .line hn hheld (by simpa using hfiller) hplace hcode hblock, hends⟩
    · rw [indentedLine]
      split_ifs with hnewline hend
      · obtain ⟨rest, hts, hblock, hends⟩ := ihBlock t [] hnewline nofun
        exact ⟨[], _, rest, hts, rfl, nofun, hblock, hends⟩
      · exact ⟨[], [], t :: ts, rfl, rfl, nofun, .nil, .cons (by simp [endsLine, hend])⟩
      · obtain ⟨line, more, rest, hts, hline, hcode, hblock, hends⟩ := ihLine
        refine ⟨t :: line, more, rest, by simp [hts], by simp [hline], ?_, hblock, hends⟩
        exact List.forall_mem_cons.mpr ⟨by simp [isCode, endsLine, hnewline, hend], hcode⟩

inductive Extends (t : Token) : List Token → Prop
  | intro {line more : List Token} (hline : ∀ u ∈ line, u.isCode = true) (hmore : Block more)
    (hopens : opensBlock (t :: line) = false → more = []) : Extends t (line ++ more)

theorem extent_append {t n : Token} {ts rest : List Token} (h : Extends t ts) (hn : n.kind = .newline)
    (hrest : Outer rest) : extent t (ts ++ n :: rest) = ts := by
  obtain @⟨line, more, hline, hmore, hopens⟩ := h
  obtain ⟨u, us, hu, hnewline⟩ := hmore.head_append hn rest
  have htake : (line ++ more ++ n :: rest).takeWhile isCode = line := by
    rw [List.append_assoc, hu, List.takeWhile_append_of_pos hline,
      List.takeWhile_cons_of_neg (by simp [isCode_of_newline hnewline]), List.append_nil]
  unfold extent
  rw [htake]
  dsimp only
  split_ifs with hopen
  · rw [List.append_assoc, List.drop_left, hmore.indented hn hrest]
  · rw [hopens (by simpa using hopen), List.append_nil]

theorem ends_dropWhile (ts : List Token) : Ends (ts.dropWhile isCode) := by
  intro t ht
  have := List.head?_dropWhile_not isCode ts
  rw [Option.mem_def.mp ht] at this
  simpa [isCode] using this

theorem drop_takeWhile (ts : List Token) : ts.drop (ts.takeWhile isCode).length = ts.dropWhile isCode :=
  calc ts.drop (ts.takeWhile isCode).length
      = (ts.takeWhile isCode ++ ts.dropWhile isCode).drop (ts.takeWhile isCode).length := by
        rw [List.takeWhile_append_dropWhile]
    _ = ts.dropWhile isCode := List.drop_left

theorem block_of_ends {ts : List Token} (h : Ends ts) :
    ∃ rest, ts = indented [] ts ++ rest ∧ Block (indented [] ts) ∧ Ends rest := by
  cases ts with
  | nil => exact ⟨[], rfl, .nil, nofun⟩
  | cons t ts =>
    have ht := h t rfl
    simp only [endsLine, Bool.or_eq_true, beq_iff_eq] at ht
    rcases ht with ht | ht
    · rw [indented, if_pos (isFiller_of_newline ht)]
      exact (block_indented ts).1 t [] ht nofun
    · rw [outer_first (by simp [isFiller, isComment, ht]) (.inl ht)]
      exact ⟨t :: ts, rfl, .nil, h⟩

theorem extends_extent (t : Token) (ts : List Token) :
    ∃ rest, ts = extent t ts ++ rest ∧ Extends t (extent t ts) ∧ Ends rest := by
  have hline : ∀ u ∈ ts.takeWhile isCode, u.isCode = true := List.all_eq_true.mp List.all_takeWhile
  have hts := (List.takeWhile_append_dropWhile (p := isCode) (l := ts)).symm
  unfold extent
  dsimp only
  rw [drop_takeWhile]
  split_ifs with hopen
  · obtain ⟨rest, hrest, hblock, hends⟩ := block_of_ends (ends_dropWhile ts)
    exact ⟨rest, by rw [List.append_assoc, ← hrest, ← hts], .intro hline hblock (by simp [hopen]), hends⟩
  · exact ⟨ts.dropWhile isCode, hts, by simpa using Extends.intro hline .nil fun _ => rfl, ends_dropWhile ts⟩

end Token
end BuildSync
