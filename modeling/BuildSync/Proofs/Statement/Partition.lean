import BuildSync.Proofs.Statement.Indices
import Mathlib.Data.List.Chain
import Mathlib.Data.List.TakeWhile
import Mathlib.Tactic.Common

/-!
How the tokens of a file fall to its statements. A walk over the tokens holds the comment lines back until it meets
a blank line or a statement.
-/

namespace BuildSync

namespace Token

variable {t n : Token} {ts back line above held xs mid : List Token}

def Close (ts : List Token) : Prop := ts.IsChain fun t u => ¬ (t.kind = .newline ∧ u.kind = .newline)

def Dedents (ts : List Token) : Prop :=
  ∃ held after, ts = held ++ after ∧ (∀ u ∈ held, u.isFiller = true) ∧
    ∀ t ∈ after.head?, t.isFiller = false ∧ (t.kind = .endOfText ∨ t.start.column = 0)

/-- The tokens of one statement, in front of `back`: a line, and under one that ends in a colon the indented lines. -/
inductive Fills (back : List Token) : List Token → Prop
  | line {t : Token} {line : List Token} (ht : t.isFiller = false) (hline : ∀ u ∈ t :: line, u.isCode = true)
    (hopens : opensBlock (t :: line) = false) (hends : Ends back) : Fills back (t :: line)
  | block {t : Token} {line more : List Token} (ht : t.isFiller = false) (hline : ∀ u ∈ t :: line, u.isCode = true)
    (hopens : opensBlock (t :: line) = true) (hmore : Block more) (hends : Ends back) (hdedents : Dedents back) :
    Fills back (t :: line ++ more)

theorem dedents_indented (ts : List Token) (hends : Ends ts) :
    ∃ rest, ts = indented [] ts ++ rest ∧ Dedents rest := by
  induction hn : ts.length using Nat.strong_induction_on generalizing ts with
  | _ n ih =>
    subst hn
    have hheld : ∀ u ∈ ts.takeWhile isFiller, u.isFiller = true := List.all_eq_true.mp List.all_takeWhile
    have hsplit := List.takeWhile_append_dropWhile (p := isFiller) (l := ts)
    have hfirst := List.head?_dropWhile_not isFiller ts
    generalize ts.takeWhile isFiller = held at hheld hsplit
    generalize ts.dropWhile isFiller = after at hsplit hfirst
    subst hsplit
    cases after with
    | nil => exact ⟨held ++ [], by rw [indented_append hheld]; rfl, held, [], rfl, hheld, nofun⟩
    | cons t more =>
      have ht : t.isFiller = false := by simpa using hfirst
      by_cases hplace : t.kind = .endOfText ∨ t.start.column = 0
      · refine ⟨held ++ t :: more, ?_, held, t :: more, rfl, hheld, ?_⟩
        · rw [Splitter.indented_outer hheld ht hplace]
          rfl
        rintro _ ⟨⟩
        exact ⟨ht, hplace⟩
      · have hline : ∀ u ∈ more.takeWhile isCode, u.isCode = true := List.all_eq_true.mp List.all_takeWhile
        have hmore := List.takeWhile_append_dropWhile (p := isCode) (l := more)
        have htail := ends_dropWhile more
        generalize more.takeWhile isCode = line at hline hmore
        generalize more.dropWhile isCode = tail at hmore htail
        subst hmore
        obtain ⟨rest, htail', hdedents⟩ := ih tail.length (by simp; omega) tail htail rfl
        have hblock := Splitter.indented_line hheld ht hplace hline htail
        rw [List.append_assoc, List.cons_append] at hblock
        refine ⟨rest, ?_, hdedents⟩
        rw [hblock, List.append_assoc, ← htail', List.append_assoc, List.cons_append]

theorem fills_extent (ht : t.isFiller = false) (hk : t.kind ≠ .endOfText) (rest : List Token) :
    ∃ back, rest = extent t rest ++ back ∧ Fills back (t :: extent t rest) := by
  have hcode : ∀ u ∈ t :: rest.takeWhile isCode, u.isCode = true :=
    List.forall_mem_cons.mpr ⟨isCode_of_first ht hk, List.all_eq_true.mp List.all_takeWhile⟩
  have hrest := (List.takeWhile_append_dropWhile (p := isCode) (l := rest)).symm
  have hends := ends_dropWhile rest
  unfold extent
  dsimp only
  rw [drop_takeWhile]
  split_ifs with hopens
  · obtain ⟨back, hback, hblock, hends'⟩ := block_of_ends hends
    obtain ⟨back', hback', hdedents⟩ := dedents_indented _ hends
    obtain rfl : back = back' := List.append_cancel_left (hback.symm.trans hback')
    exact ⟨back, by rw [List.append_assoc, ← hback, ← hrest], .block ht hcode hopens hblock hends' hdedents⟩
  · exact ⟨rest.dropWhile isCode, hrest, .line ht hcode (by simpa using hopens) hends⟩

/-- A comment among the tokens above a statement is held for it if no blank line comes between. -/
def Attached (above held : List Token) : Prop :=
  ∀ xs c mid, above = xs ++ c :: mid → c.isComment = true →
    ((∃ before, held = before ++ c :: mid.filter isCode) ↔ Close mid)

theorem isCode_of_comment (h : t.isComment = true) : t.isCode = true := by
  simp only [isComment, beq_iff_eq] at h
  simp [isCode, endsLine, h]

theorem close_concat {ts : List Token} {u : Token} :
    Close (ts ++ [u]) ↔ Close ts ∧ ∀ t ∈ ts.getLast?, ¬ (t.kind = .newline ∧ u.kind = .newline) := by
  simp [Close, List.isChain_append]

theorem concat_eq_append_cons {c u : Token} (h : above ++ [u] = xs ++ c :: mid) :
    above = xs ∧ c = u ∧ mid = [] ∨ ∃ mid', mid = mid' ++ [u] ∧ above = xs ++ c :: mid' := by
  rcases List.eq_nil_or_concat' mid with rfl | ⟨mid', v, rfl⟩
  · obtain ⟨rfl, hc⟩ := List.append_inj' h rfl
    exact .inl ⟨rfl, (List.cons.inj hc).1.symm, rfl⟩
  · rw [← List.cons_append, ← List.append_assoc] at h
    obtain ⟨rfl, hv⟩ := List.append_inj' h rfl
    obtain rfl := (List.cons.inj hv).1
    exact .inr ⟨mid', rfl, rfl⟩

theorem Attached.comment (h : Attached above held) (ht : t.isComment = true) :
    Attached (above ++ [t]) (held ++ [t]) := by
  have hnot : t.kind ≠ .newline := by
    simp only [isComment, beq_iff_eq] at ht
    simp [ht]
  intro xs c mid hsplit hc
  rcases concat_eq_append_cons hsplit with ⟨rfl, rfl, rfl⟩ | ⟨mid, rfl, rfl⟩
  · exact iff_of_true ⟨held, rfl⟩ .nil
  · have hclose : Close (mid ++ [t]) ↔ Close mid := by simp [close_concat, hnot]
    rw [hclose, ← h xs c mid rfl hc, List.filter_append, List.filter_cons_of_pos (isCode_of_comment ht),
      List.filter_nil]
    refine exists_congr fun before => ⟨fun heq => ?_, fun heq => by rw [heq]; simp⟩
    exact (List.append_inj' (by rw [heq]; simp) rfl).1

theorem filter_newline (hn : n.kind = .newline) (ts : List Token) : (ts ++ [n]).filter isCode = ts.filter isCode := by
  simp [isCode_of_newline hn]

theorem Attached.newline (h : Attached above held) (hn : n.kind = .newline)
    (hlast : above.getLast?.any (·.kind == .newline) = false) : Attached (above ++ [n]) held := by
  intro xs c mid hsplit hc
  rcases concat_eq_append_cons hsplit with ⟨rfl, rfl, rfl⟩ | ⟨mid, rfl, rfl⟩
  · simp [isComment, hn] at hc
  · have hclose : Close (mid ++ [n]) ↔ Close mid := by
      rw [close_concat, and_iff_left]
      rintro t ht ⟨hnewline, -⟩
      rw [List.getLast?_append_of_ne_nil _ (List.cons_ne_nil _ _), List.getLast?_cons, Option.mem_def.mp ht] at hlast
      simp [hnewline] at hlast
    rw [hclose, filter_newline hn, h xs c mid rfl hc]

theorem attached_blank (hn : n.kind = .newline) (hlast : above.getLast?.any (·.kind == .newline) = true) :
    Attached (above ++ [n]) [] := by
  intro xs c mid hsplit hc
  refine iff_of_false (by simp) fun hclose => ?_
  rcases concat_eq_append_cons hsplit with ⟨rfl, rfl, rfl⟩ | ⟨mid, rfl, rfl⟩
  · simp [isComment, hn] at hc
  · rw [List.getLast?_append_of_ne_nil _ (List.cons_ne_nil _ _), List.getLast?_cons] at hlast
    rcases List.eq_nil_or_concat' mid with rfl | ⟨mid, m, rfl⟩
    · simp only [isComment, beq_iff_eq] at hc
      simp [hc] at hlast
    · have hm : m.kind = .newline := by simpa using hlast
      exact (close_concat.mp hclose).2 m (by simp) ⟨hm, hn⟩

end Token

namespace Statement

open Token

/-- What one statement is made of: comment lines that stand alone, or the tokens of a statement, with all tokens
above it since the one before and with the comment lines among them that belong to it. -/
inductive Part where
  | comment (lines : List Token)
  | code (above comments own : List Token)

namespace Part

def statement : Part → Statement
  | comment lines => .comment (lines.map Token.text)
  | code _ comments own => ofExtent (comments.map Token.text) own

def comments : Part → List Token
  | comment lines => lines
  | code _ comments _ => comments

def own : Part → List Token
  | comment _ => []
  | code _ _ own => own

def tokens (p : Part) : List Token := p.comments ++ p.own

def range : Part → List Token
  | comment _ => []
  | code above _ own => above ++ own

def standalone (lines : List Token) : List Part := if lines.isEmpty then [] else [comment lines]

theorem map_standalone (lines : List Token) :
    (standalone lines).map statement = Statement.standalone (lines.map Token.text) := by
  cases lines <;> rfl

theorem tokens_standalone (lines : List Token) : (standalone lines).flatMap tokens = lines := by
  cases lines <;> simp [standalone, tokens, comments, own]

theorem mem_standalone {p : Part} {lines : List Token} (h : p ∈ standalone lines) : p = comment lines := by
  unfold standalone at h
  split_ifs at h
  · cases h
  · exact List.mem_singleton.mp h

theorem range_standalone (lines : List Token) : (standalone lines).flatMap range = [] := by
  cases lines <;> rfl

end Part

/-- How far the walk has come: the statements behind it, the tokens `above` the next one that it has passed, the
comment lines it holds, and the tokens ahead. -/
structure Walk where
  parts : List Part
  above : List Token
  held : List Token
  rest : List Token

namespace Walk

def start (ts : List Token) : Walk := ⟨[], [], [], ts⟩

def newline (w : Walk) : Bool := w.above.getLast?.any (·.kind == .newline)

def turn (w : Walk) : Option Walk :=
  match w.rest with
  | [] => none
  | t :: rest =>
    match t.kind with
    | .endOfText => none
    | .newline =>
      if w.newline then some ⟨w.parts ++ Part.standalone w.held, w.above ++ [t], [], rest⟩
      else some ⟨w.parts, w.above ++ [t], w.held, rest⟩
    | .comment => some ⟨w.parts, w.above ++ [t], w.held ++ [t], rest⟩
    | _ =>
      let extent := Token.extent t rest
      some ⟨w.parts ++ [.code w.above w.held (t :: extent)], [], [], rest.drop extent.length⟩

def run (w : Walk) : Nat → Walk
  | 0 => w
  | n + 1 =>
    match w.turn with
    | none => w
    | some w => w.run n

def finish (w : Walk) : List Part := w.parts ++ Part.standalone w.held

inductive Turns (w : Walk) : Walk → Prop
  | blank {n : Token} {rest : List Token} (hrest : w.rest = n :: rest) (hn : n.kind = .newline)
    (hnewline : w.newline = true) :
    Turns w ⟨w.parts ++ Part.standalone w.held, w.above ++ [n], [], rest⟩
  | newline {n : Token} {rest : List Token} (hrest : w.rest = n :: rest) (hn : n.kind = .newline)
    (hnewline : w.newline = false) : Turns w ⟨w.parts, w.above ++ [n], w.held, rest⟩
  | comment {c : Token} {rest : List Token} (hrest : w.rest = c :: rest) (hc : c.isComment = true) :
    Turns w ⟨w.parts, w.above ++ [c], w.held ++ [c], rest⟩
  | code {t : Token} {rest : List Token} (hrest : w.rest = t :: rest) (ht : t.isFiller = false)
    (hk : t.kind ≠ .endOfText) :
    Turns w ⟨w.parts ++ [.code w.above w.held (t :: extent t rest)], [], [], rest.drop (extent t rest).length⟩

theorem turns_of_turn {w v : Walk} (h : w.turn = some v) : w.Turns v := by
  unfold turn at h
  split at h
  · cases h
  · rename_i t rest hrest
    split at h
    · cases h
    · rename_i hn
      split_ifs at h with hnewline <;> cases h
      · exact .blank hrest hn hnewline
      · exact .newline hrest hn (by simpa using hnewline)
    · rename_i hc
      cases h
      exact .comment hrest (by simp [Token.isComment, hc])
    · rename_i hend hn hc
      cases h
      exact .code hrest (Token.isFiller_eq_false hn hc) hend

def Lies (ts : List Token) (parts : List Part) : Prop :=
  ∀ before above comments own after, parts = before ++ .code above comments own :: after →
    ∃ back, ts = before.flatMap Part.range ++ above ++ own ++ back ∧ (∀ t ∈ above, t.isFiller = true) ∧
      Attached above comments ∧ Fills back own

structure Inv (ts : List Token) (w : Walk) : Prop where
  range : ts = w.parts.flatMap Part.range ++ w.above ++ w.rest
  fillers : ∀ t ∈ w.above, t.isFiller = true
  held : ∀ t ∈ w.held, t.isComment = true
  comments : ∀ p ∈ w.parts, ∀ t ∈ p.comments, t.isComment = true
  attached : Attached w.above w.held
  lies : Lies ts w.parts
  tokens : (w.parts.flatMap Part.tokens ++ w.held).filter isCode =
    (w.parts.flatMap Part.range ++ w.above).filter isCode
  statements : w.parts.map Part.statement ++ ofTokensAfter (w.held.map Token.text) w.newline w.rest = ofTokens ts

variable {source : String} {ts : List Token} {w v : Walk}

theorem lies_concat_standalone (h : Lies ts w.parts) (lines : List Token) :
    Lies ts (w.parts ++ Part.standalone lines) := by
  intro before above comments own after hsplit
  unfold Part.standalone at hsplit
  split_ifs at hsplit
  · exact h _ _ _ _ _ (by rw [← hsplit, List.append_nil])
  · rcases List.eq_nil_or_concat' after with rfl | ⟨after, p, rfl⟩
    · cases (List.append_inj' hsplit rfl).2
    · rw [← List.cons_append, ← List.append_assoc] at hsplit
      exact h _ _ _ _ _ (List.append_inj' hsplit rfl).1

theorem Inv.comments_concat_standalone (h : Inv ts w) :
    ∀ p ∈ w.parts ++ Part.standalone w.held, ∀ t ∈ p.comments, t.isComment = true := by
  rw [List.forall_mem_append]
  refine ⟨h.comments, fun p hp => ?_⟩
  rw [Part.mem_standalone hp]
  exact h.held

section

variable {t n c : Token} {rest : List Token}

theorem Inv.blank (h : Inv ts w) (hrest : w.rest = n :: rest) (hn : n.kind = .newline) (hnewline : w.newline = true) :
    Inv ts ⟨w.parts ++ Part.standalone w.held, w.above ++ [n], [], rest⟩ where
  range := by simp [Part.range_standalone, h.range, hrest]
  fillers := by simpa [or_imp, forall_and, isFiller_of_newline hn] using h.fillers
  held := List.forall_mem_nil _
  comments := h.comments_concat_standalone
  attached := attached_blank hn hnewline
  lies := lies_concat_standalone h.lies _
  tokens := by
    simp only [List.flatMap_append, Part.tokens_standalone, Part.range_standalone, List.append_nil]
    rw [← List.append_assoc, filter_newline hn, h.tokens]
  statements := by
    have hstatements := h.statements
    rw [hrest, ofTokensAfter_newline hn, if_pos hnewline] at hstatements
    rw [← hstatements, Walk.newline, List.getLast?_concat, Option.any_some, hn]
    simp [Part.map_standalone]

theorem Inv.newline (h : Inv ts w) (hrest : w.rest = n :: rest) (hn : n.kind = .newline)
    (hnewline : w.newline = false) : Inv ts ⟨w.parts, w.above ++ [n], w.held, rest⟩ where
  range := by simp [h.range, hrest]
  fillers := by simpa [or_imp, forall_and, isFiller_of_newline hn] using h.fillers
  held := h.held
  comments := h.comments
  attached := h.attached.newline hn hnewline
  lies := h.lies
  tokens := by rw [← List.append_assoc, filter_newline hn, h.tokens]
  statements := by
    have hstatements := h.statements
    rw [hrest, ofTokensAfter_newline hn, if_neg (by rw [hnewline]; exact Bool.false_ne_true)] at hstatements
    rw [← hstatements, Walk.newline, List.getLast?_concat, Option.any_some, hn]
    rfl

theorem Inv.comment (h : Inv ts w) (hrest : w.rest = c :: rest) (hc : c.isComment = true) :
    Inv ts ⟨w.parts, w.above ++ [c], w.held ++ [c], rest⟩ where
  range := by simp [h.range, hrest]
  fillers := by
    have hfiller : c.isFiller = true := by simp [isFiller, hc]
    simpa [or_imp, forall_and, hfiller] using h.fillers
  held := by simpa [or_imp, forall_and, hc] using h.held
  comments := h.comments
  attached := h.attached.comment hc
  lies := h.lies
  tokens := by simp only [← List.append_assoc, List.filter_append _ [c], h.tokens]
  statements := by
    have hkind : c.kind = .comment := by simpa [Token.isComment] using hc
    have hstatements := h.statements
    rw [hrest, ofTokensAfter_comment hkind] at hstatements
    rw [← hstatements, Walk.newline, List.getLast?_concat, Option.any_some, hkind, List.map_append]
    rfl

theorem Inv.code (h : Inv ts w) (hrest : w.rest = t :: rest) (ht : t.isFiller = false) (hk : t.kind ≠ .endOfText) :
    Inv ts ⟨w.parts ++ [.code w.above w.held (t :: extent t rest)], [], [], rest.drop (extent t rest).length⟩ := by
  obtain ⟨back, hback, hfills⟩ := fills_extent ht hk rest
  have hdrop : rest.drop (extent t rest).length = back :=
    (congrArg (List.drop (extent t rest).length) hback).trans List.drop_left
  have hts : ts = w.parts.flatMap Part.range ++ w.above ++ (t :: extent t rest) ++ back := by
    rw [h.range, hrest, List.append_assoc _ (t :: _), List.cons_append, ← hback]
  have hstatements := h.statements
  rw [hrest, ofTokensAfter_code ht hk] at hstatements
  refine ⟨?_, List.forall_mem_nil _, List.forall_mem_nil _, ?_, fun xs c mid h => by simp at h, ?_, ?_, ?_⟩
  · simpa [hdrop, Part.range] using hts
  · rw [List.forall_mem_append, List.forall_mem_singleton]
    exact ⟨h.comments, h.held⟩
  · intro before above comments own after hsplit
    rcases List.eq_nil_or_concat' after with rfl | ⟨after, p, rfl⟩
    · obtain ⟨rfl, hlast⟩ := List.append_inj' hsplit rfl
      cases hlast
      exact ⟨back, hts, h.fillers, h.attached, hfills⟩
    · rw [← List.cons_append, ← List.append_assoc] at hsplit
      exact h.lies _ _ _ _ _ (List.append_inj' hsplit rfl).1
  · rw [List.flatMap_append, List.flatMap_append, List.flatMap_singleton, List.flatMap_singleton, List.append_nil,
      List.append_nil, Part.tokens, Part.comments, Part.own, Part.range]
    rw [← List.append_assoc, ← List.append_assoc, List.filter_append _ (t :: _), h.tokens, ← List.filter_append]
  · rw [← hstatements]
    simp [Part.statement, Walk.newline]

end

theorem Inv.turns (h : Inv ts w) (hv : w.Turns v) : Inv ts v := by
  cases hv with
  | blank hrest hn hnewline => exact h.blank hrest hn hnewline
  | newline hrest hn hnewline => exact h.newline hrest hn hnewline
  | comment hrest hc => exact h.comment hrest hc
  | code hrest ht hk => exact h.code hrest ht hk

theorem Inv.run (h : Inv ts w) (n : Nat) : Inv ts (w.run n) := by
  induction n generalizing w with
  | zero => exact h
  | succ n ih =>
    unfold Walk.run
    cases hturn : w.turn with
    | none => exact h
    | some v => exact ih (h.turns (turns_of_turn hturn))

def split (ts : List Token) : List Part := ((start ts).run ts.length).finish

end Walk

end Statement

end BuildSync
