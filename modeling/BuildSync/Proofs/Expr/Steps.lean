import BuildSync.Proofs.Expr.Joined
import BuildSync.Proofs.Expr.Layout

namespace BuildSync

namespace Progress

@[simp] theorem token_kind (p : Progress) (kind : Token.Kind) (text : List Char) :
    (p.token kind text).kind = kind := rfl

@[simp] theorem token_text (p : Progress) (kind : Token.Kind) (text : List Char) :
    (p.token kind text).text = String.ofList text := rfl

@[simp] theorem token_start (p : Progress) (kind : Token.Kind) (text : List Char) :
    (p.token kind text).start = p.place := rfl

theorem tokens_nil (p : Progress) : p.tokens [] = [] := rfl

theorem tokens_of {kind : Token.Kind} (hk : kind ≠ .newline) (p : Progress) (text : String)
    (xs : List Lexeme) :
    p.tokens (.of kind text :: xs) = p.token kind text.toList :: (p.next (.of kind text)).tokens xs := by
  have : p.token? (.of kind text) = some kind := by
    cases kind <;> first | rfl | exact absurd rfl hk
  rw [tokens, next?, this]
  rfl

theorem tokens_opening (p : Progress) (b : Bracket) (xs : List Lexeme) :
    p.tokens (.opening b :: xs) = p.token (.opening b) [b.opening] :: (p.next (.opening b)).tokens xs := rfl

theorem tokens_closing (p : Progress) (b : Bracket) (xs : List Lexeme) :
    p.tokens (.closing b :: xs) = p.token (.closing b) [b.closing] :: (p.next (.closing b)).tokens xs := rfl

theorem tokens_space (p : Progress) (xs : List Lexeme) :
    p.tokens (.space :: xs) = (p.next .space).tokens xs := rfl

theorem tokens_feed {p : Progress} (h : p.pending ≠ []) (xs : List Lexeme) :
    p.tokens (.feed :: xs) = (p.next .feed).tokens xs := by
  have : p.pending.isEmpty = false := by simpa using h
  simp [tokens, next?, token?, Lexeme.feed, this]

theorem brackets_after (p : Progress) {xs : List Lexeme} (h : Lexeme.Balanced xs) :
    (p.after xs).brackets = p.brackets :=
  brackets_after_nest (h _)

theorem pending_ne_nil {p q : Progress} (h : p.brackets = q.brackets) (hq : q.pending ≠ []) :
    p.pending ≠ [] := by
  rintro hp
  rw [brackets, brackets, hp, List.map_nil] at h
  exact hq (List.map_eq_nil_iff.mp h.symm)

theorem Position.line_le_step (p : Position) (c : Char) : p.line ≤ (p.step c).line := by
  unfold Position.step
  split_ifs <;> simp

theorem line_le_past (p : Position) (cs : List Char) : p.line ≤ (p.past cs).line := by
  induction cs generalizing p with
  | nil => exact Nat.le_refl _
  | cons c cs ih => exact (Position.line_le_step p c).trans (ih _)

theorem line_le_next (p : Progress) (x : Lexeme) : p.place.line ≤ (p.next x).place.line :=
  line_le_past p.place x.chars

theorem line_le_of_mem {p : Progress} {xs : List Lexeme} {t : Token} (h : t ∈ p.tokens xs) :
    p.place.line ≤ t.start.line := by
  induction xs generalizing p with
  | nil => cases h
  | cons x xs ih =>
    rw [tokens, List.mem_append] at h
    rcases h with h | h
    · rw [next?, Option.mem_toList, Option.map_eq_some_iff] at h
      obtain ⟨kind, -, rfl⟩ := h
      exact Nat.le_refl _
    · exact (p.line_le_next x).trans (ih h)

end Progress

namespace Reading

theorem bind_done {α β : Type} {r : Reading α} {f : α → Reading β} {c c' : Cursor} {v : α}
    (h : r c = .done v c') : (r >>= f) c = f v c' := by
  change bind r f c = _
  rw [bind, h]

theorem bind_done_iff {α β : Type} {r : Reading α} {f : α → Reading β} {c d : Cursor} {w : β} :
    (r >>= f) c = .done w d ↔ ∃ v e, r c = .done v e ∧ f v e = .done w d := by
  change bind r f c = _ ↔ _
  unfold bind
  cases r c <;> simp

theorem ahead_cons {t : Token} (ht : t.isComment = false) (line : Nat) (rest : List Token) :
    ahead ⟨line, t :: rest⟩ = .done (some t, rest.find? (!·.isComment)) ⟨line, t :: rest⟩ := by
  simp [ahead, ht]

theorem token_cons {t : Token} (ht : t.isComment = false) (line : Nat) (rest : List Token) :
    token ⟨line, t :: rest⟩ = .done t ⟨t.endLine, rest⟩ := by
  simp [token, ht]

theorem token_eq_done {c c' : Cursor} {t : Token} (h : token c = .done t c') :
    c.rest = t :: c'.rest ∧ t.isComment = false ∧ c'.line = t.endLine := by
  obtain ⟨line, rest⟩ := c
  cases rest with
  | nil => cases h
  | cons u rest =>
    unfold token at h
    dsimp only at h
    split_ifs at h with hu
    cases h
    exact ⟨rfl, by simpa using hu, rfl⟩

theorem token?_cons {accept : Token → Bool} {t : Token} (ht : t.isComment = false)
    (ha : accept t = true) (line : Nat) (rest : List Token) :
    token? accept ⟨line, t :: rest⟩ = .done (some t) ⟨t.endLine, rest⟩ := by
  rw [token?, bind_done (ahead_cons ht line rest)]
  simp only [Option.any_some, ha, if_true]
  exact bind_done (f := Pure.pure ∘ some) (token_cons ht line rest)

theorem token?_none {accept : Token → Bool} {rest : List Token}
    (h : ∀ t ∈ rest.head?, t.isComment = false ∧ accept t = false) (line : Nat) :
    token? accept ⟨line, rest⟩ = .done none ⟨line, rest⟩ := by
  cases rest with
  | nil => rfl
  | cons t rest =>
    obtain ⟨ht, ha⟩ := h t rfl
    rw [token?, bind_done (ahead_cons ht line rest)]
    simp only [Option.any_some, ha, Bool.false_eq_true, if_false]
    rfl

theorem expect_cons {accept : Token → Bool} {t : Token} (ht : t.isComment = false)
    (ha : accept t = true) (line : Nat) (rest : List Token) :
    expect accept ⟨line, t :: rest⟩ = .done () ⟨t.endLine, rest⟩ := by
  rw [expect, bind_done (token_cons ht line rest)]
  simp only [ha, if_true]
  rfl

theorem comments_append {remarks rest : List Token} (h : ∀ t ∈ remarks, t.isComment = true)
    (hrest : rest.head?.any Token.isComment = false) (line : Nat) :
    comments ⟨line, remarks ++ rest⟩ = .done (remarks.map Token.text) ⟨line, rest⟩ := by
  have htake : (remarks ++ rest).takeWhile Token.isComment = remarks := by
    rw [List.takeWhile_append_of_pos h]
    cases rest with
    | nil => simp
    | cons t rest =>
      have : t.isComment = false := by simpa using hrest
      simp [this]
  have hdrop : (remarks ++ rest).dropWhile Token.isComment = rest := by
    rw [List.dropWhile_append_of_pos h]
    cases rest with
    | nil => rfl
    | cons t rest =>
      have : t.isComment = false := by simpa using hrest
      simp [this]
  simp only [comments, htake, hdrop]

theorem comments_nil {rest : List Token} (hrest : rest.head?.any Token.isComment = false) (line : Nat) :
    comments ⟨line, rest⟩ = .done [] ⟨line, rest⟩ :=
  @comments_append [] rest nofun hrest line

theorem suffix?_none {line : Nat} {rest : List Token}
    (h : ∀ t ∈ rest.head?, t.isComment = false ∨ t.start.line ≠ line) :
    suffix? ⟨line, rest⟩ = .done none ⟨line, rest⟩ := by
  cases rest with
  | nil => rfl
  | cons t rest =>
    rcases h t rfl with ht | ht <;> simp [suffix?, ht]

theorem suffix?_some {t : Token} (ht : t.isComment = true) (rest : List Token) :
    suffix? ⟨t.start.line, t :: rest⟩ = .done (some t.text) ⟨t.start.line, rest⟩ := by
  simp [suffix?, ht]

theorem suffix?_cases (c : Cursor) : suffix? c = .done none c ∨
    ∃ t rest, c.rest = t :: rest ∧ t.isComment = true ∧ suffix? c = .done (some t.text) ⟨c.line, rest⟩ := by
  obtain ⟨line, ts⟩ := c
  cases ts with
  | nil => exact .inl rfl
  | cons t ts =>
    unfold suffix?
    dsimp only
    split_ifs with ht
    · exact .inr ⟨t, ts, rfl, (Bool.and_eq_true_iff.mp ht).1, rfl⟩
    · exact .inl rfl

end Reading
end BuildSync
