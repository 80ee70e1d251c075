import BuildSync.Proofs.Token.Boundary

namespace BuildSync

namespace Lexeme

def Stands (x : Lexeme) (next : Option Char) : Prop :=
  ∃ c r, x.chars = c :: r ∧ read c (r ++ next.toList) = .ok x

theorem stands_of_read {c : Char} {rest : List Char} {x : Lexeme} (h : read c rest = .ok x) :
    ∃ r tail, x.chars = c :: r ∧ rest = r ++ tail ∧ x.Stands tail.head? := by
  obtain ⟨r, tail, hx, hrest, hall⟩ := read_append h
  exact ⟨r, tail, hx, hrest, c, r, hx, hall _ (.inl (by cases tail <;> rfl))⟩

theorem Stands.read {x : Lexeme} {tail : List Char} (h : x.Stands tail.head?) :
    ∃ c r, x.chars = c :: r ∧ Lexeme.read c (r ++ tail) = .ok x := by
  obtain ⟨c, r, hx, hread⟩ := h
  obtain ⟨r', tail', hx', hsplit, hall⟩ := read_append hread
  obtain rfl : r = r' := by rw [hx] at hx'; exact (List.cons.inj hx').2
  obtain rfl := List.append_cancel_left hsplit
  exact ⟨c, r, hx, hall tail (.inl (by cases tail <;> rfl))⟩

theorem Stands.parted {x : Lexeme} {next next' : Option Char} (h : x.Stands next)
    (hp : parts x.kind next' = true) : x.Stands next' := by
  obtain ⟨c, r, hx, hread⟩ := h
  obtain ⟨r', tail, hx', hsplit, hall⟩ := read_append hread
  obtain rfl : r = r' := by rw [hx] at hx'; exact (List.cons.inj hx').2
  exact ⟨c, r, hx, hall _ (.inr (by cases next' <;> exact hp))⟩

theorem Stands.chars_ne_nil {x : Lexeme} {next : Option Char} (h : x.Stands next) : x.chars ≠ [] := by
  obtain ⟨c, r, hx, -⟩ := h
  simp [hx]

def spelling (xs : List Lexeme) : List Char := xs.flatMap chars

def front (xs : List Lexeme) (next : Option Char) : Option Char := (spelling xs ++ next.toList).head?

def Joined : List Lexeme → Option Char → Prop
  | [], _ => True
  | x :: xs, next => x.Stands (front xs next) ∧ Joined xs next

@[simp] theorem spelling_nil : spelling [] = [] := rfl

@[simp] theorem spelling_cons (x : Lexeme) (xs : List Lexeme) :
    spelling (x :: xs) = x.chars ++ spelling xs := rfl

@[simp] theorem spelling_append (xs ys : List Lexeme) : spelling (xs ++ ys) = spelling xs ++ spelling ys := by
  simp [spelling]

@[simp] theorem front_nil (next : Option Char) : front [] next = next := by
  cases next <;> rfl

theorem front_append (xs ys : List Lexeme) (next : Option Char) :
    front (xs ++ ys) next = front xs (front ys next) := by
  unfold front
  rw [spelling_append, List.append_assoc]
  cases spelling xs with
  | cons c cs => rfl
  | nil => cases spelling ys ++ next.toList <;> rfl

theorem front_head? (xs : List Lexeme) (tail : List Char) :
    front xs tail.head? = (spelling xs ++ tail).head? := by
  unfold front
  cases spelling xs with
  | cons c cs => rfl
  | nil => cases tail <;> rfl

theorem joined_append (xs ys : List Lexeme) (next : Option Char) :
    Joined (xs ++ ys) next ↔ Joined xs (front ys next) ∧ Joined ys next := by
  induction xs with
  | nil => simp [Joined]
  | cons x xs ih => simp only [List.cons_append, Joined, front_append, ih, and_assoc]

def turn (stack : List Bracket) (x : Lexeme) : Option (List Bracket) :=
  match x.kind with
  | some (.opening b) => some (b :: stack)
  | some (.closing b) => if stack.head? = some b then some stack.tail else none
  | _ => some stack

def nest (stack : List Bracket) (xs : List Lexeme) : Option (List Bracket) := xs.foldlM turn stack

theorem Joined.stands {xs : List Lexeme} {next : Option Char} (h : Joined xs next) :
    ∀ x ∈ xs, ∃ next, x.Stands next := by
  induction xs with
  | nil => exact nofun
  | cons x xs ih => exact List.forall_mem_cons.mpr ⟨⟨_, h.1⟩, ih h.2⟩

theorem nest_append (stack : List Bracket) (xs ys : List Lexeme) :
    nest stack (xs ++ ys) = (nest stack xs).bind (nest · ys) :=
  List.foldlM_append

end Lexeme

namespace Progress

def brackets (p : Progress) : List Bracket := p.pending.map Prod.fst

def next (p : Progress) (x : Lexeme) : Progress where
  place := p.place.past x.chars
  gap := if (p.token? x).isSome then x.after else p.gap ++ x.chars
  pending :=
    match x.kind with
    | some (.opening b) => (b, p.place) :: p.pending
    | some (.closing _) => p.pending.tail
    | _ => p.pending

def next? (p : Progress) (x : Lexeme) : Option Token := (p.token? x).map (p.token · x.text)

def tokens (p : Progress) : List Lexeme → List Token
  | [] => []
  | x :: xs => (p.next? x).toList ++ (p.next x).tokens xs

def after (p : Progress) (xs : List Lexeme) : Progress := xs.foldl next p

theorem tokens_append (p : Progress) (xs ys : List Lexeme) :
    p.tokens (xs ++ ys) = p.tokens xs ++ (p.after xs).tokens ys := by
  induction xs generalizing p with
  | nil => rfl
  | cons x xs ih => simp [tokens, ih, after]

theorem after_append (p : Progress) (xs ys : List Lexeme) :
    p.after (xs ++ ys) = (p.after xs).after ys :=
  List.foldl_append

theorem token?_eq_some {p : Progress} {x : Lexeme} {kind : Token.Kind} (h : p.token? x = some kind) :
    x.kind = some kind := by
  unfold token? at h
  split at h
  · rename_i hk
    split_ifs at h
    rw [hk, h]
  · exact h

theorem brackets_next (p : Progress) {x : Lexeme} {stack : List Bracket}
    (h : Lexeme.turn p.brackets x = some stack) : (p.next x).brackets = stack := by
  unfold Lexeme.turn at h
  unfold brackets next at *
  dsimp only
  split at h
  · cases h; rfl
  · split_ifs at h; cases h; simp
  · cases h; rfl

theorem brackets_after_nest {p : Progress} {xs : List Lexeme} {stack : List Bracket}
    (h : Lexeme.nest p.brackets xs = some stack) : (p.after xs).brackets = stack := by
  induction xs generalizing p with
  | nil => exact Option.some.inj h
  | cons x xs ih =>
    rw [Lexeme.nest, List.foldlM_cons] at h
    obtain ⟨st, hst, h⟩ := Option.bind_eq_some_iff.mp h
    apply ih (p := p.next x)
    rw [p.brackets_next hst]
    exact h

theorem next?_eq_some {p : Progress} {x : Lexeme} {t : Token} (h : p.next? x = some t) :
    x.kind = some t.kind ∧ t = p.token t.kind x.text := by
  rw [next?, Option.map_eq_some_iff] at h
  obtain ⟨kind, hk, rfl⟩ := h
  exact ⟨token?_eq_some hk, rfl⟩

theorem pending_of_newline {p : Progress} {x : Lexeme} {t : Token} (h : p.next? x = some t) (ht : t.kind = .newline) :
    p.brackets = [] := by
  have hk := (next?_eq_some h).1
  rw [next?, Option.map_eq_some_iff] at h
  obtain ⟨kind, htoken, rfl⟩ := h
  have : p.pending.isEmpty = true := by
    by_contra hne
    rw [ht] at hk
    simp [token?, hk, hne] at htoken
  rw [brackets, List.isEmpty_iff.mp this, List.map_nil]

theorem past_eq (p : Progress) {x : Lexeme} {stack : List Bracket}
    (h : Lexeme.turn p.brackets x = some stack) : p.past x = .ok (p.next? x, p.next x) := by
  obtain ⟨kind, text, after⟩ := x
  cases kind with
  | none => simp [past, next?, next, token?, Lexeme.chars]
  | some kind =>
    cases kind with
    | newline =>
      cases hp : p.pending.isEmpty <;>
        simp [past, next?, next, token?, hp, Lexeme.chars, nest]
    | closing b =>
      obtain ⟨place, gap, pending⟩ := p
      cases pending with
      | nil => simp [Lexeme.turn, brackets] at h
      | cons top pending =>
        obtain ⟨hb, -⟩ : top.1 = b ∧ _ := by simpa [Lexeme.turn, brackets] using h
        simp [past, next?, next, token?, Lexeme.chars, nest, hb]
    | _ => simp [past, next?, next, token?, Lexeme.chars, nest]

theorem turn_of_past {p : Progress} {x : Lexeme} {r : Option Token × Progress}
    (h : p.past x = .ok r) : ∃ stack, Lexeme.turn p.brackets x = some stack := by
  obtain ⟨kind, text, after⟩ := x
  match kind with
  | some (.closing b) =>
    obtain ⟨place, gap, pending⟩ := p
    cases pending with
    | nil => simp [past, token?, nest] at h
    | cons top pending =>
      have hb : b = top.1 := by
        by_contra hne
        simp [past, token?, nest, hne] at h
      exact ⟨pending.map Prod.fst, by simp [Lexeme.turn, brackets, hb]⟩
  | none | some .ident | some .number | some (.string _) | some .operator | some (.opening _)
  | some .comment | some .newline | some .endOfText => exact ⟨_, rfl⟩

end Progress

namespace Token

open Lexeme

theorem length_sub_one {x : Lexeme} {c : Char} {r : List Char} (h : x.chars = c :: r) :
    x.length - 1 = r.length := by
  have := congrArg List.length h
  simp only [chars, List.length_append, List.length_cons] at this
  simp only [Lexeme.length]
  omega

theorem scan_cons {p : Progress} {x : Lexeme} {tail : List Char} {stack : List Bracket}
    (hx : x.Stands tail.head?) (hn : turn p.brackets x = some stack) :
    scan p (x.chars ++ tail) = (scan (p.next x) tail).map ((p.next? x).toList ++ ·) := by
  obtain ⟨c, r, hc, hread⟩ := hx.read
  have hlen := length_sub_one hc
  rw [hc, List.cons_append, scan, hread]
  dsimp only
  rw [p.past_eq hn, hlen, List.drop_left]
  dsimp only
  cases scan (p.next x) tail <;> rfl

theorem scan_read {p : Progress} {c : Char} {rest : List Char} (tail : List Char) {x : Lexeme}
    {stack : List Bracket} (hread : read c rest = .ok x) (hsplit : c :: rest = x.chars ++ tail)
    (hn : turn p.brackets x = some stack) :
    scan p (c :: rest) = (scan (p.next x) tail).map ((p.next? x).toList ++ ·) := by
  obtain ⟨r, tail', hchars, rfl, hstands⟩ := stands_of_read hread
  have htail : tail' = tail := by
    rw [← List.cons_append, ← hchars] at hsplit
    exact List.append_cancel_left hsplit
  rw [hsplit]
  exact scan_cons (htail ▸ hstands) hn

theorem scan_append {p : Progress} {xs : List Lexeme} {tail : List Char} {stack : List Bracket}
    (hj : Joined xs tail.head?) (hn : nest p.brackets xs = some stack) :
    scan p (spelling xs ++ tail) = (scan (p.after xs) tail).map (p.tokens xs ++ ·) := by
  induction xs generalizing p with
  | nil => cases h : scan p tail <;> simp [Progress.after, Progress.tokens, h, Except.map]
  | cons x xs ih =>
    obtain ⟨hx, hj⟩ := hj
    rw [nest, List.foldlM_cons] at hn
    obtain ⟨st, hst, hn⟩ := Option.bind_eq_some_iff.mp hn
    rw [front_head?] at hx
    rw [spelling_cons, List.append_assoc, scan_cons hx hst,
      ih hj (by rw [p.brackets_next hst]; exact hn)]
    change _ = (scan ((p.next x).after xs) tail).map _
    cases scan ((p.next x).after xs) tail <;> simp [Progress.tokens, Except.map]

theorem lexemes_of_scan {p : Progress} {cs : List Char} {ts : List Token} (h : scan p cs = .ok ts) :
    ∃ xs, spelling xs = cs ∧ Joined xs none ∧ nest p.brackets xs = some [] ∧
      ts = p.tokens xs ++ [(p.after xs).token .endOfText []] := by
  fun_induction scan p cs generalizing ts with
  | case1 => cases h
  | case2 p t hf =>
    cases h
    unfold Progress.finish at hf
    split at hf <;> cases hf
    rename_i hp
    exact ⟨[], rfl, trivial, by simp [nest, Progress.brackets, hp], rfl⟩
  | case3 => cases h
  | case4 => cases h
  | case5 => cases h
  | case6 p c rest x hread t q hpast ts' hscan ih =>
    cases h
    obtain ⟨r, tail, hx, hrest, hstands⟩ := stands_of_read hread
    obtain ⟨stack, hst⟩ := Progress.turn_of_past hpast
    rw [p.past_eq hst] at hpast
    cases hpast
    obtain ⟨xs, hsp, hj, hn, rfl⟩ := ih hscan
    rw [length_sub_one hx, hrest, List.drop_left] at hsp
    refine ⟨x :: xs, by rw [spelling_cons, hx, hsp, hrest, List.cons_append], ⟨?_, hj⟩, ?_, ?_⟩
    · have := front_head? xs []
      rw [List.head?_nil, List.append_nil, hsp] at this
      rw [this]
      exact hstands
    · rw [nest, List.foldlM_cons, hst]
      rw [p.brackets_next hst] at hn
      exact hn
    · simp [Progress.tokens, Progress.after]

end Token

end BuildSync
