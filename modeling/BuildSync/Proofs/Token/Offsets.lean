import BuildSync.Proofs.Token.Checked

/-!
A head that stands on a boundary of the source, and whose line begins no later than it stands: what
it peeks at, where it moves on to, and which slices and columns it can ask for.
-/

namespace BuildSync

namespace Head

open Lexeme

def past (head : Head) (cs : List Char) : Head := cs.foldl step head

structure At (source : List Char) (head : Head) (p : Position) (rest : List Char) : Prop where
  source : ∃ front, source = front ++ rest ∧ utf8Length front = head.byte
  byte : p.byte = head.byte
  line : p.line = head.line
  column : head.lineStart + p.column = head.byte

variable {source rest cs ds : List Char} {head : Head} {p : Position} {c : Char}

theorem byte_past (head : Head) (cs : List Char) : (head.past cs).byte = head.byte + utf8Length cs := by
  induction cs generalizing head with
  | nil => rfl
  | cons c cs ih =>
    have hstep : (head.step c).byte = head.byte + c.utf8Size := by
      unfold step
      split_ifs <;> rfl
    change ((head.step c).past cs).byte = _
    rw [ih, hstep, utf8Length_cons, Nat.add_assoc]

theorem past_append (head : Head) (cs ds : List Char) : head.past (cs ++ ds) = (head.past cs).past ds :=
  List.foldl_append

theorem past_of_notMem (h : '\n' ∉ cs) (head : Head) :
    (head.past cs).line = head.line ∧ (head.past cs).lineStart = head.lineStart := by
  induction cs generalizing head with
  | nil => exact ⟨rfl, rfl⟩
  | cons c cs ih =>
    rw [List.mem_cons, not_or] at h
    obtain ⟨hline, hstart⟩ := ih h.2 (head.step c)
    have hstep : head.step c = ⟨head.byte + c.utf8Size, head.line, head.lineStart⟩ := if_neg (Ne.symm h.1)
    rw [hstep] at hline hstart
    exact ⟨by rw [← hline, ← hstep]; rfl, by rw [← hstart, ← hstep]; rfl⟩

namespace At

theorem start (source : List Char) : At source .start .start source where
  source := ⟨[], rfl, rfl⟩
  byte := rfl
  line := rfl
  column := rfl

theorem split (h : At source head p rest) : ∃ front, split? source head.byte = some (front, rest) := by
  obtain ⟨front, hsource, hlength⟩ := h.source
  exact ⟨front, split?_eq_some.mpr ⟨hsource, hlength⟩⟩

theorem rest_eq (h : At source head p rest) : head.rest source = .done rest := by
  obtain ⟨front, hsplit⟩ := h.split
  unfold Head.rest
  rw [hsplit]
  rfl

theorem peek (h : At source head p rest) : head.peek source = .done rest.head? := by
  unfold Head.peek
  rw [h.rest_eq]
  rfl

theorem startsWith (h : At source head p rest) (text : List Char) :
    head.startsWith source text = .done (text.isPrefixOf rest) := by
  unfold Head.startsWith
  rw [h.rest_eq]
  rfl

theorem step (h : At source head p (c :: rest)) : At source (head.step c) (p.step c) rest := by
  obtain ⟨front, hsource, hlength⟩ := h.source
  obtain ⟨-, hbyte, hline, hcolumn⟩ := h
  unfold Head.step Position.step
  split_ifs
  · refine ⟨⟨front ++ [c], by simp [hsource], by simp [hlength]⟩, ?_, ?_, rfl⟩
    · rw [hbyte]
    · rw [hline]
  · refine ⟨⟨front ++ [c], by simp [hsource], by simp [hlength]⟩, ?_, hline, ?_⟩
    · rw [hbyte]
    · change head.lineStart + (p.column + c.utf8Size) = head.byte + c.utf8Size
      omega

theorem past (cs : List Char) (h : At source head p (cs ++ rest)) : At source (head.past cs) (p.past cs) rest := by
  induction cs generalizing head p with
  | nil => exact h
  | cons c cs ih => exact ih h.step

theorem advance (h : At source head p (c :: rest)) : head.advance source = .done (head.step c) := by
  unfold Head.advance
  rw [h.peek]
  rfl

theorem advances (cs : List Char) (h : At source head p (cs ++ rest)) (n : Nat) (hn : cs.length = n) :
    head.advances source n = .done (head.past cs) := by
  subst hn
  induction cs generalizing head p with
  | nil => rfl
  | cons c cs ih =>
    change (head.advance source >>= fun next => next.advances source cs.length) = _
    rw [At.advance h, Checked.done_bind, ih (At.step h)]
    rfl

theorem further (cs : List Char) (h : At source head p (cs ++ rest)) (hcs : cs ≠ []) :
    head.byte < (head.past cs).byte ∧ (head.past cs).byte ≤ utf8Length source := by
  obtain ⟨front, rfl, hlength⟩ := h.source
  rw [byte_past, utf8Length_append, utf8Length_append]
  have hpos : 0 < utf8Length cs := by
    cases cs with
    | nil => exact absurd rfl hcs
    | cons c cs =>
      rw [utf8Length_cons]
      exact Nat.add_pos_left c.utf8Size_pos _
  omega

theorem column_eq (h : At source head p rest) : head.column head.byte = .done p.column := by
  have hcolumn := h.column
  unfold Head.column
  rw [Checked.minus_of_le (by omega)]
  congr 1
  omega

theorem place (h : At source head p rest) : (⟨head.byte, head.line, p.column⟩ : Position) = p := by
  rw [← h.byte, ← h.line]

theorem reject {α : Type} (h : At source head p rest) (fault : SyntaxFault) :
    (head.reject fault : Checked SyntaxError α) = .error (.at p fault) := by
  unfold Head.reject
  rw [h.column_eq, Checked.done_bind, h.place]

theorem slice (h : At source head p (cs ++ rest)) :
    Head.slice source head.byte (head.byte + utf8Length cs) = .done cs := by
  obtain ⟨front, hsource, hlength⟩ := h.source
  have hslice : slice? source head.byte (head.byte + utf8Length cs) = some cs :=
    slice?_eq_some.mpr ⟨front, rest, by rw [hsource, List.append_assoc], hlength, by simp [hlength]⟩
  unfold Head.slice
  rw [hslice, Checked.ofOption_some]

theorem cut (h : At source head p (cs ++ rest)) (gap : String) (kind : Token.Kind) :
    Head.cut source kind head.byte (head.byte + utf8Length cs) head.line p.column =
      .done (.ofToken ⟨gap, kind, String.ofList cs, p⟩) := by
  unfold Head.cut Cut.ofToken
  rw [h.slice]
  simp [h.byte, h.line]

theorem column_past (h : At source head p rest) (hds : '\n' ∉ ds) :
    (head.past ds).column head.byte = .done p.column := by
  rw [← h.column_eq]
  unfold Head.column
  rw [(past_of_notMem hds head).2]

theorem push (cs : List Char) {ds : List Char} (h : At source head p (cs ++ rest)) (hds : '\n' ∉ ds)
    (gap : String) (kind : Token.Kind) :
    (head.past ds).push source kind head.byte (head.byte + utf8Length cs) =
      .done (.ofToken ⟨gap, kind, String.ofList cs, p⟩) := by
  unfold Head.push
  rw [h.column_past hds, Checked.done_bind, (past_of_notMem hds head).1]
  exact h.cut gap kind

end At

def passed (accept : Char → Char → Bool) (last : Char) : List Char → List Char
  | [] => []
  | c :: rest => if accept last c then c :: passed accept c rest else []

theorem passed_eq_takeWhile (accept : Char → Bool) (last : Char) (cs : List Char) :
    passed (fun _ c => accept c) last cs = cs.takeWhile accept := by
  induction cs generalizing last with
  | nil => rfl
  | cons c cs ih =>
    rw [passed, List.takeWhile_cons, ih]

theorem passed_numeral (last : Char) (cs : List Char) : passed numeral last cs = numberTail last cs := by
  induction cs generalizing last with
  | nil => rfl
  | cons c cs ih =>
    rw [passed, numberTail, ih]
    rfl

theorem passed_isPrefix (accept : Char → Char → Bool) (last : Char) (cs : List Char) :
    passed accept last cs <+: cs := by
  induction cs generalizing last with
  | nil => exact List.nil_prefix
  | cons c cs ih =>
    rw [passed]
    split_ifs
    · exact List.cons_prefix_cons.mpr ⟨rfl, ih c⟩
    · exact List.nil_prefix

theorem notMem_passed {accept : Char → Char → Bool} (h : ∀ last, accept last c = false) (last : Char)
    (cs : List Char) : c ∉ passed accept last cs := by
  induction cs generalizing last with
  | nil => exact List.not_mem_nil
  | cons d cs ih =>
    rw [passed]
    split_ifs with haccept
    · rw [List.mem_cons, not_or]
      refine ⟨?_, ih d⟩
      rintro rfl
      rw [h] at haccept
      cases haccept
    · exact List.not_mem_nil

theorem At.skip (h : At source head p rest) (accept : Char → Char → Bool) (last : Char) :
    head.skip source accept last = .done (head.past (passed accept last rest)) := by
  induction rest generalizing head p last with
  | nil =>
    rw [Head.skip, h.peek]
    rfl
  | cons c rest ih =>
    rw [Head.skip, h.peek, passed]
    dsimp only [List.head?_cons, Checked.done_bind]
    split_ifs with haccept
    · have hfurther : head.byte < (head.step c).byte ∧ (head.step c).byte ≤ utf8Length source :=
        h.further [c] (List.cons_ne_nil c [])
      rw [h.advance, Checked.done_bind, dif_pos hfurther]
      exact ih h.step c
    · rfl

end Head

end BuildSync
