import BuildSync.Proofs.Expr.Resemblance
import BuildSync.Proofs.Text.Returns
import BuildSync.Proofs.Token.Literals

/-!
Reading a text with a carriage return in front of each line feed. The tokens are the same but for string literals that
span lines. A literal in single quotes, which spans lines where a backslash stands in front of the line feed, is no
literal any more.
-/

namespace BuildSync

namespace Literal

variable {style : Style} {b b' : Body} {pre text value value' v v' cs : List Char}

/-- What stands between the quotes of a literal that is not raw, what it stands for, and what it stands for with a
carriage return in front of each line feed. That changes the line feeds themselves, but not those that an escape
stands for. -/
inductive Pieces : List Char → List Char → List Char → Prop
  | nil : Pieces [] [] []
  | feed {text value value' : List Char} (h : Pieces text value value') :
    Pieces ('\n' :: text) ('\n' :: value) ('\r' :: '\n' :: value')
  | plain {text value value' : List Char} {c : Char} (hfeed : c ≠ '\n') (hslash : c ≠ '\\')
    (h : Pieces text value value') : Pieces (c :: text) (c :: value) (c :: value')
  | escaped {text value value' : List Char} {c : Char} (hfeed : c ≠ '\n') (hx : c ≠ 'x')
    (h : Pieces text value value') : Pieces ('\\' :: c :: text) (escape c ++ value) (escape c ++ value')
  | hex {text value value' : List Char} {a b v : Char} (hpair : SignedDigits a b v) (h : Pieces text value value') :
    Pieces ('\\' :: 'x' :: a :: b :: text) (v :: value) (v :: value')

theorem Pieces.append (hpre : Pieces pre v v') (htext : Pieces text value value') :
    Pieces (pre ++ text) (v ++ value) (v' ++ value') := by
  induction hpre with
  | nil => exact htext
  | feed _ ih => exact .feed ih
  | plain hfeed hslash _ ih => exact .plain hfeed hslash ih
  | escaped hfeed hx _ ih =>
    rw [List.append_assoc, List.append_assoc]
    exact .escaped hfeed hx ih
  | hex hpair _ ih => exact .hex hpair ih

/-- How the value of a literal changes with what stands between its quotes: not at all on one line, as the text does
where it is raw or has no backslash, and otherwise piece by piece. Of escaped line feeds it says nothing. -/
structure Keeps (raw : Bool) (text value value' : List Char) : Prop where
  line : '\n' ∉ text → value' = value
  plain : raw = true ∨ '\\' ∉ text → value' = returned value
  pieces : raw = false → ¬ ['\\', '\n'] <:+: text → Pieces text value value'

theorem keeps_nil (raw : Bool) : Keeps raw [] [] [] := ⟨fun _ => rfl, fun _ => rfl, fun _ _ => .nil⟩

theorem keeps_plain (raw : Bool) {c : Char} (hfeed : c ≠ '\n') (hslash : c ≠ '\\') : Keeps raw [c] [c] [c] :=
  ⟨fun _ => rfl, fun _ => (returned_cons hfeed []).symm, fun _ _ => .plain hfeed hslash .nil⟩

theorem keeps_escaped {c : Char} (hfeed : c ≠ '\n') (hx : c ≠ 'x') :
    Keeps false ['\\', c] (escape c) (escape c) where
  line _ := rfl
  plain h := by simp at h
  pieces _ _ := by simpa using Pieces.escaped hfeed hx .nil

theorem keeps_hex {a b c : Char} (h : SignedDigits a b c) : Keeps false ['\\', 'x', a, b] [c] [c] :=
  ⟨fun _ => rfl, fun hplain => by simp at hplain, fun _ _ => .hex h .nil⟩

theorem keeps_raw (hfeed : '\n' ∉ text) : Keeps true text text text :=
  ⟨fun _ => rfl, fun _ => (returned_eq_self hfeed).symm, nofun⟩

theorem keeps_feed (raw : Bool) : Keeps raw ['\n'] ['\n'] ['\r', '\n'] :=
  ⟨fun h => absurd (by simp) h, fun _ => rfl, fun _ _ => .feed .nil⟩

theorem keeps_escaped_feed (v v' : List Char) : Keeps false ['\\', '\n'] v v' :=
  ⟨fun h => absurd (by simp) h, fun h => by simp at h, fun _ h => absurd List.infix_rfl h⟩

theorem keeps_raw_feed : Keeps true ['\\', '\n'] ['\\', '\n'] ['\\', '\r', '\n'] :=
  ⟨fun h => absurd (by simp) h, fun _ => rfl, nofun⟩

theorem Keeps.append {raw : Bool} (hpre : Keeps raw pre v v') (htext : Keeps raw text value value') :
    Keeps raw (pre ++ text) (v ++ value) (v' ++ value') where
  line hfeed := by
    rw [hpre.line fun h => hfeed (List.mem_append_left _ h), htext.line fun h => hfeed (List.mem_append_right _ h)]
  plain hplain := by
    rw [hpre.plain (hplain.imp_right fun hslash h => hslash (List.mem_append_left _ h)),
      htext.plain (hplain.imp_right fun hslash h => hslash (List.mem_append_right _ h)), returned_append]
  pieces hraw hescaped :=
    (hpre.pieces hraw fun h => hescaped (h.trans (List.prefix_append pre text).isInfix)).append
      (htext.pieces hraw fun h => hescaped (h.trans (List.suffix_append pre text).isInfix))

structure Parts (text mark : List Char) (style : Style) (inside : List Char) : Prop where
  text_eq : text = mark ++ style.delimiter ++ (inside ++ style.delimiter)
  unquoted : ∀ c ∈ mark, Lexeme.isQuote c = false
  quote : Lexeme.isQuote style.quote = true
  raw : style.raw = (Lexeme.stringMark mark).getD false

def Kept (text value value' : List Char) : Prop :=
  ∃ mark style inside, Parts text mark style inside ∧ Keeps style.raw inside value value'

def Body.isClosed : Body → Bool
  | closed _ _ => true
  | _ => false

@[simp] theorem Body.isClosed_after (pre v : List Char) (b : Body) : (b.after pre v).isClosed = b.isClosed := by
  cases b <;> rfl

theorem Body.after_after (pre v text value : List Char) (b : Body) :
    (b.after text value).after pre v = b.after (pre ++ text) (v ++ value) := by
  cases b <;> simp [Body.after]

inductive Body.Returned (style : Style) : Body → Body → Prop
  | closed {inside value value' : List Char} (hkeeps : Keeps style.raw inside value value')
    (hsingle : style.triple = false → '\n' ∉ inside) :
    Returned style (.closed (inside ++ style.delimiter) value) (.closed (returned inside ++ style.delimiter) value')
  | cut {text value : List Char} {b' : Body} (htriple : style.triple = false) (hfeed : '\n' ∈ text)
    (hb' : b'.isClosed = false) : Returned style (.closed text value) b'
  | failed {b b' : Body} (hb : b.isClosed = false) (hb' : b'.isClosed = false) : Returned style b b'

theorem Body.Returned.after (pre : List Char) (h : Returned style b b') (hkeeps : Keeps style.raw pre v v')
    (hsingle : style.triple = false → '\n' ∉ pre) :
    Returned style (b.after pre v) (b'.after (returned pre) v') := by
  cases h with
  | @closed inside value value' hinside hfeed =>
    rw [Body.after, Body.after, ← List.append_assoc, ← List.append_assoc, ← returned_append]
    refine .closed (hkeeps.append hinside) fun htriple hmem => ?_
    rcases List.mem_append.mp hmem with hmem | hmem
    · exact hsingle htriple hmem
    · exact hfeed htriple hmem
  | cut htriple hfeed hb' => exact .cut htriple (List.mem_append_right _ hfeed) (by simpa using hb')
  | failed hb hb' => exact .failed (by simpa using hb) (by simpa using hb')

theorem Body.returned_cut (htriple : style.triple = false) (hfeed : '\n' ∈ pre) (hb' : b'.isClosed = false)
    (b : Body) : Returned style (b.after pre v) b' := by
  cases b with
  | closed => exact .cut htriple (List.mem_append_left _ hfeed) hb'
  | _ => exact .failed rfl hb'

theorem notMem_delimiter {c : Char} (hquote : Lexeme.isQuote style.quote = true)
    (hc : Lexeme.isQuote c = false) : c ∉ style.delimiter := by
  have hne := (Lexeme.ne_of_isQuote hquote hc).symm
  unfold Style.delimiter
  split_ifs <;> simp [hne]

theorem body_feed (hquote : Lexeme.isQuote style.quote = true) (cs : List Char) : body style ('\n' :: cs) =
    if style.triple = false then .unterminated else (body style cs).after ['\n'] ['\n'] := by
  rw [body_cons (by decide), if_neg fun h => Lexeme.ne_of_isQuote hquote rfl (eq_of_delimiter h).symm]
  simp

theorem body_return (hquote : Lexeme.isQuote style.quote = true) (cs : List Char) :
    body style ('\r' :: cs) = (body style cs).after ['\r'] ['\r'] := by
  rw [body_cons (by decide), if_neg (by simp), if_neg fun h => Lexeme.ne_of_isQuote hquote rfl (eq_of_delimiter h).symm]

theorem body_raw (hraw : style.raw = true) (c : Char) (cs : List Char) :
    body style ('\\' :: c :: cs) = (body style cs).after ['\\', c] ['\\', c] := by
  rw [body.eq_def]
  simp [hraw]

theorem body_hex_closed (hraw : style.raw = false) (h : (body style ('\\' :: 'x' :: cs)).isClosed = true) :
    ∃ a b v rest, cs = a :: b :: rest ∧ SignedDigits a b v := by
  rw [body.eq_def] at h
  simp only [hraw, Bool.false_eq_true, if_false, if_true] at h
  split at h
  · rename_i a b rest
    split at h
    · rename_i v hpair
      exact ⟨a, b, v, rest, rfl, hexPair_eq_some_iff.mp hpair⟩
    · cases h
  · cases h

theorem plain_of_signedDigits {a b c v : Char} (h : SignedDigits a b v) (hc : c = '\n' ∨ c = '\r') :
    a ≠ c ∧ b ≠ c := by
  have hdigit {d : Char} {n : Nat} (hd : hexDigit d = some n) : d ≠ c := by
    rintro rfl
    rcases hc with rfl | rfl <;> cases hd
  obtain ⟨high, low, ha, hb, -⟩ | ⟨rfl, low, hb, -⟩ := h
  · exact ⟨hdigit ha, hdigit hb⟩
  · exact ⟨by rcases hc with rfl | rfl <;> decide, hdigit hb⟩

theorem exists_of_returned_eq_cons {c : Char} {rest : List Char} (hc : c ≠ '\r') (h : returned cs = c :: rest) :
    ∃ cs', cs = c :: cs' ∧ rest = returned cs' := by
  cases cs with
  | nil => cases h
  | cons d ds =>
    by_cases hd : d = '\n'
    · subst hd
      exact absurd (List.cons.inj h).1.symm hc
    · rw [returned_cons hd] at h
      obtain ⟨rfl, rfl⟩ := List.cons.inj h
      exact ⟨ds, rfl, rfl⟩

theorem returned_slash (hquote : Lexeme.isQuote style.quote = true) {w w' : List Char}
    (hkeeps : Keeps style.raw ['\\', '\n'] w (w' ++ ['\n']))
    (ih : (body style cs).Returned style (body style (returned cs)))
    (hslash : body style ('\\' :: '\r' :: '\n' :: returned cs) =
      (body style ('\n' :: returned cs)).after ['\\', '\r'] w') :
    ((body style cs).after ['\\', '\n'] w).Returned style (body style ('\\' :: '\r' :: '\n' :: returned cs)) := by
  rw [hslash, body_feed hquote]
  split_ifs with htriple
  · exact Body.returned_cut htriple (by simp) rfl _
  · rw [Body.after_after]
    exact ih.after ['\\', '\n'] hkeeps fun h => absurd h htriple

theorem body_returned_hex (hraw : style.raw = false)
    (ih : ∀ ds, ds.length < cs.length → (body style ds).Returned style (body style (returned ds))) :
    (body style ('\\' :: 'x' :: cs)).Returned style (body style ('\\' :: 'x' :: returned cs)) := by
  by_cases hpair : ∃ a b v ds, cs = a :: b :: ds ∧ SignedDigits a b v
  · obtain ⟨a, b, v, ds, rfl, hv⟩ := hpair
    obtain ⟨ha, hb⟩ := plain_of_signedDigits hv (.inl rfl)
    have hself : returned ['\\', 'x', a, b] = ['\\', 'x', a, b] :=
      returned_eq_self (by simp [Ne.symm ha, Ne.symm hb])
    have hfeed : '\n' ∉ ['\\', 'x', a, b] := by simp [Ne.symm ha, Ne.symm hb]
    have hkeeps : Keeps style.raw ['\\', 'x', a, b] [v] [v] := hraw ▸ keeps_hex hv
    have := (ih ds (by simp only [List.length_cons]; omega)).after ['\\', 'x', a, b] hkeeps fun _ => hfeed
    rw [hself] at this
    rwa [returned_cons ha, returned_cons hb, body_hex hraw hv, body_hex hraw hv]
  · refine .failed (Bool.eq_false_iff.mpr fun h => ?_) (Bool.eq_false_iff.mpr fun h => ?_)
    · obtain ⟨a, b, v, ds, rfl, hv⟩ := body_hex_closed hraw h
      exact hpair ⟨a, b, v, ds, rfl, hv⟩
    · obtain ⟨a, b, v, rest, hcs, hv⟩ := body_hex_closed hraw h
      obtain ⟨ha, hb⟩ := plain_of_signedDigits hv (.inr rfl)
      obtain ⟨cs', rfl, hrest⟩ := exists_of_returned_eq_cons ha hcs
      obtain ⟨ds, rfl, -⟩ := exists_of_returned_eq_cons hb hrest.symm
      exact hpair ⟨a, b, v, ds, rfl, hv⟩

theorem body_returned_slash (hquote : Lexeme.isQuote style.quote = true) {c : Char}
    (ih : ∀ ds, ds.length ≤ cs.length → (body style ds).Returned style (body style (returned ds))) :
    (body style ('\\' :: c :: cs)).Returned style (body style (returned ('\\' :: c :: cs))) := by
  by_cases hc : c = '\n'
  · subst hc
    cases hraw : style.raw with
    | true =>
      rw [body_raw hraw]
      exact returned_slash hquote (hraw ▸ keeps_raw_feed) (ih cs le_rfl) (body_raw hraw _ _)
    | false =>
      rw [body_escape hraw _ (by decide)]
      exact returned_slash hquote (hraw ▸ keeps_escaped_feed _ _) (ih cs le_rfl) (body_escape hraw _ (by decide))
  · have hfeed : '\n' ∉ ['\\', c] := by simpa using Ne.symm hc
    have hself : returned ['\\', c] = ['\\', c] := returned_eq_self hfeed
    have hreturned : returned ('\\' :: c :: cs) = '\\' :: c :: returned cs := by
      rw [returned_cons (by decide), returned_cons hc]
    have hstep {w : List Char} (hkeeps : Keeps style.raw ['\\', c] w w) :=
      (ih cs le_rfl).after ['\\', c] hkeeps fun _ => hfeed
    rw [hself] at hstep
    rw [hreturned]
    cases hraw : style.raw with
    | true =>
      rw [body_raw hraw, body_raw hraw]
      exact hstep (hraw ▸ keeps_raw hfeed)
    | false =>
      by_cases hx : c = 'x'
      · subst hx
        exact body_returned_hex hraw fun ds hds => ih ds hds.le
      · rw [body_escape hraw _ hx, body_escape hraw _ hx]
        exact hstep (hraw ▸ keeps_escaped hc hx)

theorem body_returned_plain (hquote : Lexeme.isQuote style.quote = true) {c : Char} (hc : c ≠ '\\')
    (ih : (body style cs).Returned style (body style (returned cs))) :
    (body style (c :: cs)).Returned style (body style (returned (c :: cs))) := by
  by_cases hfeed : c = '\n'
  · subst hfeed
    rw [returned_feed, body_feed hquote, body_return hquote, body_feed hquote]
    split_ifs with htriple
    · exact .failed rfl rfl
    · rw [Body.after_after]
      exact ih.after ['\n'] (keeps_feed _) fun h => absurd h htriple
  · have hdelimiter : style.delimiter <+: c :: returned cs ↔ style.delimiter <+: c :: cs := by
      rw [← returned_cons hfeed]
      exact prefix_returned_iff (notMem_delimiter hquote rfl) (notMem_delimiter hquote rfl) _
    have hplain : ¬ (c = '\n' ∧ style.triple = false) := fun h => hfeed h.1
    rw [returned_cons hfeed, body_cons hc, body_cons hc, if_neg hplain, if_neg hplain]
    simp only [hdelimiter]
    split_ifs with hquotes
    · exact .closed (keeps_nil _) fun _ => List.not_mem_nil
    · have hself : returned [c] = [c] := returned_cons hfeed []
      have := ih.after [c] (keeps_plain _ hfeed hc) fun _ => by simpa using Ne.symm hfeed
      rwa [hself] at this

theorem body_returned (hquote : Lexeme.isQuote style.quote = true) (cs : List Char) :
    (body style cs).Returned style (body style (returned cs)) := by
  induction hn : cs.length using Nat.strong_induction_on generalizing cs with
  | _ n ih =>
    subst hn
    cases cs with
    | nil => exact .failed rfl rfl
    | cons d cs =>
      by_cases hd : d = '\\'
      · subst hd
        cases cs with
        | nil => exact .failed rfl rfl
        | cons c cs => exact body_returned_slash hquote fun ds hds => ih ds.length (by simp; omega) ds rfl
      · exact body_returned_plain hquote hd (ih cs.length (by simp) cs rfl)

end Literal

end BuildSync
