import BuildSync.Token
import Mathlib.Tactic.SplitIfs

namespace BuildSync

structure Content where
  comments : List String
  code : List Char

namespace Content

def empty : Content := ⟨[], []⟩

def ofCode (code : String) : Content := ⟨[], code.toList⟩

def ofComments (comments : List String) : Content := ⟨comments, []⟩

instance : Append Content := ⟨fun a b => ⟨a.comments ++ b.comments, a.code ++ b.code⟩⟩

def comma (last : Bool) : Content := if last then empty else ofCode ","

theorem append_def (a b : Content) : a ++ b = ⟨a.comments ++ b.comments, a.code ++ b.code⟩ := rfl

@[simp] theorem append_assoc (a b c : Content) : a ++ b ++ c = a ++ (b ++ c) := by
  simp only [append_def, List.append_assoc]

@[simp] theorem append_empty (a : Content) : a ++ empty = a := by
  simp [append_def, empty]

@[simp] theorem empty_append (a : Content) : empty ++ a = a := rfl

@[simp] theorem ofComments_nil : ofComments [] = empty := rfl

@[simp] theorem comma_true : comma true = empty := rfl

theorem ofComments_append (a b : List String) : ofComments (a ++ b) = ofComments a ++ ofComments b := by
  simp [append_def, ofComments]

theorem ofCode_append (a b : String) : ofCode (a ++ b) = ofCode a ++ ofCode b := by
  simp [append_def, ofCode]

theorem ofComments_append_comma (comments : List String) (last : Bool) :
    ofComments comments ++ comma last = comma last ++ ofComments comments := by
  cases last <;> simp [append_def, comma, ofComments, empty, ofCode]

end Content

namespace Token

def closes (t : Token) : Bool :=
  match t.kind with
  | .closing _ => true
  | _ => false

def closesNext (ts : List Token) : Bool := (ts.find? (!·.isComment)).any closes

def comments (ts : List Token) : List String := (ts.filter isComment).map text

/-- What the other tokens spell, but for the ends of lines and the commas in front of a closing
bracket. -/
def code : List Token → List Char
  | [] => []
  | t :: rest =>
    if t.isComment || t.kind == .newline || (t.isOperator "," && closesNext rest) then code rest
    else t.text.toList ++ code rest

def content (ts : List Token) : Content := ⟨comments ts, code ts⟩

def adds (t : Token) (last : Bool) : Content :=
  if t.isComment then .ofComments [t.text]
  else if t.kind = .newline then .empty
  else if t.isOperator "," then .comma last
  else .ofCode t.text

variable {t : Token}

theorem isComment_of_endsLine (ht : t.endsLine = true) : t.isComment = false := by
  simp only [endsLine, Bool.or_eq_true, beq_iff_eq] at ht
  rcases ht with ht | ht
  · simp [isComment, ht]
  · simp [isComment, ht]

@[simp] theorem content_nil : content [] = .empty := rfl

theorem content_cons (t : Token) (rest : List Token) :
    content (t :: rest) = t.adds (closesNext rest) ++ content rest := by
  unfold adds
  split_ifs with hcomment hend hcomma
  · simp [content, comments, code, hcomment, Content.append_def, Content.ofComments]
  · simp [content, comments, code, hcomment, hend]
  · have htext : t.text = "," := (by simpa [isOperator] using hcomma : t.kind = .operator ∧ _).2
    cases hnext : closesNext rest with
    | true => simp [content, comments, code, hcomment, hcomma, hnext]
    | false =>
      simp [content, comments, code, hcomment, hend, hnext, htext, Content.comma, Content.append_def,
        Content.ofCode]
  · simp [content, comments, code, hcomment, hend, hcomma, Content.append_def, Content.ofCode]

theorem adds_comment (ht : t.isComment = true) (last : Bool) : t.adds last = .ofComments [t.text] :=
  if_pos ht

theorem adds_newline (ht : t.kind = .newline) (last : Bool) : t.adds last = .empty := by
  simp [adds, isComment, ht]

theorem adds_endOfText (hk : t.kind = .endOfText) (ht : t.text = "") (last : Bool) :
    t.adds last = .empty := by
  simp [adds, isComment, isOperator, hk, ht, Content.ofCode, Content.empty]

theorem adds_comma (ht : t.isOperator "," = true) (last : Bool) : t.adds last = .comma last := by
  have hk : t.kind = .operator := (by simpa [isOperator] using ht : _ ∧ t.text = ",").1
  simp [adds, isComment, hk, ht]

theorem adds_text (hcomment : t.kind ≠ .comment) (hline : t.kind ≠ .newline)
    (hcomma : t.isOperator "," = false) (last : Bool) : t.adds last = .ofCode t.text := by
  simp [adds, isComment, hcomment, hline, hcomma]

theorem closesNext_comment (ht : t.isComment = true) (rest : List Token) :
    closesNext (t :: rest) = closesNext rest := by
  simp [closesNext, ht]

theorem closesNext_cons (ht : t.isComment = false) (rest : List Token) :
    closesNext (t :: rest) = t.closes := by
  simp [closesNext, ht]

theorem closesNext_endsLine (ht : t.endsLine = true) (rest : List Token) :
    closesNext (t :: rest) = false := by
  rw [closesNext_cons (isComment_of_endsLine ht)]
  simp only [endsLine, Bool.or_eq_true, beq_iff_eq] at ht
  rcases ht with ht | ht
  · simp [closes, ht]
  · simp [closes, ht]

theorem closesNext_dropComments (ts : List Token) :
    closesNext (ts.dropWhile isComment) = closesNext ts := by
  induction ts with
  | nil => rfl
  | cons t ts ih =>
    rw [List.dropWhile_cons]
    split_ifs with ht
    · rw [ih, closesNext_comment ht]
    · rfl

theorem content_dropComments (ts : List Token) :
    content ts = .ofComments ((ts.takeWhile isComment).map text) ++ content (ts.dropWhile isComment) := by
  induction ts with
  | nil => rfl
  | cons t ts ih =>
    rw [List.takeWhile_cons, List.dropWhile_cons]
    split_ifs with ht
    · rw [content_cons, adds_comment ht, ih, ← Content.append_assoc, ← Content.ofComments_append]
      rfl
    · rfl

variable {ts us : List Token}

theorem closesNext_append (h : closesNext us = false) : closesNext (ts ++ us) = closesNext ts := by
  unfold closesNext at h ⊢
  rw [List.find?_append]
  cases ts.find? (!·.isComment) with
  | none => simpa using h
  | some t => rfl

theorem content_append (h : closesNext us = false) : content (ts ++ us) = content ts ++ content us := by
  induction ts with
  | nil => rfl
  | cons t ts ih =>
    rw [List.cons_append, content_cons, content_cons, closesNext_append h, ih, Content.append_assoc]

end Token
end BuildSync
