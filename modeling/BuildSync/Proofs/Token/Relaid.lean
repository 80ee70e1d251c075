import BuildSync.Expr.Parser

/-!
Commas that may as well be missing. A comma behind the last of some arguments, elements, entries or tuple
items changes nothing. One behind the only item of a parenthesis does: it makes a tuple of it.
-/

namespace BuildSync

inductive Enclosure where
  | arguments
  | index
  | elements
  | entries
  | parenthesis
  | tuple
  deriving DecidableEq, Repr

namespace Enclosure

def bracket : Enclosure → Bracket
  | arguments | parenthesis | tuple => .round
  | index | elements => .square
  | entries => .curly

def trails : Enclosure → Bool
  | arguments | elements | entries | tuple => true
  | index | parenthesis => false

def separate : List Enclosure → List Enclosure
  | .parenthesis :: around => .tuple :: around
  | around => around

theorem separate_of_trails {e : Enclosure} (h : e.trails = true) (around : List Enclosure) :
    separate (e :: around) = e :: around := by
  cases e <;> first | rfl | cases h

end Enclosure

structure Setting where
  behind : Bool
  around : List Enclosure
  deriving DecidableEq, Repr

namespace Setting

def start : Setting := ⟨false, []⟩

def next (s : Setting) (t : Token) : Setting :=
  match t.kind with
  | .ident => ⟨t.text ∉ reserved, s.around⟩
  | .number | .string _ => ⟨true, s.around⟩
  | .operator => ⟨false, if t.text = "," then Enclosure.separate s.around else s.around⟩
  | .opening .round => ⟨false, (if s.behind then .arguments else .parenthesis) :: s.around⟩
  | .opening .square => ⟨false, (if s.behind then .index else .elements) :: s.around⟩
  | .opening .curly => ⟨false, .entries :: s.around⟩
  | .closing _ => ⟨true, s.around.tail⟩
  | .comment | .newline | .endOfText => s

/-- Whether a comma in front of a token may as well be missing: behind an item, where the token closes the
brackets. -/
def Spares (s : Setting) (t : Token) : Prop :=
  s.behind = true ∧ ∃ e ∈ s.around.head?, e.trails = true ∧ t.kind = .closing e.bracket

theorem not_spares_false (around : List Enclosure) (t : Token) : ¬ (⟨false, around⟩ : Setting).Spares t :=
  fun h => Bool.false_ne_true h.1

theorem not_spares_of_trails {e : Enclosure} (h : e.trails = false) (behind : Bool) (around : List Enclosure)
    (t : Token) : ¬ (⟨behind, e :: around⟩ : Setting).Spares t := by
  rintro ⟨-, _, ⟨⟩, htrails, -⟩
  rw [h] at htrails
  cases htrails

theorem spares_iff {e : Enclosure} (h : e.trails = true) (around : List Enclosure) (t : Token) :
    (⟨true, e :: around⟩ : Setting).Spares t ↔ t.kind = .closing e.bracket := by
  simp [Spares, h]

end Setting

namespace Token

structure Same (t u : Token) : Prop where
  kind : t.kind = u.kind
  text : t.text = u.text

theorem Same.symm {t u : Token} (h : Same t u) : Same u t := ⟨h.kind.symm, h.text.symm⟩

/-- The same tokens, but for commas that may as well be missing. -/
inductive Relaid : Setting → List Token → List Token → Prop
  | nil {s : Setting} : Relaid s [] []
  | cons {s : Setting} {t u : Token} {ts us : List Token} (h : Same t u) (hrest : Relaid (s.next t) ts us) :
    Relaid s (t :: ts) (u :: us)
  | added {s : Setting} {t u comma : Token} {ts us : List Token} (hs : s.Spares t)
    (hcomma : comma.isOperator "," = true) (h : Same t u) (hrest : Relaid (s.next t) ts us) :
    Relaid s (t :: ts) (comma :: u :: us)
  | dropped {s : Setting} {t u comma : Token} {ts us : List Token} (hs : s.Spares t)
    (hcomma : comma.isOperator "," = true) (h : Same t u) (hrest : Relaid (s.next t) ts us) :
    Relaid s (comma :: t :: ts) (u :: us)

theorem Same.next {t u : Token} (h : Same t u) (s : Setting) : s.next t = s.next u := by
  rw [Setting.next, Setting.next, h.kind, h.text]

theorem Same.spares {t u : Token} (h : Same t u) {s : Setting} (hs : s.Spares t) : s.Spares u := by
  rwa [Setting.Spares, ← h.kind]

namespace Relaid

variable {s : Setting} {ts us : List Token}

theorem symm (h : Relaid s ts us) : Relaid s us ts := by
  induction h with
  | nil => exact .nil
  | @cons s t u _ _ h _ ih => exact .cons h.symm (h.next s ▸ ih)
  | @added s t u _ _ _ hs hcomma h _ ih => exact .dropped (h.spares hs) hcomma h.symm (h.next s ▸ ih)
  | @dropped s t u _ _ _ hs hcomma h _ ih => exact .added (h.spares hs) hcomma h.symm (h.next s ▸ ih)

theorem nil_left (h : Relaid s [] us) : us = [] := by
  cases h
  rfl

theorem getLast? (h : Relaid s ts us) : Option.Rel Same ts.getLast? us.getLast? := by
  have hlast {t u : Token} {o p : Option Token} (h : Same t u) (hop : Option.Rel Same o p) :
      Same (o.getD t) (p.getD u) := by
    cases hop with
    | some h => exact h
    | none => exact h
  induction h with
  | nil => exact .none
  | cons h _ ih =>
    rw [List.getLast?_cons, List.getLast?_cons]
    exact .some (hlast h ih)
  | added _ _ h _ ih =>
    rw [List.getLast?_cons, List.getLast?_cons_cons, List.getLast?_cons]
    exact .some (hlast h ih)
  | dropped _ _ h _ ih =>
    rw [List.getLast?_cons_cons, List.getLast?_cons, List.getLast?_cons]
    exact .some (hlast h ih)

theorem forall_mem {P : Token → Prop} (hsame : ∀ t u, Same t u → P t → P u)
    (hcomma : ∀ t, t.isOperator "," = true → P t) (h : Relaid s ts us) (hts : ∀ t ∈ ts, P t) : ∀ u ∈ us, P u := by
  induction h with
  | nil => exact nofun
  | cons h _ ih =>
    obtain ⟨ht, hrest⟩ := List.forall_mem_cons.mp hts
    exact List.forall_mem_cons.mpr ⟨hsame _ _ h ht, ih hrest⟩
  | added _ hc h _ ih =>
    obtain ⟨ht, hrest⟩ := List.forall_mem_cons.mp hts
    exact List.forall_mem_cons.mpr ⟨hcomma _ hc, List.forall_mem_cons.mpr ⟨hsame _ _ h ht, ih hrest⟩⟩
  | dropped _ _ h _ ih =>
    obtain ⟨ht, hrest⟩ := List.forall_mem_cons.mp (List.forall_mem_cons.mp hts).2
    exact List.forall_mem_cons.mpr ⟨hsame _ _ h ht, ih hrest⟩

end Relaid

end Token

end BuildSync
