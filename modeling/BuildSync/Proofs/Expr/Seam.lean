import BuildSync.Proofs.Expr.Fuel
import BuildSync.Proofs.Expr.Local
import BuildSync.Proofs.Expr.Steady

/-!
An expression that some tokens make on their own is read from them as well where tokens follow that do
not go on with it.
-/

namespace BuildSync

open Token

namespace Reading

variable {α β : Type} {more : List Token} {tight tight' : Prop} {n : Nat}

variable {item : Reading (Label × Expr)}

theorem fails_sequence (hfails : Fails item) (close : Bracket) (fuel : Nat) : Fails (sequence item close fuel) := by
  cases fuel with
  | zero => exact fails_exhausted
  | succ fuel =>
    refine Fails.after (fun comments => Fails.missed (sober_closing close) ?_) local_comments
    exact hfails.bind _

theorem fails_tupleRest (item : Reading Expr) (fuel : Nat) : Fails (tupleRest item fuel) := by
  cases fuel with
  | zero => exact fails_exhausted
  | succ fuel => exact (fails_expect (sober_symbol ",")).bind _

theorem local_closing (b : Bracket) (f : List String → Reading α) (hf : ∀ cs, Local more tight (f cs)) :
    Local more tight (comments >>= fun cs => expect (closing b) >>= fun _ => f cs) :=
  local_comments.closed (fun cs => (local_expect _).bind fun _ => hf cs)
    fun _ => (fails_expect (sober_closing b)).bind _

theorem fails_closing (b : Bracket) (f : List String → Reading α) :
    Fails (comments >>= fun cs => expect (closing b) >>= fun _ => f cs) :=
  Fails.after (fun _ => (fails_expect (sober_closing b)).bind _) local_comments

theorem local_sequence (h : Local more tight' item) (hfails : Fails item) (close : Bracket) (fuel : Nat) :
    Local more tight (sequence item close fuel) := by
  induction fuel with
  | zero => exact local_exhausted
  | succ fuel ih =>
    apply local_comments.closed
    · intro cs
      apply Local.found
      · intro o
        split_ifs
        · exact local_pure _
        apply h.closed
        · intro x
          apply local_suffix?.closed
          · intro before
            apply Local.found
            · intro o
              split_ifs
              · exact (local_suffixAfter? before).closed (fun suffix => ih.bind fun others => local_pure _)
                  fun suffix => (fails_sequence hfails close fuel).bind _
              · exact local_closing close _ fun trailing => local_pure _
            · exact fails_closing close _
          · exact fun before => Fails.missed (sober_symbol ",") (fails_closing close _)
        · exact fun x => Fails.after (fun before => Fails.missed (sober_symbol ",") (fails_closing close _))
            local_suffix?
      · exact hfails.bind _
    · exact fun cs => Fails.missed (sober_closing close) (hfails.bind _)

theorem local_tupleRest {item : Reading Expr} (h : Local more tight' item) (hfails : Fails item) (fuel : Nat) :
    Local more tight (tupleRest item fuel) := by
  induction fuel with
  | zero => exact local_exhausted
  | succ fuel ih =>
    apply (local_expect _).bind
    intro _
    apply Local.found
    · intro o
      split_ifs
      · exact local_pure _
      apply h.closed
      · intro value
        apply Local.found
        · intro o
          split_ifs
          · exact local_pure _
          · exact ih.bind fun others => local_pure _
        · exact (fails_tupleRest item fuel).bind _
      · exact fun value => Fails.missed (sober_closing .round) ((fails_tupleRest item fuel).bind _)
    · exact hfails.bind _

theorem fails_operand (fuel : Nat) : Fails (operand fuel) := by
  cases fuel with
  | zero => exact fails_exhausted
  | succ fuel =>
    rintro ⟨line, ts⟩ hts v d hv
    obtain ⟨t, e, ht, hv⟩ := bind_done_iff.mp hv
    cases ts with
    | nil => cases ht
    | cons u ts =>
      rcases hts u List.mem_cons_self with hu | hu
      · rw [token_comment hu] at ht
        cases ht
      · have hkind : u.kind = .ident ∧ u.text = "not" := by simpa [Token.isKeyword] using hu
        have hcomment : u.isComment = false := by simp [Token.isComment, hkind.1]
        have hname : isName u = false := by simp [isName, hkind, reserved]
        rw [token_cons hcomment] at ht
        cases ht
        simp only [hkind.1, hname] at hv
        cases hv

theorem fails_expr (fuel : Nat) (level : Level) : Fails (expr fuel level) := by
  induction fuel generalizing level with
  | zero => exact fails_exhausted
  | succ fuel ih =>
    by_cases hbin : level ∈ Level.binary
    · rw [expr_binary hbin]
      exact (ih level.tighter).bind _
    cases level with
    | negation =>
      refine Fails.after (fun o => ?_) (local_token? fun h : False => h.elim)
      split_ifs
      · exact (ih .negation).bind _
      · exact ih .comparison
    | sign =>
      refine Fails.missed (fun t ht => ?_) (ih .access)
      have : t.kind = .ident := by simpa using (Bool.and_eq_true_iff.mp ht).1
      simp [this]
    | access => exact (fails_operand fuel).bind _
    | _ => exact absurd (by decide) hbin

theorem fails_element (fuel : Nat) : Fails (element fuel) := by
  cases fuel with
  | zero => exact fails_exhausted
  | succ fuel => exact (fails_expr fuel .disjunction).bind _

theorem fails_entry (fuel : Nat) : Fails (entry fuel) := by
  cases fuel with
  | zero => exact fails_exhausted
  | succ fuel => exact (fails_expr fuel .disjunction).bind _

theorem fails_argument (fuel : Nat) : Fails (argument fuel) := by
  cases fuel with
  | zero => exact fails_exhausted
  | succ fuel =>
    exact Fails.after (fun label => (fails_expr fuel .disjunction).bind _)
      (local_argumentLabel (clear_nil 0))

variable (more n) in
structure Seamless (fuel : Nat) : Prop where
  expr : ∀ level, Local more (n ≤ level.rank) (expr fuel level)
  operations : ∀ level lhs, Local more (n ≤ level.rank) (operations fuel level lhs)
  accesses : ∀ base, Local more (n ≤ Level.access.rank) (accesses fuel base)
  operand : Local more True (operand fuel)
  parenthesized : Local more True (parenthesized fuel)
  element : Local more (n ≤ Level.disjunction.rank) (element fuel)
  entry : Local more (n ≤ Level.disjunction.rank) (entry fuel)
  argument : Local more (n ≤ Level.disjunction.rank) (argument fuel)

namespace Seamless

theorem zero : Seamless more n 0 where
  expr _ := local_exhausted
  operations _ _ := local_exhausted
  accesses _ := local_exhausted
  operand := local_exhausted
  parenthesized := local_exhausted
  element := local_exhausted
  entry := local_exhausted
  argument := local_exhausted

variable {fuel : Nat} (hmore : Clear n (more.dropWhile Token.isComment))

theorem rank_le_tighter (level : Level) : level.rank ≤ level.tighter.rank := by
  cases level <;> decide

theorem expr_succ (h : Seamless more n fuel) (level : Level) :
    Local more (n ≤ level.rank) (Reading.expr (fuel + 1) level) := by
  by_cases hbin : level ∈ Level.binary
  · rw [expr_binary hbin]
    exact ((h.expr level.tighter).mono fun hn => hn.trans (rank_le_tighter level)).bind fun lhs =>
      h.operations level lhs
  cases level with
  | negation =>
    apply Local.found
    · intro o
      split_ifs
      · exact (h.expr .negation).bind fun operand => local_pure _
      · exact (h.expr .comparison).mono fun hn => hn.trans (by decide)
    · exact fails_expr fuel .comparison
  | sign =>
    apply Local.found
    · intro o
      cases o with
      | some t => exact (h.expr .sign).bind fun operand => local_pure _
      | none => exact (h.expr .access).mono fun hn => hn.trans (by decide)
    · exact fails_expr fuel .access
  | access => exact (h.operand.mono fun _ => trivial).bind fun base => h.accesses base
  | _ => exact absurd (by decide) hbin

include hmore in
theorem operations_succ (h : Seamless more n fuel) (level : Level) (lhs : Expr) :
    Local more (n ≤ level.rank) (Reading.operations (fuel + 1) level lhs) := by
  apply (local_operator? hmore level).bind
  intro op
  cases op with
  | none => exact local_pure _
  | some op =>
    exact ((h.expr level.tighter).mono fun hn => hn.trans (rank_le_tighter level)).bind fun rhs =>
      h.operations level _

include hmore in
theorem accesses_succ (h : Seamless more n fuel) (base : Expr) :
    Local more (n ≤ Level.access.rank) (Reading.accesses (fuel + 1) base) := by
  apply (local_token? fun hn t ht => (clear_access hmore hn t ht).1).bind
  intro o
  split_ifs
  · exact (local_sequence h.argument (fails_argument fuel) .round fuel).bind fun args => h.accesses _
  apply (local_token? fun hn t ht => (clear_access hmore hn t ht).2.1).bind
  intro o
  split_ifs
  · exact (h.expr .disjunction).closed (fun index => (local_expect _).bind fun _ => h.accesses _)
      fun index => (fails_expect (sober_closing .square)).bind _
  apply (local_token? fun hn t ht => (clear_access hmore hn t ht).2.2).bind
  intro o
  split_ifs
  · apply local_token.bind
    intro name
    split_ifs
    · exact h.accesses _
    · exact local_unsupported
  · exact local_pure _

include hmore in
theorem operand_succ (h : Seamless more n fuel) : Local more True (Reading.operand (fuel + 1)) := by
  apply local_token.bind
  intro t
  split
  · split_ifs
    · exact local_pure _
    · exact local_unsupported
  · exact local_pure _
  · exact Local.unlessString hmore (local_pure _)
  · exact (local_sequence h.element (fails_element fuel) .square fuel).bind fun elements => local_pure _
  · exact (local_sequence h.entry (fails_entry fuel) .curly fuel).bind fun entries => local_pure _
  · exact h.parenthesized
  · exact local_unsupported

theorem parenthesized_succ (h : Seamless more n fuel) : Local more True (Reading.parenthesized (fuel + 1)) := by
  have hrest := fails_tupleRest (Reading.expr fuel .disjunction) fuel
  apply Local.found
  · intro o
    split_ifs
    · exact local_pure _
    apply (h.expr .disjunction).closed
    · intro first
      apply Local.found
      · intro o
        split_ifs
        · exact local_pure _
        · exact (local_tupleRest (h.expr .disjunction) (fails_expr fuel .disjunction) fuel).bind fun others =>
            local_pure _
      · exact hrest.bind _
    · exact fun first => Fails.missed (sober_closing .round) (hrest.bind _)
  · exact (fails_expr fuel .disjunction).bind _

theorem element_succ (h : Seamless more n fuel) :
    Local more (n ≤ Level.disjunction.rank) (Reading.element (fuel + 1)) :=
  (h.expr .disjunction).bind fun _ => local_pure _

theorem entry_succ (h : Seamless more n fuel) :
    Local more (n ≤ Level.disjunction.rank) (Reading.entry (fuel + 1)) :=
  (h.expr .disjunction).bind fun _ => (local_expect _).bind fun _ =>
    (h.expr .disjunction).bind fun _ => local_pure _

include hmore in
theorem argument_succ (h : Seamless more n fuel) :
    Local more (n ≤ Level.disjunction.rank) (Reading.argument (fuel + 1)) :=
  (local_argumentLabel hmore).closed (fun _ => (h.expr .disjunction).bind fun _ => local_pure _)
    fun _ => (fails_expr fuel .disjunction).bind _

include hmore in
theorem succ (h : Seamless more n fuel) : Seamless more n (fuel + 1) where
  expr := h.expr_succ
  operations := h.operations_succ hmore
  accesses := h.accesses_succ hmore
  operand := h.operand_succ hmore
  parenthesized := h.parenthesized_succ
  element := h.element_succ
  entry := h.entry_succ
  argument := h.argument_succ hmore

end Seamless

theorem seamless (hmore : Clear n (more.dropWhile Token.isComment)) (fuel : Nat) : Seamless more n fuel := by
  induction fuel with
  | zero => exact .zero
  | succ fuel ih => exact ih.succ hmore

theorem expr_before {fuel fuel' line line' : Nat} {level : Level} {ts : List Token} {e : Expr}
    (h : expr fuel level ⟨line', ts⟩ = .done e ⟨line, []⟩)
    (hmore : Clear level.rank (more.dropWhile Token.isComment)) (hf : level.enough (ts ++ more) ≤ fuel') (l : Nat) :
    expr fuel' level ⟨l, ts ++ more⟩ = .done e ⟨lastLine l ts, more⟩ := by
  have hts : level.enough ts ≤ fuel' := by
    simp only [Level.enough, List.length_append] at hf ⊢
    omega
  rw [fresh_expr _ _ line' l] at h
  have hread := expr_of_enough h hts
  obtain ⟨⟨read, hrest, hline⟩, hsame | hloose⟩ := (seamless hmore fuel').expr level _ _ _ hread
  · rw [List.append_nil] at hrest
    dsimp only at hrest hline
    rw [hrest, ← hline]
    rw [hrest] at hsame
    exact hsame
  · exact absurd (Nat.le_refl _) hloose.1

end Reading
end BuildSync
