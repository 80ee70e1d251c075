import BuildSync.Proofs.Sync.Replace
import Mathlib.Data.List.Induction

/-! Histories of appended and removed rules. -/

namespace BuildSync

namespace Statement

variable {xs cs ss : List Statement} {kind : String} {name : Option String}

theorem isRuleOf_of_isComment {s : Statement} (h : s.isComment = true) (kind : String) (name : Option String) :
    s.isRuleOf kind name = false := by
  cases s with
  | comment => rfl
  | _ => cases h

theorem map_rule_filter (ss : List Statement) (kind : String) (name : Option String) :
    ((ss.filterMap rule?).filter (·.isOf kind name)).map rule = ss.filter (·.isRuleOf kind name) := by
  induction ss with
  | nil => rfl
  | cons s ss ih =>
    cases s with
    | rule r => cases h : r.isOf kind name <;> simpa [rule?, isRuleOf, h] using ih
    | _ => exact ih

theorem suffix_trailingComments (hc : ∀ s ∈ cs, s.isComment = true) (h : cs <:+ ss) :
    cs <:+ trailingComments ss := by
  obtain ⟨xs, rfl⟩ := h
  rw [trailingComments, List.reverse_append,
    List.takeWhile_append_of_pos fun s hs => hc s (List.mem_reverse.mp hs), List.reverse_append,
    List.reverse_reverse]
  exact List.suffix_append ..

end Statement

namespace Document

open Statement

inductive Amendment where
  | append (r : Rule)
  | remove (kind : String) (name : Option String)

namespace Amendment

def run (d : Document) : Amendment → List Rule × Document
  | append r => ([], d.appendRule r)
  | remove kind name => d.removeRules kind name

def putIn? : Amendment → Option Rule
  | append r => some r
  | remove .. => none

def takes (s : Statement) : Amendment → Bool
  | append _ => false
  | remove kind name => s.isRuleOf kind name

def runAll (d : Document) (as : List Amendment) : Document :=
  as.foldl (fun d a => (a.run d).2) d

def handedOut (d : Document) : List Amendment → List (List Rule)
  | [] => []
  | a :: as => (a.run d).1 :: handedOut (a.run d).2 as

def lasting : List Amendment → List Rule
  | [] => []
  | append r :: as => if as.any (takes (rule r)) then lasting as else r :: lasting as
  | remove .. :: as => lasting as

variable {d : Document} {as : List Amendment}

theorem runAll_append (d : Document) (as bs : List Amendment) :
    runAll d (as ++ bs) = runAll (runAll d as) bs := List.foldl_append

theorem handedOut_append (d : Document) (as bs : List Amendment) :
    handedOut d (as ++ bs) = handedOut d as ++ handedOut (runAll d as) bs := by
  induction as generalizing d with
  | nil => rfl
  | cons a as ih => exact congrArg (_ :: ·) (ih _)

theorem length_handedOut (d : Document) (as : List Amendment) : (handedOut d as).length = as.length := by
  induction as generalizing d with
  | nil => rfl
  | cons a as ih => exact congrArg (· + 1) (ih _)

theorem lasting_append (as : List Amendment) (r : Rule) : lasting (as ++ [append r]) = lasting as ++ [r] := by
  induction as with
  | nil => rfl
  | cons a as ih =>
    cases a with
    | append s =>
      simp only [List.cons_append, lasting, List.any_append, List.any_cons, takes, List.any_nil, Bool.or_false, ih]
      split <;> rfl
    | remove kind name => exact ih

theorem lasting_remove (as : List Amendment) (kind : String) (name : Option String) :
    lasting (as ++ [remove kind name]) = (lasting as).filter (!·.isOf kind name) := by
  induction as with
  | nil => rfl
  | cons a as ih =>
    cases a with
    | append r =>
      have htakes : takes (rule r) (remove kind name) = r.isOf kind name := rfl
      simp only [List.cons_append, lasting, List.any_append, List.any_cons, htakes, List.any_nil, Bool.or_false, ih]
      cases as.any (takes (rule r)) <;> cases h : r.isOf kind name <;> simp [h]
    | remove => exact ih

/-- The statements of a document that has been changed: what is left of the old ones, with the new rules
in front of the comments at its end. -/
structure Amended (old : List Statement) (as : List Amendment) (ss front back : List Statement) : Prop where
  kept : old.filter (fun s => !as.any (takes s)) = front ++ back
  all : ss = front ++ (lasting as).map rule ++ back
  comments : ∀ s ∈ back, s.isComment = true
  trailing : trailingComments old <:+ back

theorem amended_nil (old : List Statement) :
    Amended old [] old (upToLastCode old) (trailingComments old) where
  kept := by simp [upToLastCode_append_trailingComments]
  all := by simp [lasting, upToLastCode_append_trailingComments]
  comments := isComment_trailingComments old
  trailing := List.suffix_rfl

variable {old ss front back : List Statement}

theorem Amended.append (h : Amended old as ss front back) (r : Rule) :
    ∃ front back, Amended old (as ++ [.append r]) (Statement.append ss (rule r)) front back := by
  have hkept : old.filter (fun s => !(as ++ [Amendment.append r]).any (takes s)) = front ++ back := by
    simpa [takes] using h.kept
  have hall := h.all
  cases hlast : (lasting as).getLast? with
  | none =>
    rw [List.getLast?_eq_none_iff] at hlast
    have hss : ss = front ++ back := by simpa [hlast] using hall
    refine ⟨upToLastCode ss, trailingComments ss, ?_, ?_, isComment_trailingComments ss, ?_⟩
    · rw [hkept, upToLastCode_append_trailingComments, hss]
    · simp [Statement.append, lasting_append, hlast]
    · exact h.trailing.trans (suffix_trailingComments h.comments ⟨front, hss.symm⟩)
  | some last =>
    obtain ⟨rules, hrules⟩ := List.getLast?_eq_some_iff.mp hlast
    have hcoded : Coded (front ++ (lasting as).map rule) := by
      rw [hrules, List.map_append, ← List.append_assoc]
      exact coded_concat rfl
    obtain ⟨hup, htrailing⟩ := upToLastCode_append hcoded h.comments
    refine ⟨front, back, hkept, ?_, h.comments, h.trailing⟩
    rw [Statement.append, hall, hup, htrailing, lasting_append]
    simp

theorem Amended.remove (h : Amended old as ss front back) (kind : String) (name : Option String) :
    ∃ front back, Amended old (as ++ [.remove kind name]) (ss.filter (!·.isRuleOf kind name)) front back := by
  have hback : back.filter (!·.isRuleOf kind name) = back :=
    List.filter_eq_self.mpr fun s hs => by rw [isRuleOf_of_isComment (h.comments s hs)]; rfl
  refine ⟨front.filter (!·.isRuleOf kind name), back, ?_, ?_, h.comments, h.trailing⟩
  · have hsplit : (fun s => !(as ++ [Amendment.remove kind name]).any (takes s)) =
        fun s => !s.isRuleOf kind name && !as.any (takes s) := by
      funext s
      simp [takes, Bool.and_comm]
    rw [hsplit, ← List.filter_filter, h.kept, List.filter_append, hback]
  · rw [h.all, List.filter_append, List.filter_append, hback, lasting_remove, List.filter_map]
    rfl

theorem amended_runAll (d : Document) (as : List Amendment) :
    ∃ front back, Amended d.statements as (runAll d as).statements front back := by
  induction as using List.reverseRecOn with
  | nil => exact ⟨_, _, amended_nil d.statements⟩
  | append_singleton as a ih =>
    obtain ⟨front, back, h⟩ := ih
    rw [runAll_append]
    cases a with
    | append r => exact h.append r
    | remove kind name => exact h.remove kind name

theorem perm_run (d : Document) (a : Amendment) :
    ((a.run d).2.statements ++ (a.run d).1.map rule).Perm (d.statements ++ a.putIn?.toList.map rule) := by
  cases a with
  | append r =>
    simp only [run, appendRule, Document.append, Statement.append, putIn?, Option.toList_some, List.map_cons,
      List.map_nil, List.append_nil]
    conv_rhs => rw [← upToLastCode_append_trailingComments d.statements]
    exact List.perm_middle.trans (List.perm_append_singleton ..).symm
  | remove kind name =>
    simp only [run, removeRules, allRules, map_rule_filter, putIn?, Option.toList_none, List.map_nil,
      List.append_nil]
    exact List.perm_append_comm.trans (List.filter_append_perm _ _)

theorem perm_runAll (d : Document) (as : List Amendment) :
    ((runAll d as).statements ++ (handedOut d as).flatten.map rule).Perm
      (d.statements ++ (as.filterMap putIn?).map rule) := by
  induction as generalizing d with
  | nil => exact List.Perm.refl _
  | cons a as ih =>
    have hputIn : (a :: as).filterMap putIn? = a.putIn?.toList ++ as.filterMap putIn? := by
      cases h : a.putIn? <;> simp [h]
    have hout : (handedOut d (a :: as)).flatten.map rule =
        (a.run d).1.map rule ++ (handedOut (a.run d).2 as).flatten.map rule := List.map_append
    rw [hputIn, List.map_append, ← List.append_assoc, hout]
    calc (runAll (a.run d).2 as).statements ++ ((a.run d).1.map rule ++ _)
        |>.Perm ((a.run d).1.map rule ++ ((runAll (a.run d).2 as).statements ++ _)) := by
          rw [← List.append_assoc, ← List.append_assoc]
          exact List.perm_append_comm.append_right _
      _ |>.Perm ((a.run d).1.map rule ++ ((a.run d).2.statements ++ _)) := (ih _).append_left _
      _ |>.Perm (d.statements ++ a.putIn?.toList.map rule ++ (as.filterMap putIn?).map rule) := by
          rw [← List.append_assoc]
          exact (List.perm_append_comm.trans (perm_run d a)).append_right _

theorem runAll_keeps_the_rest (d : Document) (as : List Amendment) :
    (∃ front back, d.statements.filter (fun s => !as.any (takes s)) = front ++ back ∧
      (runAll d as).statements = front ++ (lasting as).map rule ++ back ∧
      (∀ s ∈ back, s.isComment = true) ∧ trailingComments d.statements <:+ back) ∧
    ((runAll d as).statements ++ (handedOut d as).flatten.map rule).Perm
      (d.statements ++ (as.filterMap putIn?).map rule) ∧
    ∀ before kind name after, as = before ++ .remove kind name :: after →
      ∃ rules, (handedOut d as)[before.length]? = some rules ∧
        rules.map rule = (runAll d before).statements.filter (·.isRuleOf kind name) ∧
        ∀ s ∈ (runAll d (before ++ [.remove kind name])).statements, s.isRuleOf kind name = false := by
  refine ⟨?_, perm_runAll d as, fun before kind name after has => ?_⟩
  · obtain ⟨front, back, h⟩ := amended_runAll d as
    exact ⟨front, back, h.kept, h.all, h.comments, h.trailing⟩
  · refine ⟨((runAll d before).removeRules kind name).1, ?_, map_rule_filter .., fun s hs => ?_⟩
    · rw [has, handedOut_append, ← length_handedOut d before, List.getElem?_append_right (le_refl _), Nat.sub_self]
      rfl
    · rw [runAll_append] at hs
      simpa using (List.mem_filter.mp hs).2

def paired : Document :=
  ⟨"WORKSPACE", .workspace, [.rule ((Rule.new "rpm").setText "name" "a"),
    .rule ((Rule.new "rpm").setText "name" "b"), .comment ["# end"]]⟩

theorem runAll_keeps_the_rest_paired :
    let as := [append ((Rule.new "rpm").setText "name" "c"), remove "rpm" (some "a")]
    (handedOut paired as)[1]? = some [(Rule.new "rpm").setText "name" "a"] ∧
      ∀ s ∈ (runAll paired as).statements, s.isRuleOf "rpm" (some "a") = false := by
  obtain ⟨-, -, hremoved⟩ := runAll_keeps_the_rest paired
    [append ((Rule.new "rpm").setText "name" "c"), remove "rpm" (some "a")]
  obtain ⟨rules, hrules, hmap, hgone⟩ := hremoved [append _] "rpm" (some "a") [] rfl
  have hnew : Rule.new "rpm" = ⟨[], ⟨.ident "rpm", .empty⟩, none⟩ := Rule.new_eq (by decide)
  have hone : rules.map rule = [(Rule.new "rpm").setText "name" "a"].map rule := by
    rw [hmap, paired, hnew]
    decide +kernel
  obtain rfl := List.map_injective_iff.mpr (fun _ _ => rule.inj) hone
  exact ⟨hrules, hgone⟩

end Amendment

end Document
end BuildSync
