import BuildSync.Document
import BuildSync.Proofs.Statement.RoundTrip

namespace BuildSync

namespace Rule

def reread (r : Rule) : Rule := ⟨r.comments, ⟨r.call.callee.reread, r.call.args.reread⟩, r.suffix⟩

def dotsNumber (r : Rule) : Bool := r.call.callee.dotsNumber || r.call.args.dotsNumber

@[simp] theorem kind_reread (r : Rule) : r.reread.kind = r.kind := by
  simp only [kind, reread, Expr.dottedName?_reread]

@[simp] theorem args_reread (r : Rule) : r.reread.args = r.args.map Item.reread :=
  r.call.args.items_reread

@[simp] theorem spreads_reread (r : Rule) : r.reread.spreads = r.spreads := by
  have hvalue : (fun i : Item => i.value.spreads) ∘ Item.reread = fun i => i.value.spreads :=
    funext fun i => by simp [Expr.spreads_reread]
  simp only [spreads, kind_reread, args_reread, List.length_map, List.any_map, hvalue]
  simp [reread]

variable {strict : Bool} {r : Rule}

theorem print_reread (h : (Expr.call r.call.callee r.call.args).Fits strict) : r.reread.print = r.print := by
  cases h with
  | call hc _ hs hv =>
    have hargs := Sequence.print_reread
      (hs.all (by decide) fun i hi level spread => Expr.print_reread (hv i hi) level spread) 0
    simp only [print, spreads_reread]
    simp only [reread, Expr.print_reread hc, hargs]

theorem alike_reread (h : (Expr.call r.call.callee r.call.args).Fits strict) :
    r.reread.alike r = !r.dotsNumber := by
  have := Expr.alike_reread h
  simp only [Expr.reread, Expr.alike, Expr.dotsNumber] at this
  simp [alike, Call.alike, reread, this, dotsNumber]

end Rule

namespace Statement

def reread : Statement → Statement
  | comment lines => comment lines
  | rule r => rule r.reread
  | verbatim comments text => verbatim comments text

def dotsNumber : Statement → Bool
  | rule r => r.dotsNumber
  | _ => false

variable {strict : Bool} {s : Statement}

theorem print_reread (h : s.Fits strict) : s.reread.print = s.print := by
  cases h with
  | rule _ hcall => exact Rule.print_reread hcall
  | _ => rfl

theorem alike_reread (h : s.Fits strict) : s.reread.alike s = !s.dotsNumber := by
  cases h with
  | rule _ hcall => exact Rule.alike_reread hcall
  | _ => simp [reread, alike, dotsNumber]

theorem fits_reread (h : s.Fits strict) : s.reread.Fits true := by
  cases h with
  | comment hne h => exact .comment hne h
  | rule hc hcall hname hs =>
    exact .rule hc (Expr.fits_reread hcall) (by rwa [Rule.reread, Expr.dottedName?_reread]) hs
  | verbatim hc h => exact .verbatim hc h

variable {ss : List Statement}

theorem printAll_reread (h : ∀ s ∈ ss, s.Fits strict) : printAll (ss.map reread) = printAll ss := by
  induction ss with
  | nil => rfl
  | cons s ss ih =>
    obtain ⟨hs, hss⟩ := List.forall_mem_cons.mp h
    rw [List.map_cons, printAll, printAll, print_reread hs, ih hss, List.isEmpty_map]

theorem allAlike_reread (h : ∀ s ∈ ss, s.Fits strict) :
    allAlike (ss.map reread) ss = !ss.any dotsNumber := by
  induction ss with
  | nil => rfl
  | cons s ss ih =>
    obtain ⟨hs, hss⟩ := List.forall_mem_cons.mp h
    simp [allAlike, alike_reread hs, ih hss]

theorem ofSource_reread (h : ∀ s ∈ ss, s.Fits strict) : ofSource (printAll ss) = .ok (ss.map reread) := by
  rw [← printAll_reread h]
  exact ofSource_printAll (List.forall_mem_map.mpr fun s hs => fits_reread (h s hs))

end Statement
end BuildSync
