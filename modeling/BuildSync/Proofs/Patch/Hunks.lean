import BuildSync.Proofs.Patch.Blocks

namespace BuildSync

open Patch

namespace Patch

/-- What the header of a hunk tells about its place in either text. Where the hunk begins or ends with
lines of one sort only, with nothing kept on their other side, the range of the other text may be wrong,
unless the whole diff has changes of that sort only. -/
structure Passage.Headed (whole : Spot) (exact : Prop) (p : Spot) (x : Passage) : Prop where
  lines : x.lines ≠ []
  front : edge x.marks ≠ [] → p = ⟨0, 0⟩
  back : edge x.marks.reverse ≠ [] → p.past (oldTexts x.lines).length (newTexts x.lines).length = whole
  old : exact ∨ Shows .removed x.marks ∧ Shows .removed x.marks.reverse →
    x.old = ⟨p.old, (oldTexts x.lines).length⟩
  new : exact ∨ Shows .added x.marks ∧ Shows .added x.marks.reverse →
    x.new = ⟨p.new, (newTexts x.lines).length⟩

/-- Hunks lead from one text to another: between them the texts are the same, and each stands where
its old lines are in the one and its new lines in the other. -/
inductive Patches (fits : Spot → Passage → Prop) : Spot → List String → List Passage → List String → Prop
  | done (p : Spot) (rest : List String) : Patches fits p rest [] rest
  | passage {p : Spot} {old new : List String} {x : Passage} {xs : List Passage} (gap : List String)
      (h : fits (p.past gap.length gap.length) x)
      (hrest : Patches fits
        ((p.past gap.length gap.length).past (oldTexts x.lines).length (newTexts x.lines).length) old xs new) :
      Patches fits p (gap ++ oldTexts x.lines ++ old) (x :: xs) (gap ++ newTexts x.lines ++ new)

def OneSided (xs : List Passage) : Prop := (∀ x ∈ xs, .removed ∉ x.marks) ∨ ∀ x ∈ xs, .added ∉ x.marks

theorem Patches.exists_fits {fits : Spot → Passage → Prop} {p : Spot} {old new : List String} {xs : List Passage}
    (h : Patches fits p old xs new) {x : Passage} (hx : x ∈ xs) : ∃ q, fits q x := by
  induction h with
  | done => cases hx
  | passage gap h _ ih =>
    rcases List.mem_cons.mp hx with rfl | hx
    · exact ⟨_, h⟩
    · exact ih hx

end Patch

namespace Hunk

variable {t : Texts} {exact : Prop} {h : Hunk} {p q r s : Spot} {b : Block} {bs : List Block} {xs : List Passage}

def passage (t : Texts) (h : Hunk) : Passage :=
  match h.head?, h.getLast? with
  | some first, some last =>
    ⟨⟨first.old, last.old + last.oldLength - first.old⟩, ⟨first.new, last.new + last.newLength - first.new⟩,
      h.flatMap (Block.lines t)⟩
  | _, _ => ⟨⟨0, 0⟩, ⟨0, 0⟩, []⟩

section Ends

variable {first last : Block} (hfirst : h.head? = some first) (hlast : h.getLast? = some last)

include hfirst hlast

theorem passage_eq : h.passage t =
    ⟨⟨first.old, last.old + last.oldLength - first.old⟩, ⟨first.new, last.new + last.newLength - first.new⟩,
      h.flatMap (Block.lines t)⟩ := by
  rw [passage, hfirst, hlast]

theorem edges_passage (hlead : Block.Leads t exact p h q) (halt : (h.map Block.kept).IsChain (· ≠ ·)) :
    edge (h.passage t).marks = first.changes ∧ edge (h.passage t).marks.reverse = last.changes.reverse := by
  have hmarks : (h.passage t).marks = h.flatMap Block.marks := by
    rw [Passage.marks, passage_eq hfirst hlast]
    exact Block.marks_of_leads hlead
  rw [hmarks]
  constructor
  · obtain ⟨rest, rfl⟩ := List.head?_eq_some_iff.mp hfirst
    exact Block.edge_marks hlead halt
  · obtain ⟨front, rfl⟩ := List.getLast?_eq_some_iff.mp hlast
    exact Block.edge_marks_reverse hlead halt

theorem lies_ends (hlead : Block.Leads t exact p h q) :
    first.Lies t exact p ∧ ∃ r, last.Lies t exact r ∧ q = last.past r := by
  constructor
  · obtain ⟨rest, rfl⟩ := List.head?_eq_some_iff.mp hfirst
    exact hlead.1
  · obtain ⟨front, rfl⟩ := List.getLast?_eq_some_iff.mp hlast
    obtain ⟨r, -, hlies, hq⟩ := leads_append.mp hlead
    exact ⟨r, hlies, hq.symm⟩

theorem headed (hlead : Block.Leads t exact p h q) (halt : (h.map Block.kept).IsChain (· ≠ ·))
    (hfront : first.kept = false → p = ⟨0, 0⟩) (hback : last.kept = false → q = t.ends) :
    (h.passage t).Headed t.ends exact p := by
  obtain ⟨hedge, hedge'⟩ := edges_passage hfirst hlast hlead halt
  obtain ⟨hliesFirst, r, hliesLast, hr⟩ := lies_ends hfirst hlast hlead
  obtain ⟨m, n, hq, hold, hnew⟩ := Block.texts_of_leads hlead
  have holdEnd : r.old + last.oldLength = p.old + m := congrArg Spot.old (hr.symm.trans hq)
  have hnewEnd : r.new + last.newLength = p.new + n := congrArg Spot.new (hr.symm.trans hq)
  have holdLength : (oldTexts (h.passage t).lines).length = m := by
    rw [passage_eq hfirst hlast, hold, length_slice (holdEnd ▸ hliesLast.oldEnd)]
  have hnewLength : (newTexts (h.passage t).lines).length = n := by
    rw [passage_eq hfirst hlast, hnew, length_slice (hnewEnd ▸ hliesLast.newEnd)]
  refine ⟨?_, fun hedges => hfront ?_, fun hedges => ?_, fun hs => ?_, fun hs => ?_⟩
  · obtain ⟨rest, rfl⟩ := List.head?_eq_some_iff.mp hfirst
    rw [passage_eq hfirst hlast]
    exact List.append_ne_nil_of_left_ne_nil hliesFirst.lines_ne_nil _
  · rw [hedge] at hedges
    obtain ⟨mark, hmark⟩ := List.exists_mem_of_ne_nil _ hedges
    exact (Block.mem_changes.mp hmark).1
  · rw [hedge'] at hedges
    obtain ⟨mark, hmark⟩ := List.exists_mem_of_ne_nil _ hedges
    rw [holdLength, hnewLength, ← hq]
    exact hback (Block.mem_changes.mp (List.mem_reverse.mp hmark)).1
  · rw [Shows, Shows, hedge, hedge', List.reverse_eq_nil_iff, List.mem_reverse] at hs
    have hplace := hliesFirst.old_of_shows (hs.imp_right And.left)
    have hplace' := hliesLast.old_of_shows (hs.imp_right And.right)
    rw [holdLength, passage_eq hfirst hlast, hplace, hplace', holdEnd, Nat.add_sub_cancel_left]
  · rw [Shows, Shows, hedge, hedge', List.reverse_eq_nil_iff, List.mem_reverse] at hs
    have hplace := hliesFirst.new_of_shows (hs.imp_right And.left)
    have hplace' := hliesLast.new_of_shows (hs.imp_right And.right)
    rw [hnewLength, passage_eq hfirst hlast, hplace, hplace', hnewEnd, Nat.add_sub_cancel_left]

end Ends

theorem patches_cons (hgap : t.Gap p q) (hne : h ≠ []) (hlead : Block.Leads t exact q h r)
    (halt : (h.map Block.kept).IsChain (· ≠ ·)) (hfront : (h.map Block.kept).head? = some false → q = ⟨0, 0⟩)
    (hback : (h.map Block.kept).getLast? = some false → r = t.ends)
    (hrest : Patches (Passage.Headed t.ends exact) r (t.old.toList.drop r.old) xs (t.new.toList.drop r.new)) :
    Patches (Passage.Headed t.ends exact) p (t.old.toList.drop p.old) (h.passage t :: xs)
      (t.new.toList.drop p.new) := by
  have hfirst := List.head?_eq_some_head hne
  have hlast := List.getLast?_eq_some_getLast hne
  have hheaded := headed hfirst hlast hlead halt
    (fun hk => hfront (by rw [List.head?_map, hfirst, Option.map_some, hk]))
    (fun hk => hback (by rw [List.getLast?_map, hlast, Option.map_some, hk]))
  obtain ⟨hold, hnew⟩ : r.old ≤ t.old.size ∧ r.new ≤ t.new.size := by
    obtain ⟨-, s, hlies, rfl⟩ := lies_ends hfirst hlast hlead
    exact ⟨hlies.oldEnd, hlies.newEnd⟩
  obtain ⟨k, hshared, rfl⟩ := hgap
  obtain ⟨m, n, rfl, holdTexts, hnewTexts⟩ := Block.texts_of_leads hlead
  have hlines : (h.passage t).lines = h.flatMap (Block.lines t) := by rw [passage_eq hfirst hlast]
  rw [← hlines] at holdTexts hnewTexts
  have hk := Texts.length_slice_shared hshared
  have hm : (oldTexts (h.passage t).lines).length = m := by
    rw [holdTexts, length_slice hold]
  have hn : (newTexts (h.passage t).lines).length = n := by
    rw [hnewTexts, length_slice hnew]
  have holdDrop : t.old.toList.drop p.old = slice t.old p.old k ++ oldTexts (h.passage t).lines ++
      t.old.toList.drop ((p.past k k).past m n).old := by
    rw [holdTexts, List.append_assoc, ← slice_append_drop t.old p.old k]
    congr 1
    exact (slice_append_drop t.old (p.old + k) m).symm
  have hnewDrop : t.new.toList.drop p.new = slice t.old p.old k ++ newTexts (h.passage t).lines ++
      t.new.toList.drop ((p.past k k).past m n).new := by
    rw [hnewTexts, List.append_assoc, Texts.slice_shared hshared, ← slice_append_drop t.new p.new k]
    congr 1
    exact (slice_append_drop t.new (p.new + k) n).symm
  rw [holdDrop, hnewDrop]
  apply Patches.passage
  · rwa [hk]
  · rwa [hk, hm, hn]

theorem patches_nil (hgap : t.Gap p t.ends) :
    Patches (Passage.Headed t.ends exact) p (t.old.toList.drop p.old) [] (t.new.toList.drop p.new) := by
  have hdrop : t.old.toList.drop p.old = t.new.toList.drop p.new := by
    obtain ⟨n, hshared, hends⟩ := hgap
    have hold : p.old + n = t.old.size := congrArg Spot.old hends.symm
    have hnew : p.new + n = t.new.size := congrArg Spot.new hends.symm
    rw [← slice_append_drop t.old p.old n, ← slice_append_drop t.new p.new n, Texts.slice_shared hshared, hold, hnew,
      ← Array.length_toList, ← Array.length_toList, List.drop_length, List.drop_length]
  rw [hdrop]
  exact .done p _

theorem gap_of_changes (hchanges : ¬changes h = true) (hlead : Block.Leads t exact p h q) : t.Gap p q := by
  match h, hlead with
  | [], hlead =>
    obtain rfl : p = q := hlead
    exact .refl p
  | [b], ⟨hb, hq⟩ =>
    have hk : b.kept = true := by simpa [changes] using hchanges
    obtain ⟨hlength, hshared⟩ := hb.shared hk
    obtain rfl : b.past p = q := hq
    refine ⟨b.oldLength, hshared, ?_⟩
    rw [Block.past, ← hlength]
  | b :: c :: bs, _ => simp [changes] at hchanges

theorem leads_context (hb : b.Lies t exact p) (hk : b.kept = true) (hlong : 2 * context < b.oldLength) :
    ∃ q r, Block.Leads t exact p [b.take context] q ∧ t.Gap q r ∧
      Block.Leads t exact r [b.takeBack context] (b.past p) := by
  have hcontext : 0 < context := by decide
  have hsum : context + (b.oldLength - 2 * context) = b.oldLength - context := by omega
  refine ⟨p.past context context, p.past (b.oldLength - context) (b.oldLength - context), ?_, ?_, ?_⟩
  · refine ⟨hb.take hk hcontext, ?_⟩
    rw [hb.past_take hk, Nat.min_eq_right (by omega)]
    rfl
  · refine ⟨b.oldLength - 2 * context, ((hb.shared hk).2.mono ?_).drop, ?_⟩
    · rw [hsum]
      exact Nat.sub_le _ _
    · rw [Spot.past_past, hsum]
  · exact ⟨hb.dropFront hk (by omega), hb.past_dropFront hk (Nat.sub_le _ _)⟩

theorem patches_split {hunk : Hunk} (hgap : t.Gap p q) (hhunk : Block.Leads t exact q hunk r)
    (hbs : Block.Leads t exact r bs s) (hend : t.Gap s t.ends)
    (halt : ((hunk ++ bs).map Block.kept).IsChain (· ≠ ·))
    (hfront : ((hunk ++ bs).map Block.kept).head? = some false → q = ⟨0, 0⟩)
    (hback : ((hunk ++ bs).map Block.kept).getLast? = some false → s = t.ends) :
    Patches (Passage.Headed t.ends exact) p (t.old.toList.drop p.old) ((split hunk bs).map (passage t))
      (t.new.toList.drop p.new) := by
  -- on the blocks still to come, for every hunk begun with those before them
  induction bs generalizing hunk p q r with
  | nil =>
    obtain rfl : r = s := hbs
    rw [List.append_nil] at halt hfront hback
    rw [split]
    split_ifs with hchanges
    · have hne : hunk ≠ [] := by
        rintro rfl
        cases hchanges
      exact patches_cons hgap hne hhunk halt hfront hback (patches_nil hend)
    · exact patches_nil (hgap.trans ((gap_of_changes hchanges hhunk).trans hend))
  | cons b bs ih =>
    obtain ⟨hb, hbs⟩ := hbs
    rw [split]
    split_ifs with hlong
    · obtain ⟨hk, hlength⟩ := hlong
      obtain ⟨u, v, htaken, hbetween, hdropped⟩ := leads_context hb hk hlength
      have htake : (hunk ++ [b.take context]).map Block.kept = hunk.map Block.kept ++ [true] := by
        rw [List.map_append, List.map_singleton, Block.take, hk]
      have hdrop : ([b.takeBack context] ++ bs).map Block.kept = true :: bs.map Block.kept := by
        rw [List.singleton_append, List.map_cons, Block.takeBack, Block.dropFront, hk]
      rw [List.map_append, List.map_cons, hk] at halt hfront hback
      rw [List.map_cons]
      refine patches_cons hgap (List.append_ne_nil_of_right_ne_nil _ (List.cons_ne_nil _ _))
        (leads_append.mpr ⟨r, hhunk, htaken⟩) ?_ ?_ ?_ (ih hbetween hdropped hbs ?_ ?_ ?_)
      · rw [htake]
        rw [List.append_cons] at halt
        exact halt.left_of_append
      · rw [htake]
        intro hhead
        apply hfront
        rw [List.append_cons, List.head?_append, hhead]
        rfl
      -- a hunk does not end in changes here, and the next one does not begin with any
      · simp [htake]
      · rw [hdrop]
        exact halt.right_of_append
      · rw [hdrop]
        simp
      · rw [hdrop]
        intro hlast
        apply hback
        rw [List.getLast?_append, hlast]
        rfl
    · rw [← List.singleton_append, ← List.append_assoc] at halt hfront hback
      exact ih hgap (leads_append.mpr ⟨r, hhunk, hb, rfl⟩) hbs halt hfront hback

theorem leads_trimFirst (h : Block.Leads t exact p bs q) : ∃ r, t.Gap p r ∧ Block.Leads t exact r (trimFirst bs) q ∧
    ((bs.map Block.kept).head? = some false → r = p) := by
  cases bs with
  | nil => exact ⟨p, .refl p, h, fun _ => rfl⟩
  | cons b bs =>
    obtain ⟨hb, hbs⟩ := h
    rw [trimFirst]
    split_ifs with hk
    · have hpos := hb.oldLength_pos hk
      have hcontext : 0 < context := by decide
      refine ⟨p.past (b.oldLength - context) (b.oldLength - context), ?_, ⟨hb.dropFront hk (by omega), ?_⟩, ?_⟩
      · exact ⟨_, (hb.shared hk).2.mono (Nat.sub_le _ _), rfl⟩
      · rwa [Block.takeBack, hb.past_dropFront hk (Nat.sub_le _ _)]
      · simp [hk]
    · exact ⟨p, .refl p, ⟨hb, hbs⟩, fun _ => rfl⟩

theorem leads_trimLast (h : Block.Leads t exact p bs q) : ∃ r, Block.Leads t exact p (trimLast bs) r ∧ t.Gap r q ∧
    ((bs.map Block.kept).getLast? = some false → r = q) := by
  rw [trimLast]
  cases hback : bs.reverse with
  | nil =>
    rw [List.reverse_eq_nil_iff.mp hback] at h
    exact ⟨q, h, .refl q, fun _ => rfl⟩
  | cons b rest =>
    rw [List.reverse_eq_cons_iff.mp hback] at h ⊢
    obtain ⟨r, hrest, hb, hq⟩ := leads_append.mp h
    obtain rfl : b.past r = q := hq
    dsimp only
    rw [List.reverse_cons]
    split_ifs with hk
    · obtain ⟨hlength, hshared⟩ := hb.shared hk
      refine ⟨(b.take context).past r, leads_append.mpr ⟨r, hrest, hb.take hk (by decide), rfl⟩, ?_, ?_⟩
      · have hsum := Nat.add_sub_cancel' (Nat.min_le_left b.oldLength context)
        rw [hb.past_take hk]
        refine ⟨b.oldLength - min b.oldLength context, Texts.Shared.drop (by rwa [hsum]), ?_⟩
        rw [Spot.past_past, hsum, Block.past, ← hlength]
      · simp [hk]
    · exact ⟨b.past r, leads_append.mpr ⟨r, hrest, hb, rfl⟩, .refl _, fun _ => rfl⟩

theorem patches_ofBlocks (h : Block.Leads t exact ⟨0, 0⟩ bs t.ends) (halt : (bs.map Block.kept).IsChain (· ≠ ·)) :
    Patches (Passage.Headed t.ends exact) ⟨0, 0⟩ t.old.toList ((ofBlocks bs).map (passage t)) t.new.toList := by
  obtain ⟨p, hgap, hfirst, hfront⟩ := leads_trimFirst h
  obtain ⟨q, hlast, hgap', hback⟩ := leads_trimLast hfirst
  rw [map_kept_trimFirst] at hback
  have hnil : Block.Leads t exact p [] p := rfl
  apply patches_split hgap hnil hlast hgap'
  · rwa [List.nil_append, map_kept_trimLast, map_kept_trimFirst]
  · rwa [List.nil_append, map_kept_trimLast, map_kept_trimFirst]
  · rwa [List.nil_append, map_kept_trimLast, map_kept_trimFirst]

theorem mem_trimFirst (hb : b ∈ bs) (hk : b.kept = false) : b ∈ trimFirst bs := by
  cases bs with
  | nil => exact hb
  | cons c bs =>
    rw [trimFirst]
    rcases List.mem_cons.mp hb with rfl | hb
    · rw [if_neg (ne_true_of_eq_false hk)]
      exact List.mem_cons_self
    · exact List.mem_cons_of_mem _ hb

theorem mem_trimLast (hb : b ∈ bs) (hk : b.kept = false) : b ∈ trimLast bs := by
  rw [trimLast]
  have hreverse := List.mem_reverse.mpr hb
  cases hback : bs.reverse with
  | nil =>
    rw [hback] at hreverse
    cases hreverse
  | cons c rest =>
    rw [hback] at hreverse
    apply List.mem_reverse.mpr
    rcases List.mem_cons.mp hreverse with rfl | hb
    · rw [if_neg (ne_true_of_eq_false hk)]
      exact List.mem_cons_self
    · exact List.mem_cons_of_mem _ hb

theorem exists_mem_split {hunk : Hunk} (hb : b ∈ hunk ++ bs) (hk : b.kept = false) : ∃ h ∈ split hunk bs, b ∈ h := by
  induction bs generalizing hunk with
  | nil =>
    rw [List.append_nil] at hb
    have hchanges : changes hunk = true := by
      rw [changes, Bool.or_eq_true]
      exact .inl (List.any_eq_true.mpr ⟨b, hb, by rw [hk]; rfl⟩)
    rw [split, if_pos hchanges]
    exact ⟨hunk, List.mem_singleton_self hunk, hb⟩
  | cons c bs ih =>
    rw [split]
    split_ifs with hlong
    · obtain hb | hb := List.mem_append.mp hb
      · exact ⟨_, List.mem_cons_self, List.mem_append_left _ hb⟩
      · rcases List.mem_cons.mp hb with rfl | hb
        · rw [hk] at hlong
          exact absurd hlong.1 Bool.false_ne_true
        · obtain ⟨h, hh, hb⟩ := ih (List.mem_append_right [c.takeBack context] hb)
          exact ⟨h, List.mem_cons_of_mem _ hh, hb⟩
    · apply ih
      rwa [List.append_assoc, List.singleton_append]

theorem exists_mem_ofBlocks (hb : b ∈ bs) (hk : b.kept = false) : ∃ h ∈ ofBlocks bs, b ∈ h :=
  exists_mem_split (mem_trimLast (mem_trimFirst hb hk) hk) hk

end Hunk
end BuildSync
