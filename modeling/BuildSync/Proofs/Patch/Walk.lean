import BuildSync.Proofs.Patch.Changes

namespace BuildSync

@[ext] structure Spot where
  old : Nat
  new : Nat

namespace Spot

def past (p : Spot) (oldLength newLength : Nat) : Spot := ⟨p.old + oldLength, p.new + newLength⟩

theorem past_past (p : Spot) (a b c d : Nat) : (p.past a b).past c d = p.past (a + c) (b + d) := by
  simp only [past, Nat.add_assoc]

theorem past_comm (p : Spot) (a b c d : Nat) : (p.past a b).past c d = (p.past c d).past a b := by
  rw [past_past, past_past, Nat.add_comm a, Nat.add_comm b]

end Spot

def Texts.Shared (t : Texts) (p : Spot) (n : Nat) : Prop :=
  ∀ k < n, t.same (p.old + k) (p.new + k) = true

section Walk

variable {α : Type} (lies : α → Spot → Prop) (past : α → Spot → Spot) {p q : Spot} {as bs : List α}

def Leads : Spot → List α → Spot → Prop
  | p, [], q => p = q
  | p, a :: as, q => lies a p ∧ Leads (past a p) as q

variable {lies past}

theorem leads_append : Leads lies past p (as ++ bs) q ↔ ∃ r, Leads lies past p as r ∧ Leads lies past r bs q := by
  induction as generalizing p with
  | nil => simp [Leads]
  | cons a as ih => simp [Leads, ih, and_assoc]

end Walk

namespace Texts

variable {t : Texts} {p : Spot} {m n : Nat}

theorem Shared.mono (h : t.Shared p n) (hm : m ≤ n) : t.Shared p m := fun k hk => h k (by omega)

theorem Shared.drop (h : t.Shared p (m + n)) : t.Shared (p.past m m) n := by
  intro k hk
  have := h (m + k) (by omega)
  rwa [← Nat.add_assoc, ← Nat.add_assoc] at this

theorem Shared.append (hm : t.Shared p m) (hn : t.Shared (p.past m m) n) : t.Shared p (m + n) := by
  intro k hk
  by_cases hlt : k < m
  · exact hm k hlt
  · have := hn (k - m) (by omega)
    simp only [Spot.past] at this
    rwa [Nat.add_assoc, Nat.add_assoc, Nat.add_sub_cancel' (by omega)] at this

theorem shared_sameFrom (t : Texts) (i j most : Nat) : t.Shared ⟨i, j⟩ (t.sameFrom i j most) :=
  fun _ hk => same_of_lt_sameFrom hk

theorem shared_sameBefore {i j most : Nat} (hi : t.sameBefore i j most ≤ i) (hj : t.sameBefore i j most ≤ j) :
    t.Shared ⟨i - t.sameBefore i j most, j - t.sameBefore i j most⟩ (t.sameBefore i j most) := by
  intro k hk
  have hlast : t.sameBefore i j most - 1 - k < t.sameBefore i j most := by omega
  have := same_of_lt_sameBefore hlast
  have hi' : i - 1 - (t.sameBefore i j most - 1 - k) = i - t.sameBefore i j most + k := by omega
  have hj' : j - 1 - (t.sameBefore i j most - 1 - k) = j - t.sameBefore i j most + k := by omega
  rwa [hi', hj'] at this

end Texts

namespace Edit

variable {t : Texts} {sole : Option Tag} {e : Edit} {p q : Spot} {es : List Edit} {n : Nat}

structure Lies (t : Texts) (sole : Option Tag) (e : Edit) (p : Spot) : Prop where
  pos : 0 < e.length
  old : 0 < e.oldLength ∨ sole.isSome → e.old = p.old
  new : 0 < e.newLength ∨ sole.isSome → e.new = p.new
  shared : e.tag = .keep → t.Shared p e.length
  sole : ∀ tag ∈ sole, e.tag = .keep ∨ e.tag = tag

def past (e : Edit) (p : Spot) : Spot := p.past e.oldLength e.newLength

abbrev Leads (t : Texts) (sole : Option Tag) : Spot → List Edit → Spot → Prop :=
  BuildSync.Leads (Lies t sole) past

theorem oldLength_keep (h : e.tag = .keep) : e.oldLength = e.length := by
  simp [oldLength, h]

theorem newLength_keep (h : e.tag = .keep) : e.newLength = e.length := by
  simp [newLength, h]

theorem oldLength_insert (h : e.tag = .insert) : e.oldLength = 0 := by
  simp [oldLength, h]

theorem newLength_insert (h : e.tag = .insert) : e.newLength = e.length := by
  simp [newLength, h]

theorem past_insert (h : e.tag = .insert) (p : Spot) : e.past p = p.past 0 e.length := by
  rw [past, oldLength_insert h, newLength_insert h]

theorem past_keep (h : e.tag = .keep) (p : Spot) : e.past p = p.past e.length e.length := by
  rw [past, oldLength_keep h, newLength_keep h]

theorem lies_mk {tag : Tag} (hn : 0 < n) (hshared : tag = .keep → t.Shared p n)
    (hsole : ∀ tag' ∈ sole, tag = .keep ∨ tag = tag') : Lies t sole ⟨tag, p.old, p.new, n⟩ p :=
  ⟨hn, fun _ => rfl, fun _ => rfl, hshared, hsole⟩

theorem lies_keep (hn : 0 < n) (h : t.Shared p n) : Lies t sole ⟨.keep, p.old, p.new, n⟩ p :=
  lies_mk hn (fun _ => h) fun _ _ => .inl rfl

theorem Lies.eq_keep (h : e.Lies t sole p) (hk : e.tag = .keep) : e = ⟨.keep, p.old, p.new, e.length⟩ := by
  have hpos := h.pos
  have hold := h.old (.inl (by rwa [oldLength_keep hk]))
  have hnew := h.new (.inl (by rwa [newLength_keep hk]))
  cases e
  simp_all

theorem eq_none_of_ne {a b : Tag} (ha : a ≠ .keep) (hb : b ≠ .keep) (hne : a ≠ b)
    (hsolea : ∀ tag ∈ sole, a = .keep ∨ a = tag) (hsoleb : ∀ tag ∈ sole, b = .keep ∨ b = tag) : sole = none := by
  cases sole with
  | none => rfl
  | some tag =>
    have hatag := (hsolea tag rfl).resolve_left ha
    have hbtag := (hsoleb tag rfl).resolve_left hb
    exact absurd (hatag.trans hbtag.symm) hne

theorem pos_of_leads (h : Leads t sole p es q) (he : e ∈ es) : 0 < e.length := by
  induction es generalizing p with
  | nil => cases he
  | cons a es ih =>
    rcases List.mem_cons.mp he with rfl | he
    · exact h.1.pos
    · exact ih h.2 he

theorem exists_past_of_leads (h : Leads t sole p es q) : ∃ m n, q = p.past m n := by
  induction es generalizing p with
  | nil =>
    obtain rfl : p = q := h
    exact ⟨0, 0, rfl⟩
  | cons e es ih =>
    obtain ⟨m, n, rfl⟩ := ih h.2
    exact ⟨e.oldLength + m, e.newLength + n, Spot.past_past p _ _ _ _⟩

theorem leads_kept (h : t.Shared p n) : Leads t sole p (Region.kept p.old p.new n) (p.past n n) := by
  rw [Region.kept]
  split_ifs with hn
  · rw [hn]
    rfl
  · exact ⟨lies_keep (Nat.pos_of_ne_zero hn) h, rfl⟩

end Edit

namespace Region

variable {t : Texts} {sole : Option Edit.Tag} {r : Region}

def start (r : Region) : Spot := ⟨r.old, r.new⟩

def stop (r : Region) : Spot := r.start.past r.oldLength r.newLength

theorem shared_front (t : Texts) (r : Region) : t.Shared r.start (r.front t) := t.shared_sameFrom _ _ _

theorem stop_dropBack {n : Nat} (hold : n ≤ r.oldLength) (hnew : n ≤ r.newLength) :
    (r.dropBack n).stop.past n n = r.stop := by
  ext <;> simp only [stop, start, Spot.past, dropBack] <;> omega

theorem shared_back (t : Texts) (r : Region) : t.Shared (r.dropBack (r.back t)).stop (r.back t) := by
  have hle := back_le t r
  have hspot : (r.dropBack (r.back t)).stop = ⟨r.old + r.oldLength - r.back t, r.new + r.newLength - r.back t⟩ := by
    ext <;> simp only [stop, start, Spot.past, dropBack] <;> omega
  rw [hspot]
  rw [back] at hle ⊢
  exact Texts.shared_sameBefore (by omega) (by omega)

theorem stop_behind {x y : Nat} (hx : x ≤ r.oldLength) (hy : y ≤ r.newLength) : (r.behind x y).stop = r.stop := by
  ext <;> simp only [stop, start, Spot.past, behind] <;> omega

theorem stop_core (t : Texts) (r : Region) :
    (r.core t).stop.past ((r.dropFront (r.front t)).back t) ((r.dropFront (r.front t)).back t) = r.stop := by
  have hfront := front_le t r
  have hback := back_le t (r.dropFront (r.front t))
  rw [core, stop_dropBack (by omega) (by omega)]
  ext <;> simp only [stop, start, Spot.past, dropFront] <;> omega

theorem leads_around {inner : List Edit} (h : Edit.Leads t sole (r.core t).start inner (r.core t).stop) :
    Edit.Leads t sole r.start (kept r.old r.new (r.front t) ++ inner ++
      kept ((r.core t).old + (r.core t).oldLength) ((r.core t).new + (r.core t).newLength)
        ((r.dropFront (r.front t)).back t)) r.stop := by
  have hfront : Edit.Leads t sole r.start (kept r.old r.new (r.front t)) (r.core t).start :=
    Edit.leads_kept (shared_front t r)
  refine leads_append.mpr ⟨_, leads_append.mpr ⟨_, hfront, h⟩, ?_⟩
  rw [← stop_core t r]
  exact Edit.leads_kept (shared_back t (r.dropFront (r.front t)))

theorem leads_delete (hold : r.oldLength ≠ 0) (hnew : r.newLength = 0)
    (h : ∀ tag ∈ sole, Edit.Tag.delete = .keep ∨ Edit.Tag.delete = tag) :
    Edit.Leads t sole r.start [⟨.delete, r.old, r.new, r.oldLength⟩] r.stop := by
  refine ⟨Edit.lies_mk (p := r.start) (Nat.pos_of_ne_zero hold) nofun h, ?_⟩
  rw [stop, hnew]
  rfl

theorem leads_insert (hold : r.oldLength = 0) (hnew : r.newLength ≠ 0)
    (h : ∀ tag ∈ sole, Edit.Tag.insert = .keep ∨ Edit.Tag.insert = tag) :
    Edit.Leads t sole r.start [⟨.insert, r.old, r.new, r.newLength⟩] r.stop := by
  refine ⟨Edit.lies_mk (p := r.start) (Nat.pos_of_ne_zero hnew) nofun h, ?_⟩
  rw [stop, hold]
  rfl

theorem leads_delete_insert (hold : r.oldLength ≠ 0) (hnew : r.newLength ≠ 0)
    (hdelete : ∀ tag ∈ sole, Edit.Tag.delete = .keep ∨ Edit.Tag.delete = tag)
    (hinsert : ∀ tag ∈ sole, Edit.Tag.insert = .keep ∨ Edit.Tag.insert = tag) :
    Edit.Leads t sole r.start [⟨.delete, r.old, r.new, r.oldLength⟩, ⟨.insert, r.old, r.new, r.newLength⟩] r.stop := by
  obtain rfl : sole = none := Edit.eq_none_of_ne (a := .delete) (b := .insert) nofun nofun nofun hdelete hinsert
  refine ⟨Edit.lies_mk (p := r.start) (Nat.pos_of_ne_zero hold) nofun hdelete, ?_, rfl⟩
  refine ⟨Nat.pos_of_ne_zero hnew, ?_, fun _ => rfl, nofun, hinsert⟩
  rintro (hpos | ⟨⟨⟩⟩)
  exact absurd hpos (Nat.lt_irrefl 0)

theorem leads_script (r : Region) (h : ∀ e ∈ r.script t, ∀ tag ∈ sole, e.tag = .keep ∨ e.tag = tag) :
    Edit.Leads t sole r.start (r.script t) r.stop := by
  fun_induction script t r with
  | case1 r core inner hbefore hbehind =>
    have hinner : ∀ e ∈ inner, ∀ tag ∈ sole, e.tag = .keep ∨ e.tag = tag := fun e he =>
      h e (List.mem_append_left _ (List.mem_append_right _ he))
    apply leads_around
    change Edit.Leads t sole core.start inner core.stop
    by_cases hnew : core.newLength = 0
    · by_cases hold : core.oldLength = 0
      · simp only [inner, dif_pos hnew, dif_pos hold]
        rw [Edit.Leads, Leads, stop, hold, hnew]
        rfl
      · simp only [inner, dif_pos hnew, dif_neg hold] at hinner ⊢
        exact leads_delete hold hnew (hinner _ List.mem_cons_self)
    by_cases hold : core.oldLength = 0
    · simp only [inner, dif_neg hnew, dif_pos hold] at hinner ⊢
      exact leads_insert hold hnew (hinner _ List.mem_cons_self)
    simp only [inner, dif_neg hnew, dif_neg hold] at hinner ⊢
    generalize (core.meeting t).getD (0, 0) = met at hinner
    obtain ⟨x, y⟩ := met
    by_cases hsplit : x ≤ core.oldLength ∧ y ≤ core.newLength ∧ 0 < x + y ∧ x + y < core.size
    · simp only [dif_pos hsplit] at hinner ⊢
      have hx := hbefore x y hsplit fun e he => hinner e (List.mem_append_left _ he)
      have hy := hbehind x y hsplit fun e he => hinner e (List.mem_append_right _ he)
      rw [stop_behind hsplit.1 hsplit.2.1] at hy
      exact leads_append.mpr ⟨_, hx, hy⟩
    · simp only [dif_neg hsplit] at hinner ⊢
      exact leads_delete_insert hold hnew (hinner _ List.mem_cons_self)
        (hinner _ (List.mem_cons_of_mem _ List.mem_cons_self))

end Region

namespace Edit

variable {t : Texts} {sole : Option Tag} {p q : Spot} {a b e : Edit} {es fs : List Edit} {n : Nat}

theorem Lies.shiftUp (h : e.Lies t sole (p.past n n)) (hk : e.tag ≠ .keep) : (e.shiftUp n).Lies t sole p where
  pos := h.pos
  old hpos := by
    have := h.old hpos
    simp only [Edit.shiftUp, Spot.past] at this ⊢
    omega
  new hpos := by
    have := h.new hpos
    simp only [Edit.shiftUp, Spot.past] at this ⊢
    omega
  shared hkeep := absurd hkeep hk
  sole := h.sole

theorem Lies.shiftDown (h : e.Lies t sole p) (hk : e.tag ≠ .keep) : (e.shiftDown n).Lies t sole (p.past n n) where
  pos := h.pos
  old hpos := congrArg (· + n) (h.old hpos)
  new hpos := congrArg (· + n) (h.new hpos)
  shared hkeep := absurd hkeep hk
  sole := h.sole

theorem leads_swap (ha : a.tag ≠ .keep) (hb : b.tag ≠ .keep) (hne : a.tag ≠ b.tag)
    (h : Leads t sole p (a :: b :: es) q) : Leads t sole p (b :: a :: es) q := by
  obtain ⟨hla, hlb, hes⟩ := h
  obtain rfl : sole = none := eq_none_of_ne ha hb hne hla.sole hlb.sole
  have hold : a.oldLength = 0 ∨ b.oldLength = 0 := by
    cases hta : a.tag <;> cases htb : b.tag <;> simp_all [oldLength]
  have hnew : a.newLength = 0 ∨ b.newLength = 0 := by
    cases hta : a.tag <;> cases htb : b.tag <;> simp_all [newLength]
  refine ⟨⟨hlb.pos, ?_, ?_, fun hk => absurd hk hb, hlb.sole⟩, ⟨hla.pos, ?_, ?_, fun hk => absurd hk ha, hla.sole⟩, ?_⟩
  · rintro (hpos | ⟨⟨⟩⟩)
    have : b.old = p.old + a.oldLength := hlb.old (.inl hpos)
    omega
  · rintro (hpos | ⟨⟨⟩⟩)
    have : b.new = p.new + a.newLength := hlb.new (.inl hpos)
    omega
  · rintro (hpos | ⟨⟨⟩⟩)
    have := hla.old (.inl hpos)
    simp only [past, Spot.past]
    omega
  · rintro (hpos | ⟨⟨⟩⟩)
    have := hla.new (.inl hpos)
    simp only [past, Spot.past]
    omega
  · rwa [past, past, Spot.past_comm]

theorem leads_merge (ha : a.tag ≠ .keep) (heq : a.tag = b.tag) (h : Leads t sole p (a :: b :: es) q) :
    Leads t sole p (a.grow b.length :: es) q := by
  obtain ⟨hla, hlb, hes⟩ := h
  have hold : (a.grow b.length).oldLength = a.oldLength + b.oldLength := by
    rw [oldLength, oldLength, oldLength, ← heq, grow]
    split_ifs <;> rfl
  have hnew : (a.grow b.length).newLength = a.newLength + b.newLength := by
    rw [newLength, newLength, newLength, ← heq, grow]
    split_ifs <;> rfl
  have hpos := hla.pos
  have holda : a.oldLength = 0 → b.oldLength = 0 := by
    rw [oldLength, oldLength, ← heq]
    split_ifs <;> omega
  have hnewa : a.newLength = 0 → b.newLength = 0 := by
    rw [newLength, newLength, ← heq]
    split_ifs <;> omega
  refine ⟨⟨Nat.add_pos_left hpos _, fun h => hla.old ?_, fun h => hla.new ?_, fun hk => absurd hk ha, hla.sole⟩, ?_⟩
  · rw [hold] at h
    exact h.imp_left (by omega)
  · rw [hnew] at h
    exact h.imp_left (by omega)
  · rwa [past, hold, hnew, ← Spot.past_past]

theorem leads_consUnlessEmpty (hk : e.tag = .keep) (h : 0 < e.length → e.Lies t sole p)
    (hes : Leads t sole (p.past e.length e.length) es q) : Leads t sole p (e.consUnlessEmpty es) q := by
  rw [consUnlessEmpty]
  split_ifs with hempty
  · rw [eq_of_beq hempty] at hes
    exact hes
  · have hpos : 0 < e.length := Nat.pos_of_ne_zero fun hzero => hempty (beq_of_eq hzero)
    exact ⟨h hpos, by rwa [past_keep hk]⟩

theorem reverse_consUnlessEmpty_append (e : Edit) (es fs : List Edit) :
    (e.consUnlessEmpty es).reverse ++ fs = es.reverse ++ e.consUnlessEmpty fs := by
  rw [consUnlessEmpty, consUnlessEmpty]
  split_ifs
  · rfl
  · rw [List.reverse_cons, List.append_assoc, List.singleton_append]

end Edit

namespace Focus

variable {t : Texts} {sole : Option Edit.Tag} {p q r : Spot} {before after : List Edit} {here e : Edit} {n : Nat}

theorem leads_keepFront (hn : 0 < n) (hshared : t.Shared p n) (h : Edit.Leads t sole (p.past n n) after q) :
    Edit.Leads t sole p (keepFront (p.old + n) (p.new + n) n after) q := by
  have hkeep : (⟨.keep, p.old + n - n, p.new + n - n, n⟩ : Edit).Lies t sole p := by
    rw [Nat.add_sub_cancel, Nat.add_sub_cancel]
    exact Edit.lies_keep hn hshared
  cases after with
  | nil => exact ⟨hkeep, h⟩
  | cons e after =>
    rw [keepFront]
    split_ifs with he
    · obtain ⟨hlies, hafter⟩ := h
      have hpast : (Edit.shiftUp e n).grow n = ⟨.keep, p.old, p.new, e.length + n⟩ := by
        rw [hlies.eq_keep he]
        simp only [Edit.shiftUp, Edit.grow, Spot.past, Nat.add_sub_cancel]
      rw [hpast, Nat.add_comm]
      refine ⟨Edit.lies_keep (Nat.add_pos_left hn _) (hshared.append (hlies.shared he)), ?_⟩
      rwa [Edit.past_keep he, Spot.past_past] at hafter
    · exact ⟨hkeep, h⟩

theorem leads_keepBack (hn : 0 < n) (hshared : t.Shared q n) (h : Edit.Leads t sole p before.reverse q) :
    Edit.Leads t sole p (keepBack q.old q.new n before).reverse (q.past n n) := by
  have hkeep : Edit.Leads t sole q [⟨.keep, q.old, q.new, n⟩] (q.past n n) := ⟨Edit.lies_keep hn hshared, rfl⟩
  cases before with
  | nil => exact leads_append.mpr ⟨q, h, hkeep⟩
  | cons e before =>
    rw [keepBack]
    split_ifs with he
    · rw [List.reverse_cons] at h ⊢
      obtain ⟨r, hbefore, hlies, hq⟩ := leads_append.mp h
      refine leads_append.mpr ⟨r, hbefore, ?_⟩
      obtain rfl : e.past r = q := hq
      rw [Edit.past_keep he] at hshared ⊢
      rw [Spot.past_past, hlies.eq_keep he]
      exact ⟨Edit.lies_keep (Nat.add_pos_right _ hn) ((hlies.shared he).append hshared), rfl⟩
    · rw [List.reverse_cons]
      exact leads_append.mpr ⟨q, h, hkeep⟩

theorem tag_of_slack {most : Nat} (hhere : here.tag ≠ .keep) (hn : 0 < n) (hle : n ≤ min most here.newLength) :
    here.tag = .insert := by
  cases htag : here.tag with
  | keep => exact absurd htag hhere
  | delete =>
    have : here.newLength = 0 := by simp [Edit.newLength, htag]
    omega
  | insert => rfl

theorem shared_slackUp (t : Texts) (e here : Edit) :
    t.Shared ⟨e.oldEnd - slackUp t e here, here.newEnd - slackUp t e here⟩ (slackUp t e here) := by
  have hmost : slackUp t e here ≤ min e.oldLength here.newLength := t.sameBefore_le _ _ _
  rw [slackUp] at hmost ⊢
  have hold : e.oldEnd = e.old + e.oldLength := rfl
  have hnew : here.newEnd = here.new + here.newLength := rfl
  exact Texts.shared_sameBefore (by omega) (by omega)

theorem leads_slideUp (he : e.tag = .keep) (hhere : here.tag ≠ .keep) (hn : 0 < slackUp t e here)
    (hle : slackUp t e here ≤ e.length) (h : Edit.Leads t sole p (e :: here :: after) q) :
    Edit.Leads t sole p ((e.shrink (slackUp t e here)).consUnlessEmpty
      (here.shiftUp (slackUp t e here) :: keepFront e.oldEnd here.newEnd (slackUp t e here) after)) q := by
  obtain ⟨hlies, hlieshere, hafter⟩ := h
  have hmost : slackUp t e here ≤ min e.oldLength here.newLength := t.sameBefore_le _ _ _
  have hinsert := tag_of_slack hhere hn hmost
  have hshared := shared_slackUp t e here
  generalize slackUp t e here = n at hn hle hmost hshared ⊢
  have hplace : (p.past (e.length - n) (e.length - n)).past n n = p.past e.length e.length := by
    rw [Spot.past_past, Nat.sub_add_cancel hle]
  rw [Edit.past_keep he, ← hplace] at hlieshere hafter
  have hold : e.oldEnd = p.old + (e.length - n) + n := by
    rw [Edit.oldEnd, hlies.old (.inl (by omega)), Edit.oldLength_keep he]
    omega
  have hnew : here.newEnd = p.new + (e.length - n) + here.length + n := by
    rw [Edit.newEnd, hlieshere.new (.inl (by omega)), Edit.newLength_insert hinsert]
    simp only [Spot.past]
    omega
  rw [hold, hnew, Nat.add_sub_cancel, Nat.add_sub_cancel] at hshared
  rw [hold, hnew]
  refine Edit.leads_consUnlessEmpty (e := e.shrink n) he (fun hpos => ?_) ⟨hlieshere.shiftUp hhere, ?_⟩
  · rw [hlies.eq_keep he]
    exact Edit.lies_keep hpos ((hlies.shared he).mono (Nat.sub_le _ _))
  · rw [Edit.past_insert (e := here.shiftUp n) hinsert]
    rw [Edit.past_insert hinsert, Spot.past_comm] at hafter
    exact leads_keepFront hn hshared hafter

theorem leads_slideDown (he : e.tag = .keep) (hhere : here.tag ≠ .keep) (hn : 0 < slackDown t e here)
    (hle : slackDown t e here ≤ e.length) (hbefore : Edit.Leads t sole p before.reverse r)
    (h : Edit.Leads t sole r (here :: e :: after) q) :
    Edit.Leads t sole p ((keepBack e.old here.new (slackDown t e here) before).reverse ++
      here.shiftDown (slackDown t e here) ::
        ((e.shiftDown (slackDown t e here)).shrink (slackDown t e here)).consUnlessEmpty after) q := by
  obtain ⟨hlieshere, hlies, hafter⟩ := h
  have hmost : slackDown t e here ≤ min e.oldLength here.newLength := t.sameFrom_le _ _ _
  have hinsert := tag_of_slack hhere hn hmost
  have hshared : t.Shared ⟨e.old, here.new⟩ (slackDown t e here) := t.shared_sameFrom _ _ _
  generalize slackDown t e here = n at hn hle hmost hshared ⊢
  rw [Edit.past_insert hinsert] at hlies hafter
  have hold : e.old = r.old := hlies.old (.inl (by omega))
  have hnew : here.new = r.new := hlieshere.new (.inl (by omega))
  rw [hold, hnew] at hshared
  rw [hold, hnew]
  refine leads_append.mpr ⟨_, leads_keepBack hn hshared hbefore, hlieshere.shiftDown hhere, ?_⟩
  rw [Edit.past_insert (e := here.shiftDown n) hinsert, Spot.past_comm]
  refine Edit.leads_consUnlessEmpty (e := (e.shiftDown n).shrink n) he (fun hpos => ?_) ?_
  · have hrest : t.Shared (r.past 0 here.length) (n + (e.length - n)) := by
      rw [Nat.add_sub_cancel' hle]
      exact hlies.shared he
    rw [hlies.eq_keep he]
    exact Edit.lies_keep hpos hrest.drop
  · have hlength : n + ((e.shiftDown n).shrink n).length = e.length := Nat.add_sub_cancel' hle
    rwa [Spot.past_past _ n n, hlength, ← Edit.past_keep he]

theorem leads_up (hhere : here.tag ≠ .keep) (h : Edit.Leads t sole p (before.reverse ++ here :: after) q) :
    Edit.Leads t sole p (up t before here after).script q := by
  fun_induction up t before here after with
  | case1 here after => exact h
  | case2 here after e before he n hn ih =>
    rw [List.reverse_cons, List.append_assoc] at h
    obtain ⟨r, hbefore, h⟩ := leads_append.mp h
    apply ih hhere
    rw [Edit.reverse_consUnlessEmpty_append]
    exact leads_append.mpr ⟨r, hbefore, leads_slideUp he hhere hn.1 hn.2 h⟩
  | case3 here after e before he n hn hempty ih =>
    rw [List.reverse_cons, List.append_assoc] at h
    obtain ⟨r, hbefore, hlies, -⟩ := leads_append.mp h
    exact absurd (eq_of_beq hempty) (Nat.ne_of_gt hlies.pos)
  | case4 here after e before he n hn hempty => exact h
  | case5 here after e before he heq ih =>
    rw [List.reverse_cons, List.append_assoc] at h
    obtain ⟨r, hbefore, h⟩ := leads_append.mp h
    exact ih he (leads_append.mpr ⟨r, hbefore, Edit.leads_merge he heq h⟩)
  | case6 here after e before he hne ih =>
    rw [List.reverse_cons, List.append_assoc] at h
    obtain ⟨r, hbefore, h⟩ := leads_append.mp h
    exact ih hhere (leads_append.mpr ⟨r, hbefore, Edit.leads_swap he hhere hne h⟩)

theorem leads_down (hhere : here.tag ≠ .keep) (h : Edit.Leads t sole p (before.reverse ++ here :: after) q) :
    Edit.Leads t sole p (down t before here after).script q := by
  fun_induction down t before here after with
  | case1 before here => exact h
  | case2 before here e after he n hn ih =>
    obtain ⟨r, hbefore, h⟩ := leads_append.mp h
    exact ih hhere (leads_slideDown he hhere hn.1 hn.2 hbefore h)
  | case3 before here e after he n hn hempty ih =>
    obtain ⟨r, hbefore, -, hlies, -⟩ := leads_append.mp h
    exact absurd (eq_of_beq hempty) (Nat.ne_of_gt hlies.pos)
  | case4 before here e after he n hn hempty => exact h
  | case5 before here e after he heq ih =>
    obtain ⟨r, hbefore, h⟩ := leads_append.mp h
    exact ih hhere (leads_append.mpr ⟨r, hbefore, Edit.leads_merge hhere heq.symm h⟩)
  | case6 before here e after he hne ih =>
    obtain ⟨r, hbefore, h⟩ := leads_append.mp h
    apply ih hhere
    rw [List.reverse_cons, List.append_assoc]
    exact leads_append.mpr ⟨r, hbefore, Edit.leads_swap hhere he (Ne.symm hne) h⟩

theorem leads_settle {tag : Edit.Tag} (htag : tag ≠ .keep) (steps : Nat)
    (h : Edit.Leads t sole p (before.reverse ++ after) q) :
    Edit.Leads t sole p (settle t tag before steps after) q := by
  fun_induction settle t tag before steps after with
  | case1 before after => exact h
  | case2 before steps => rwa [List.append_nil] at h
  | case3 before steps e after heq raised f ih =>
    have hraised := leads_up (heq ▸ htag) h
    have hf := leads_down (by rwa [tag_up, heq]) hraised
    apply ih
    rwa [List.reverse_cons, List.append_assoc]
  | case4 before steps e after hne ih =>
    apply ih
    rwa [List.reverse_cons, List.append_assoc]

end Focus

theorem Texts.leads_compact {t : Texts} {sole : Option Edit.Tag} {p q : Spot} {es : List Edit}
    (h : Edit.Leads t sole p es q) : Edit.Leads t sole p (t.compact es) q :=
  have hdelete : Edit.Tag.delete ≠ .keep := nofun
  have hinsert : Edit.Tag.insert ≠ .keep := nofun
  Focus.leads_settle hinsert _ (Focus.leads_settle hdelete _ h)

end BuildSync
