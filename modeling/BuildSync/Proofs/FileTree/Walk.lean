import BuildSync.Proofs.FileTree.Path

namespace BuildSync

namespace FileTree

open BuildSync.Path

variable {tree tree' : FileTree} {p q place : Place} {name path : String} {ns above : List String}

theorem enter_eq_ok {u : Unit} : tree.enter place = .ok u ↔ tree.lookup? place = some .directory := by
  rw [enter]
  split <;> simp_all

theorem walk_nil : tree.walk p [] = .ok q ↔ p = q := by
  rw [walk, Except.ok.injEq]

theorem walk_cons :
    tree.walk p (name :: ns) = .ok q ↔ tree.lookup? p = some .directory ∧ tree.walk (step p name) ns = .ok q := by
  rw [← enter_eq_ok (u := ()), walk]
  cases tree.enter p <;> simp

theorem walk_concat : tree.walk p (ns ++ [name]) = .ok q ↔
    ∃ place, tree.walk p ns = .ok place ∧ tree.lookup? place = some .directory ∧ step place name = q := by
  induction ns generalizing p with
  | nil => simp only [List.nil_append, walk_cons, walk_nil, exists_eq_left']
  | cons n ns ih => simp only [List.cons_append, walk_cons, ih, exists_and_left, and_assoc]

theorem step_plain (h : Plain name) (place : Place) : step place name = name :: place := by
  rw [step, if_neg (not_or.mpr ⟨h.1, h.2.1⟩), if_neg h.2.2]

theorem step_idle (h : name = "" ∨ name = ".") (place : Place) : step place name = place := if_pos h

def Opens (tree : FileTree) (ns : List String) (place : Place) : Prop :=
  tree.walk [] ns.reverse = .ok place ∧ tree.lookup? place = some .directory

theorem opens_nil : tree.Opens [] place ↔ place = [] := by
  rw [Opens, List.reverse_nil, walk_nil]
  constructor
  · exact fun h => h.1.symm
  · rintro rfl
    exact ⟨rfl, rfl⟩

theorem walk_reverse_cons : tree.walk [] (name :: ns).reverse = .ok q ↔
    ∃ place, tree.Opens ns place ∧ step place name = q := by
  rw [List.reverse_cons, walk_concat]
  simp only [Opens, and_assoc]

theorem opens_cons : tree.Opens (name :: ns) q ↔
    (∃ place, tree.Opens ns place ∧ step place name = q) ∧ tree.lookup? q = some .directory := by
  rw [Opens, walk_reverse_cons]

theorem opens_cons_idle (h : name = "" ∨ name = ".") : tree.Opens (name :: ns) q ↔ tree.Opens ns q := by
  rw [opens_cons]
  constructor
  · rintro ⟨⟨place, hopens, rfl⟩, -⟩
    rwa [step_idle h]
  · exact fun hopens => ⟨⟨q, hopens, step_idle h q⟩, hopens.2⟩

theorem opens_filter : tree.Opens (ns.filter (· ≠ "")) q ↔ tree.Opens ns q := by
  induction ns generalizing q with
  | nil => rfl
  | cons n ns ih =>
    by_cases hn : n = ""
    · rw [List.filter_cons_of_neg (by simpa using hn), ih, opens_cons_idle (.inl hn)]
    · rw [List.filter_cons_of_pos (by simpa using hn), opens_cons, opens_cons]
      simp only [ih]

theorem opens_trim : tree.Opens (trim ns) q ↔ tree.Opens ns q := by
  fun_induction trim ns with
  | case1 c d rest hc ih => rw [ih, opens_cons_idle hc]
  | case2 => rfl
  | case3 => rfl

theorem holder_eq_ok (hpath : path ≠ "") :
    tree.holder path = .ok place ↔ tree.Opens ((names path).filter (· ≠ "")).tail place := by
  rw [holder, if_neg hpath, Opens]
  cases tree.walk [] ((names path).filter (· ≠ "")).tail.reverse with
  | error fault => simp
  | ok q =>
    cases hq : tree.enter q with
    | error fault =>
      simp only [hq, reduceCtorEq, Except.ok.injEq, false_iff, not_and]
      rintro rfl hdir
      rw [enter_eq_ok (u := ()) |>.mpr hdir] at hq
      cases hq
    | ok u =>
      have hdir := enter_eq_ok.mp hq
      simp only [hq, Except.ok.injEq]
      exact ⟨fun h => ⟨h, h ▸ hdir⟩, fun h => h.1⟩

theorem makeDirectories_of_opens (h : tree.Opens (names path) place) (process : Process) :
    tree.makeDirectories path process = (tree, .ok ()) := by
  rw [makeDirectories]
  split_ifs with hpath
  · rfl
  have hisDirectory : tree.isDirectory path = true := by
    rw [isDirectory, find, if_neg hpath, h.1]
    simp only [h.2]
  have hexists : tree.makeDirectory process path = .error .exists := by
    have hopens := opens_filter.mpr h
    have hlast : lastName path = ((names path).filter (· ≠ "")).head?.getD "." := by
      rw [lastName, List.head?_filter]
    rw [makeDirectory]
    cases hnames : (names path).filter (· ≠ "") with
    | nil =>
      have hholder : tree.holder path = .ok [] :=
        (holder_eq_ok hpath).mpr (by rw [hnames]; exact opens_nil.mpr rfl)
      rw [hholder, hlast, hnames]
      rfl
    | cons n ms =>
      rw [hnames] at hopens hlast
      obtain ⟨⟨q, hq, hstep⟩, hdir⟩ := opens_cons.mp hopens
      have hholder : tree.holder path = .ok q := (holder_eq_ok hpath).mpr (by rwa [hnames])
      have hne : n ≠ "" := by
        have : n ∈ (names path).filter (· ≠ "") := hnames ▸ List.mem_cons_self
        simpa using (List.mem_filter.mp this).2
      rw [hholder, hlast]
      apply if_pos
      by_cases hdot : n = "."
      · exact .inl hdot
      by_cases hup : n = ".."
      · exact .inr (.inl hup)
      · rw [step_plain ⟨hne, hdot, hup⟩] at hstep
        refine .inr (.inr ?_)
        rw [List.head?_cons, Option.getD_some, hstep, hdir]
        rfl
  rw [makeFirst, hexists]
  simp only [hisDirectory, if_true]
  rfl

structure Reaches (tree : FileTree) (path name : String) (above : List String) (place : Place) : Prop where
  names : Path.names path = name :: above
  plain : Plain name
  opens : tree.Opens above place

namespace Reaches

variable (h : tree.Reaches path name above place)

include h

theorem walk : tree.walk [] (Path.names path).reverse = .ok (name :: place) := by
  rw [h.names, walk_reverse_cons]
  exact ⟨place, h.opens, step_plain h.plain place⟩

theorem ne_empty : path ≠ "" := by
  rintro rfl
  have hempty : Path.names "" = [""] := rfl
  have := h.names
  rw [hempty] at this
  exact h.plain.1 (List.cons.inj this).1.symm

theorem find_eq_ok {entry : Entry} : tree.find path = .ok entry ↔ tree.lookup? (name :: place) = some entry := by
  simp only [FileTree.find, if_neg h.ne_empty, h.walk]
  cases tree.lookup? (name :: place) <;> simp

theorem holder : tree.holder path = .ok place := by
  rw [holder_eq_ok h.ne_empty, h.names, List.filter_cons_of_pos (by simpa using h.plain.1), List.tail_cons]
  exact opens_filter.mpr h.opens

theorem lastName : Path.lastName path = name := lastName_eq h.names h.plain.1

theorem endsOpen : Path.endsOpen path = false := by
  rw [Path.endsOpen, h.names]
  simpa using h.plain.1

theorem slash {n : String} (hn : n ∈ above) : '/' ∉ n.toList :=
  not_mem_of_mem_names (h.names ▸ List.mem_cons_of_mem name hn)

theorem makeParent (process : Process) : tree.makeParent process path = (tree, .ok ()) := by
  rw [FileTree.makeParent, parent?_eq h.names h.plain]
  by_cases hnil : above = []
  · rw [if_pos hnil]
  · rw [if_neg hnil]
    suffices tree.Opens (Path.names (ofNames (trim above))) place from makeDirectories_of_opens this process
    rw [names_ofNames (trim_ne_nil hnil) fun n hn => h.slash ((trim_suffix above).subset hn), opens_trim]
    exact h.opens

end Reaches

theorem reaches_root (tree : FileTree) (hslash : '/' ∉ name.toList) (hplain : Plain name) :
    tree.Reaches name name [] [] :=
  ⟨names_of_not_mem hslash, hplain, opens_nil.mpr rfl⟩

theorem suffix_open (hp : ∀ q, q <:+ p → q ≠ p → tree.lookup? q = some .directory)
    (hdir : tree.lookup? p = some .directory) (name : String) :
    ∀ q, q <:+ step p name → q ≠ step p name → tree.lookup? q = some .directory := by
  have hall : ∀ q, q <:+ p → tree.lookup? q = some .directory := fun q hq =>
    if heq : q = p then heq ▸ hdir else hp q hq heq
  intro q hq hne
  rw [step] at hq hne
  split_ifs at hq hne
  · exact hall q hq
  · exact hall q (hq.trans (List.tail_suffix p))
  · rcases List.suffix_cons_iff.mp hq with heq | hsuffix
    · exact absurd heq hne
    · exact hall q hsuffix

theorem walk_open (hp : ∀ q, q <:+ p → q ≠ p → tree.lookup? q = some .directory)
    (h : tree.walk p ns = .ok place) : ∀ q, q <:+ place → q ≠ place → tree.lookup? q = some .directory := by
  induction ns generalizing p with
  | nil => exact walk_nil.mp h ▸ hp
  | cons n ns ih =>
    obtain ⟨hdir, h⟩ := walk_cons.mp h
    exact ih (suffix_open hp hdir n) h

theorem reaches_of_find {bytes : List UInt8} (h : tree.find path = .ok (.file bytes)) :
    ∃ name above place, tree.Reaches path name above place ∧
      tree.lookup? (name :: place) = some (.file bytes) := by
  rw [find] at h
  split_ifs at h
  split at h
  · cases h
  rename_i q hwalk
  have hentry : tree.lookup? q = some (.file bytes) := by
    split at h
    · cases h
    · rename_i e he
      rw [he, Except.ok.inj h]
  obtain ⟨name, above, hnames⟩ := List.exists_cons_of_ne_nil (names_ne_nil path)
  rw [hnames, walk_reverse_cons] at hwalk
  obtain ⟨place, hopens, rfl⟩ := hwalk
  have hnot : tree.lookup? (step place name) ≠ some .directory := by
    rw [hentry]
    nofun
  have hplain : Plain name := by
    refine ⟨?_, ?_, ?_⟩
    · rintro rfl
      exact hnot (by rw [step_idle (.inl rfl)]; exact hopens.2)
    · rintro rfl
      exact hnot (by rw [step_idle (.inr rfl)]; exact hopens.2)
    · rintro rfl
      apply hnot
      have hup : step place ".." = place.tail := by simp [step]
      rw [hup]
      by_cases htail : place.tail = place
      · rw [htail]
        exact hopens.2
      · refine walk_open ?_ hopens.1 _ (List.tail_suffix place) htail
        exact fun q hq hne => absurd (List.suffix_nil.mp hq) hne
  rw [step_plain hplain] at hentry
  exact ⟨name, above, place, ⟨hnames, hplain, hopens⟩, hentry⟩

def SameDirectories (tree tree' : FileTree) : Prop :=
  ∀ place, tree.lookup? place = some .directory ↔ tree'.lookup? place = some .directory

theorem SameDirectories.walk (h : tree.SameDirectories tree') (p : Place) (ns : List String) :
    tree.walk p ns = .ok q ↔ tree'.walk p ns = .ok q := by
  induction ns generalizing p with
  | nil => rw [walk_nil, walk_nil]
  | cons n ns ih => rw [walk_cons, walk_cons, h, ih]

theorem SameDirectories.reaches (h : tree.SameDirectories tree') (hr : tree.Reaches path name above place) :
    tree'.Reaches path name above place :=
  ⟨hr.names, hr.plain, (h.walk _ _).mp hr.opens.1, (h _).mp hr.opens.2⟩

end FileTree
end BuildSync
