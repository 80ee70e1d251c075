import BuildSync.Proofs.FileTree.Write
import Mathlib.Tactic.SplitIfs

/-!
A file is written all or nothing: either the path holds all of the new content and nothing else has
changed, or nothing has changed at all, but for directories that were missing above the path. A
scratch file stays only where the system would not let the process fill it or take it away.
-/

namespace BuildSync

namespace Path

theorem parentNames_cases (ns : List String) : parentNames ns = [] ∨
    ∃ ms, ms ≠ [] ∧ ms <:+ ns ∧ parentNames ns = trim ms :: parentNames ms := by
  fun_induction parentNames ns with
  | case1 => exact .inl rfl
  | case2 c rest hc ih =>
    refine ih.imp_right ?_
    rintro ⟨ms, hne, hsuffix, heq⟩
    exact ⟨ms, hne, hsuffix.trans (List.suffix_cons c rest), heq⟩
  | case3 => exact .inl rfl
  | case4 c rest _ hne => exact .inr ⟨rest, hne, List.suffix_cons c rest, rfl⟩

theorem parentNames_trim (ns : List String) : parentNames (trim ns) = parentNames ns := by
  fun_induction trim ns with
  | case1 c d rest hc ih =>
    conv_rhs => rw [parentNames, if_pos ⟨hc, List.cons_ne_nil _ _⟩]
    exact ih
  | case2 => rfl
  | case3 => rfl

theorem parents_of_parent? {path above : String} (h : parent? path = some above) :
    parents path = above :: parents above := by
  rw [parent?, parents] at h
  rcases parentNames_cases (names path) with hnil | ⟨ms, hne, hsuffix, heq⟩
  · rw [hnil] at h
    cases h
  · rw [heq] at h
    cases h
    have hslash : ∀ n ∈ trim ms, '/' ∉ n.toList := fun n hn =>
      not_mem_of_mem_names (hsuffix.subset ((trim_suffix ms).subset hn))
    rw [parents, heq, List.map_cons, parents, names_ofNames (trim_ne_nil hne) hslash, parentNames_trim]

end Path

namespace FileTree

open BuildSync.Path

variable {tree tree' tree'' : FileTree} {p q place : Place} {path : String} {paths above ns : List String}
  {bytes : List UInt8} {process : Process}

theorem walk_mono (h : ∀ q, tree.lookup? q = some .directory → tree'.lookup? q = some .directory)
    (hwalk : tree.walk p ns = .ok q) : tree'.walk p ns = .ok q := by
  induction ns generalizing p with
  | nil => exact hwalk
  | cons n ns ih =>
    rw [walk_cons] at hwalk ⊢
    exact ⟨h p hwalk.1, ih hwalk.2⟩

def GrownAt (paths : List String) (tree tree' : FileTree) (q : Place) : Prop :=
  tree'.lookup? q = tree.lookup? q ∨
    tree.lookup? q = none ∧ tree'.lookup? q = some .directory ∧ ∃ path ∈ paths, tree'.Opens (names path) q

/-- A tree and the same one with some of the directories that paths lead to. -/
def Grown (paths : List String) (tree tree' : FileTree) : Prop := ∀ q, GrownAt paths tree tree' q

namespace Grown

theorem refl (paths : List String) (tree : FileTree) : Grown paths tree tree := fun _ => .inl rfl

variable (h : Grown paths tree tree')

include h

theorem directories (hdir : tree.lookup? q = some .directory) : tree'.lookup? q = some .directory := by
  rcases h q with hsame | ⟨hnone, -⟩
  · rw [hsame, hdir]
  · rw [hdir] at hnone
    cases hnone

theorem opens (hopens : tree.Opens ns q) : tree'.Opens ns q :=
  ⟨walk_mono (fun _ => h.directories) hopens.1, h.directories hopens.2⟩

theorem trans (h' : Grown paths tree' tree'') : Grown paths tree tree'' := by
  intro q
  rcases h' q with hsame | ⟨hnone, hdir, path, hpath, hopens⟩
  · rw [GrownAt, hsame]
    refine (h q).imp_right ?_
    rintro ⟨hnone, hdir, path, hpath, hopens⟩
    exact ⟨hnone, hdir, path, hpath, h'.opens hopens⟩
  · refine .inr ⟨?_, hdir, path, hpath, hopens⟩
    rcases h q with hsame | ⟨-, hsome, -⟩
    · rw [← hsame, hnone]
    · rw [hsome] at hnone
      cases hnone

theorem mono (hpaths : paths ⊆ above) : Grown above tree tree' := fun q =>
  (h q).imp_right fun ⟨hnone, hdir, path, hpath, hopens⟩ => ⟨hnone, hdir, path, hpaths hpath, hopens⟩

end Grown

theorem GrownAt.congr (h : GrownAt paths tree tree' q) (hsame : tree'.SameDirectories tree'')
    (hq : tree''.lookup? q = tree'.lookup? q) : GrownAt paths tree tree'' q := by
  rw [GrownAt, hq]
  refine h.imp_right ?_
  rintro ⟨hnone, hdir, path, hpath, hopens⟩
  exact ⟨hnone, hdir, path, hpath, (hsame.walk _ _).mp hopens.1, (hsame _).mp hopens.2⟩

theorem grown_insert (hnone : tree.lookup? p = none) (hopens : (tree.insert p .directory).Opens (names path) p) :
    Grown [path] tree (tree.insert p .directory) := by
  have hp : p ≠ [] := by
    rintro rfl
    cases hnone
  intro q
  by_cases hq : q = p
  · exact .inr ⟨hq ▸ hnone, by rw [lookup?_insert hp, if_pos hq], path, List.mem_singleton_self _, hq ▸ hopens⟩
  · exact .inl (by rw [lookup?_insert hp, if_neg hq])

theorem grown_makeDirectory (h : tree.makeDirectory process path = .ok tree') : Grown [path] tree tree' := by
  rw [makeDirectory] at h
  split at h
  · cases h
  rename_i place hholder
  dsimp only at h
  split_ifs at h with hname
  obtain ⟨-, rfl⟩ := Process.map_call_eq_ok.mp h
  obtain ⟨hdot, hup, hnone⟩ : lastName path ≠ "." ∧ lastName path ≠ ".." ∧
      tree.lookup? (lastName path :: place) = none := by simpa [not_or] using hname
  have hpath : path ≠ "" := by
    rintro rfl
    cases hholder
  have hgrown : ∀ q, tree.lookup? q = some .directory →
      (tree.insert (lastName path :: place) .directory).lookup? q = some .directory := by
    intro q hq
    rw [lookup?_insert (List.cons_ne_nil _ _)]
    split_ifs
    · rfl
    · exact hq
  refine grown_insert hnone ?_
  have hopens := (holder_eq_ok hpath).mp hholder
  rw [← opens_filter]
  cases hnames : (names path).filter (· ≠ "") with
  | nil => exact absurd (by rw [lastName, ← List.head?_filter, hnames]; rfl) hdot
  | cons n ms =>
    have hlast : lastName path = n := by rw [lastName, ← List.head?_filter, hnames]; rfl
    have hne : n ≠ "" := by
      have : n ∈ (names path).filter (· ≠ "") := hnames ▸ List.mem_cons_self
      simpa using (List.mem_filter.mp this).2
    rw [hlast] at hdot hup hgrown ⊢
    rw [hnames, List.tail_cons] at hopens
    rw [opens_cons]
    refine ⟨⟨place, ⟨walk_mono hgrown hopens.1, hgrown _ hopens.2⟩, step_plain ⟨hne, hdot, hup⟩ place⟩, ?_⟩
    rw [lookup?_insert (List.cons_ne_nil _ _), if_pos rfl]

theorem grown_makeFirst (tree : FileTree) (process : Process) (paths : List String) :
    Grown paths tree (tree.makeFirst process paths).1 := by
  induction paths generalizing tree with
  | nil => exact .refl _ _
  | cons path above ih =>
    have hone {tree tree' : FileTree} (h : tree.makeDirectory process path = .ok tree') :
        Grown (path :: above) tree tree' := (grown_makeDirectory h).mono (by simp)
    rw [makeFirst]
    cases hmade : tree.makeDirectory process path with
    | ok tree' => exact hone hmade
    | error fault =>
      cases fault with
      | notFound =>
        have habove := (ih tree).mono (List.subset_cons_self path above)
        cases hfirst : tree.makeFirst process above with
        | mk tree' result =>
          rw [hfirst] at habove
          cases result with
          | error fault => exact habove
          | ok u =>
            dsimp only
            cases hagain : tree'.makeDirectory process path with
            | ok tree'' => exact habove.trans (hone hagain)
            | error fault => exact habove
      | _ => exact .refl _ _

theorem grown_makeParent (tree : FileTree) (process : Process) (path : String) :
    Grown (parents path) tree (tree.makeParent process path).1 := by
  rw [makeParent]
  split
  · exact .refl _ _
  · rename_i above hparent
    rw [makeDirectories, parents_of_parent? hparent]
    split_ifs
    · exact .refl _ _
    · exact grown_makeFirst tree process _

theorem SameDirectories.holder (h : tree.SameDirectories tree') (hholder : tree.holder path = .ok place) :
    tree'.holder path = .ok place := by
  have hpath : path ≠ "" := by
    rintro rfl
    cases hholder
  rw [holder_eq_ok hpath] at hholder ⊢
  exact ⟨(h.walk _ _).mp hholder.1, (h _).mp hholder.2⟩

theorem reaches_of_move {source : String} (h : tree.move process source path bytes = .ok tree') :
    ∃ name above place, tree.Reaches path name above place := by
  rw [move] at h
  split at h
  · cases h
  rename_i place hholder
  dsimp only at h
  split_ifs at h with hname hopen
  have hpath : path ≠ "" := by
    rintro rfl
    cases hholder
  obtain ⟨name, above, hnames⟩ := List.exists_cons_of_ne_nil (names_ne_nil path)
  have hne : name ≠ "" := by
    rintro rfl
    rw [endsOpen, hnames] at hopen
    exact hopen rfl
  rw [lastName_eq hnames hne, not_or] at hname
  have hopens := (holder_eq_ok hpath).mp hholder
  rw [hnames, List.filter_cons_of_pos (by simpa using hne), List.tail_cons, opens_filter] at hopens
  exact ⟨name, above, place, hnames, ⟨hne, hname⟩, hopens⟩

theorem written_of_write (h : tree.write process path bytes = (tree'', .ok ())) :
    ∃ tree' name above place, Grown (parents path) tree tree' ∧ tree'.Reaches path name above place ∧
      tree'.Written process name place bytes tree'' := by
  cases ends_of_write h with
  | @moved made filled _ parent scratch fill move =>
    have hgrown := grown_makeParent tree process path
    rw [parent] at hgrown
    obtain ⟨-, dir, -, hdir, rfl⟩ := fill_eq_ok.mp scratch
    have hsame := sameDirectories_insert (List.cons_ne_nil _ _) hdir (process.filled bytes)
    obtain ⟨name, above, place, hreaches⟩ := reaches_of_move move
    have hreaches : made.Reaches path name above place :=
      SameDirectories.reaches (fun q => (hsame q).symm) hreaches
    have hwrite : made.write process path bytes = (tree'', .ok ()) := by
      rw [write, hreaches.makeParent]
      rw [write, parent] at h
      exact h
    exact ⟨made, name, above, place, hgrown, hreaches, hreaches.written_of_write hwrite⟩

def LeftAt (process : Process) (path : String) (bytes : List UInt8) (tree : FileTree) (q : Place) : Prop :=
  tree.lookup? q = some (.file (process.filled bytes)) ∧
    ∃ place, tree.holder (scratch path process.number) = .ok place ∧
      q = lastName (scratch path process.number) :: place

section Scratch

variable {made filled : FileTree} (hgrown : Grown (parents path) tree made)
  (hfill : made.fill process (scratch path process.number) (process.filled bytes) = .ok filled)

include hgrown hfill

theorem grown_or_left (q : Place) :
    GrownAt (parents path) tree filled q ∨ LeftAt process path bytes filled q := by
  obtain ⟨-, place, hholder, hdir, rfl⟩ := fill_eq_ok.mp hfill
  have hsame := sameDirectories_insert (List.cons_ne_nil _ _) hdir (process.filled bytes)
  by_cases hq : q = lastName (scratch path process.number) :: place
  · refine .inr ⟨?_, place, hsame.holder hholder, hq⟩
    rw [lookup?_insert (List.cons_ne_nil _ _), if_pos hq]
  · refine .inl ((hgrown q).congr hsame ?_)
    rw [lookup?_insert (List.cons_ne_nil _ _), if_neg hq]

theorem grown_unlink
    (hfree : ∀ place, tree.lookup? (lastName (scratch path process.number) :: place) = none) :
    Grown (parents path) tree (filled.unlink (scratch path process.number)) := by
  obtain ⟨-, place, hholder, hdir, rfl⟩ := fill_eq_ok.mp hfill
  have hsame := sameDirectories_insert (List.cons_ne_nil _ _) hdir (process.filled bytes)
  have hnone : made.lookup? (lastName (scratch path process.number) :: place) = none := by
    rcases hgrown (lastName (scratch path process.number) :: place) with hkept | ⟨-, hmade, -⟩
    · rw [hkept, hfree]
    · exact absurd hmade hdir
  have hentries : ∀ q, ((made.insert (lastName (scratch path process.number) :: place)
      (.file (process.filled bytes))).unlink (scratch path process.number)).lookup? q = made.lookup? q := by
    intro q
    rw [unlink, hsame.holder hholder, lookup?_remove (List.cons_ne_nil _ _),
      lookup?_insert (List.cons_ne_nil _ _)]
    split_ifs with hq
    · rw [hq, hnone]
    · rfl
  exact fun q => (hgrown q).congr (fun p => by rw [hentries]) (hentries q)

end Scratch

theorem Grown.no_file (h : Grown paths tree tree') (hnone : tree.lookup? q = none) (old : List UInt8) :
    tree'.lookup? q ≠ some (.file old) := by
  rcases h q with hsame | ⟨-, hdir, -⟩
  · rw [hsame, hnone]
    nofun
  · rw [hdir]
    nofun

theorem grown_or_filled_of_write {e : FileError}
    (hfree : ∀ place, tree.lookup? (lastName (scratch path process.number) :: place) = none)
    (h : tree.write process path bytes = (tree', .error e)) :
    Grown (parents path) tree tree' ∨ ¬ (process.Fills bytes ∧ process.refusal? .remove = none) ∧
      ∃ made, Grown (parents path) tree made ∧
        made.fill process (scratch path process.number) (process.filled bytes) = .ok tree' := by
  have hgrown := grown_makeParent tree process path
  cases ends_of_write h with
  | unmade parent =>
    rw [parent] at hgrown
    exact .inl hgrown
  | unopened parent scratch =>
    rw [parent] at hgrown
    exact .inl hgrown
  | unfilled parent scratch fill =>
    rw [parent] at hgrown
    refine .inr ⟨fun hserved => ?_, _, hgrown, scratch⟩
    cases fill.symm.trans (Process.fill_eq_ok.mpr hserved.1)
  | unmoved parent scratch fill move =>
    rw [parent] at hgrown
    rw [discard]
    split_ifs with hremove
    · exact .inl (grown_unlink hgrown scratch hfree)
    · exact .inr ⟨fun hserved => hremove hserved.2, _, hgrown, scratch⟩

/-- Where nothing bears the name of the scratch file, a write that goes through puts the bytes in place
and changes no other entry. One that fails changes no entry at all, but for directories that were
missing above the path and a scratch file that the process could not fill or not take away. -/
theorem write_all_or_nothing
    (hfree : ∀ place, tree.lookup? (lastName (scratch path process.number) :: place) = none)
    {result : Except FileError Unit} (h : tree.write process path bytes = (tree', result)) :
    (result = .ok () → tree'.read path = .ok bytes ∧
      (∀ place old, tree'.lookup? (lastName (scratch path process.number) :: place) ≠ some (.file old)) ∧
      ∃ target, tree'.walk [] (names path).reverse = .ok target ∧
        ∀ q ≠ target, GrownAt (parents path) tree tree' q) ∧
    (∀ e, result = .error e → process.Fills bytes → process.refusal? .remove = none →
      (∀ place old, tree'.lookup? (lastName (scratch path process.number) :: place) ≠ some (.file old)) ∧
      ∀ q, GrownAt (parents path) tree tree' q) ∧
    (∀ e, result = .error e →
      ∀ q, GrownAt (parents path) tree tree' q ∨ LeftAt process path bytes tree' q) := by
  cases result with
  | error e =>
    refine ⟨nofun, fun _ _ hfills hremove => ?_, fun _ _ q => ?_⟩
    · obtain hgrown | ⟨hrefused, -⟩ := grown_or_filled_of_write hfree h
      · exact ⟨fun place => hgrown.no_file (hfree place), hgrown⟩
      · exact absurd ⟨hfills, hremove⟩ hrefused
    · obtain hgrown | ⟨-, made, hgrown, hfilled⟩ := grown_or_filled_of_write hfree h
      · exact .inl (hgrown q)
      · exact grown_or_left hgrown hfilled q
  | ok u =>
    obtain ⟨made, name, above, place, hgrown, hreaches, hwritten⟩ := written_of_write h
    have hscratch : lastName (scratch path process.number) = scratchName name process.number :=
      (hreaches.scratch process.number).lastName
    have hreaches' := hwritten.sameDirectories.reaches hreaches
    have hread : tree'.read path = .ok bytes := by
      rw [read_eq_ok, hreaches'.find_eq_ok, hwritten.entries, if_pos rfl]
    have hothers : ∀ q ≠ name :: place, GrownAt (parents path) tree tree' q := by
      intro q hq
      by_cases hclear : q = scratchName name process.number :: place
      · refine .inl ?_
        rw [hwritten.entries, if_neg hq, if_pos hclear, hclear, ← hscratch, hfree]
      · refine (hgrown q).congr hwritten.sameDirectories ?_
        rw [hwritten.entries, if_neg hq, if_neg hclear]
    have hcleared : ∀ other old,
        tree'.lookup? (lastName (scratch path process.number) :: other) ≠ some (.file old) := by
      intro other old hold
      have hne : lastName (scratch path process.number) :: other ≠ name :: place := by
        rw [hscratch]
        exact fun heq => scratchName_ne name process.number (List.cons.inj heq).1
      rcases hothers _ hne with hsame | ⟨-, hdir, -⟩
      · rw [hold, hfree] at hsame
        cases hsame
      · rw [hold] at hdir
        cases hdir
    exact ⟨fun _ => ⟨hread, hcleared, name :: place, hreaches'.walk, hothers⟩, nofun, nofun⟩

deriving instance DecidableEq for FileTree

def lone : FileTree := ⟨[(["x"], .file [1])]⟩

def cramped (number : Nat) : Process :=
  ⟨number, fun _ => none, fun _ => some (1, "No space left on device (os error 28)")⟩

theorem scratch_lone {process : Process} {path : String} (h : lastName (scratch path process.number) ≠ "x")
    (place : Place) : lone.lookup? (lastName (scratch path process.number) :: place) = none := by
  rw [lookup?, if_neg (List.cons_ne_nil _ _)]
  simp [lone, List.lookup_cons, beq_false_of_ne h]

theorem write_all_or_nothing_lone :
    lone.write 7 "c/x" [3] = (⟨[(["x"], .file [1]), (["c"], .directory), (["x", "c"], .file [3])]⟩, .ok ()) ∧
    FileTree.read ⟨[(["x"], .file [1]), (["c"], .directory), (["x", "c"], .file [3])]⟩ "c/x" = .ok [3] ∧
    lone.write 7 "c/d/" [3] =
      (⟨[(["x"], .file [1]), (["c"], .directory)]⟩, .error (.io "c/d/" .notDirectory)) ∧
    (∀ q, GrownAt (parents "c/d/") lone ⟨[(["x"], .file [1]), (["c"], .directory)]⟩ q) ∧
    lone.write (cramped 7) "x" [3, 4] = (⟨[(["x"], .file [1]), ([".x.7.tmp"], .file [3])]⟩,
      .error (.io ".x.7.tmp" (.system "No space left on device (os error 28)"))) ∧
    ∀ q, GrownAt (parents "x") lone ⟨[(["x"], .file [1]), ([".x.7.tmp"], .file [3])]⟩ q ∨
      LeftAt (cramped 7) "x" [3, 4] ⟨[(["x"], .file [1]), ([".x.7.tmp"], .file [3])]⟩ q := by
  have hwrite : lone.write 7 "c/x" [3] =
      (⟨[(["x"], .file [1]), (["c"], .directory), (["x", "c"], .file [3])]⟩, .ok ()) := by decide +kernel
  have hopen : lone.write 7 "c/d/" [3] =
      (⟨[(["x"], .file [1]), (["c"], .directory)]⟩, .error (.io "c/d/" .notDirectory)) := by decide +kernel
  have hstop : lone.write (cramped 7) "x" [3, 4] = (⟨[(["x"], .file [1]), ([".x.7.tmp"], .file [3])]⟩,
      .error (.io ".x.7.tmp" (.system "No space left on device (os error 28)"))) := by decide +kernel
  have hfills : Process.Fills 7 [3] := ⟨rfl, rfl, rfl, rfl⟩
  exact ⟨hwrite, ((write_all_or_nothing (scratch_lone (by decide +kernel)) hwrite).1 rfl).1, hopen,
    ((write_all_or_nothing (scratch_lone (by decide +kernel)) hopen).2.1 _ rfl hfills rfl).2, hstop,
    (write_all_or_nothing (scratch_lone (by decide +kernel)) hstop).2.2 _ rfl⟩

end FileTree
end BuildSync
