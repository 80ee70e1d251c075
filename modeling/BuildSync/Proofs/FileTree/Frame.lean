import BuildSync.Proofs.FileTree.Write
import Mathlib.Tactic.SplitIfs

namespace BuildSync

namespace FileTree

variable {tree tree' : FileTree} {path : String} {process : Process} {old bytes : List UInt8} {e : FileError}

theorem find_eq_ok_iff {entry : Entry} : tree.find path = .ok entry ↔
    path ≠ "" ∧ ∃ place, tree.walk [] (Path.names path).reverse = .ok place ∧ tree.lookup? place = some entry := by
  rw [find]
  split_ifs with hpath
  · exact iff_of_false (by simp) fun h => h.1 hpath
  cases tree.walk [] (Path.names path).reverse with
  | error fault => simp
  | ok place => cases hentry : tree.lookup? place <;> simp [hpath, hentry]

theorem find_congr (h : ∀ q, tree'.lookup? q = tree.lookup? q) {entry : Entry} :
    tree'.find path = .ok entry ↔ tree.find path = .ok entry := by
  have hsame : tree'.SameDirectories tree := fun q => by rw [h]
  simp only [find_eq_ok_iff, hsame.walk, h]

/-- The two trees differ at most in the scratch file beside a path, and neither has a directory there. -/
def DifferAtScratch (path : String) (process : Process) (tree tree' : FileTree) : Prop :=
  ∀ q, tree'.lookup? q = tree.lookup? q ∨
    tree.walk [] (Path.names (Path.scratch path process.number)).reverse = .ok q ∧
      tree.lookup? q ≠ some .directory ∧ tree'.lookup? q ≠ some .directory

theorem DifferAtScratch.sameDirectories (h : DifferAtScratch path process tree tree') :
    tree.SameDirectories tree' := by
  intro q
  rcases h q with hsame | ⟨-, hdir, hdir'⟩
  · rw [hsame]
  · exact iff_of_false hdir hdir'

theorem differAtScratch_of_write_error (h : tree.find path = .ok (.file old))
    (hw : tree.write process path bytes = (tree', .error e)) : DifferAtScratch path process tree tree' := by
  obtain ⟨name, above, place, hreaches, -⟩ := reaches_of_find h
  have hparent := hreaches.makeParent process
  have hwalk := (hreaches.scratch process.number).walk
  have hfilled {filled : FileTree} (hfill : tree.fill process (Path.scratch path process.number)
      (process.filled bytes) = .ok filled) : DifferAtScratch path process tree filled := by
    obtain ⟨-, hdir, rfl⟩ := hreaches.filled hfill
    intro q
    by_cases hq : q = Path.scratchName name process.number :: place
    · refine .inr ⟨hq ▸ hwalk, hq ▸ hdir, ?_⟩
      rw [lookup?_insert (List.cons_ne_nil _ _), if_pos hq]
      nofun
    · exact .inl (by rw [lookup?_insert (List.cons_ne_nil _ _), if_neg hq])
  cases ends_of_write hw with
  | unmade parent => cases hparent.symm.trans parent
  | unopened parent scratch =>
    cases hparent.symm.trans parent
    exact fun _ => .inl rfl
  | unfilled parent scratch fill =>
    cases hparent.symm.trans parent
    exact hfilled scratch
  | unmoved parent scratch fill move =>
    cases hparent.symm.trans parent
    have hsame := (hfilled scratch).sameDirectories
    rw [discard]
    split_ifs
    · intro q
      rw [(hsame.reaches (hreaches.scratch process.number)).unlink, lookup?_remove (List.cons_ne_nil _ _)]
      split_ifs with hq
      · obtain ⟨-, hdir, -⟩ := hreaches.filled scratch
        exact .inr ⟨hq ▸ hwalk, hq ▸ hdir, nofun⟩
      · exact (hfilled scratch q)
    · exact hfilled scratch

def Writable (tree : FileTree) (process : Process) (path : String) : Prop :=
  ∀ bytes, ∃ tree', tree.write process path bytes = (tree', .ok ())

theorem writable_iff (h : tree.find path = .ok (.file old)) : tree.Writable process path ↔
    tree.find (Path.scratch path process.number) ≠ .ok .directory ∧ ∀ bytes, process.Serves bytes := by
  obtain ⟨name, above, place, hreaches, hentry⟩ := reaches_of_find h
  have hfind : tree.find (Path.scratch path process.number) = .ok .directory ↔
      tree.lookup? (Path.scratchName name process.number :: place) = some .directory :=
    (hreaches.scratch process.number).find_eq_ok
  constructor
  · intro hwritable
    have hwritten (bytes : List UInt8) : ∃ tree', tree.Written process name place bytes tree' := by
      obtain ⟨tree', hwrite⟩ := hwritable bytes
      exact ⟨tree', hreaches.written_of_write hwrite⟩
    obtain ⟨_, hempty⟩ := hwritten []
    refine ⟨fun hd => hempty.scratch (hfind.mp hd), fun bytes => ?_⟩
    obtain ⟨_, hbytes⟩ := hwritten bytes
    exact hbytes.serves
  · rintro ⟨hfree, hserves⟩ bytes
    obtain ⟨tree', hwrite, -⟩ := hreaches.written (hserves bytes) (by simp [hentry])
      fun hd => hfree (hfind.mpr hd)
    exact ⟨tree', hwrite⟩

theorem writable_free (number : Nat) (h : tree.find path = .ok (.file old))
    (hscratch : tree.find (Path.scratch path number) ≠ .ok .directory) : tree.Writable (.free number) path :=
  (writable_iff h).mpr ⟨hscratch, Process.serves_free number⟩

end FileTree
end BuildSync
