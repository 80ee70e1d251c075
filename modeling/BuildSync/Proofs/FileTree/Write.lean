import BuildSync.Proofs.FileTree.Walk

namespace BuildSync

theorem mapError_eq_ok {α β γ : Type} {f : α → β} {x : Except α γ} {y : γ} :
    x.mapError f = .ok y ↔ x = .ok y := by
  cases x <;> simp [Except.mapError]

namespace Path

def scratchName (name : String) (process : Nat) : String := "." ++ name ++ "." ++ toString process ++ ".tmp"

theorem toList_scratchName (name : String) (process : Nat) : (scratchName name process).toList =
    '.' :: name.toList ++ '.' :: Nat.toDigits 10 process ++ ".tmp".toList := by
  simp [scratchName]

theorem length_scratchName (name : String) (process : Nat) :
    name.toList.length < (scratchName name process).toList.length := by
  rw [toList_scratchName]
  simp only [List.cons_append, List.length_cons, List.length_append]
  omega

theorem scratchName_ne (name : String) (process : Nat) : scratchName name process ≠ name := fun h =>
  absurd (length_scratchName name process) (by rw [h]; exact Nat.lt_irrefl _)

theorem plain_scratchName (name : String) (process : Nat) : Plain (scratchName name process) := by
  have hlen : 5 ≤ (scratchName name process).toList.length := by
    rw [toList_scratchName]
    simp only [List.cons_append, List.length_cons, List.length_append]
    have : ".tmp".toList.length = 4 := rfl
    omega
  refine ⟨?_, ?_, ?_⟩ <;>
  · intro h
    rw [h] at hlen
    exact absurd hlen (by decide)

theorem slash_scratchName {name : String} (h : '/' ∉ name.toList) (process : Nat) :
    '/' ∉ (scratchName name process).toList := by
  have hdigits : '/' ∉ Nat.toDigits 10 process := fun hd => by
    have := Nat.isDigit_of_mem_toDigits (by decide) (by decide) hd
    exact absurd this (by decide)
  rw [toList_scratchName]
  simp [h, hdigits]

end Path

namespace Process

variable {process : Process} {scratch path : String} {bytes : List UInt8}

structure Fills (process : Process) (bytes : List UInt8) : Prop where
  lock : process.refusal? .lock = none
  write : process.stop? bytes = none
  sync : process.refusal? .sync = none
  unlock : process.refusal? .unlock = none

structure Serves (process : Process) (bytes : List UInt8) : Prop extends process.Fills bytes where
  create : process.refusal? .create = none
  rename : process.refusal? .rename = none

theorem serves_free (number : Nat) (bytes : List UInt8) : (free number).Serves bytes :=
  ⟨⟨rfl, rfl, rfl, rfl⟩, rfl, rfl⟩

theorem call_eq_ok {call : Syscall} : process.call call = .ok () ↔ process.refusal? call = none := by
  rw [Process.call]
  cases process.refusal? call <;> simp

theorem map_call_eq_ok {α : Type} {call : Syscall} {f : Unit → α} {a : α} :
    (process.call call).map f = .ok a ↔ process.refusal? call = none ∧ f () = a := by
  rw [Process.call]
  cases process.refusal? call <;> simp [Except.map]

theorem writeAll_eq_ok : process.writeAll bytes = .ok () ↔ process.stop? bytes = none := by
  rw [writeAll]
  cases process.stop? bytes <;> simp

theorem bind_mapError_eq_ok {α ε ε' : Type} {f : ε → ε'} {x : Except ε Unit} {next : Except ε' α} {a : α} :
    (do x.mapError f; next) = .ok a ↔ x = .ok () ∧ next = .ok a := by
  cases x <;> simp [Except.mapError, bind, Except.bind]

theorem fill_eq_ok : process.fill scratch path bytes = .ok () ↔ process.Fills bytes := by
  rw [fill, bind_mapError_eq_ok, bind_mapError_eq_ok, bind_mapError_eq_ok, mapError_eq_ok]
  simp only [call_eq_ok, writeAll_eq_ok]
  exact ⟨fun ⟨hlock, hwrite, hsync, hunlock⟩ => ⟨hlock, hwrite, hsync, hunlock⟩,
    fun h => ⟨h.lock, h.write, h.sync, h.unlock⟩⟩

theorem Fills.filled (h : process.Fills bytes) : process.filled bytes = bytes := by
  rw [Process.filled, h.lock, h.write]

end Process

namespace FileTree

open BuildSync.Path

variable {tree tree' : FileTree} {p q place : Place} {name path : String} {above : List String}
  {entry : Entry} {bytes : List UInt8} {process : Process}

theorem lookup_cons_if (k : Place) (entry : Entry) (entries : List (Place × Entry)) (q : Place) :
    ((k, entry) :: entries).lookup q = if q = k then some entry else entries.lookup q := by
  rw [List.lookup_cons]
  split <;> simp_all

theorem lookup_filter_ne (entries : List (Place × Entry)) (p q : Place) :
    (entries.filter (·.1 ≠ p)).lookup q = if q = p then none else entries.lookup q := by
  induction entries with
  | nil => simp
  | cons e entries ih =>
    obtain ⟨k, entry⟩ := e
    by_cases hk : k = p
    · rw [List.filter_cons_of_neg (by simpa using hk), ih, lookup_cons_if, hk]
      by_cases hq : q = p
      · rw [if_pos hq, if_pos hq]
      · rw [if_neg hq, if_neg hq, if_neg hq]
    · rw [List.filter_cons_of_pos (by simpa using hk), lookup_cons_if, lookup_cons_if, ih]
      by_cases hq : q = k
      · rw [if_pos hq, if_pos hq, if_neg fun h => hk (hq.symm.trans h)]
      · rw [if_neg hq, if_neg hq]

theorem lookup?_remove (hp : p ≠ []) (tree : FileTree) (q : Place) :
    (tree.remove p).lookup? q = if q = p then none else tree.lookup? q := by
  rw [lookup?, lookup?, remove, lookup_filter_ne]
  by_cases hq : q = []
  · rw [if_pos hq, if_pos hq, if_neg fun h => hp (h.symm.trans hq)]
  · rw [if_neg hq, if_neg hq]

theorem lookup?_insert (hp : p ≠ []) (tree : FileTree) (entry : Entry) (q : Place) :
    (tree.insert p entry).lookup? q = if q = p then some entry else tree.lookup? q := by
  by_cases hq : q = []
  · rw [lookup?, lookup?, if_pos hq, if_pos hq, if_neg fun h => hp (h.symm.trans hq)]
  · rw [lookup?, lookup?, if_neg hq, if_neg hq, insert, remove, List.lookup_append, lookup_filter_ne,
      lookup_cons_if]
    by_cases hqp : q = p
    · rw [if_pos hqp, if_pos hqp, if_pos hqp]
      rfl
    · rw [if_neg hqp, if_neg hqp, if_neg hqp]
      exact Option.or_none

theorem sameDirectories_insert (hp : p ≠ []) (h : tree.lookup? p ≠ some .directory) (bytes : List UInt8) :
    tree.SameDirectories (tree.insert p (.file bytes)) := by
  intro q
  rw [lookup?_insert hp]
  split_ifs with hq
  · rw [hq]
    exact ⟨fun hd => absurd hd h, fun hd => by cases hd⟩
  · rfl

theorem Reaches.scratch (h : tree.Reaches path name above place) (number : Nat) :
    tree.Reaches (scratch path number) (scratchName name number) (trim above) place where
  names := by
    have hname : '/' ∉ name.toList := not_mem_of_mem_names (h.names ▸ List.mem_cons_self)
    rw [Path.scratch, fileName?_eq h.names h.plain, Option.getD_some]
    exact names_sibling h.names h.plain (slash_scratchName hname number)
  plain := plain_scratchName name number
  opens := opens_trim.mpr h.opens

theorem Reaches.fill (h : tree.Reaches path name above place) (process : Process) (bytes : List UInt8) :
    tree.fill process path bytes =
      if tree.lookup? (name :: place) = some .directory then .error .isDirectory
      else (process.call .create).map fun _ => tree.insert (name :: place) (.file bytes) := by
  rw [FileTree.fill, h.holder, h.lastName]

theorem Reaches.unlink (h : tree.Reaches path name above place) :
    tree.unlink path = tree.remove (name :: place) := by
  rw [FileTree.unlink, h.holder, h.lastName]

theorem Reaches.move {source other : String} {above' : List String} (h : tree.Reaches path name above place)
    (hsource : tree.Reaches source other above' place) (process : Process) (bytes : List UInt8) :
    tree.move process source path bytes =
      if tree.lookup? (name :: place) = some .directory then .error .isDirectory
      else (process.call .rename).map fun _ =>
        (tree.remove (other :: place)).insert (name :: place) (.file bytes) := by
  rw [FileTree.move, h.holder, h.lastName, hsource.unlink, h.endsOpen]
  simp only [h.plain.2.1, h.plain.2.2, or_false, if_false, Bool.false_eq_true]

theorem fill_eq_ok : tree.fill process path bytes = .ok tree' ↔ process.refusal? .create = none ∧
    ∃ place, tree.holder path = .ok place ∧ tree.lookup? (lastName path :: place) ≠ some .directory ∧
      tree.insert (lastName path :: place) (.file bytes) = tree' := by
  rw [fill]
  cases tree.holder path with
  | error fault => simp
  | ok place =>
    by_cases hdir : tree.lookup? (lastName path :: place) = some .directory
    · simp [hdir]
    · simp only [if_false, Process.map_call_eq_ok, Except.ok.injEq, exists_eq_left', ne_eq, hdir,
        not_false_eq_true, true_and]

theorem Reaches.filled {filled : FileTree} (h : tree.Reaches path name above place)
    (hfill : tree.fill process (Path.scratch path process.number) bytes = .ok filled) :
    process.refusal? .create = none ∧
      tree.lookup? (scratchName name process.number :: place) ≠ some .directory ∧
      tree.insert (scratchName name process.number :: place) (.file bytes) = filled := by
  obtain ⟨hcreate, dir, hholder, hdir, hfilled⟩ := fill_eq_ok.mp hfill
  cases (h.scratch process.number).holder.symm.trans hholder
  rw [(h.scratch process.number).lastName] at hdir hfilled
  exact ⟨hcreate, hdir, hfilled⟩

/-- The ways in which a write ends, each with what it leaves and what it returns. -/
inductive Ends (tree : FileTree) (process : Process) (path : String) (bytes : List UInt8) :
    FileTree → Except FileError Unit → Prop
  | unmade {made : FileTree} {e : FileError} (parent : tree.makeParent process path = (made, .error e)) :
    tree.Ends process path bytes made (.error e)
  | unopened {made : FileTree} {fault : FileFault} (parent : tree.makeParent process path = (made, .ok ()))
    (scratch : made.fill process (scratch path process.number) (process.filled bytes) = .error fault) :
    tree.Ends process path bytes made (.error (.io (Path.scratch path process.number) fault))
  | unfilled {made filled : FileTree} {e : FileError} (parent : tree.makeParent process path = (made, .ok ()))
    (scratch : made.fill process (scratch path process.number) (process.filled bytes) = .ok filled)
    (fill : process.fill (Path.scratch path process.number) path bytes = .error e) :
    tree.Ends process path bytes filled (.error e)
  | unmoved {made filled : FileTree} {fault : FileFault} (parent : tree.makeParent process path = (made, .ok ()))
    (scratch : made.fill process (scratch path process.number) (process.filled bytes) = .ok filled)
    (fill : process.fill (Path.scratch path process.number) path bytes = .ok ())
    (move : filled.move process (Path.scratch path process.number) path bytes = .error fault) :
    tree.Ends process path bytes (filled.discard process (Path.scratch path process.number))
      (.error (.io path fault))
  | moved {made filled moved : FileTree} (parent : tree.makeParent process path = (made, .ok ()))
    (scratch : made.fill process (scratch path process.number) (process.filled bytes) = .ok filled)
    (fill : process.fill (Path.scratch path process.number) path bytes = .ok ())
    (move : filled.move process (Path.scratch path process.number) path bytes = .ok moved) :
    tree.Ends process path bytes moved (.ok ())

theorem ends_of_write {result : Except FileError Unit} (h : tree.write process path bytes = (tree', result)) :
    tree.Ends process path bytes tree' result := by
  rw [write] at h
  cases hparent : tree.makeParent process path with
  | mk made first =>
    rw [hparent] at h
    cases first with
    | error e =>
      cases h
      exact .unmade hparent
    | ok u =>
      dsimp only at h
      split at h
      · rename_i fault hscratch
        cases h
        exact .unopened hparent hscratch
      · rename_i filled hscratch
        split at h
        · rename_i e hfill
          cases h
          exact .unfilled hparent hscratch hfill
        · rename_i hfill
          split at h
          · rename_i fault hmove
            cases h
            exact .unmoved hparent hscratch hfill hmove
          · rename_i moved hmove
            cases h
            exact .moved hparent hscratch hfill hmove

structure Written (tree : FileTree) (process : Process) (name : String) (place : Place) (bytes : List UInt8)
    (tree' : FileTree) : Prop where
  serves : process.Serves bytes
  target : tree.lookup? (name :: place) ≠ some .directory
  scratch : tree.lookup? (scratchName name process.number :: place) ≠ some .directory
  entries : ∀ q, tree'.lookup? q =
    if q = name :: place then some (.file bytes)
    else if q = scratchName name process.number :: place then none
    else tree.lookup? q

theorem Reaches.written (h : tree.Reaches path name above place) (hserves : process.Serves bytes)
    (htarget : tree.lookup? (name :: place) ≠ some .directory)
    (hscratch : tree.lookup? (scratchName name process.number :: place) ≠ some .directory) :
    ∃ tree', tree.write process path bytes = (tree', .ok ()) ∧
      tree.Written process name place bytes tree' := by
  have hsame := sameDirectories_insert (List.cons_ne_nil _ _) hscratch bytes
  have hfill : tree.fill process (Path.scratch path process.number) bytes =
      .ok (tree.insert (scratchName name process.number :: place) (.file bytes)) := by
    rw [(h.scratch process.number).fill, if_neg hscratch, Process.map_call_eq_ok]
    exact ⟨hserves.create, rfl⟩
  have hmove := (hsame.reaches h).move (hsame.reaches (h.scratch process.number)) process bytes
  rw [if_neg fun hd => htarget ((hsame _).mpr hd), Process.call_eq_ok.mpr hserves.rename] at hmove
  refine ⟨((tree.insert (scratchName name process.number :: place) (.file bytes)).remove
    (scratchName name process.number :: place)).insert (name :: place) (.file bytes),
    ?_, hserves, htarget, hscratch, fun q => ?_⟩
  · rw [FileTree.write, h.makeParent]
    simp only [hserves.filled, hfill, Process.fill_eq_ok.mpr hserves.toFills, hmove, Except.map]
  · rw [lookup?_insert (List.cons_ne_nil _ _), lookup?_remove (List.cons_ne_nil _ _),
      lookup?_insert (List.cons_ne_nil _ _)]
    split_ifs <;> rfl

theorem Reaches.written_of_write (h : tree.Reaches path name above place)
    (hw : tree.write process path bytes = (tree', .ok ())) : tree.Written process name place bytes tree' := by
  suffices process.Serves bytes ∧ tree.lookup? (name :: place) ≠ some .directory ∧
      tree.lookup? (scratchName name process.number :: place) ≠ some .directory by
    obtain ⟨hserves, htarget, hscratch⟩ := this
    obtain ⟨tree'', hw', hwritten⟩ := h.written hserves htarget hscratch
    cases hw.symm.trans hw'
    exact hwritten
  cases ends_of_write hw with
  | moved parent scratch fill move =>
    cases (h.makeParent process).symm.trans parent
    obtain ⟨hcreate, hdir, rfl⟩ := h.filled scratch
    have hsame := sameDirectories_insert (List.cons_ne_nil _ _) hdir (process.filled bytes)
    rw [(hsame.reaches h).move (hsame.reaches (h.scratch process.number))] at move
    split_ifs at move with htarget
    have hrename := (Process.map_call_eq_ok.mp move).1
    exact ⟨⟨Process.fill_eq_ok.mp fill, hcreate, hrename⟩, fun hd => htarget ((hsame _).mp hd), hdir⟩

theorem Written.sameDirectories (h : tree.Written process name place bytes tree') :
    tree.SameDirectories tree' := by
  intro q
  rw [h.entries]
  split_ifs with hq hq
  · rw [hq]
    exact ⟨fun hd => absurd hd h.target, fun hd => by cases hd⟩
  · rw [hq]
    exact ⟨fun hd => absurd hd h.scratch, fun hd => by cases hd⟩
  · rfl

theorem read_eq_ok : tree.read path = .ok bytes ↔ tree.find path = .ok (.file bytes) := by
  rw [read]
  split <;> simp_all

theorem find_of_write {old : List UInt8} (h : tree.find path = .ok (.file old))
    (hw : tree.write process path bytes = (tree', .ok ())) : tree'.find path = .ok (.file bytes) := by
  obtain ⟨name, above, place, hreaches, -⟩ := reaches_of_find h
  have hwritten := hreaches.written_of_write hw
  apply (hwritten.sameDirectories.reaches hreaches).find_eq_ok.mpr
  rw [hwritten.entries, if_pos rfl]

end FileTree
end BuildSync
