import BuildSync.Proofs.Command.Again
import BuildSync.Proofs.Command.Requests
import BuildSync.Proofs.FileTree.Atomic

namespace BuildSync

variable {env : Environment} {tree tree' : FileTree} {arguments : List String} {ending : Ending}

namespace Command

variable {command : Command} {process : Process} {written : Except FileError Unit} {place : Place}

def Saves (command : Command) (process : Process) (tree tree' : FileTree) (written : Except FileError Unit) :
    Prop :=
  ∃ report doc, command.sync tree = .ok (report, doc) ∧
    tree.write process command.target (Utf8.encode doc.text) = (tree', written)

/-- The target, which stands in a place, may hold something else afterwards. All other entries are as
they were, but for a scratch file that is gone. -/
structure Changes (command : Command) (process : Process) (tree tree' : FileTree) (place : Place) : Prop where
  target : tree.walk [] (Path.names command.target).reverse = .ok place
  before : ∃ bytes, tree.find command.target = .ok (.file bytes)
  after : ∃ bytes, tree'.find command.target = .ok (.file bytes)
  others : ∀ q ≠ place, tree'.lookup? q = tree.lookup? q ∨ tree'.lookup? q = none ∧
    tree.walk [] (Path.names (Path.scratch command.target process.number)).reverse = .ok q

namespace Saves

theorem find (h : command.Saves process tree tree' written) :
    ∃ bytes, tree.find command.target = .ok (.file bytes) := by
  obtain ⟨report, doc, hsync, -⟩ := h
  exact (sync_again hsync).1

theorem sameDirectories (h : command.Saves process tree tree' written) : tree.SameDirectories tree' := by
  obtain ⟨bytes, hfind⟩ := h.find
  obtain ⟨report, doc, -, hwrite⟩ := h
  cases written with
  | error e => exact (FileTree.differAtScratch_of_write_error hfind hwrite).sameDirectories
  | ok u =>
    obtain ⟨name, above, dir, hreaches, -⟩ := FileTree.reaches_of_find hfind
    exact (hreaches.written_of_write hwrite).sameDirectories

theorem changes (h : command.Saves process tree tree' (.ok ())) :
    ∃ place, command.Changes process tree tree' place := by
  obtain ⟨bytes, hfind⟩ := h.find
  obtain ⟨report, doc, -, hwrite⟩ := h
  obtain ⟨name, above, dir, hreaches, -⟩ := FileTree.reaches_of_find hfind
  have hwritten := hreaches.written_of_write hwrite
  refine ⟨name :: dir, hreaches.walk, ⟨bytes, hfind⟩, ⟨_, FileTree.find_of_write hfind hwrite⟩, fun q hq => ?_⟩
  rw [hwritten.entries, if_neg hq]
  split_ifs with hscratch
  · rw [hscratch]
    exact .inr ⟨rfl, (hreaches.scratch process.number).walk⟩
  · exact .inl rfl

end Saves

end Command

structure Invocation where
  env : Environment
  arguments : List String

namespace Invocation

def run (invocation : Invocation) (tree : FileTree) : FileTree × Ending :=
  runProgram invocation.env tree invocation.arguments

end Invocation

def FileTree.after (tree : FileTree) (history : List Invocation) : FileTree :=
  history.foldl (fun tree invocation => (invocation.run tree).1) tree

end BuildSync
