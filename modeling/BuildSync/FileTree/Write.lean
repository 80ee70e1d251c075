import BuildSync.FileTree

/-!
Writing goes through a scratch file beside the target, which then takes the target's place. So the
target holds either its old content or all of the new one. What the system refuses to do, whatever
stands in the tree, is known of the process that writes.
-/

namespace BuildSync

namespace Path

def lastName (path : String) : String := ((names path).find? (· ≠ "")).getD "."

def scratch (path : String) (process : Nat) : String :=
  sibling path ("." ++ (fileName? path).getD "" ++ "." ++ toString process ++ ".tmp")

end Path

inductive Syscall where
  | makeDirectory (path : String)
  | create
  | lock
  | sync
  | unlock
  | rename
  | remove
  deriving DecidableEq, Repr

/-- A process has a number of its own. The system may refuse a call of it for a reason that no tree
shows, and may stop it when some of the bytes have been written. -/
structure Process where
  number : Nat
  refusal? : Syscall → Option String
  stop? : List UInt8 → Option (Nat × String)

namespace Process

def free (number : Nat) : Process := ⟨number, fun _ => none, fun _ => none⟩

instance (number : Nat) : OfNat Process number := ⟨free number⟩

def call (process : Process) (call : Syscall) : Except FileFault Unit :=
  match process.refusal? call with
  | none => .ok ()
  | some reason => .error (.system reason)

def writeAll (process : Process) (bytes : List UInt8) : Except FileFault Unit :=
  match process.stop? bytes with
  | none => .ok ()
  | some (_, reason) => .error (.system reason)

def fill (process : Process) (scratch path : String) (bytes : List UInt8) : Except FileError Unit := do
  (process.call .lock).mapError fun _ => .lock path
  (process.writeAll bytes).mapError (.io scratch)
  (process.call .sync).mapError (.io scratch)
  (process.call .unlock).mapError fun _ => .lock path

/-- The bytes that are in the scratch file when the process is done with it or has to leave it. -/
def filled (process : Process) (bytes : List UInt8) : List UInt8 :=
  match process.refusal? .lock, process.stop? bytes with
  | some _, _ => []
  | none, some (n, _) => bytes.take n
  | none, none => bytes

end Process

namespace FileTree

def holder (tree : FileTree) (path : String) : Except FileFault Place :=
  if path = "" then .error .notFound
  else
    match tree.walk [] (((Path.names path).filter (· ≠ "")).tail).reverse with
    | .error fault => .error fault
    | .ok place =>
      match tree.enter place with
      | .error fault => .error fault
      | .ok _ => .ok place

def makeDirectory (tree : FileTree) (process : Process) (path : String) : Except FileFault FileTree :=
  match tree.holder path with
  | .error fault => .error fault
  | .ok place =>
    let name := Path.lastName path
    if name = "." ∨ name = ".." ∨ (tree.lookup? (name :: place)).isSome then .error .exists
    else (process.call (.makeDirectory path)).map fun _ => tree.insert (name :: place) .directory

def makeFirst (tree : FileTree) (process : Process) : List String → FileTree × Except FileFault Unit
  | [] => (tree, .ok ())
  | path :: above =>
    match tree.makeDirectory process path with
    | .ok tree => (tree, .ok ())
    | .error .notFound =>
      match tree.makeFirst process above with
      | (tree, .error fault) => (tree, .error fault)
      | (tree, .ok _) =>
        match tree.makeDirectory process path with
        | .ok tree => (tree, .ok ())
        -- What stands there already will do if it is a directory.
        | .error fault => (tree, if tree.isDirectory path then .ok () else .error fault)
    | .error fault => (tree, if tree.isDirectory path then .ok () else .error fault)

def makeDirectories (tree : FileTree) (path : String) (process : Process := 0) :
    FileTree × Except FileError Unit :=
  if path = "" then (tree, .ok ())
  else
    let (tree, result) := tree.makeFirst process (path :: Path.parents path)
    (tree, result.mapError (.io path))

def fill (tree : FileTree) (process : Process) (path : String) (bytes : List UInt8) :
    Except FileFault FileTree :=
  match tree.holder path with
  | .error fault => .error fault
  | .ok place =>
    let target := Path.lastName path :: place
    if tree.lookup? target = some .directory then .error .isDirectory
    else (process.call .create).map fun _ => tree.insert target (.file bytes)

def unlink (tree : FileTree) (path : String) : FileTree :=
  match tree.holder path with
  | .error _ => tree
  | .ok place => tree.remove (Path.lastName path :: place)

def discard (tree : FileTree) (process : Process) (path : String) : FileTree :=
  if process.refusal? .remove = none then tree.unlink path else tree

def move (tree : FileTree) (process : Process) (source path : String) (bytes : List UInt8) :
    Except FileFault FileTree :=
  match tree.holder path with
  | .error fault => .error fault
  | .ok place =>
    let name := Path.lastName path
    if name = "." ∨ name = ".." then .error .busy
    else if Path.endsOpen path then .error .notDirectory
    else if tree.lookup? (name :: place) = some .directory then .error .isDirectory
    else (process.call .rename).map fun _ => (tree.unlink source).insert (name :: place) (.file bytes)

def makeParent (tree : FileTree) (process : Process) (path : String) : FileTree × Except FileError Unit :=
  match Path.parent? path with
  | none => (tree, .ok ())
  | some above => tree.makeDirectories above process

/-- Writes a file, all or nothing. Directories that are missing above it are made, and stay when the
file cannot be written. So does a scratch file that could be opened but not filled. -/
def write (tree : FileTree) (process : Process) (path : String) (bytes : List UInt8) :
    FileTree × Except FileError Unit :=
  match tree.makeParent process path with
  | (tree, .error e) => (tree, .error e)
  | (tree, .ok _) =>
    let scratch := Path.scratch path process.number
    match tree.fill process scratch (process.filled bytes) with
    | .error fault => (tree, .error (.io scratch fault))
    | .ok filled =>
      match process.fill scratch path bytes with
      | .error e => (filled, .error e)
      | .ok _ =>
        match filled.move process scratch path bytes with
        | .error fault => (filled.discard process scratch, .error (.io path fault))
        | .ok moved => (moved, .ok ())

end FileTree

end BuildSync
