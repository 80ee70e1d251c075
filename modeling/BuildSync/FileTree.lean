import BuildSync.FileTree.Path
import BuildSync.Text.Utf8

namespace BuildSync

abbrev Place := List String

inductive Entry where
  | directory
  | file (bytes : List UInt8)
  deriving DecidableEq, Repr

inductive FileFault where
  | notFound
  | busy
  | exists
  | notDirectory
  | isDirectory
  | notText
  | system (reason : String)
  deriving DecidableEq, Repr

def FileFault.message : FileFault → String
  | notFound => "No such file or directory (os error 2)"
  | busy => "Device or resource busy (os error 16)"
  | «exists» => "File exists (os error 17)"
  | notDirectory => "Not a directory (os error 20)"
  | isDirectory => "Is a directory (os error 21)"
  | notText => "stream did not contain valid UTF-8"
  | system reason => reason

inductive FileError where
  | io (path : String) (fault : FileFault)
  | lock (path : String)
  deriving DecidableEq, Repr

namespace FileError

def path : FileError → String
  | io path _ => path
  | lock path => path

def message : FileError → String
  | io path fault => "I/O error at " ++ path ++ ": " ++ fault.message
  | lock path => "Lock acquisition failed for " ++ path

end FileError

/-- Files and directories below a root, which is a directory itself and has no entry. -/
structure FileTree where
  entries : List (Place × Entry)
  deriving Repr

namespace FileTree

def empty : FileTree := ⟨[]⟩

def lookup? (tree : FileTree) (place : Place) : Option Entry :=
  if place = [] then some .directory else tree.entries.lookup place

def remove (tree : FileTree) (place : Place) : FileTree :=
  ⟨tree.entries.filter (·.1 ≠ place)⟩

def insert (tree : FileTree) (place : Place) (entry : Entry) : FileTree :=
  ⟨(tree.remove place).entries ++ [(place, entry)]⟩

def enter (tree : FileTree) (place : Place) : Except FileFault Unit :=
  match tree.lookup? place with
  | none => .error .notFound
  | some (.file _) => .error .notDirectory
  | some .directory => .ok ()

def step (place : Place) (name : String) : Place :=
  if name = "" ∨ name = "." then place
  else if name = ".." then place.tail
  else name :: place

def walk (tree : FileTree) (place : Place) : List String → Except FileFault Place
  | [] => .ok place
  | name :: rest =>
    match tree.enter place with
    | .error fault => .error fault
    | .ok _ => tree.walk (step place name) rest

def find (tree : FileTree) (path : String) : Except FileFault Entry :=
  if path = "" then .error .notFound
  else
    match tree.walk [] (Path.names path).reverse with
    | .error fault => .error fault
    | .ok place =>
      match tree.lookup? place with
      | none => .error .notFound
      | some entry => .ok entry

def isDirectory (tree : FileTree) (path : String) : Bool := tree.find path matches .ok .directory

def read (tree : FileTree) (path : String) : Except FileError (List UInt8) :=
  match tree.find path with
  | .error fault => .error (.io path fault)
  | .ok .directory => .error (.io path .isDirectory)
  | .ok (.file bytes) => .ok bytes

def readText (tree : FileTree) (path : String) : Except FileError String :=
  match tree.read path with
  | .error e => .error e
  | .ok bytes =>
    match Utf8.decode bytes with
    | .error _ => .error (.io path .notText)
    | .ok text => .ok text

end FileTree

end BuildSync
