import BuildSync.Document
import BuildSync.FileTree.Write
import BuildSync.Patch

namespace BuildSync

inductive LoadError where
  | file (error : FileError)
  | source (error : ParseError)
  deriving DecidableEq, Repr

def LoadError.message : LoadError → String
  | file e => e.message
  | source e => e.message

namespace Document

def load (tree : FileTree) (path : String) (flavor : Flavor) : Except LoadError Document :=
  match tree.read path with
  | .error e => .error (.file e)
  | .ok bytes => (parse path flavor bytes).mapError .source

def save (doc : Document) (tree : FileTree) (process : Process) (path : String) :
    FileTree × Except FileError Unit :=
  tree.write process path (Utf8.encode doc.text)

/-- What saving would change, as a unified diff. A missing file counts as an empty one. -/
def preview (doc : Document) (tree : FileTree) (path : String) : Except FileError String :=
  let change (current : String) := Patch.unified current doc.text ("a/" ++ path) ("b/" ++ path)
  match tree.readText path with
  | .ok current => .ok (change current)
  | .error (.io _ .notFound) => .ok (change "")
  | .error e => .error e

end Document

end BuildSync
