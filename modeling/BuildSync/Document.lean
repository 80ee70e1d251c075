import BuildSync.Statement.OfTokens
import BuildSync.Statement.Printer

namespace BuildSync

inductive Flavor where
  | build
  | workspace
  deriving DecidableEq, Repr

def Flavor.name : Flavor → String
  | build => "BUILD"
  | workspace => "WORKSPACE"

structure Document where
  path : String
  flavor : Flavor
  statements : List Statement

namespace Document

def empty (path : String) (flavor : Flavor) : Document := ⟨path, flavor, []⟩

def lineOf (bytes : List UInt8) (index : Nat) : Nat :=
  (bytes.take index).count 10 + 1

def ofSource (path : String) (flavor : Flavor) (source : String) : Except ParseError Document :=
  match Statement.ofSource source with
  | .ok statements => .ok ⟨path, flavor, statements⟩
  | .error e => .error ⟨path, e⟩

def parse (path : String) (flavor : Flavor) (bytes : List UInt8) : Except ParseError Document :=
  match Utf8.decode bytes with
  | .ok source => ofSource path flavor source
  | .error fault => .error ⟨path, lineOf bytes fault.index, 1, .notText fault⟩

def text (doc : Document) : String := Statement.printAll doc.statements

def allRules (doc : Document) : List Rule := doc.statements.filterMap Statement.rule?

def rules (doc : Document) (kind : String) : List Rule :=
  doc.allRules.filter fun r => kind.isEmpty || r.kind == kind

def rule? (doc : Document) (kind name : String) : Option Rule :=
  (doc.rules kind).find? (·.name? == some name)

def alike (a b : Document) : Bool := Statement.allAlike a.statements b.statements

end Document

end BuildSync
