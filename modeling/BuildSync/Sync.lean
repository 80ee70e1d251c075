import BuildSync.Document.Edit
import BuildSync.Package
import BuildSync.Rule.Shape

namespace BuildSync

structure Report where
  created : Nat
  updated : Nat
  total : Nat
  deriving DecidableEq, Repr

abbrev Register := List (String × Rule)

namespace Register

def insert (key : String) (r : Rule) : Register → Register
  | [] => [(key, r)]
  | (k, s) :: rest =>
    if key < k then (key, r) :: (k, s) :: rest
    else if key = k then (key, r) :: rest
    else (k, s) :: insert key r rest

def find? (reg : Register) (key : String) : Option Rule := List.lookup key reg

def ofRules (rules : List Rule) : Register :=
  rules.foldl (fun reg r => insert r.key r reg) []

def rules (reg : Register) : List Rule := reg.map Prod.snd

end Register

namespace Document

def register (doc : Document) (kind : String) : Register :=
  .ofRules (doc.removeRules kind none).1

def replaceRules (doc : Document) (kind : String) (reg : Register) : Document :=
  reg.rules.foldl appendRule (doc.removeRules kind none).2

end Document

end BuildSync
