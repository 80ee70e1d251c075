import BuildSync.Rule

namespace BuildSync

inductive Statement where
  /-- Comment lines that belong to no other statement. -/
  | comment (lines : List String)
  | rule (rule : Rule)
  /-- Any other statement, as it was written. -/
  | verbatim (comments : List String) (text : String)

namespace Statement

def rule? : Statement → Option Rule
  | rule r => some r
  | _ => none

def isComment : Statement → Bool
  | comment _ => true
  | _ => false

def alike : Statement → Statement → Bool
  | comment a, comment b => a == b
  | rule a, rule b => a.alike b
  | verbatim c a, verbatim d b => c == d && a == b
  | _, _ => false

def allAlike : List Statement → List Statement → Bool
  | [], [] => true
  | a :: as, b :: bs => a.alike b && allAlike as bs
  | _, _ => false

end Statement

end BuildSync
