import BuildSync.Document

namespace BuildSync

namespace Statement

def trailingComments (statements : List Statement) : List Statement :=
  (statements.reverse.takeWhile isComment).reverse

def upToLastCode (statements : List Statement) : List Statement :=
  (statements.reverse.dropWhile isComment).reverse

theorem upToLastCode_append_trailingComments (statements : List Statement) :
    upToLastCode statements ++ trailingComments statements = statements := by
  rw [upToLastCode, trailingComments, ← List.reverse_append, List.takeWhile_append_dropWhile,
    List.reverse_reverse]

def append (statements : List Statement) (s : Statement) : List Statement :=
  upToLastCode statements ++ s :: trailingComments statements

end Statement

def Rule.isOf (r : Rule) (kind : String) (name : Option String) : Bool :=
  r.kind == kind && (name.isNone || r.name? == name)

def Statement.isRuleOf (kind : String) (name : Option String) (s : Statement) : Bool :=
  s.rule?.any (·.isOf kind name)

namespace Document

def append (doc : Document) (s : Statement) : Document :=
  { doc with statements := Statement.append doc.statements s }

def appendRule (doc : Document) (r : Rule) : Document := doc.append (.rule r)

/-- Takes out the rules of a kind, or only those of a name, and hands them out in order. -/
def removeRules (doc : Document) (kind : String) (name : Option String) : List Rule × Document :=
  (doc.allRules.filter (·.isOf kind name),
    { doc with statements := doc.statements.filter (!·.isRuleOf kind name) })

def updateRule (doc : Document) (p : Rule → Bool) (f : Rule → Rule) : Document :=
  { doc with statements := go doc.statements }
where
  go : List Statement → List Statement
    | [] => []
    | .rule r :: rest => if p r then .rule (f r) :: rest else .rule r :: go rest
    | s :: rest => s :: go rest

end Document

end BuildSync
