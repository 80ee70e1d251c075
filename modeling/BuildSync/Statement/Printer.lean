import BuildSync.Expr.Printer
import BuildSync.Statement

namespace BuildSync

def Rule.spreads (r : Rule) : Bool :=
  r.call.args.hasComments ||
    (r.kind != "load" &&
      (decide (r.args.length > 1) || r.args.any (·.value.spreads)))

def Rule.print (r : Rule) : String :=
  commentLines 0 r.comments ++ r.call.callee.print 0 false ++ "(" ++
    r.call.args.print 0 r.spreads true ++ ")" ++ suffixText r.suffix ++ "\n"

def Statement.print : Statement → String
  | .comment lines => commentLines 0 lines
  | .rule r => r.print
  | .verbatim comments text => commentLines 0 comments ++ text ++ "\n"

def Statement.printAll : List Statement → String
  | [] => ""
  | s :: rest => s.print ++ (if rest.isEmpty then "" else "\n") ++ Statement.printAll rest

end BuildSync
