namespace BuildSync.Yaml

inductive Style where
  | plain
  | singleQuoted
  | doubleQuoted
  | literal
  | folded
  deriving DecidableEq, Repr

structure TagName where
  handle : String
  suffix : String
  deriving DecidableEq, Repr

inductive Token where
  | version (major minor : Nat)
  | handle (name meaning : String)
  | documentStart
  | documentEnd
  | sequenceStart
  | mappingStart
  | blockEnd
  | openBracket
  | closeBracket
  | openBrace
  | closeBrace
  | comma
  | entry
  | key
  | value
  | aliasOf (name : String)
  | anchor (name : String)
  | tag (name : TagName)
  | scalar (style : Style) (text : String)
  deriving DecidableEq, Repr

end BuildSync.Yaml
