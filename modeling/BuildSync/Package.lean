namespace BuildSync

def joinUrl (mirror href : String) : String :=
  let base := (mirror.toList.reverse.dropWhile (· == '/')).reverse
  let path := href.toList.dropWhile (· == '/')
  if base.isEmpty then String.ofList path
  else if path.isEmpty then String.ofList base
  else String.ofList (base ++ '/' :: path)

structure Version where
  epoch : Option UInt32
  version : String
  release : String
  deriving DecidableEq, Repr

def Version.text (v : Version) : String :=
  let epoch :=
    match v.epoch with
    | some e => if e = 0 then "" else toString e.toNat ++ ":"
    | none => ""
  epoch ++ v.version ++ "-" ++ v.release

structure Package where
  name : String
  version : Option Version
  arch : Option String
  checksum : String
  href : String
  mirrors : List String
  deriving DecidableEq, Repr

namespace Package

/-- `name[-[epoch:]version-release][.arch]`, the name of the rule that fetches the package. -/
def identity (p : Package) : String :=
  p.name ++ (p.version.elim "" fun v => "-" ++ v.text) ++ (p.arch.elim "" fun a => "." ++ a)

def urls (p : Package) : List String := p.mirrors.map (joinUrl · p.href)

def reference (p : Package) : String := "@" ++ p.name ++ "//rpm"

end Package

end BuildSync
