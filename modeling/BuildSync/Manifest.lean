import BuildSync.Package

namespace BuildSync

structure Manifest where
  packages : List Package
  files : List String
  deriving DecidableEq, Repr

namespace Manifest

inductive Parts (ν : Type) where
  | named (parts : List (String × ν))
  | inOrder (items : List ν) (moreAllowed : Bool)

def Parts.record {ν : Type} (parts : Parts ν) (fields : List String) : Option (String → Option ν) :=
  match parts with
  | named ps =>
    if fields.all fun f => (ps.filter (·.1 == f)).length ≤ 1 then some fun f => ps.lookup f else none
  | inOrder items moreAllowed =>
    if items.length ≤ fields.length ∨ moreAllowed then some fun f => (fields.zip items).lookup f
    else none

class Readable (m : Type → Type) (ν : Type) where
  text : ν → m String
  count : ν → m UInt32
  items : ν → m (List ν)
  parts : ν → m (Parts ν)
  /-- The value itself, or that none is given. -/
  given : ν → m (Option ν)

variable {m : Type → Type} {ν : Type} [Monad m] [MonadLiftT Option m] [Readable m ν]

def optional {α : Type} (read : ν → m α) : Option ν → m (Option α)
  | none => return none
  | some v => do
    match ← Readable.given v with
    | none => return none
    | some v => some <$> read v

def list {α : Type} (read : ν → m α) : Option ν → m (List α)
  | none => return []
  | some v => do (← Readable.items v).mapM read

def version (v : ν) : m Version := do
  let field ← (← Readable.parts v).record ["epoch", "version", "release"]
  return {
    epoch := ← optional Readable.count (field "epoch")
    version := ← Readable.text (← field "version")
    release := ← Readable.text (← field "release") }

def package (v : ν) : m Package := do
  let field ← (← Readable.parts v).record ["name", "version", "arch", "checksum", "href", "mirrors"]
  return {
    name := ← Readable.text (← field "name")
    version := ← optional Manifest.version (field "version")
    arch := ← optional Readable.text (field "arch")
    checksum := ← Readable.text (← field "checksum")
    href := ← Readable.text (← field "href")
    mirrors := ← list Readable.text (field "mirrors") }

def ofValue (v : ν) : m Manifest := do
  let field ← (← Readable.parts v).record ["packages", "files"]
  return {
    packages := ← list package (field "packages")
    files := ← list Readable.text (field "files") }

end Manifest

end BuildSync
