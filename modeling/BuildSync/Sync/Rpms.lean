import BuildSync.Sync

namespace BuildSync

def rpmKind : String := "rpm"

/-- Writes a package into its rule. Locations are written only where there are none, so that
those written by hand stay. -/
def Rule.describe (r : Rule) (p : Package) : Except ShapeError Rule :=
  let r := (r.setText "name" p.identity).setText "sha256" p.checksum
  match r.getTexts "urls" with
  | .error e => .error e
  | .ok urls => .ok (if urls.isEmpty then r.setTexts "urls" p.urls else r)

structure RpmTally where
  register : Register
  seen : List String
  created : Nat
  updated : Nat

namespace RpmTally

def add (t : RpmTally) (p : Package) : Except ShapeError RpmTally :=
  -- A package that is listed twice finds its own rule the second time, which `seen` keeps from
  -- being counted.
  let found := t.register.find? p.identity
  match (found.getD (.new rpmKind)).describe p with
  | .error e => .error e
  | .ok r =>
    .ok {
      register := t.register.insert p.identity r
      seen := p.identity :: t.seen
      created := if found.isNone then t.created + 1 else t.created
      updated := if found.isSome && !t.seen.contains p.identity then t.updated + 1 else t.updated }

def addAll (t : RpmTally) : List Package → Except ShapeError RpmTally
  | [] => .ok t
  | p :: ps =>
    match t.add p with
    | .error e => .error e
    | .ok t => t.addAll ps

end RpmTally

def Document.addRpms (doc : Document) (packages : List Package) :
    Except ShapeError (Report × Document) :=
  match RpmTally.addAll ⟨doc.register rpmKind, [], 0, 0⟩ packages with
  | .error e => .error e
  | .ok t =>
    .ok (⟨t.created, t.updated, t.register.length⟩, doc.replaceRules rpmKind t.register)

end BuildSync
